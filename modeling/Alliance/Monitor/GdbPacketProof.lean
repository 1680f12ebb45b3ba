import Alliance.Monitor.GdbPacket

/-!
# What a packet stands for

The text of a packet is expanded by `expand`. What `putfrags` sends expands to the bytes of its
fragments, as characters or as hexadecimal digits (`expand_body`), and no `#` ends it early.
-/

namespace Alliance.Monitor

open Function Lib

/-! ## Characters -/

theorem hexchars_ne {i : Byte} (h : i ≤ 0xf#8) :
    hexchars i ≠ ord '*' ∧ hexchars i ≠ ord '#' ∧ sevenBits (hexchars i) = hexchars i := by
  revert h
  revert i
  decide +kernel

theorem shiftRight_le (b : Byte) : b >>> 4 ≤ 0xf#8 := by
  rw [BitVec.le_def, BitVec.toNat_ushiftRight, Nat.shiftRight_eq_div_pow]
  have := b.isLt
  have : (0xf#8).toNat = 15 := rfl
  omega

theorem and_le (b : Byte) : b &&& 0xf#8 ≤ 0xf#8 := by
  rw [BitVec.le_def, BitVec.toNat_and]
  exact Nat.and_le_right

/-! ## Expansion -/

/-- What a text stands for: a character, `*` and a count `n` for `n - 28` times the character. -/
def expand : List Byte → List Byte
  | c :: s :: n :: rest =>
    if s = ord '*' then List.replicate (n.toNat - 28) c ++ expand rest
    else c :: expand (s :: n :: rest)
  | cs => cs

theorem expand_run (c n : Byte) (rest : List Byte) :
    expand (c :: ord '*' :: n :: rest) = List.replicate (n.toNat - 28) c ++ expand rest := by
  rw [expand, if_pos rfl]

theorem expand_cons {rest : List Byte} (h : rest.head? ≠ some (ord '*')) (c : Byte) :
    expand (c :: rest) = c :: expand rest := by
  match rest, h with
  | [], _ => rfl
  | [_], _ => rfl
  | s :: n :: rest, h =>
    have hs : s ≠ ord '*' := fun hs => h (congrArg some hs)
    rw [expand, if_neg hs]

namespace OutFrag

variable {f : OutFrag} {p q : Nat}

/-- The characters for a byte. -/
def spell (f : OutFrag) (b : Byte) : List Byte :=
  if f.hexify then [hexchars (b >>> 4), hexchars (b &&& 0xf#8)] else [b]

/-- The characters for `n` bytes from `p` on. -/
def text (f : OutFrag) (p n : Nat) : List Byte :=
  (List.range' p n).flatMap fun i => f.spell (f.data i)

theorem text_append (f : OutFrag) (p m n : Nat) :
    f.text p (m + n) = f.text p m ++ f.text (p + m) n := by
  rw [text, text, text, ← List.flatMap_append, List.range'_append_1]

/-! ## Runs -/

theorem more_iff (hp : p ≤ f.size) : f.More p ↔ p < f.size := by
  have hsize := f.size_eq
  unfold More
  split at hsize
  · next hlen =>
    rw [if_neg (not_not.mpr hlen)]
    constructor
    · intro hne
      refine Nat.lt_of_le_of_ne hp fun he => hne ?_
      rw [he]
      exact hsize.1
    · exact hsize.2 p
  · next hlen => rw [if_pos hlen, hsize]

theorem scan_spec (f : OutFrag) (p n q : Nat) :
    q ≤ f.scan p n q ∧ f.scan p n q ≤ q + n ∧
      ∀ i, q ≤ i → i < f.scan p n q → f.data i = f.data p := by
  induction n generalizing q with
  | zero => exact ⟨Nat.le_refl q, Nat.le_refl q, fun i h₁ h₂ => absurd h₂ (Nat.not_lt.mpr h₁)⟩
  | succ n ih =>
      rw [scan]
      split
      · next heq =>
        obtain ⟨hle, hbound, hsame⟩ := ih (q + 1)
        refine ⟨by omega, by omega, fun i h₁ h₂ => ?_⟩
        rcases Nat.eq_or_lt_of_le h₁ with rfl | hlt
        · exact heq
        · exact hsame i hlt h₂
      · exact ⟨Nat.le_refl q, by omega, fun i h₁ h₂ => absurd h₂ (Nat.not_lt.mpr h₁)⟩

/-- Where a run starts, the bytes that are not looked at again are the same. -/
theorem Repeats.start (h : f.Repeats p) (i : Nat) (h₁ : p ≤ i) (h₂ : i < f.runStart p) :
    f.data i = f.data p := by
  obtain ⟨-, hsecond, hrest⟩ := h
  unfold runStart at h₂
  split at hrest
  · next hx =>
    rw [if_pos hx] at h₂
    obtain rfl | rfl : i = p ∨ i = p + 1 := by omega
    · rfl
    · exact hsecond
  · next hx =>
    rw [if_neg hx] at h₂
    obtain rfl | rfl | rfl | rfl : i = p ∨ i = p + 1 ∨ i = p + 2 ∨ i = p + 3 := by omega
    · rfl
    · exact hsecond
    · exact hrest.1
    · exact hrest.2

theorem Repeats.limit (h : f.Repeats p) :
    f.runStart p ≤ f.limit p ∧ f.limit p ≤ p + (if f.hexify then 49 else 98) ∧
      (f.len ≠ 0 → f.limit p ≤ f.len) := by
  obtain ⟨hlen, -⟩ := h
  unfold runStart OutFrag.limit
  cases hx : f.hexify
  all_goals
    simp only [hx, Bool.false_eq_true, if_false, if_true] at hlen ⊢
    split <;> omega

/-- A run is not empty, all its bytes are the same, and it does not go beyond the fragment. -/
theorem Repeats.run (h : f.Repeats p) (hp : p < f.size) :
    f.runStart p ≤ f.runEnd p ∧ f.runEnd p ≤ p + (if f.hexify then 49 else 98) ∧
      f.runEnd p ≤ f.size ∧ ∀ i, p ≤ i → i < f.runEnd p → f.data i = f.data p := by
  obtain ⟨hle, hbound, hsame⟩ := f.scan_spec p (f.limit p - f.runStart p) (f.runStart p)
  obtain ⟨hstart, hmax, hlen⟩ := h.limit
  have hall : ∀ i, p ≤ i → i < f.runEnd p → f.data i = f.data p := by
    intro i h₁ h₂
    by_cases hi : i < f.runStart p
    · exact h.start i h₁ hi
    · exact hsame i (Nat.not_lt.mp hi) h₂
  have hend : f.runEnd p ≤ f.limit p := by
    unfold runEnd
    omega
  refine ⟨hle, Nat.le_trans hend hmax, ?_, hall⟩
  have hsize := f.size_eq
  split at hsize
  · -- the 0 behind a string is not part of a run
    refine Nat.not_lt.mp fun hlt => ?_
    exact hsize.2 p hp ((hall f.size (Nat.le_of_lt hp) hlt).symm.trans hsize.1)
  · next h0 =>
    rw [hsize]
    exact Nat.le_trans hend (hlen h0)

/-! ## Rounds -/

theorem text_same {b : Byte} {n : Nat} (h : ∀ i, p ≤ i → i < p + n → f.data i = b) :
    f.text p n = (List.replicate n (f.spell b)).flatten := by
  induction n with
  | zero => rfl
  | succ n ih =>
      rw [text_append, ih fun i h₁ h₂ => h i h₁ (by omega), List.replicate_succ',
        List.flatten_append]
      congr 1
      show f.spell (f.data (p + n)) ++ [] = f.spell b ++ []
      rw [h (p + n) (by omega) (by omega)]

theorem flatten_replicate_single (c : Byte) (n : Nat) :
    (List.replicate n [c]).flatten = List.replicate n c := by
  induction n with
  | zero => rfl
  | succ n ih => rw [List.replicate_succ, List.flatten_cons, ih, List.replicate_succ]; rfl

theorem flatten_replicate_pair (c : Byte) (n : Nat) :
    (List.replicate n [c, c]).flatten = List.replicate (n * 2) c := by
  induction n with
  | zero => rfl
  | succ n ih =>
      rw [List.replicate_succ, List.flatten_cons, ih, Nat.succ_mul, Nat.add_comm,
        List.replicate_add]
      rfl

/-- A plain fragment has no character with a meaning of its own in a packet, and no run of seven
bytes: the count for it would be `#`. -/
structure Clean (f : OutFrag) : Prop where
  plain : f.hexify = false → ∀ i < f.size,
    f.data i ≠ ord '*' ∧ f.data i ≠ ord '#' ∧ sevenBits (f.data i) = f.data i
  runs : f.hexify = false → ∀ p < f.size, f.Repeats p → f.runEnd p ≠ p + 7

/-- `cs` can be sent in a packet for the `n` bytes from `p` on. -/
structure StandsFor (f : OutFrag) (p n : Nat) (cs : List Byte) : Prop where
  expands : ∀ rest : List Byte, rest.head? ≠ some (ord '*') →
    expand (cs ++ rest) = f.text p n ++ expand rest
  starts : ∀ rest : List Byte, rest.head? ≠ some (ord '*') → (cs ++ rest).head? ≠ some (ord '*')
  allowed : ∀ c ∈ cs, c ≠ ord '#' ∧ sevenBits c = c

theorem count_toNat {rl : Nat} (h₁ : 0 < rl) (h₂ : rl ≤ 98) :
    (BitVec.ofNat 8 (29 + rl - 1)).toNat = 28 + rl := by
  rw [BitVec.toNat_ofNat, Nat.mod_eq_of_lt] <;> omega

theorem sevenBits_of_lt {c : Byte} (h : c.toNat < 128) : sevenBits c = c := by
  refine BitVec.eq_of_toNat_eq ?_
  rw [sevenBits, BitVec.toNat_and, show (0x7f#8).toNat = 2 ^ 7 - 1 from rfl,
    Nat.and_two_pow_sub_one_eq_mod]
  exact Nat.mod_eq_of_lt h

/-- **A run**, if no `#` comes out as its count. -/
theorem standsFor_run {n rl : Nat} {c : Byte} (hpos : 0 < rl) (hmax : rl ≤ 98) (h7 : rl ≠ 7)
    (htext : f.text p n = List.replicate rl c)
    (hc : c ≠ ord '*' ∧ c ≠ ord '#' ∧ sevenBits c = c) :
    f.StandsFor p n [c, ord '*', .ofNat 8 (29 + rl - 1)] where
  expands rest _ := by
    rw [List.cons_append, List.cons_append, List.cons_append, List.nil_append, expand_run,
      count_toNat hpos hmax, Nat.add_sub_cancel_left, htext]
  starts rest _ := fun h => hc.1 (Option.some.inj h)
  allowed d hd := by
    have hcount := count_toNat hpos hmax
    rcases List.mem_cons.mp hd with rfl | hd
    · exact hc.2
    rcases List.mem_cons.mp hd with rfl | hd
    · exact ⟨by decide, by decide⟩
    obtain rfl := List.mem_singleton.mp hd
    refine ⟨fun he => h7 ?_, sevenBits_of_lt (by omega)⟩
    have h35 : (ord '#').toNat = 35 := by decide
    rw [he, h35] at hcount
    omega

/-- The digits of a byte. -/
theorem standsFor_hex (hx : f.hexify = true) (p : Nat) :
    f.StandsFor p 1 [hexchars (f.data p >>> 4), hexchars (f.data p &&& 0xf#8)] where
  expands rest hrest := by
    have hlow : (hexchars (f.data p &&& 0xf#8) :: rest).head? ≠ some (ord '*') :=
      fun h => (hexchars_ne (and_le _)).1 (Option.some.inj h)
    have htext : f.text p 1 = [hexchars (f.data p >>> 4), hexchars (f.data p &&& 0xf#8)] := by
      show f.spell (f.data p) ++ [] = _
      rw [spell, if_pos hx, List.append_nil]
    rw [htext, List.cons_append, List.cons_append, List.nil_append, expand_cons hlow,
      expand_cons hrest]
    rfl
  starts rest _ := fun h => (hexchars_ne (shiftRight_le _)).1 (Option.some.inj h)
  allowed c hc := by
    rcases List.mem_cons.mp hc with rfl | hc
    · exact (hexchars_ne (shiftRight_le _)).2
    · obtain rfl := List.mem_singleton.mp hc
      exact (hexchars_ne (and_le _)).2

/-- A plain character. -/
theorem standsFor_plain (hx : f.hexify = false) (h : f.Clean) (hp : p < f.size) :
    f.StandsFor p 1 [f.data p] where
  expands rest hrest := by
    have htext : f.text p 1 = [f.data p] := by
      show f.spell (f.data p) ++ [] = _
      rw [spell, if_neg (by simp [hx]), List.append_nil]
    rw [htext, List.cons_append, List.nil_append, expand_cons hrest]
    rfl
  starts rest _ := fun h' => (h.plain hx p hp).1 (Option.some.inj h')
  allowed c hc := by
    obtain rfl := List.mem_singleton.mp hc
    exact (h.plain hx p hp).2

/-- **One round** sends what stands for the bytes that it goes over. -/
theorem sendAt_spec (h : f.Clean) (hp : p < f.size) :
    ∃ n, 0 < n ∧ p + n ≤ f.size ∧ (f.sendAt p).2 = p + n ∧ f.StandsFor p n (f.sendAt p).1 := by
  by_cases hrep : f.Repeats p
  · obtain ⟨hstart, hmax, hsize, hsame⟩ := hrep.run hp
    have hle : p ≤ f.runEnd p := by
      unfold runStart at hstart
      split at hstart <;> omega
    obtain ⟨n, hn⟩ := Nat.exists_eq_add_of_le hle
    rw [hn] at hstart hmax hsize hsame
    have htext := text_same hsame
    have hsend : f.sendAt p = if f.hexify then
        ([hexchars (f.data p &&& 0xf#8), ord '*', .ofNat 8 (29 + n * 2 - 1)], p + n)
        else ([f.data p, ord '*', .ofNat 8 (29 + n - 1)], p + n) := by
      rw [sendAt, if_pos hrep, hn]
      dsimp only
      rw [Nat.add_sub_cancel_left]
    rw [hsend]
    unfold runStart at hstart
    cases hx : f.hexify with
    | true =>
      simp only [hx, if_true] at hstart hmax ⊢
      obtain ⟨-, -, hnibbles⟩ := hrep
      rw [if_pos hx] at hnibbles
      -- both digits of the byte are the same, and the number of digits is even
      rw [spell, if_pos hx, hnibbles, flatten_replicate_pair] at htext
      exact ⟨n, by omega, hsize, rfl,
        standsFor_run (by omega) (by omega) (by omega) htext (hexchars_ne (and_le _))⟩
    | false =>
      simp only [hx, Bool.false_eq_true, if_false] at hstart hmax ⊢
      rw [spell, if_neg (by simp [hx]), flatten_replicate_single] at htext
      have h7 : n ≠ 7 := fun h7 => h.runs hx p hp hrep (h7 ▸ hn)
      exact ⟨n, by omega, hsize, rfl,
        standsFor_run (by omega) (by omega) h7 htext (h.plain hx p hp)⟩
  · rw [sendAt, if_neg hrep]
    cases hx : f.hexify with
    | true => exact ⟨1, Nat.one_pos, hp, rfl, standsFor_hex hx p⟩
    | false => exact ⟨1, Nat.one_pos, hp, rfl, standsFor_plain hx h hp⟩

theorem StandsFor.append {m n : Nat} {cs ds : List Byte} (h : f.StandsFor p m cs)
    (h' : f.StandsFor (p + m) n ds) : f.StandsFor p (m + n) (cs ++ ds) where
  expands rest hrest := by
    rw [List.append_assoc, h.expands _ (h'.starts rest hrest), h'.expands rest hrest, text_append,
      List.append_assoc]
  starts rest hrest := by
    rw [List.append_assoc]
    exact h.starts _ (h'.starts rest hrest)
  allowed c hc := (List.mem_append.mp hc).elim (h.allowed c) (h'.allowed c)

theorem StandsFor.nil (f : OutFrag) (p : Nat) : f.StandsFor p 0 [] where
  expands _ _ := rfl
  starts _ hrest := hrest
  allowed _ hc := absurd hc List.not_mem_nil

/-- The rounds that are left send what stands for the rest of the fragment. -/
theorem sendFrom_spec (h : f.Clean) {n : Nat} (hp : p ≤ f.size) (hn : f.size - p < n) :
    f.StandsFor p (f.size - p) (f.sendFrom n p) := by
  induction n generalizing p with
  | zero => exact absurd hn (Nat.not_lt_zero _)
  | succ n ih =>
      rw [sendFrom]
      split
      · next hmore =>
        have hlt := (more_iff hp).mp hmore
        obtain ⟨k, hk, hle, hnext, hstands⟩ := sendAt_spec h hlt
        rw [hnext, show f.size - p = k + (f.size - (p + k)) by omega]
        exact hstands.append (ih hle (by omega))
      · next hend =>
        have hlast : f.size - p = 0 := by
          have := mt (more_iff hp).mpr hend
          omega
        rw [hlast]
        exact .nil f p

theorem send_spec (h : f.Clean) : f.StandsFor 0 f.size f.send :=
  sendFrom_spec h (Nat.zero_le _) (Nat.lt_succ_self _)

end OutFrag

/-- The characters of a packet without run lengths. -/
def plainText (frags : List OutFrag) : List Byte := frags.flatMap fun f => f.text 0 f.size

theorem body_cons (f : OutFrag) (frags : List OutFrag) :
    body (f :: frags) = f.send ++ body frags := List.flatMap_cons

theorem plainText_cons (f : OutFrag) (frags : List OutFrag) :
    plainText (f :: frags) = f.text 0 f.size ++ plainText frags := List.flatMap_cons

theorem body_spec {frags : List OutFrag} (h : ∀ f ∈ frags, f.Clean) :
    (∀ rest : List Byte, rest.head? ≠ some (ord '*') →
      expand (body frags ++ rest) = plainText frags ++ expand rest ∧
        (body frags ++ rest).head? ≠ some (ord '*')) ∧
      ∀ c ∈ body frags, c ≠ ord '#' ∧ sevenBits c = c := by
  induction frags with
  | nil => exact ⟨fun rest hrest => ⟨rfl, hrest⟩, fun c hc => absurd hc List.not_mem_nil⟩
  | cons f frags ih =>
      obtain ⟨hexpand, hallowed⟩ := ih fun g hg => h g (.tail _ hg)
      have hf := OutFrag.send_spec (h f (.head _))
      constructor
      · intro rest hrest
        obtain ⟨htail, hhead⟩ := hexpand rest hrest
        rw [body_cons, List.append_assoc]
        refine ⟨?_, hf.starts _ hhead⟩
        rw [hf.expands _ hhead, htail, plainText_cons, List.append_assoc]
      · intro c hc
        rw [body_cons] at hc
        exact (List.mem_append.mp hc).elim (hf.allowed c) (hallowed c)

/-- **What is sent for a packet** expands to its fragments. -/
theorem expand_body {frags : List OutFrag} (h : ∀ f ∈ frags, f.Clean) :
    expand (body frags) = plainText frags := by
  have := ((body_spec h).1 [] (by simp)).1
  rwa [List.append_nil, show expand [] = [] from rfl, List.append_nil] at this

end Alliance.Monitor
