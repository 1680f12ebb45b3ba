import Alliance.KL.Memory

/-!
# The length of a string (`StringLength.c`)

`KLstringLength` looks at single bytes until the address is aligned, and then at words. A word with
a zero byte in it is one from which `lomagic` cannot be taken away without a borrow, which shows
in a bit of `himagic`; there are others like that, and so its bytes are looked at, too.

It finds the first zero byte of every string, wherever it starts, and reads no word behind the one
that this byte is in (`klStringLength_length`).
-/

namespace Alliance.KL.Memory

open Function Lib

def himagic : DATA := 0x80808080#32

def lomagic : DATA := 0x01010101#32

/-- Four bytes as a word. -/
def wordOf (b0 b1 b2 b3 : UBYTE) : DATA := b3 ++ b2 ++ b1 ++ b0

/-- `*longwordPtr`. -/
def Traced.readWord (t : Traced) (a : UADDR) : DATA × Traced :=
  (wordOf (t.mem a) (t.mem (a + 1#32)) (t.mem (a + 2#32)) (t.mem (a + 3#32)),
    { t with reads := t.reads ++ [a, a + 1#32, a + 2#32, a + 3#32] })

/-! ## `StringLength.c` -/

theorem toNat_and_three (x : UADDR) : (x &&& 3#32).toNat = x.toNat % 4 := by
  rw [BitVec.toNat_and]
  exact Nat.and_two_pow_sub_one_eq_mod x.toNat 2

theorem and_three_eq_zero (x : UADDR) : x &&& 3#32 = 0#32 ↔ x.toNat % 4 = 0 := by
  rw [← toNat_and_three]
  exact ⟨fun h => congrArg BitVec.toNat h, fun h => BitVec.eq_of_toNat_eq h⟩

/-- The loop over the first few characters: it returns, or leaves an aligned `charPtr`. -/
def firstChars (t : Traced) (str charPtr : UADDR) : Traced × (UADDR ⊕ UADDR) :=
  if charPtr &&& 3#32 ≠ 0#32 then
    let (b, t) := t.readByte charPtr
    if b = 0#8 then (t, .inl (charPtr - str)) else firstChars t str (charPtr + 1#32)
  else (t, .inr charPtr)
termination_by (4 - charPtr.toNat % 4) % 4
decreasing_by
  have h : charPtr &&& 3#32 ≠ 0#32 := by assumption
  rw [ne_eq, and_three_eq_zero] at h
  rw [BitVec.toNat_add]
  have := charPtr.isLt
  show (4 - (charPtr.toNat + 1) % 2 ^ 32 % 4) % 4 < _
  omega

/-- `if (cp[k] == 0) return cp - str + k;` for `r` bytes, from the `k`-th on. -/
def testBytes (t : Traced) (str cp : UADDR) : Nat → UADDR → Traced × Option UADDR
  | 0, _ => (t, none)
  | r + 1, k =>
    let (b, t) := t.readByte (cp + k)
    if b = 0#8 then (t, some (cp - str + k)) else testBytes t str cp r (k + 1#32)

/-- The loop over the words, of which `fuel` are left. -/
def wordChars (t : Traced) (str longwordPtr : UADDR) : Nat → Option (Traced × UADDR)
  | 0 => none
  | fuel + 1 =>
    let (longword, t) := t.readWord longwordPtr
    if (longword - lomagic) &&& himagic ≠ 0#32 then
      match testBytes t str longwordPtr 4 0#32 with
      | (t, some length) => some (t, length)
      | (t, none) => wordChars t str (longwordPtr + 4#32) fuel
    else wordChars t str (longwordPtr + 4#32) fuel

/-- `KLstringLength`. There are `2 ^ 30` words in memory. -/
def klStringLength (t : Traced) (str : UADDR) : Option (Traced × UADDR) :=
  match firstChars t str str with
  | (t, .inl length) => some (t, length)
  | (t, .inr longwordPtr) => wordChars t str longwordPtr (2 ^ 30)

/-! ## The test of a word -/

theorem toNat_wordOf (b0 b1 b2 b3 : UBYTE) : (wordOf b0 b1 b2 b3).toNat =
    b0.toNat + 256 * b1.toNat + 65536 * b2.toNat + 16777216 * b3.toNat := by
  have h0 := b0.isLt
  have h1 := b1.isLt
  have h2 := b2.isLt
  unfold wordOf
  rw [BitVec.toNat_append, ← Nat.shiftLeft_add_eq_or_of_lt h0, BitVec.toNat_append,
    ← Nat.shiftLeft_add_eq_or_of_lt h1, BitVec.toNat_append, ← Nat.shiftLeft_add_eq_or_of_lt h2,
    Nat.shiftLeft_eq, Nat.shiftLeft_eq, Nat.shiftLeft_eq]
  omega

/-- A borrow shows in one of the four bits. -/
theorem test_of_bit {x : DATA} {k : Nat} (hk : k < 4)
    (h : (x - lomagic).toNat / 2 ^ (8 * k + 7) % 2 = 1) :
    (x - lomagic) &&& himagic ≠ 0#32 := by
  intro h0
  have hbit := congrArg (fun y : DATA => y.getLsbD (8 * k + 7)) h0
  have hx : (x - lomagic).getLsbD (8 * k + 7) = true := by
    rw [← BitVec.testBit_toNat, Nat.testBit_eq_decide_div_mod_eq, decide_eq_true h]
  have hhi : himagic.getLsbD (8 * k + 7) = true := by
    obtain rfl | rfl | rfl | rfl : k = 0 ∨ k = 1 ∨ k = 2 ∨ k = 3 := by omega
    all_goals rfl
  rw [BitVec.getLsbD_and, hx, hhi, BitVec.getLsbD_zero] at hbit
  exact Bool.noConfusion hbit

/-- **No zero byte is missed.** The lowest one makes the borrow. -/
theorem test_zero {b0 b1 b2 b3 : UBYTE} (h : b0 = 0#8 ∨ b1 = 0#8 ∨ b2 = 0#8 ∨ b3 = 0#8) :
    (wordOf b0 b1 b2 b3 - lomagic) &&& himagic ≠ 0#32 := by
  have hsub : (wordOf b0 b1 b2 b3 - lomagic).toNat =
      (2 ^ 32 - 0x01010101 + (wordOf b0 b1 b2 b3).toNat) % 2 ^ 32 := BitVec.toNat_sub _ _
  rw [toNat_wordOf] at hsub
  have l0 := b0.isLt
  have l1 := b1.isLt
  have l2 := b2.isLt
  have l3 := b3.isLt
  have hpos : ∀ {b : UBYTE}, b ≠ 0#8 → 0 < b.toNat := fun hb =>
    Nat.pos_of_ne_zero fun h0 => hb (BitVec.eq_of_toNat_eq h0)
  by_cases h0 : b0 = 0#8
  · refine test_of_bit (k := 0) (by decide) ?_
    rw [hsub, h0]
    simp only [BitVec.toNat_ofNat]
    omega
  have p0 := hpos h0
  by_cases h1 : b1 = 0#8
  · refine test_of_bit (k := 1) (by decide) ?_
    rw [hsub, h1]
    simp only [BitVec.toNat_ofNat]
    omega
  have p1 := hpos h1
  by_cases h2 : b2 = 0#8
  · refine test_of_bit (k := 2) (by decide) ?_
    rw [hsub, h2]
    simp only [BitVec.toNat_ofNat]
    omega
  have p2 := hpos h2
  have h3 : b3 = 0#8 := ((h.resolve_left h0).resolve_left h1).resolve_left h2
  refine test_of_bit (k := 3) (by decide) ?_
  rw [hsub, h3]
  simp only [BitVec.toNat_ofNat]
  omega

/-! ## What is read -/

/-- Nothing but reads at places `P`. -/
def ReadsAt (P : UADDR → Prop) (t t' : Traced) : Prop :=
  t'.mem = t.mem ∧ t'.writes = t.writes ∧ ∃ rs, t'.reads = t.reads ++ rs ∧ ∀ a ∈ rs, P a

variable {t t' t'' : Traced} {str a : UADDR} {n m k : Nat} {P : UADDR → Prop}

namespace ReadsAt

theorem refl (t : Traced) : ReadsAt P t t :=
  ⟨rfl, rfl, [], (List.append_nil _).symm, fun _ h => absurd h List.not_mem_nil⟩

theorem trans (h : ReadsAt P t t') (h' : ReadsAt P t' t'') : ReadsAt P t t'' := by
  obtain ⟨hm, hw, rs, hr, hP⟩ := h
  obtain ⟨hm', hw', rs', hr', hP'⟩ := h'
  refine ⟨hm'.trans hm, hw'.trans hw, rs ++ rs', ?_, fun a ha => ?_⟩
  · rw [hr', hr, List.append_assoc]
  · exact (List.mem_append.mp ha).elim (hP a) (hP' a)

theorem byte (h : P a) : ReadsAt P t (t.readByte a).2 :=
  ⟨rfl, rfl, [a], rfl, fun _ hb => List.mem_singleton.mp hb ▸ h⟩

end ReadsAt

/-- The first zero byte is the `n`-th one. -/
structure HasLength (mem : UADDR → UBYTE) (str : UADDR) (n : Nat) : Prop where
  lt : n < 2 ^ 32
  ends : mem (str + .ofNat 32 n) = 0#8
  chars : ∀ i < n, mem (str + .ofNat 32 i) ≠ 0#8

/-- In the word of a character, or in that of the zero byte. -/
def Near (str : UADDR) (n : Nat) (a : UADDR) : Prop :=
  ∃ i ≤ n, a.toNat / 4 = (str + .ofNat 32 i).toNat / 4

/-- The bytes of the word that starts at a character. -/
theorem near_word (hm : m ≤ n) (ha : (str + .ofNat 32 m).toNat % 4 = 0) {k : UADDR}
    (hk : k.toNat < 4) : Near str n (str + .ofNat 32 m + k) := by
  refine ⟨m, hm, ?_⟩
  rw [BitVec.toNat_add]
  have := (str + BitVec.ofNat 32 m).isLt
  omega

theorem distance (str : UADDR) (n : Nat) : str + .ofNat 32 n - str = .ofNat 32 n :=
  add_sub_cancel_left _ _

/-- **The first few characters.** -/
theorem firstChars_spec (h : HasLength t.mem str n) (hm : m ≤ n) :
    ∃ t' r, firstChars t str (str + .ofNat 32 m) = (t', r) ∧ ReadsAt (Near str n) t t' ∧
      (r = .inl (.ofNat 32 n) ∨
        ∃ m' ≤ n, r = .inr (str + .ofNat 32 m') ∧ (str + .ofNat 32 m').toNat % 4 = 0) := by
  generalize hd : (4 - (str + BitVec.ofNat 32 m).toNat % 4) % 4 = d
  induction d generalizing t m with
  | zero =>
      have ha : (str + BitVec.ofNat 32 m).toNat % 4 = 0 := by omega
      refine ⟨t, .inr (str + .ofNat 32 m), ?_, .refl t, .inr ⟨m, hm, rfl, ha⟩⟩
      rw [firstChars, if_neg (not_not.mpr ((and_three_eq_zero _).mpr ha))]
  | succ d ih =>
      have ha : (str + BitVec.ofNat 32 m).toNat % 4 ≠ 0 := by omega
      rw [firstChars, if_pos fun h0 => ha ((and_three_eq_zero _).mp h0)]
      have hread : ReadsAt (Near str n) t (t.readByte (str + .ofNat 32 m)).2 :=
        .byte ⟨m, hm, rfl⟩
      by_cases hz : t.mem (str + .ofNat 32 m) = 0#8
      · have hmn : m = n := by
          by_contra hne
          exact h.chars m (by omega) hz
        refine ⟨_, _, if_pos hz, hread, .inl ?_⟩
        rw [distance, hmn]
      · have hlt : m < n := by
          refine Nat.lt_of_le_of_ne hm fun he => hz ?_
          rw [he]
          exact h.ends
        have hnext : str + BitVec.ofNat 32 m + 1#32 = str + .ofNat 32 (m + 1) :=
          add_ofNat_ofNat str m 1
        have hstep : (4 - (str + BitVec.ofNat 32 (m + 1)).toNat % 4) % 4 = d := by
          rw [← hnext, BitVec.toNat_add]
          have := (str + BitVec.ofNat 32 m).isLt
          show (4 - (_ + 1) % 2 ^ 32 % 4) % 4 = d
          omega
        obtain ⟨t', r, hr, hreads, hcases⟩ :=
          ih (t := (t.readByte (str + .ofNat 32 m)).2) h (m := m + 1) hlt hstep
        refine ⟨t', r, (if_neg hz).trans ?_, hread.trans hreads, hcases⟩
        rw [hnext]
        exact hr

/-- **The bytes of a word**, up to the first zero byte. -/
theorem testBytes_spec (hm : m ≤ n) (ha : (str + .ofNat 32 m).toNat % 4 = 0)
    (h : HasLength t.mem str n) {r : Nat} (hk : k + r = 4) (hpast : n < m + 4 → m + k ≤ n) :
    ∃ t', testBytes t str (str + .ofNat 32 m) r (.ofNat 32 k) =
        (t', if n < m + 4 then some (.ofNat 32 n) else none) ∧ ReadsAt (Near str n) t t' := by
  induction r generalizing t k with
  | zero =>
      refine ⟨t, ?_, .refl t⟩
      rw [testBytes, if_neg fun hlt => by have := hpast hlt; omega]
  | succ r ih =>
      have hplace : str + BitVec.ofNat 32 m + .ofNat 32 k = str + .ofNat 32 (m + k) :=
        add_ofNat_ofNat str m k
      have hread : ReadsAt (Near str n) t (t.readByte (str + .ofNat 32 m + .ofNat 32 k)).2 := by
        refine .byte (near_word hm ha ?_)
        rw [BitVec.toNat_ofNat]
        omega
      unfold testBytes
      by_cases hz : t.mem (str + .ofNat 32 m + .ofNat 32 k) = 0#8
      · have hmn : m + k = n := by
          rw [hplace] at hz
          by_contra hne
          refine h.chars (m + k) ?_ hz
          by_cases hlt : n < m + 4
          · have := hpast hlt
            omega
          · omega
        refine ⟨_, (if_pos hz).trans ?_, hread⟩
        rw [if_pos (by omega), distance, ← hmn, BitVec.ofNat_add]
        rfl
      · have hne : m + k ≠ n := by
          intro he
          rw [hplace, he] at hz
          exact hz h.ends
        have hnext : BitVec.ofNat 32 k + 1#32 = .ofNat 32 (k + 1) := (BitVec.ofNat_add k 1).symm
        obtain ⟨t', ht', hreads⟩ := ih (t := (t.readByte (str + .ofNat 32 m + .ofNat 32 k)).2)
          (k := k + 1) h (by omega) fun hlt => by
            have := hpast hlt
            omega
        refine ⟨t', (if_neg hz).trans ?_, hread.trans hreads⟩
        rw [hnext]
        exact ht'

theorem wordChars_succ (t : Traced) (str p : UADDR) (fuel : Nat) :
    wordChars t str p (fuel + 1) =
      if (t.readWord p).1 - lomagic &&& himagic ≠ 0#32 then
        match testBytes (t.readWord p).2 str p 4 0#32 with
        | (t, some length) => some (t, length)
        | (t, none) => wordChars t str (p + 4#32) fuel
      else wordChars (t.readWord p).2 str (p + 4#32) fuel := rfl

/-- **The words**, up to the one with the first zero byte. -/
theorem wordChars_spec (h : HasLength t.mem str n) (hm : m ≤ n)
    (ha : (str + .ofNat 32 m).toNat % 4 = 0) {fuel : Nat} (hfuel : n < m + 4 * fuel) :
    ∃ t', wordChars t str (str + .ofNat 32 m) fuel = some (t', .ofNat 32 n) ∧
      ReadsAt (Near str n) t t' := by
  induction fuel generalizing t m with
  | zero => omega
  | succ fuel ih =>
      have hword : ReadsAt (Near str n) t (t.readWord (str + .ofNat 32 m)).2 := by
        refine ⟨rfl, rfl, _, rfl, fun a hin => ?_⟩
        have h0 := near_word (k := 0#32) hm ha (by decide)
        rw [BitVec.add_zero] at h0
        simp only [List.mem_cons, List.not_mem_nil, or_false] at hin
        obtain rfl | rfl | rfl | rfl := hin
        · exact h0
        all_goals exact near_word hm ha (by decide)
      obtain ⟨t₁, htest, hreads⟩ := testBytes_spec (t := (t.readWord (str + .ofNat 32 m)).2)
        (k := 0) (r := 4) hm ha h rfl fun _ => hm
      have hplace : ∀ k, str + BitVec.ofNat 32 m + .ofNat 32 k = str + .ofNat 32 (m + k) :=
        fun k => add_ofNat_ofNat str m k
      rw [wordChars_succ]
      by_cases hlast : n < m + 4
      · have hzero : t.mem (str + .ofNat 32 m) = 0#8 ∨ t.mem (str + .ofNat 32 m + 1#32) = 0#8 ∨
            t.mem (str + .ofNat 32 m + 2#32) = 0#8 ∨ t.mem (str + .ofNat 32 m + 3#32) = 0#8 := by
          have hends := h.ends
          obtain he | he | he | he : n = m ∨ n = m + 1 ∨ n = m + 2 ∨ n = m + 3 := by omega
          · exact .inl (he ▸ hends)
          · rw [he, ← hplace 1] at hends
            exact .inr (.inl hends)
          · rw [he, ← hplace 2] at hends
            exact .inr (.inr (.inl hends))
          · rw [he, ← hplace 3] at hends
            exact .inr (.inr (.inr hends))
        rw [if_pos hlast] at htest
        refine ⟨t₁, (if_pos (test_zero hzero)).trans ?_, hword.trans hreads⟩
        rw [htest]
      · rw [if_neg hlast] at htest
        have hnext : str + BitVec.ofNat 32 m + 4#32 = str + .ofNat 32 (m + 4) := hplace 4
        have ha' : (str + BitVec.ofNat 32 (m + 4)).toNat % 4 = 0 := by
          rw [← hnext, BitVec.toNat_add]
          have := (str + BitVec.ofNat 32 m).isLt
          show (_ + 4) % 2 ^ 32 % 4 = 0
          omega
        split
        · -- a misfire
          rw [htest]
          have hmem : t₁.mem = t.mem := (hword.trans hreads).1
          obtain ⟨t', ht', hreads'⟩ := ih (t := t₁) (hmem ▸ h) (m := m + 4) (by omega) ha'
            (by omega)
          rw [← hnext] at ht'
          exact ⟨t', ht', (hword.trans hreads).trans hreads'⟩
        · obtain ⟨t', ht', hreads'⟩ := ih (t := (t.readWord (str + .ofNat 32 m)).2) h
            (m := m + 4) (by omega) ha' (by omega)
          rw [← hnext] at ht'
          exact ⟨t', ht', hword.trans hreads'⟩

/-- **The length** of every string is found, wherever it starts. Nothing is written, and no word
is read that has no byte of the string in it. -/
theorem klStringLength_length (h : HasLength t.mem str n) :
    ∃ t', klStringLength t str = some (t', .ofNat 32 n) ∧ ReadsAt (Near str n) t t' := by
  obtain ⟨t₁, r, hfirst, hreads, hr⟩ := firstChars_spec h (Nat.zero_le n)
  rw [BitVec.add_zero] at hfirst
  unfold klStringLength
  rw [hfirst]
  obtain rfl | ⟨m, hm, rfl, ha⟩ := hr
  · exact ⟨t₁, rfl, hreads⟩
  · have h₁ : HasLength t₁.mem str n := hreads.1 ▸ h
    have hlt := h.lt
    obtain ⟨t', ht', hreads'⟩ := @wordChars_spec t₁ str n m h₁ hm ha (2 ^ 30) (by omega)
    exact ⟨t', ht', hreads.trans hreads'⟩

/-- A string of one character, three bytes in front of a word. -/
theorem klStringLength_length_one :
    ∃ t', klStringLength ⟨fun a => if a = 0x1001#32 then 0x80#8 else 0#8, [], []⟩ 0x1001#32 =
        some (t', 1#32) ∧
      ReadsAt (Near 0x1001#32 1) ⟨fun a => if a = 0x1001#32 then 0x80#8 else 0#8, [], []⟩ t' := by
  refine klStringLength_length (n := 1) ⟨by decide, by decide, fun i hi => ?_⟩
  obtain rfl : i = 0 := Nat.lt_one_iff.mp hi
  decide

end Alliance.KL.Memory
