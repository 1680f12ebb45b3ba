import Alliance.Lib.CString
import Mathlib.Data.List.Basic

/-!
# Object references as strings (`orb.c`)

A reference is printed as `IOR:`, three digits for each byte of the address, eight characters
for the flags and the scoped name. `BYTE` is signed, so a byte from 128 on is printed with
"digits" below `0`, and read back as 0.

The string is put together by `strcat` in memory that `malloc` returned as it was, and the
buffer for the scoped name has no room for its end (`round_trip_iff`).
-/

namespace Alliance.SORB

open Lib

/-- A byte, signed, and a character. -/
abbrev BYTE := BitVec 8

/-- Allocated memory of `size` bytes. `bytes` is what is known of memory from its start on, and
is longer where something was written behind the end. -/
structure Buffer where
  size : Nat
  bytes : List BYTE

namespace Buffer

/-- Nothing was written behind the end. -/
def Inside (b : Buffer) : Prop := b.bytes.length ≤ b.size

instance (b : Buffer) : Decidable b.Inside := inferInstanceAs (Decidable (_ ≤ _))

/-- The string at the start of the buffer. -/
def string (b : Buffer) : List BYTE := b.bytes.takeWhile (· ≠ 0#8)

/-- Write a string and its 0 at `pos`. -/
def write (b : Buffer) (pos : Nat) (s : List BYTE) : Buffer :=
  { b with bytes := b.bytes.take pos ++ s ++ 0#8 :: b.bytes.drop (pos + s.length + 1) }

def strcpy (b : Buffer) (s : List BYTE) : Buffer := b.write 0 s

/-- `strcat`. What it does has no meaning if there is no end of a string in the buffer. -/
def strcat (b : Buffer) (s : List BYTE) : Option Buffer :=
  if b.string.length = b.bytes.length then none else some (b.write b.string.length s)

end Buffer

/-- What memory holds when `malloc` returns it, or `none` for `NULL`; then `orbFatalError` ends
the program. -/
abbrev Malloc := Option (Nat → BYTE)

def malloc (m : Malloc) (size : Nat) : Option Buffer :=
  m.map fun memory => { size, bytes := (List.range size).map memory }

/-- `struct IOR`. -/
structure IOR where
  isLocal : Bool
  ip : Nat → BYTE
  sn : CString
  flags : BYTE

/-- `flags & 0x1`, `flags & 0x2` and `flags & 0x4`. -/
def orbIsSORB (flags : BYTE) : Prop := flags &&& 0x1#8 ≠ 0#8

def orbIsLibrary (flags : BYTE) : Prop := flags &&& 0x2#8 ≠ 0#8

def orbIsCorbaAware (flags : BYTE) : Prop := flags &&& 0x4#8 ≠ 0#8

instance (flags : BYTE) : Decidable (orbIsSORB flags) := inferInstanceAs (Decidable (_ ≠ _))

instance (flags : BYTE) : Decidable (orbIsLibrary flags) := inferInstanceAs (Decidable (_ ≠ _))

instance (flags : BYTE) : Decidable (orbIsCorbaAware flags) :=
  inferInstanceAs (Decidable (_ ≠ _))

/-! ## Printing -/

/-- `btos`, without the 0 at its end. Division rounds to zero. -/
def btos (value : BYTE) : List BYTE :=
  [.ofInt 8 (48 + value.toInt.tdiv 100), .ofInt 8 (48 + (value.toInt.tmod 100).tdiv 10),
    .ofInt 8 (48 + value.toInt.tmod 10)]

def CHECKEDFLAG : BYTE := .ofNat 8 'X'.toNat

/-- The flags, one character each; five are never checked. -/
def strFlags (flags : BYTE) : List BYTE :=
  let s := chars "........"
  let s := if orbIsSORB flags then s.set 0 CHECKEDFLAG else s
  let s := if orbIsLibrary flags then s.set 1 CHECKEDFLAG else s
  if orbIsCorbaAware flags then s.set 2 CHECKEDFLAG else s

/-- `CORBA_ORB_object_to_string`. -/
def corbaObjectToString (m : Malloc) (anObject : IOR) : Option Buffer := do
  let result ← malloc m (4 + 3 * 4 + 8 + anObject.sn.chars.length + 1)
  let result ← result.strcat (chars "IOR:")
  let result ← result.strcat (btos (anObject.ip 0))
  let result ← result.strcat (btos (anObject.ip 1))
  let result ← result.strcat (btos (anObject.ip 2))
  let result ← result.strcat (btos (anObject.ip 3))
  let result ← result.strcat (strFlags anObject.flags)
  result.strcat anObject.sn.chars

/-! ## Reading -/

def isspace (c : BYTE) : Bool := c = 32#8 || (9#8 ≤ c && c ≤ 13#8)

def isdigit (c : BYTE) : Bool := 48#8 ≤ c && c ≤ 57#8

/-- The number that a string starts with. -/
def digits (s : List BYTE) : Nat :=
  (s.takeWhile isdigit).foldl (fun n c => 10 * n + (c.toNat - 48)) 0

def atoi (s : List BYTE) : Int :=
  match s.dropWhile isspace with
  | 45#8 :: s => -digits s
  | 43#8 :: s => digits s
  | s => digits s

/-- `obj->ip[i]`: three characters behind `IOR:`. -/
def readIp (aString : List BYTE) (i : Nat) : BYTE :=
  .ofInt 8 (atoi ((aString.drop (4 + i * 3)).take 3))

/-- `obj->flags`. -/
def readFlags (aString : List BYTE) : BYTE :=
  (List.range' 16 8).foldl (fun flags i =>
    if aString[i]? = some CHECKEDFLAG then flags ||| 1#8 <<< (i - 16) else flags) 0#8

/-- A reference with the buffer of its scoped name. -/
structure ReadIOR where
  isLocal : Bool
  ip : Nat → BYTE
  sn : Buffer
  flags : BYTE

/-- `CORBA_ORB_string_to_object`, of a string that is long enough to have a name. -/
def corbaStringToObject (m : Malloc) (aString : List BYTE) : Option ReadIOR :=
  if aString.length < 24 then none
  else do
    let ip := readIp aString
    let sn ← malloc m (aString.drop 24).length
    some
      { isLocal := ip 0 = 127#8 && ip 1 = 0#8 && ip 2 = 0#8 && ip 3 = 1#8
        ip
        sn := sn.strcpy (aString.drop 24)
        flags := readFlags aString }

/-! ## Strings in buffers -/

namespace Buffer

variable {b : Buffer} {l s : List BYTE} {ss : List (List BYTE)}

/-- The string at the start of the buffer is `l`. -/
structure Holds (b : Buffer) (l : List BYTE) : Prop where
  bytes : ∃ rest, b.bytes = l ++ 0#8 :: rest
  nonzero : ∀ c ∈ l, c ≠ 0#8

theorem Holds.string (h : b.Holds l) : b.string = l := by
  obtain ⟨rest, hrest⟩ := h.bytes
  rw [Buffer.string, hrest, List.takeWhile_append_of_pos (by simpa using h.nonzero)]
  simp

theorem Holds.lt (h : b.Holds l) : l.length < b.bytes.length := by
  obtain ⟨rest, hrest⟩ := h.bytes
  rw [hrest, List.length_append, List.length_cons]
  omega

/-- A buffer has an end of a string, or `strcat` runs out of it. -/
theorem holds_string (h : b.string.length ≠ b.bytes.length) : b.Holds b.string := by
  have hsplit : b.string ++ b.bytes.dropWhile (· ≠ 0#8) = b.bytes := List.takeWhile_append_dropWhile
  refine ⟨?_, fun c hc => by simpa using List.mem_takeWhile_imp hc⟩
  cases hrest : b.bytes.dropWhile (· ≠ 0#8) with
  | nil =>
      rw [hrest, List.append_nil] at hsplit
      exact absurd (congrArg List.length hsplit) h
  | cons c rest =>
      have hc := List.head?_dropWhile_not (· ≠ 0#8) b.bytes
      rw [hrest] at hc hsplit
      obtain rfl : c = 0#8 := by simpa using hc
      exact ⟨rest, hsplit.symm⟩

theorem holds_strcpy (hs : ∀ c ∈ s, c ≠ 0#8) : (b.strcpy s).Holds s :=
  ⟨⟨_, rfl⟩, hs⟩

theorem length_strcpy : s.length < (b.strcpy s).bytes.length :=
  (show (b.strcpy s).bytes = s ++ 0#8 :: b.bytes.drop (0 + s.length + 1) from rfl) ▸ by
    rw [List.length_append, List.length_cons]
    omega

/-- **`strcat`** writes behind the end where the strings and a 0 are more than the buffer. -/
theorem Holds.strcat (h : b.Holds l) (hs : ∀ c ∈ s, c ≠ 0#8) : ∃ b', b.strcat s = some b' ∧
    b'.Holds (l ++ s) ∧ b'.size = b.size ∧
    b'.bytes.length = max b.bytes.length (l.length + s.length + 1) := by
  have hlt := h.lt
  obtain ⟨rest, hrest⟩ := h.bytes
  have htake : b.bytes.take l.length = l := by rw [hrest, List.take_left]
  refine ⟨b.write l.length s, ?_, ⟨⟨b.bytes.drop (l.length + s.length + 1), ?_⟩, ?_⟩, rfl, ?_⟩
  · rw [Buffer.strcat, h.string, if_neg (Nat.ne_of_lt hlt)]
  · rw [write, htake]
  · intro c hc
    obtain hc | hc := List.mem_append.mp hc
    · exact h.nonzero c hc
    · exact hs c hc
  · rw [write, htake]
    simp only [List.length_append, List.length_cons, List.length_drop]
    omega

/-- Several strings one after the other. -/
theorem Holds.strcats (h : b.Holds l) (hs : ∀ s ∈ ss, ∀ c ∈ s, c ≠ 0#8) :
    ∃ b', ss.foldlM Buffer.strcat b = some b' ∧ b'.Holds (l ++ ss.flatten) ∧ b'.size = b.size ∧
      b'.bytes.length = max b.bytes.length (l.length + ss.flatten.length + 1) := by
  induction ss generalizing b l with
  | nil =>
      refine ⟨b, rfl, by simpa using h, rfl, ?_⟩
      have := h.lt
      simp only [List.flatten_nil, List.length_nil]
      omega
  | cons s ss ih =>
      obtain ⟨b₁, h₁, hb₁, hsize₁, hlen₁⟩ := h.strcat (hs s (.head ss))
      obtain ⟨b', h', hb', hsize', hlen'⟩ := ih hb₁ fun t ht => hs t (.tail s ht)
      refine ⟨b', ?_, ?_, hsize'.trans hsize₁, ?_⟩
      · rw [List.foldlM_cons, h₁]
        exact h'
      · simpa [List.append_assoc] using hb'
      · rw [hlen', hlen₁]
        simp only [List.length_append, List.flatten_cons]
        omega

end Buffer

/-! ## Digits and flags -/

/-- A test of the 256 bytes. -/
theorem byte_cases {p : BYTE → Prop} [DecidablePred p]
    (h : ((List.range 256).all fun n => p (.ofNat 8 n)) = true) (value : BYTE) : p value := by
  have hvalue := of_decide_eq_true
    (List.all_eq_true.mp h value.toNat (List.mem_range.mpr value.isLt))
  rwa [BitVec.ofNat_toNat, BitVec.setWidth_eq] at hvalue

/-- A negative byte is read back as 0. -/
theorem atoi_btos (value : BYTE) :
    BitVec.ofInt 8 (atoi (btos value)) = if value.slt 0#8 then 0#8 else value :=
  byte_cases (p := fun value => BitVec.ofInt 8 (atoi (btos value)) =
    if value.slt 0#8 then 0#8 else value) (by decide +kernel) value

theorem btos_nonzero (value : BYTE) : 0#8 ∉ btos value :=
  byte_cases (p := fun value => 0#8 ∉ btos value) (by decide +kernel) value

theorem strFlags_nonzero (flags : BYTE) : 0#8 ∉ strFlags flags :=
  byte_cases (p := fun flags => 0#8 ∉ strFlags flags) (by decide +kernel) flags

theorem length_strFlags (flags : BYTE) : (strFlags flags).length = 8 := by
  unfold strFlags
  split_ifs <;> rfl

/-- The flags that are defined survive. -/
theorem readFlags_strFlags (flags : BYTE) :
    readFlags (List.replicate 16 0#8 ++ strFlags flags) = flags &&& 7#8 :=
  byte_cases (p := fun flags => readFlags (List.replicate 16 0#8 ++ strFlags flags) =
    flags &&& 7#8) (by decide +kernel) flags

/-! ## The round trip -/

namespace IOR

variable {o : IOR} {l : List BYTE} {i : Nat}

/-- The strings that a reference is put together from. -/
def parts (o : IOR) : List (List BYTE) :=
  [chars "IOR:", btos (o.ip 0), btos (o.ip 1), btos (o.ip 2), btos (o.ip 3), strFlags o.flags,
    o.sn.chars]

/-- The printed reference. -/
def text (o : IOR) : List BYTE := o.parts.flatten

theorem parts_nonzero : ∀ s ∈ o.parts, ∀ c ∈ s, c ≠ 0#8 := by
  intro s hs
  simp only [parts, List.mem_cons, List.not_mem_nil, or_false] at hs
  obtain rfl | rfl | rfl | rfl | rfl | rfl | rfl := hs
  · decide
  · exact fun c hc => ne_of_mem_of_not_mem hc (btos_nonzero _)
  · exact fun c hc => ne_of_mem_of_not_mem hc (btos_nonzero _)
  · exact fun c hc => ne_of_mem_of_not_mem hc (btos_nonzero _)
  · exact fun c hc => ne_of_mem_of_not_mem hc (btos_nonzero _)
  · exact fun c hc => ne_of_mem_of_not_mem hc (strFlags_nonzero _)
  · exact o.sn.nonzero

theorem text_eq : o.text = chars "IOR:" ++ (btos (o.ip 0) ++ (btos (o.ip 1) ++ (btos (o.ip 2) ++
    (btos (o.ip 3) ++ (strFlags o.flags ++ o.sn.chars))))) := by
  simp [text, parts]

theorem length_text : o.text.length = 24 + o.sn.chars.length := by
  rw [text_eq]
  simp only [List.length_append, length_strFlags]
  simp only [btos, show (chars "IOR:").length = 4 by decide, List.length_cons, List.length_nil]
  omega

/-- The address, the flags and the name stand at fixed places. -/
theorem readIp_text (hi : i < 4) : readIp o.text i = .ofInt 8 (atoi (btos (o.ip i))) := by
  have hIOR : chars "IOR:" = [73#8, 79#8, 82#8, 58#8] := by decide
  unfold readIp
  rw [text_eq, hIOR]
  match i, hi with
  | 0, _ => rfl
  | 1, _ => rfl
  | 2, _ => rfl
  | 3, _ => rfl

theorem text_split : ∃ front : List BYTE, front.length = 16 ∧
    o.text = front ++ (strFlags o.flags ++ o.sn.chars) := by
  refine ⟨chars "IOR:" ++ (btos (o.ip 0) ++ (btos (o.ip 1) ++ (btos (o.ip 2) ++ btos (o.ip 3)))),
    rfl, ?_⟩
  simp only [text_eq, List.append_assoc]

theorem readFlags_text : readFlags o.text = o.flags &&& 7#8 := by
  obtain ⟨front, hfront, htext⟩ := o.text_split
  rw [← readFlags_strFlags]
  unfold readFlags
  refine List.foldl_ext _ _ _ fun flags i hi => ?_
  obtain ⟨hlow, hhigh⟩ : 16 ≤ i ∧ i < 24 := by simpa using hi
  have hleft : o.text[i]? = (strFlags o.flags)[i - 16]? := by
    rw [htext, List.getElem?_append_right (hfront ▸ hlow), hfront,
      List.getElem?_append_left (by rw [length_strFlags]; omega)]
  have hright : (List.replicate 16 0#8 ++ strFlags o.flags)[i]? =
      (strFlags o.flags)[i - 16]? := by
    rw [List.getElem?_append_right (by simpa using hlow), List.length_replicate]
  rw [hleft, hright]

theorem drop_text : o.text.drop 24 = o.sn.chars := by
  obtain ⟨front, hfront, htext⟩ := o.text_split
  rw [htext, ← List.append_assoc]
  exact List.drop_left' (by rw [List.length_append, hfront, length_strFlags])

end IOR

/-- Both references say the same; the address alone says whether it is this machine's. -/
structure Same (o : IOR) (r : ReadIOR) : Prop where
  ip : ∀ i < 4, r.ip i = o.ip i
  flags : r.flags = o.flags
  sn : r.sn.string = o.sn.chars
  isLocal : r.isLocal ↔ o.ip 0 = 127#8 ∧ o.ip 1 = 0#8 ∧ o.ip 2 = 0#8 ∧ o.ip 3 = 1#8

/-- Printing works, with memory as `malloc` returns it, and writes only inside the buffer. -/
def PrintsInside (o : IOR) (m : Malloc) : Prop :=
  ∃ b, corbaObjectToString m o = some b ∧ b.Inside

/-- The reference that is printed and read is the same. -/
def Survives (o : IOR) (m m' : Malloc) : Prop :=
  ∃ b r, corbaObjectToString m o = some b ∧ corbaStringToObject m' b.string = some r ∧ Same o r

/-- Reading the printed reference writes only inside the buffer. -/
def ReadsInside (o : IOR) (m m' : Malloc) : Prop :=
  ∃ b r, corbaObjectToString m o = some b ∧ corbaStringToObject m' b.string = some r ∧ r.sn.Inside

/-- The reference survives, and both functions write only inside the buffers they allocate. -/
def RoundTrip (o : IOR) (m m' : Malloc) : Prop :=
  PrintsInside o m ∧ Survives o m m' ∧ ReadsInside o m m'

variable {o : IOR} {memory memory' : Nat → BYTE} {b : Buffer} {l : List BYTE} {r : ReadIOR}

theorem corbaObjectToString_eq (m : Malloc) (o : IOR) : corbaObjectToString m o =
    (malloc m (25 + o.sn.chars.length)).bind fun b => o.parts.foldlM Buffer.strcat b := by
  simp [corbaObjectToString, IOR.parts, Nat.add_right_comm]

/-- What `malloc` returned stays in front of the printed reference, and as much is written
behind the end. Without a 0 in the buffer nothing is printed. -/
theorem corbaObjectToString_spec (hb : corbaObjectToString (some memory) o = some b) :
    ∃ l, b.Holds (l ++ o.text) ∧ (b.Inside ↔ l = []) ∧ (l = [] ↔ memory 0 = 0#8) := by
  rw [corbaObjectToString_eq] at hb
  change o.parts.foldlM Buffer.strcat ⟨_, _⟩ = some b at hb
  generalize hb₀ : Buffer.mk _ _ = b₀ at hb
  have hsize₀ : b₀.size = 25 + o.sn.chars.length := by rw [← hb₀]
  have hlen₀ : b₀.bytes.length = b₀.size := by simp [← hb₀]
  by_cases hfull : b₀.string.length = b₀.bytes.length
  · rw [IOR.parts, List.foldlM_cons, Buffer.strcat, if_pos hfull] at hb
    exact absurd hb nofun
  · obtain ⟨b', hb', hholds, hsize, hlen⟩ :=
      (Buffer.holds_string hfull).strcats o.parts_nonzero
    obtain rfl := Option.some.inj (hb.symm.trans hb')
    refine ⟨b₀.string, hholds, ?_, ?_⟩
    · rw [Buffer.Inside, hlen, hsize, hlen₀, hsize₀, ← IOR.text, IOR.length_text,
        ← List.length_eq_zero_iff]
      omega
    · have hbytes : b₀.bytes = memory 0 :: (List.range (24 + o.sn.chars.length)).map
          (fun i => memory (i + 1)) := by
        rw [← hb₀, show 25 + o.sn.chars.length = (24 + o.sn.chars.length) + 1 by omega,
          List.range_succ_eq_map]
        simp [Function.comp_def]
      rw [Buffer.string, hbytes, List.takeWhile_cons]
      simp

/-- Memory that starts with 0 is an empty string to append to. -/
theorem corbaObjectToString_zero (h0 : memory 0 = 0#8) : ∃ b,
    corbaObjectToString (some memory) o = some b ∧ b.Holds o.text := by
  rw [corbaObjectToString_eq]
  change ∃ b, o.parts.foldlM Buffer.strcat ⟨_, _⟩ = some b ∧ b.Holds o.text
  generalize hb₀ : Buffer.mk _ _ = b₀
  have hholds : b₀.Holds [] := by
    refine ⟨⟨(List.range (24 + o.sn.chars.length)).map fun i => memory (i + 1), ?_⟩, nofun⟩
    rw [← hb₀, show 25 + o.sn.chars.length = (24 + o.sn.chars.length) + 1 by omega,
      List.range_succ_eq_map]
    simp [Function.comp_def, h0]
  obtain ⟨b, hb, hholds, -, -⟩ := hholds.strcats o.parts_nonzero
  exact ⟨b, hb, hholds⟩

/-- **Printing** stays in its buffer exactly if memory happens to start with 0. -/
theorem printsInside_iff : PrintsInside o (some memory) ↔ memory 0 = 0#8 := by
  constructor
  · rintro ⟨b, hb, hinside⟩
    obtain ⟨l, -, hl, hzero⟩ := corbaObjectToString_spec hb
    exact hzero.mp (hl.mp hinside)
  · intro h0
    obtain ⟨b, hb, -⟩ := corbaObjectToString_zero (o := o) h0
    obtain ⟨l, -, hl, hzero⟩ := corbaObjectToString_spec hb
    exact ⟨b, hb, hl.mpr (hzero.mpr h0)⟩

/-- The name is read from character 24 on, and its buffer is one byte short. -/
theorem corbaStringToObject_sn (hs : ∀ c ∈ l, c ≠ 0#8)
    (hr : corbaStringToObject (some memory) l = some r) :
    r.sn.string = l.drop 24 ∧ ¬ r.sn.Inside := by
  have hdrop : ∀ c ∈ l.drop 24, c ≠ 0#8 := fun c hc => hs c (List.mem_of_mem_drop hc)
  unfold corbaStringToObject at hr
  split at hr
  · exact absurd hr nofun
  · obtain rfl := Option.some.inj hr
    exact ⟨(Buffer.holds_strcpy hdrop).string, Nat.not_le_of_lt Buffer.length_strcpy⟩

/-- **Reading** never stays in its buffer. -/
theorem not_readsInside : ¬ ReadsInside o (some memory) (some memory') := by
  rintro ⟨b, r, hb, hr, hinside⟩
  obtain ⟨l, hholds, -, -⟩ := corbaObjectToString_spec hb
  rw [hholds.string] at hr
  exact (corbaStringToObject_sn hholds.nonzero hr).2 hinside

/-- What is read of a printed reference. -/
theorem corbaStringToObject_text (o : IOR) (memory : Nat → BYTE) :
    ∃ r, corbaStringToObject (some memory) o.text = some r ∧
    (∀ i < 4, r.ip i = if (o.ip i).slt 0#8 then 0#8 else o.ip i) ∧ r.flags = o.flags &&& 7#8 ∧
      r.sn.string = o.sn.chars ∧
      (r.isLocal ↔ r.ip 0 = 127#8 ∧ r.ip 1 = 0#8 ∧ r.ip 2 = 0#8 ∧ r.ip 3 = 1#8) := by
  have hlen : ¬ o.text.length < 24 := by
    rw [IOR.length_text]
    omega
  refine ⟨_, if_neg hlen, fun i hi => ?_, IOR.readFlags_text, ?_, ?_⟩
  · exact (IOR.readIp_text hi).trans (atoi_btos _)
  · exact (Buffer.holds_strcpy (IOR.drop_text ▸ o.sn.nonzero)).string.trans IOR.drop_text
  · simp [and_assoc]

/-- **A reference survives** exactly if memory starts with 0 and no byte of the address is
negative. -/
theorem survives_iff (hflags : o.flags &&& 7#8 = o.flags) :
    Survives o (some memory) (some memory') ↔
      memory 0 = 0#8 ∧ ∀ i < 4, (o.ip i).slt 0#8 = false := by
  constructor
  · rintro ⟨b, r, hb, hr, hsame⟩
    obtain ⟨l, hholds, -, hzero⟩ := corbaObjectToString_spec hb
    rw [hholds.string] at hr
    -- what is in front of the reference pushes characters of it into the name
    have hl : l = [] := by
      have hsn := hsame.sn
      rw [(corbaStringToObject_sn hholds.nonzero hr).1] at hsn
      have hlen := congrArg List.length hsn
      rw [List.length_drop, List.length_append, IOR.length_text] at hlen
      exact List.length_eq_zero_iff.mp (by omega)
    refine ⟨hzero.mp hl, fun i hi => ?_⟩
    obtain ⟨r', hr', hip, -⟩ := corbaStringToObject_text o memory'
    rw [hl, List.nil_append, hr'] at hr
    obtain rfl := Option.some.inj hr
    have hi' := (hip i hi).symm.trans (hsame.ip i hi)
    by_contra hneg
    rw [if_pos (by simpa using hneg)] at hi'
    exact hneg (hi' ▸ rfl)
  · rintro ⟨h0, hpos⟩
    obtain ⟨b, hb, hholds⟩ := corbaObjectToString_zero (o := o) h0
    obtain ⟨r, hr, hip, hflags', hsn, hlocal⟩ :=
      corbaStringToObject_text o memory'
    have hsame : ∀ i < 4, r.ip i = o.ip i := fun i hi => by
      rw [hip i hi, hpos i hi, if_neg Bool.false_ne_true]
    refine ⟨b, r, hb, hholds.string ▸ hr, hsame, hflags'.trans hflags, hsn, ?_⟩
    rw [hlocal, hsame 0 (by decide), hsame 1 (by decide), hsame 2 (by decide),
      hsame 3 (by decide)]

/-- **No reference makes the round trip** inside the buffers. Of its parts, printing and the
reference itself fail only where memory or the address is not as the code takes them to be. -/
theorem round_trip (o : IOR) (hflags : o.flags &&& 7#8 = o.flags) (memory memory' : Nat → BYTE) :
    ¬ RoundTrip o (some memory) (some memory') ∧
      (PrintsInside o (some memory) ↔ memory 0 = 0#8) ∧
      (Survives o (some memory) (some memory') ↔
        memory 0 = 0#8 ∧ ∀ i < 4, (o.ip i).slt 0#8 = false) ∧
      ¬ ReadsInside o (some memory) (some memory') :=
  ⟨fun h => not_readsInside h.2.2, printsInside_iff, survives_iff hflags, not_readsInside⟩

/-- `echo` on this machine. -/
def echo : IOR where
  isLocal := true
  ip i := if i = 0 then 127#8 else if i = 3 then 1#8 else 0#8
  sn := ⟨chars "echo", by decide⟩
  flags := 1#8

theorem round_trip_echo : Survives echo (some fun _ => 0#8) (some fun _ => 0#8) ∧
    ¬ RoundTrip echo (some fun _ => 0#8) (some fun _ => 0#8) :=
  have h := round_trip echo (by decide) (fun _ => 0#8) fun _ => 0#8
  ⟨h.2.2.1.mpr ⟨rfl, by decide⟩, h.1⟩

/-- The address 127.200.0.1 is read back as 127.0.0.1. -/
theorem remote_becomes_local : ¬ RoundTrip
    { echo with ip := fun i => if i = 1 then 200#8 else echo.ip i } (some fun _ => 0#8)
    (some fun _ => 0#8) := by
  rintro ⟨-, hsame, -⟩
  exact absurd ((survives_iff (by decide)).mp hsame).2 (by decide)

end Alliance.SORB
