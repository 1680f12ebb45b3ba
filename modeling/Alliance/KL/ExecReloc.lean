import Alliance.KL.ExecBlocks

/-!
# Relocations of the loader (`cpu.c`)

An entry of `.rel.text` is for a word `A` at a place `P` in the text, and for a symbol with an
address `S` in its section. `relocateSymbol` makes `S + A` of the word for `R_386_32`. For
`R_386_PC32` it does not look at the word, nor at the section of the symbol, so it makes `S + A - P`
of it only where these come to the same (`relocates_iff`).
-/

namespace Alliance.KL.Exec

open Function Lib

/-! ## What is written in a block -/

namespace Block

variable {b : Block} {o k : Nat}

/-- The block with the bytes of `w` at `o` and behind it. -/
def put {n : Nat} (b : Block) (o : Nat) (w : BitVec n) : Block :=
  { b with
    byte := fun k => if o ≤ k ∧ k < o + n / 8 then w.extractLsb' (8 * (k - o)) 8 else b.byte k }

theorem write_eq {n : Nat} (w : BitVec n) (h : o + n / 8 ≤ b.size) :
    b.write o w = some (b.put o w) := if_pos h

theorem byte_put {n j : Nat} (w : BitVec n) (hj : j < n / 8) :
    (b.put o w).byte (o + j) = w.extractLsb' (8 * j) 8 := by
  unfold put
  dsimp only
  rw [if_pos (by omega), Nat.add_sub_cancel_left]

theorem byte_put_of_outside {n : Nat} (w : BitVec n) (hk : k < o ∨ o + n / 8 ≤ k) :
    (b.put o w).byte k = b.byte k := if_neg (by omega)

/-- The word that is written is the one that is read. -/
theorem word_put (w : UWORD32) : word (b.put o w).byte o = w := by
  have h0 : (b.put o w).byte o = w.extractLsb' 0 8 := byte_put (j := 0) w (by decide)
  have h1 : (b.put o w).byte (o + 1) = w.extractLsb' 8 8 := byte_put w (by decide)
  have h2 : (b.put o w).byte (o + 2) = w.extractLsb' 16 8 := byte_put w (by decide)
  have h3 : (b.put o w).byte (o + 2 + 1) = w.extractLsb' 24 8 := byte_put (j := 3) w (by decide)
  unfold word half
  rw [h0, h1, h2, h3, BitVec.extractLsb'_append_extractLsb'_eq_extractLsb' (by decide),
    BitVec.extractLsb'_append_extractLsb'_eq_extractLsb' (by decide),
    BitVec.extractLsb'_append_extractLsb'_eq_extractLsb' (by decide)]
  exact BitVec.extractLsb'_eq_self

theorem half_put (w : Elf32_Half) : half (b.put o w).byte o = w := by
  have h0 : (b.put o w).byte o = w.extractLsb' 0 8 := byte_put (j := 0) w (by decide)
  have h1 : (b.put o w).byte (o + 1) = w.extractLsb' 8 8 := byte_put w (by decide)
  unfold half
  rw [h0, h1, BitVec.extractLsb'_append_extractLsb'_eq_extractLsb' (by decide)]
  exact BitVec.extractLsb'_eq_self

theorem half_congr {bytes bytes' : Nat → UBYTE} (h : ∀ k, o ≤ k → k < o + 2 → bytes' k = bytes k) :
    half bytes' o = half bytes o := by
  unfold half
  rw [h o (by omega) (by omega), h (o + 1) (by omega) (by omega)]

theorem word_congr {bytes bytes' : Nat → UBYTE} (h : ∀ k, o ≤ k → k < o + 4 → bytes' k = bytes k) :
    word bytes' o = word bytes o := by
  unfold word
  rw [half_congr fun k hk hk' => h k hk (by omega),
    half_congr fun k hk hk' => h k (by omega) (by omega)]

/-- `b'` is `b` with the word `w` at `o`. -/
structure Patched (b : Block) (o : Nat) (w : UWORD32) (b' : Block) : Prop where
  addr : b'.addr = b.addr
  size : b'.size = b.size
  at_place : word b'.byte o = w
  elsewhere : ∀ k, k < o ∨ o + 4 ≤ k → b'.byte k = b.byte k

theorem patched_put (b : Block) (o : Nat) (w : UWORD32) : b.Patched o w (b.put o w) :=
  ⟨rfl, rfl, word_put w, fun _ hk => byte_put_of_outside w hk⟩

theorem patched_self (b : Block) (o : Nat) : b.Patched o (word b.byte o) b :=
  ⟨rfl, rfl, rfl, fun _ _ => rfl⟩

end Block

/-! ## The blocks of sections -/

variable {st : Statics} {elf : ELF} {symbols relocs b : Block} {k i : Nat}

theorem block_eq_some (h : elf.block i = some b) : elf.Inside i ∧ elf.sectionData i = some b := by
  rcases ELF.exists_block.mp ⟨b, h, rfl⟩ with ⟨hin, b', hb, he⟩
  exact ⟨hin, he ▸ hb⟩

theorem setData_self (h : elf.block i = some b) : elf.setData i (some b) = elf := by
  rw [ELF.setData, ← (block_eq_some h).2, update_eq_self]

theorem block_setData (h : elf.Inside i) (p : Option Block) : (elf.setData i p).block i = p := by
  show (if elf.Inside i then update elf.sectionData i p i else none) = p
  rw [if_pos h, update_self]

theorem block_setData_of_ne (hne : k ≠ i) (p : Option Block) :
    (elf.setData i p).block k = elf.block k := by
  show (if elf.Inside k then update elf.sectionData i p k else none) = _
  rw [update_of_ne hne, ELF.block]

/-! ## One relocation -/

/-- Entry `i` of `.rel.text` is for a place in the text, and for symbol `k` in one of the
sections. -/
structure RelText (st : Statics) (elf : ELF) (symbols : Block) (k : Nat) (relocs : Block)
    (i : Nat) where
  sh : Elf32_Shdr
  text : Block
  offset : Elf32_Word
  info : Elf32_Word
  shndx : Elf32_Half
  value : Elf32_Word
  shdr_eq : elf.shdr st.textSection.toNat = some sh
  text_eq : elf.block st.textSection.toNat = some text
  not_empty : sh.sh_size ≠ 0#32
  offset_eq : relocs.r_offset i = some offset
  info_eq : relocs.r_info i = some info
  inside : offset.toNat + 4 ≤ text.size
  shndx_eq : symbols.st_shndx k = some shndx
  value_eq : symbols.st_value k = some value
  defined : shndx ≠ SHN_UNDEF ∧ shndx < elf.header.e_shnum

namespace RelText

variable (e : RelText st elf symbols k relocs i)

/-- Where the section of the symbol is. -/
def target : UWORD32 := address (elf.sectionData e.shndx.toNat)

/-- The address of the symbol in its own section. -/
def S : UWORD32 := e.target + e.value

/-- The place. -/
def P : UWORD32 := e.text.addr + e.offset

/-- The word at the place. -/
def A : UWORD32 := word e.text.byte e.offset.toNat

/-- The word that the type of the entry calls for. -/
def required : UWORD32 :=
  if ELF32_R_TYPE e.info = R_386_32 then e.S + e.A
  else if ELF32_R_TYPE e.info = R_386_PC32 then e.S + e.A - e.P
  else e.A

/-- The word at the place becomes the required one, and no other byte is changed. -/
def Relocates (stack : UWORD32) : Prop :=
  ∃ b, relocateSymbol st elf stack symbols k relocs i =
      some (elf.setData st.textSection.toNat (some b)) ∧
    e.text.Patched e.offset.toNat e.required b

theorem readWord_eq : e.text.readWord e.offset.toNat = some e.A := if_pos e.inside

theorem data_eq : elf.data e.shndx.toNat = some (elf.sectionData e.shndx.toNat) :=
  if_pos ⟨(ELF.shdr_eq_some e.shdr_eq).1.1, e.defined.2⟩

/-- The word that is written, or the one that stays. -/
def written : UWORD32 :=
  if ELF32_R_TYPE e.info = R_386_32 then e.S + e.A
  else if ELF32_R_TYPE e.info = R_386_PC32 then e.value - e.offset - 4#32
  else e.A

/-- What `relocateSymbol` does. The number on the stack is not used. -/
theorem relocateSymbol_eq (stack : UWORD32) : ∃ b, relocateSymbol st elf stack symbols k relocs i =
    some (elf.setData st.textSection.toNat (some b)) ∧
      e.text.Patched e.offset.toNat e.written b := by
  unfold relocateSymbol written
  simp only [e.shdr_eq, Option.bind_some, if_neg e.not_empty, e.offset_eq, e.info_eq]
  split
  · rw [e.shndx_eq, Option.bind_some, if_pos e.defined.2, e.data_eq, Option.bind_some, e.value_eq,
      Option.bind_some, e.text_eq, Option.bind_some, e.readWord_eq, Option.bind_some,
      Block.write_eq _ e.inside]
    exact ⟨_, rfl, Block.patched_put _ _ _⟩
  · split
    · rw [e.value_eq, Option.bind_some, e.text_eq, Option.bind_some, Block.write_eq _ e.inside]
      exact ⟨_, rfl, Block.patched_put _ _ _⟩
    · -- there is no rule for the type
      exact ⟨e.text, congrArg some (setData_self e.text_eq).symm, Block.patched_self _ _⟩

theorem written_eq_iff : e.written = e.required ↔
    (ELF32_R_TYPE e.info = R_386_PC32 → e.target + e.A + 4#32 = e.text.addr) := by
  unfold written required
  by_cases habs : ELF32_R_TYPE e.info = R_386_32
  · rw [if_pos habs, if_pos habs, habs]
    exact iff_of_true rfl fun h => absurd h (by decide)
  · rw [if_neg habs, if_neg habs]
    by_cases hpc : ELF32_R_TYPE e.info = R_386_PC32
    · rw [if_pos hpc, if_pos hpc, forall_prop_of_true hpc, S, P]
      grind
    · rw [if_neg hpc, if_neg hpc]
      exact iff_of_true rfl fun h => absurd h hpc

theorem relocates_iff_written (stack : UWORD32) : e.Relocates stack ↔ e.written = e.required := by
  rcases e.relocateSymbol_eq stack with ⟨b, hb, hpatched⟩
  constructor
  · intro h
    rcases h with ⟨b', hb', hpatched'⟩
    have hsame : b' = b := by
      have hdata := congrArg (fun elf => elf.sectionData st.textSection.toNat)
        (Option.some.inj (hb'.symm.trans hb))
      dsimp only [ELF.setData] at hdata
      rw [update_self, update_self] at hdata
      exact Option.some.inj hdata
    subst hsame
    exact hpatched.at_place.symm.trans hpatched'.at_place
  · intro h
    exact ⟨b, hb, h ▸ hpatched⟩

/-- **When a local relocation is right**: always, but for `R_386_PC32`, which is computed as if the
symbol were in the text and the word there were -4. -/
theorem relocates_iff (stack : UWORD32) : e.Relocates stack ↔
    (ELF32_R_TYPE e.info = R_386_PC32 → e.target + e.A + 4#32 = e.text.addr) :=
  (e.relocates_iff_written stack).trans e.written_eq_iff

end RelText

/-- A block at `addr` with these bytes. -/
def blockOf (addr : UWORD32) (bytes : List UBYTE) : Block := ⟨addr, bytes.length, fileOf bytes⟩

/-- Section 1 is the text, with the word -4; section 2 has the data, with a symbol at 4. -/
def textAndData : ELF where
  header := .ofBytes (fileOf (headerBytes 52 3 0))
  arrays := .both
  sections := fun _ => .ofBytes (fun _ => 4#8) 0
  sectionData := fun i =>
    if i = 1 then some (blockOf 0x1000#32 [0xfc, 0xff, 0xff, 0xff])
    else if i = 2 then some (blockOf 0x2000#32 [0, 0, 0, 0, 0, 0, 0, 0]) else none

/-- An entry of the type for the first symbol. -/
def entryOf (type : UBYTE) : Block := blockOf 0x4000#32 [0, 0, 0, 0, type, 0, 0, 0]

/-- It is one for the word of the text and the symbol. -/
def textAndDataEntry (type : UBYTE) (hoffset : (entryOf type).r_offset 0 = some 0#32) :
    RelText ⟨1#32, 0#32, 0#32, 0#32⟩ textAndData
      (blockOf 0x3000#32 [0, 0, 0, 0, 4, 0, 0, 0, 4, 0, 0, 0, 1, 0, 2, 0]) 0 (entryOf type) 0 where
  sh := _
  text := _
  offset := 0#32
  info := _
  shndx := _
  value := _
  shdr_eq := rfl
  text_eq := rfl
  not_empty := by decide
  offset_eq := hoffset
  info_eq := rfl
  inside := by decide
  shndx_eq := rfl
  value_eq := rfl
  defined := by decide

theorem relocates_iff_data : (textAndDataEntry 1#8 rfl).Relocates 0#32 :=
  ((textAndDataEntry 1#8 rfl).relocates_iff 0#32).mpr (by decide)

/-- A relative reference to data gets the distance as if they were in the text. -/
theorem not_relocates_data : ¬ (textAndDataEntry 2#8 rfl).Relocates 0#32 := by
  rw [RelText.relocates_iff_written]
  decide

end Alliance.KL.Exec
