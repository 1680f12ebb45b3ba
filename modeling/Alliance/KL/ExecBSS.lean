import Alliance.KL.ExecReloc

/-!
# Common storage (`loader.c`)

GCC leaves `.bss` empty. `ELFsizeAndAssignMemToBSS` gives each symbol with a section number that
there is none for to `.bss`, and gets a block of their size together. Where in the block a symbol
is, though, is left to its `st_value`, which is not written: so the symbols are apart, and inside of
the block, only if the file has them so (`assigns_iff`).
-/

namespace Alliance.KL.Exec

open Function Lib

/-- An executable with a table of symbols, and a `.bss` that is empty. -/
structure EmptyBSS (st : Statics) (elf : ELF) where
  symbols : Block
  symTab : elf.block st.symTabSection.toNat = some symbols
  symTab_entsize : (elf.sections st.symTabSection.toNat).sh_entsize ≠ 0#32
  symTab_size : Elf32_Sym.size * elf.entries st.symTabSection.toNat ≤ symbols.size
  strTab : elf.Inside (elf.sections st.symTabSection.toNat).sh_link.toNat
  bss : elf.Inside st.bssSection.toNat
  bss_empty : (elf.sections st.bssSection.toNat).sh_size = 0#32
  bss_block : elf.sectionData st.bssSection.toNat = none
  apart : st.bssSection.toNat ≠ st.symTabSection.toNat

/-- The bytes of its section that the entry of the table gives to symbol `k`. -/
def Block.Occupies (symbols : Block) (k o : Nat) : Prop :=
  (word symbols.byte (Elf32_Sym.size * k + 4)).toNat ≤ o ∧
    o < (word symbols.byte (Elf32_Sym.size * k + 4)).toNat +
      (word symbols.byte (Elf32_Sym.size * k + 8)).toNat

namespace EmptyBSS

variable {st : Statics} {elf : ELF} (e : EmptyBSS st elf) (heap : Heap)

/-- How many symbols there are. -/
def entries (_ : EmptyBSS st elf) : Nat := elf.entries st.symTabSection.toNat

def st_value (k : Nat) : Elf32_Word := word e.symbols.byte (Elf32_Sym.size * k + 4)

def st_size (k : Nat) : Elf32_Word := word e.symbols.byte (Elf32_Sym.size * k + 8)

def st_shndx (k : Nat) : Elf32_Half := half e.symbols.byte (Elf32_Sym.size * k + 14)

/-- Symbol `k` goes to `.bss`: it is in no section, and not the name of a file. -/
def Moved (k : Nat) : Prop :=
  elf.header.e_shnum < e.st_shndx k ∧
    ELF32_ST_TYPE (e.symbols.byte (Elf32_Sym.size * k + 12)) ≠ STT_FILE

instance (k : Nat) : Decidable (e.Moved k) := inferInstanceAs (Decidable (_ ∧ _))

/-- What `ELFsizeAndAssignMemToBSS` should do: the symbols that it moves are in `.bss`, inside of the
block there and apart from each other, and the other entries of the table are the same. -/
def Assigns : Prop := ∃ elf' symbols', elfSizeAndAssignMemToBSS st elf heap = some elf' ∧
  elf'.block st.symTabSection.toNat = some symbols' ∧
  (∀ k < e.entries, ¬ e.Moved k → ∀ o, Elf32_Sym.size * k ≤ o → o < Elf32_Sym.size * (k + 1) →
    symbols'.byte o = e.symbols.byte o) ∧
  (∀ k < e.entries, e.Moved k →
    half symbols'.byte (Elf32_Sym.size * k + 14) = st.bssSection.setWidth 16 ∧
    ∀ o, symbols'.Occupies k o →
      ∃ b, elf'.sectionData st.bssSection.toNat = some b ∧ o < b.size) ∧
  ∀ j < e.entries, ∀ k < e.entries, e.Moved j → e.Moved k → j ≠ k →
    ∀ o, symbols'.Occupies j o → ¬ symbols'.Occupies k o

/-- The symbols among the first `n` that are moved, and the sum of their sizes. -/
def moved (n : Nat) : List Nat := (List.range n).filter fun k => e.Moved k

def total (n : Nat) : UWORD32 := ((e.moved n).map e.st_size).foldl (· + ·) 0#32

/-- The file gives no byte to both symbols. -/
def Apart (j k : Nat) : Prop :=
  e.st_size j = 0#32 ∨ e.st_size k = 0#32 ∨
    (e.st_value j).toNat + (e.st_size j).toNat ≤ (e.st_value k).toNat ∨
    (e.st_value k).toNat + (e.st_size k).toNat ≤ (e.st_value j).toNat

instance (j k : Nat) : Decidable (e.Apart j k) := inferInstanceAs (Decidable (_ ∨ _ ∨ _ ∨ _))

/-- The file has the symbols apart, and inside of a block of their size, which there is. -/
def Placed : Prop :=
  (∀ j < e.entries, ∀ k < e.entries, e.Moved j → e.Moved k → j ≠ k → e.Apart j k) ∧
  ∀ k < e.entries, e.Moved k → e.st_size k ≠ 0#32 →
    (e.st_value k).toNat + (e.st_size k).toNat ≤ (e.total e.entries).toNat ∧ heap.block.isSome

/-! ## The loop -/

variable {e} {heap} {ks : List Nat} {b : Block} {k n o : Nat}

/-- The table with the number of `.bss` in these entries. -/
def assign (st : Statics) (ks : List Nat) (b : Block) : Block :=
  ks.foldl (fun b k => b.put (Elf32_Sym.size * k + 14) (st.bssSection.setWidth 16)) b

@[simp]
theorem size_assign : (assign st ks b).size = b.size := by
  induction ks generalizing b with
  | nil => rfl
  | cons k ks ih => exact ih

theorem byte_assign (h : ∀ k ∈ ks, o < Elf32_Sym.size * k + 14 ∨ Elf32_Sym.size * k + 16 ≤ o) :
    (assign st ks b).byte o = b.byte o := by
  induction ks generalizing b with
  | nil => rfl
  | cons k ks ih =>
      have hput : (b.put (Elf32_Sym.size * k + 14) (st.bssSection.setWidth 16)).byte o = b.byte o :=
        Block.byte_put_of_outside _ (h k (.head ks))
      exact (ih fun j hj => h j (.tail k hj)).trans hput

/-- An entry that is not one of them is the same. -/
theorem byte_assign_of_not_mem (hk : k ∉ ks) (ho : Elf32_Sym.size * k ≤ o)
    (ho' : o < Elf32_Sym.size * (k + 1)) : (assign st ks b).byte o = b.byte o := by
  refine byte_assign fun j hj => ?_
  have hne : j ≠ k := fun he => hk (he ▸ hj)
  unfold Elf32_Sym.size at *
  omega

/-- The other fields are the same in all entries. -/
theorem byte_assign_of_field (ho : Elf32_Sym.size * k ≤ o) (ho' : o < Elf32_Sym.size * k + 14) :
    (assign st ks b).byte o = b.byte o := by
  refine byte_assign fun j hj => ?_
  unfold Elf32_Sym.size at *
  omega

theorem half_assign (hk : k ∈ ks) :
    half (assign st ks b).byte (Elf32_Sym.size * k + 14) = st.bssSection.setWidth 16 := by
  induction ks generalizing b with
  | nil => exact absurd hk List.not_mem_nil
  | cons j ks ih =>
      by_cases hrest : k ∈ ks
      · exact ih hrest
      · -- the last entry that was written
        have he := (List.mem_cons.mp hk).resolve_right hrest
        subst he
        have hsame : half (assign st ks
              (b.put (Elf32_Sym.size * k + 14) (st.bssSection.setWidth 16))).byte
              (Elf32_Sym.size * k + 14) =
            half (b.put (Elf32_Sym.size * k + 14) (st.bssSection.setWidth 16)).byte
              (Elf32_Sym.size * k + 14) := by
          refine Block.half_congr fun o ho ho' => byte_assign_of_not_mem hrest (by omega) ?_
          unfold Elf32_Sym.size at *
          omega
        exact hsame.trans (Block.half_put _)

theorem moved_succ : e.moved (n + 1) = if e.Moved n then e.moved n ++ [n] else e.moved n := by
  unfold moved
  rw [List.range_succ, List.filter_append, List.filter_singleton]
  by_cases h : e.Moved n
  · rw [if_pos h, decide_eq_true h]
    rfl
  · rw [if_neg h, decide_eq_false h]
    exact List.append_nil _

theorem total_succ :
    e.total (n + 1) = if e.Moved n then e.total n + e.st_size n else e.total n := by
  unfold total
  rw [moved_succ]
  split
  · rw [List.map_append, List.foldl_append]
    rfl
  · rfl

theorem mem_moved : k ∈ e.moved n ↔ k < n ∧ e.Moved k := by
  rw [moved, List.mem_filter, List.mem_range, decide_eq_true_iff]

/-- The table when the loop has come to entry `n`. -/
def tableAt (e : EmptyBSS st elf) (n : Nat) : Block := assign st (e.moved n) e.symbols

/-- Entry `n` is still as it was. -/
theorem tableAt_fields (hn : n < e.entries) : (e.tableAt n).st_shndx n = some (e.st_shndx n) ∧
    (e.tableAt n).st_info n = some (e.symbols.byte (Elf32_Sym.size * n + 12)) ∧
    (e.tableAt n).st_size n = some (e.st_size n) := by
  have hnot : n ∉ e.moved n := fun h => Nat.lt_irrefl n (mem_moved.mp h).1
  have hsame : ∀ o, Elf32_Sym.size * n ≤ o → o < Elf32_Sym.size * (n + 1) →
      (e.tableAt n).byte o = e.symbols.byte o := fun o => byte_assign_of_not_mem hnot
  have hsize : (e.tableAt n).size = e.symbols.size := size_assign
  have hin : Elf32_Sym.size * (n + 1) ≤ e.symbols.size :=
    Nat.le_trans (Nat.mul_le_mul_left _ hn) e.symTab_size
  unfold Block.st_shndx Block.st_info Block.st_size Block.readHalf Block.readByte Block.readWord
  rw [hsize]
  unfold Elf32_Sym.size at *
  rw [if_pos (by omega), if_pos (by omega), if_pos (by omega)]
  refine ⟨congrArg some ?_, congrArg some ?_, congrArg some ?_⟩
  · exact Block.half_congr fun o ho ho' => hsame o (by omega) (by omega)
  · exact hsame _ (by omega) (by omega)
  · exact Block.word_congr fun o ho ho' => hsame o (by omega) (by omega)

/-- The executable when the loop has come to entry `n`, and the sum of the sizes. -/
def stateAt (e : EmptyBSS st elf) (n : Nat) : ELF × UWORD32 :=
  (elf.setData st.symTabSection.toNat (some (e.tableAt n)), e.total n)

theorem stateAt_zero : e.stateAt 0 = (elf, 0#32) := Prod.ext (setData_self e.symTab) rfl

/-- **One entry** of the table. -/
theorem bssEntry_eq (hn : n < e.entries) :
    bssEntry st (e.stateAt n) n = some (e.stateAt (n + 1)) := by
  rcases tableAt_fields hn with ⟨hshndx, hinfo, hsize⟩
  have hin : Elf32_Sym.size * n + 14 + 16 / 8 ≤ (e.tableAt n).size := by
    have := Nat.le_trans (Nat.mul_le_mul_left Elf32_Sym.size hn) e.symTab_size
    show _ ≤ (assign st (e.moved n) e.symbols).size
    rw [size_assign]
    unfold Elf32_Sym.size at *
    omega
  unfold bssEntry stateAt
  dsimp only
  rw [block_setData (block_eq_some e.symTab).1, Option.bind_some, hshndx, Option.bind_some, hinfo,
    Option.bind_some, hsize, Option.bind_some, Block.write_eq _ hin]
  by_cases hsection : e.st_shndx n ≤ elf.header.e_shnum
  · have hnot : ¬ e.Moved n := fun h => absurd h.1 (BitVec.not_lt.mpr hsection)
    rw [tableAt, tableAt, moved_succ, total_succ, if_neg hnot, if_neg hnot]
    exact if_pos hsection
  · by_cases hfile : ELF32_ST_TYPE (e.symbols.byte (Elf32_Sym.size * n + 12)) = STT_FILE
    · have hnot : ¬ e.Moved n := fun h => h.2 hfile
      rw [tableAt, tableAt, moved_succ, total_succ, if_neg hnot, if_neg hnot]
      exact (if_neg hsection).trans (if_pos hfile)
    · have hmoved : e.Moved n := ⟨BitVec.not_le.mp hsection, hfile⟩
      have htable : e.tableAt (n + 1) =
          (e.tableAt n).put (Elf32_Sym.size * n + 14) (st.bssSection.setWidth 16) := by
        rw [tableAt, moved_succ, if_pos hmoved]
        exact List.foldl_append
      rw [htable, total_succ, if_pos hmoved, Option.map_some]
      refine (if_neg hsection).trans ((if_neg hfile).trans ?_)
      simp only [ELF.setData, update_idem]

/-- **What the function does.** -/
theorem elfSizeAndAssignMemToBSS_eq (e : EmptyBSS st elf) (heap : Heap) :
    elfSizeAndAssignMemToBSS st elf heap = some
      (if e.total e.entries = 0#32 then (e.stateAt e.entries).1
      else (e.stateAt e.entries).1.assignBSS st.bssSection.toNat (e.total e.entries) heap) := by
  have hfold := foldlM_range fun n hn => bssEntry_eq (e := e) hn
  rw [stateAt_zero] at hfold
  unfold elfSizeAndAssignMemToBSS
  rw [ELF.shdr, if_pos (block_eq_some e.symTab).1, Option.bind_some, if_neg e.symTab_entsize,
    if_neg (not_not_intro e.strTab)]
  refine (congrArg (Option.bind · _) hfold).trans ?_
  rw [Option.bind_some]
  dsimp only [stateAt]
  split
  · rfl
  · exact if_neg (not_not_intro e.bss)

/-- The executable afterwards. -/
def after (e : EmptyBSS st elf) (heap : Heap) : ELF :=
  if e.total e.entries = 0#32 then (e.stateAt e.entries).1
  else (e.stateAt e.entries).1.assignBSS st.bssSection.toNat (e.total e.entries) heap

theorem block_after :
    (e.after heap).block st.symTabSection.toNat = some (e.tableAt e.entries) := by
  have hstate := block_setData (block_eq_some e.symTab).1 (some (e.tableAt e.entries))
  unfold after
  split
  · exact hstate
  · exact (block_setData_of_ne (Ne.symm e.apart) _).trans hstate

theorem sectionData_after : (e.after heap).sectionData st.bssSection.toNat =
    if e.total e.entries = 0#32 then none else heap.malloc (e.total e.entries) := by
  unfold after
  split
  · exact (update_of_ne e.apart _ _).trans e.bss_block
  · exact update_self _ _ _

theorem occupies_tableAt : (e.tableAt n).Occupies k o ↔
    (e.st_value k).toNat ≤ o ∧ o < (e.st_value k).toNat + (e.st_size k).toNat := by
  have hvalue : word (e.tableAt n).byte (Elf32_Sym.size * k + 4) = e.st_value k :=
    Block.word_congr fun o ho ho' => byte_assign_of_field (k := k) (by omega) (by omega)
  have hsize : word (e.tableAt n).byte (Elf32_Sym.size * k + 8) = e.st_size k :=
    Block.word_congr fun o ho ho' => byte_assign_of_field (k := k) (by omega) (by omega)
  rw [Block.Occupies, hvalue, hsize]

/-! ## Ranges -/

theorem apart_iff {v s w t : Nat} : (∀ o, v ≤ o ∧ o < v + s → ¬ (w ≤ o ∧ o < w + t)) ↔
    s = 0 ∨ t = 0 ∨ v + s ≤ w ∨ w + t ≤ v := by
  constructor
  · intro h
    have hmax := h (max v w)
    omega
  · intro h o hv hw
    omega

/-- A range is in the block for `.bss`. -/
theorem inside_iff {total : UWORD32} {v s : Nat} :
    (∀ o, v ≤ o ∧ o < v + s →
      ∃ b, (if total = 0#32 then none else heap.malloc total) = some b ∧ o < b.size) ↔
    (s ≠ 0 → v + s ≤ total.toNat ∧ heap.block.isSome) := by
  unfold Heap.malloc
  constructor
  · intro h hs
    rcases h (v + s - 1) (by omega) with ⟨b, hb, hlt⟩
    split at hb
    · exact absurd hb nofun
    · rcases Option.map_eq_some_iff.mp hb with ⟨r, hr, rfl⟩
      dsimp only at hlt
      exact ⟨by omega, Option.isSome_of_eq_some hr⟩
  · intro h o ho
    rcases h (by omega) with ⟨hle, hsome⟩
    rcases Option.isSome_iff_exists.mp hsome with ⟨r, hr⟩
    have hne : total ≠ 0#32 := by
      intro he
      rw [he] at hle
      exact absurd hle (by simp; omega)
    rw [if_neg hne, hr]
    exact ⟨_, rfl, by dsimp only; omega⟩

theorem toNat_st_size (k : Nat) : (e.st_size k).toNat = 0 ↔ e.st_size k = 0#32 :=
  BitVec.toNat_inj (y := 0#32)

theorem Assigns.placed (h : e.Assigns heap) : e.Placed heap := by
  rcases h with ⟨elf', symbols', hs, htable, -, hinside, hapart⟩
  obtain rfl : elf' = e.after heap :=
    Option.some.inj (hs.symm.trans (e.elfSizeAndAssignMemToBSS_eq heap))
  obtain rfl : symbols' = e.tableAt e.entries := Option.some.inj (htable.symm.trans block_after)
  simp only [occupies_tableAt] at hinside hapart
  refine ⟨fun j hj k hk hmj hmk hne => ?_, fun k hk hmoved hsize => ?_⟩
  · rw [Apart, ← toNat_st_size, ← toNat_st_size]
    exact apart_iff.mp (hapart j hj k hk hmj hmk hne)
  · have hrange := (hinside k hk hmoved).2
    rw [sectionData_after] at hrange
    exact inside_iff.mp hrange fun h => hsize ((toNat_st_size k).mp h)

theorem Placed.assigns (h : e.Placed heap) : e.Assigns heap := by
  refine ⟨e.after heap, e.tableAt e.entries, e.elfSizeAndAssignMemToBSS_eq heap, block_after,
    fun k _ hnot o => ?_, fun k hk hmoved => ?_, fun j hj k hk hmj hmk hne => ?_⟩
  · exact byte_assign_of_not_mem fun hmem => hnot (mem_moved.mp hmem).2
  · refine ⟨half_assign (mem_moved.mpr ⟨hk, hmoved⟩), ?_⟩
    simp only [occupies_tableAt]
    rw [sectionData_after]
    exact inside_iff.mpr fun hsize => h.2 k hk hmoved fun h => hsize ((toNat_st_size k).mpr h)
  · simp only [occupies_tableAt]
    have happart := h.1 j hj k hk hmj hmk hne
    rw [Apart, ← toNat_st_size, ← toNat_st_size] at happart
    exact apart_iff.mpr happart

/-- **When common storage is disjoint.** -/
theorem assigns_iff (e : EmptyBSS st elf) (heap : Heap) : e.Assigns heap ↔ e.Placed heap :=
  ⟨Assigns.placed, Placed.assigns⟩

end EmptyBSS

/-- The first entry of a table and two variables of four bytes, at these places. -/
def twoVariables (x y : UBYTE) : Block :=
  blockOf 0x1000#32 (List.replicate 16 0#8 ++
    [1, 0, 0, 0, x, 0, 0, 0, 4, 0, 0, 0, 0x11, 0, 0xf2, 0xff,
      3, 0, 0, 0, y, 0, 0, 0, 4, 0, 0, 0, 0x11, 0, 0xf2, 0xff])

/-- An executable with this table, and a `.bss`. -/
def withVariables (symbols : Block) : ELF where
  header := .ofBytes (fileOf (headerBytes 52 3 0))
  arrays := .both
  sections := fun i =>
    if i = 1 then ⟨0#32, SHT_NOBITS, SHF_ALLOC, 0#32, 0#32, 0#32, 0#32⟩
    else if i = 2 then ⟨0#32, SHT_SYMTAB, 0#32, 0#32, 48#32, 0#32, 16#32⟩
    else ⟨0#32, SHT_STRTAB, 0#32, 0#32, 0#32, 0#32, 0#32⟩
  sectionData := fun i => if i = 2 then some symbols else none

theorem e_shnum_withVariables (symbols : Block) : (withVariables symbols).e_shnum = 3 :=
  show (Elf32_Ehdr.ofBytes (fileOf (headerBytes 52 3 0))).e_shnum.toNat = 3 by decide

def variablesEmpty (symbols : Block) (hsize : 48 ≤ symbols.size) :
    EmptyBSS ⟨0#32, 1#32, 2#32, NOT_LOADED⟩ (withVariables symbols) where
  symbols := symbols
  symTab := rfl
  symTab_entsize := nofun
  symTab_size := by
    show Elf32_Sym.size * (48#32 / 16#32).toNat ≤ symbols.size
    exact hsize
  strTab := ⟨rfl, e_shnum_withVariables symbols ▸ Nat.zero_lt_succ 2⟩
  bss := ⟨rfl, e_shnum_withVariables symbols ▸ Nat.lt_add_left 1 (Nat.lt_succ_self 1)⟩
  bss_empty := rfl
  bss_block := rfl
  apart := by decide

theorem assigns_iff_apart : (variablesEmpty (twoVariables 0 4) (by decide)).Assigns (memoryAt 8) :=
  (EmptyBSS.assigns_iff _ _).mpr ⟨by decide, by decide⟩

/-- Two variables that are to be aligned are at the same place, and the last bytes of it are
outside of the block. -/
theorem not_assigns_aligned :
    ¬ (variablesEmpty (twoVariables 4 4) (by decide)).Assigns (memoryAt 8) :=
  fun h => absurd (h.placed.1 1 (by decide) 2 (by decide)) (by decide)

end Alliance.KL.Exec
