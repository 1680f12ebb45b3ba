import Alliance.KL.ExecReloc
import Alliance.Lib.Groups

/-!
# External references (`linker.c`)

`ELFsetSymbols` goes through the symbols without a type, the list of named addresses and the entries
of `.rel.text`, and patches an entry whenever its symbol has the name offset of the first one. So an
entry is patched once for each such symbol and each element of the list with its name, whether
or not its own symbol is undefined; and what is written is right for the type of the entry only if
the word there makes it so (`setsSymbols_iff`).
-/

namespace Alliance.KL.Exec

open Function Lib

/-- The comparison of what is at `p` with a string. -/
theorem klStringEqual_eq {p s : List UBYTE} (hp : 0#8 ∈ p) (hs : ∀ c ∈ s, c ≠ 0#8) :
    klStringEqual p (s ++ [0#8]) = some (decide (p.takeWhile (· ≠ 0#8) = s)) := by
  induction p generalizing s with
  | nil => exact absurd hp List.not_mem_nil
  | cons c p ih =>
      by_cases hc : c = 0#8
      · -- the string at `p` ends here
        subst hc
        rw [List.takeWhile_cons_of_neg (by simp)]
        cases s with
        | nil => rfl
        | cons d s => exact if_pos (Ne.symm (hs d (.head s)))
      · rw [List.takeWhile_cons_of_pos (by simpa using hc)]
        cases s with
        | nil => exact if_pos hc
        | cons d s =>
            by_cases hd : c = d
            · subst hd
              have hrest := ih ((List.mem_cons.mp hp).resolve_left (Ne.symm hc))
                fun x hx => hs x (.tail c hx)
              simp only [List.cons_append, klStringEqual, ne_eq, not_true_eq_false, if_false,
                if_neg hc, hrest, List.cons.injEq, true_and]
            · simp only [List.cons_append, klStringEqual, ne_eq, hd, not_false_eq_true, if_true,
                List.cons.injEq, false_and, decide_false]

/-- How many entries `.rel.text` has, if there is one. -/
def ELF.relocations (elf : ELF) (st : Statics) : Nat :=
  if st.relocTableSection = NOT_LOADED then 0 else elf.entries st.relocTableSection.toNat

/-- An executable whose tables for symbols, names and relocations are loaded, and whose entries of
`.rel.text` are for places of their own in the text. -/
structure Linkable (st : Statics) (elf : ELF) where
  symbols : Block
  names : Block
  relocs : Block
  text : Block
  symTab : elf.block st.symTabSection.toNat = some symbols
  symTab_entsize : (elf.sections st.symTabSection.toNat).sh_entsize ≠ 0#32
  symTab_size : Elf32_Sym.size * elf.entries st.symTabSection.toNat ≤ symbols.size
  strTab : elf.block (elf.sections st.symTabSection.toNat).sh_link.toNat = some names
  strTab_ends : ∀ k < elf.entries st.symTabSection.toNat,
    0#8 ∈ names.bytesFrom (word symbols.byte (Elf32_Sym.size * k)).toNat
  relTab : st.relocTableSection ≠ NOT_LOADED → elf.Inside st.relocTableSection.toNat ∧
    (elf.sections st.relocTableSection.toNat).sh_entsize ≠ 0#32 ∧
    (elf.sections st.relocTableSection.toNat).sh_link = st.symTabSection
  relTab_block : 0 < elf.relocations st → elf.block st.relocTableSection.toNat = some relocs
  relTab_size : Elf32_Rel.size * elf.relocations st ≤ relocs.size
  relTab_symbol : ∀ i < elf.relocations st,
    (ELF32_R_SYM (word relocs.byte (Elf32_Rel.size * i + 4))).toNat <
      elf.entries st.symTabSection.toNat
  text_block : 0 < elf.relocations st → elf.block st.textSection.toNat = some text
  /-- The text is none of the tables. -/
  text_apart : 0 < elf.relocations st → st.textSection.toNat ≠ st.symTabSection.toNat ∧
    st.textSection.toNat ≠ (elf.sections st.symTabSection.toNat).sh_link.toNat ∧
    st.textSection.toNat ≠ st.relocTableSection.toNat
  place : ∀ i < elf.relocations st,
    (word relocs.byte (Elf32_Rel.size * i)).toNat + 4 ≤ text.size
  places_apart : ∀ i < elf.relocations st, ∀ j < elf.relocations st, i ≠ j →
    (word relocs.byte (Elf32_Rel.size * i)).toNat + 4 ≤
        (word relocs.byte (Elf32_Rel.size * j)).toNat ∨
      (word relocs.byte (Elf32_Rel.size * j)).toNat + 4 ≤
        (word relocs.byte (Elf32_Rel.size * i)).toNat

namespace Linkable

variable {st : Statics} {elf : ELF} (l : Linkable st elf) (symbol : List (CString × UWORD32))

/-! ## What the tables say -/

def st_name (k : Nat) : Elf32_Word := word l.symbols.byte (Elf32_Sym.size * k)

/-- Symbol `k` is undefined. -/
def Undefined (k : Nat) : Prop := half l.symbols.byte (Elf32_Sym.size * k + 14) = SHN_UNDEF

def NoType (k : Nat) : Prop :=
  ELF32_ST_TYPE (l.symbols.byte (Elf32_Sym.size * k + 12)) = STT_NOTYPE

def name (k : Nat) : List UBYTE :=
  (l.names.bytesFrom (l.st_name k).toNat).takeWhile (· ≠ 0#8)

def offset (i : Nat) : Nat := (word l.relocs.byte (Elf32_Rel.size * i)).toNat

def info (i : Nat) : Elf32_Word := word l.relocs.byte (Elf32_Rel.size * i + 4)

/-- The symbol that entry `i` is for. -/
def symbolOf (i : Nat) : Nat := (ELF32_R_SYM (l.info i)).toNat

/-- The place of entry `i`, and the word there. -/
def P (i : Nat) : UWORD32 := l.text.addr + word l.relocs.byte (Elf32_Rel.size * i)

def A (i : Nat) : UWORD32 := word l.text.byte (l.offset i)

instance (k : Nat) : Decidable (l.Undefined k) := inferInstanceAs (Decidable (_ = _))

instance (k : Nat) : Decidable (l.NoType k) := inferInstanceAs (Decidable (_ = _))

/-- The elements of the list with the name of the symbol of entry `i`. -/
def named (i : Nat) : List (CString × UWORD32) :=
  symbol.filter fun p => p.1.chars = l.name (l.symbolOf i)

/-- What entry `i` calls for, with an address of its symbol. -/
def value (i : Nat) (S : UWORD32) : Option UWORD32 :=
  if ELF32_R_TYPE (l.info i) = R_386_32 then some (S + l.A i)
  else if ELF32_R_TYPE (l.info i) = R_386_PC32 then some (S + l.A i - l.P i)
  else none

/-- The patch of entry `i`, if its symbol is undefined and in the list. -/
def requiredOf (i : Nat) : List (Nat × UWORD32) :=
  if l.Undefined (l.symbolOf i) then
    (((l.named symbol i).head?.bind fun p => l.value i p.2).map fun v => (i, v)).toList
  else []

/-- All patches that should be made. -/
def required : List (Nat × UWORD32) :=
  (List.range (elf.relocations st)).flatMap fun i => l.requiredOf symbol i

/-! ## What is patched -/

/-- The patch of entry `i` for symbol `k` and an element of the list. -/
def link (k : Nat) (p : CString × UWORD32) (i : Nat) : List (Nat × UWORD32) :=
  if l.NoType k ∧ p.1.chars = l.name k ∧ l.st_name (l.symbolOf i) = l.st_name k then
    [(i, p.2 - l.P i - 4#32)]
  else []

/-- All patches that are made, one after the other. -/
def links : List (Nat × UWORD32) :=
  (List.range (elf.entries st.symTabSection.toNat)).flatMap fun k => symbol.flatMap fun p =>
    (List.range (elf.relocations st)).flatMap fun i => l.link k p i

/-- The text after some patches. -/
def patchText (ps : List (Nat × UWORD32)) (b : Block) : Block :=
  ps.foldl (fun b p => b.put (l.offset p.1) p.2) b

/-- The executable after them. Without entries there is none. -/
def patch (ps : List (Nat × UWORD32)) : ELF :=
  if ps = [] ∨ elf.relocations st = 0 then elf
  else elf.setData st.textSection.toNat (some (l.patchText ps l.text))

/-- The elements of `ps` are in their places, and nothing else is changed. -/
def Patched (ps : List (Nat × UWORD32)) (elf' : ELF) : Prop :=
  (ps = [] ∧ elf' = elf) ∨ ∃ b,
    elf' = elf.setData st.textSection.toNat (some b) ∧ b.addr = l.text.addr ∧
    b.size = l.text.size ∧ (∀ p ∈ ps, word b.byte (l.offset p.1) = p.2) ∧
    ∀ k, (∀ p ∈ ps, k < l.offset p.1 ∨ l.offset p.1 + 4 ≤ k) → b.byte k = l.text.byte k

/-- What `ELFsetSymbols` should do: the patches it makes are the required ones, each made once, and
it returns how many they are. -/
def SetsSymbols : Prop := ∃ elf',
  elfSetSymbols st elf symbol = some (elf', (l.required symbol).length) ∧
    (l.links symbol).Perm (l.required symbol) ∧ l.Patched (l.required symbol) elf'

/-! ## When these are the required patches -/

/-- The symbols without a type with the name offset of the symbol of entry `i`. -/
def sameName (i : Nat) : List Nat :=
  (List.range (elf.entries st.symTabSection.toNat)).filter fun k =>
    l.NoType k ∧ l.st_name (l.symbolOf i) = l.st_name k

/-- Entry `i` is one to be patched. -/
def Refers (i : Nat) : Prop :=
  l.Undefined (l.symbolOf i) ∧ l.named symbol i ≠ [] ∧
    (ELF32_R_TYPE (l.info i) = R_386_32 ∨ ELF32_R_TYPE (l.info i) = R_386_PC32)

instance (i : Nat) : Decidable (l.Refers symbol i) := inferInstanceAs (Decidable (_ ∧ _ ∧ _))

/-- An entry to be patched has one symbol and one element of the list, and a word that makes
an absolute address of what is written, or a relative one; another entry has none of both. -/
def LinkedOnce (i : Nat) : Prop :=
  if l.Refers symbol i then
    (l.sameName i).length = 1 ∧ (l.named symbol i).length = 1 ∧
      l.A i = if ELF32_R_TYPE (l.info i) = R_386_32 then - l.P i - 4#32 else -4#32
  else l.sameName i = [] ∨ l.named symbol i = []

instance (i : Nat) : Decidable (l.LinkedOnce symbol i) :=
  inferInstanceAs (Decidable (if l.Refers symbol i then
    (l.sameName i).length = 1 ∧ (l.named symbol i).length = 1 ∧
      l.A i = if ELF32_R_TYPE (l.info i) = R_386_32 then - l.P i - 4#32 else -4#32
    else l.sameName i = [] ∨ l.named symbol i = []))

/-! ## Without a table of relocations -/

/-- No symbol without a type has a name of the list. -/
def Unmatched : Prop := ∀ k ∈ List.range (elf.entries st.symTabSection.toNat),
  l.NoType k → ∀ p ∈ symbol, p.1.chars ≠ l.name k

instance : Decidable (l.Unmatched symbol) :=
  inferInstanceAs (Decidable (∀ k ∈ List.range (elf.entries st.symTabSection.toNat),
    l.NoType k → ∀ p ∈ symbol, p.1.chars ≠ l.name k))

/-! ## What one patch does -/

variable {l} {symbol} {ps qs : List (Nat × UWORD32)} {b : Block} {k i j : Nat}
  {p : CString × UWORD32}

theorem patchText_append : l.patchText (ps ++ qs) b = l.patchText qs (l.patchText ps b) :=
  List.foldl_append

@[simp]
theorem addr_patchText : (l.patchText ps b).addr = b.addr := by
  induction ps generalizing b with
  | nil => rfl
  | cons p ps ih => exact ih

@[simp]
theorem size_patchText : (l.patchText ps b).size = b.size := by
  induction ps generalizing b with
  | nil => rfl
  | cons p ps ih => exact ih

theorem patch_nil : l.patch [] = elf := if_pos (.inl rfl)

theorem patch_eq (h : 0 < elf.relocations st) (ps : List (Nat × UWORD32)) :
    l.patch ps = elf.setData st.textSection.toNat (some (l.patchText ps l.text)) := by
  unfold patch
  split
  · next hnone =>
    rw [hnone.resolve_right (Nat.ne_of_gt h)]
    exact (setData_self (l.text_block h)).symm
  · rfl

theorem inside_patch : (l.patch ps).Inside i ↔ elf.Inside i := by
  unfold patch
  split
  · exact Iff.rfl
  · exact Iff.rfl

theorem shdr_patch : (l.patch ps).shdr i = elf.shdr i := by
  unfold patch
  split
  · rfl
  · rfl

/-- What is not the text keeps its block. -/
theorem block_patch (hne : 0 < elf.relocations st → i ≠ st.textSection.toNat) :
    (l.patch ps).block i = elf.block i := by
  unfold patch
  split
  · rfl
  · next hsome =>
    exact block_setData_of_ne (hne (Nat.pos_of_ne_zero fun h => hsome (.inr h))) _

theorem block_patch_text (h : 0 < elf.relocations st) :
    (l.patch ps).block st.textSection.toNat = some (l.patchText ps l.text) := by
  rw [patch_eq h, block_setData (block_eq_some (l.text_block h)).1]

theorem patch_append_singleton (h : 0 < elf.relocations st) (ps : List (Nat × UWORD32))
    (p : Nat × UWORD32) : l.patch (ps ++ [p]) = (l.patch ps).setData st.textSection.toNat
      (some ((l.patchText ps l.text).put (l.offset p.1) p.2)) := by
  have hput : l.patchText (ps ++ [p]) l.text = (l.patchText ps l.text).put (l.offset p.1) p.2 :=
    patchText_append
  simp only [patch_eq h, hput, ELF.setData, update_idem]

/-- The tables are not changed. -/
theorem block_patch_symTab : (l.patch ps).block st.symTabSection.toNat = some l.symbols :=
  (block_patch fun h => (l.text_apart h).1.symm).trans l.symTab

theorem block_patch_strTab :
    (l.patch ps).block (elf.sections st.symTabSection.toNat).sh_link.toNat = some l.names :=
  (block_patch fun h => (l.text_apart h).2.1.symm).trans l.strTab

theorem block_patch_relTab (h : 0 < elf.relocations st) :
    (l.patch ps).block st.relocTableSection.toNat = some l.relocs :=
  (block_patch fun h => (l.text_apart h).2.2.symm).trans (l.relTab_block h)

/-! ## The loops -/

theorem symbols_st_name (hk : k < elf.entries st.symTabSection.toNat) :
    l.symbols.st_name k = some (l.st_name k) := by
  have hsize := l.symTab_size
  have : Elf32_Sym.size * (k + 1) ≤ Elf32_Sym.size * elf.entries st.symTabSection.toNat :=
    Nat.mul_le_mul_left _ hk
  unfold Elf32_Sym.size at this hsize
  exact if_pos (by unfold Elf32_Sym.size; omega)

theorem symbols_st_info (hk : k < elf.entries st.symTabSection.toNat) :
    l.symbols.st_info k = some (l.symbols.byte (Elf32_Sym.size * k + 12)) := by
  have hsize := l.symTab_size
  have : Elf32_Sym.size * (k + 1) ≤ Elf32_Sym.size * elf.entries st.symTabSection.toNat :=
    Nat.mul_le_mul_left _ hk
  unfold Elf32_Sym.size at this hsize
  exact if_pos (by unfold Elf32_Sym.size; omega)

theorem relocs_r (hi : i < elf.relocations st) :
    l.relocs.r_offset i = some (word l.relocs.byte (Elf32_Rel.size * i)) ∧
      l.relocs.r_info i = some (l.info i) := by
  have hsize := l.relTab_size
  have : Elf32_Rel.size * (i + 1) ≤ Elf32_Rel.size * elf.relocations st :=
    Nat.mul_le_mul_left _ hi
  unfold Elf32_Rel.size at this hsize
  exact ⟨if_pos (by unfold Elf32_Rel.size; omega), if_pos (by unfold Elf32_Rel.size; omega)⟩

/-- There are entries, so the tables are there. -/
theorem reloc_loaded (h : 0 < elf.relocations st) : st.relocTableSection ≠ NOT_LOADED := by
  intro hnot
  rw [ELF.relocations, if_pos hnot] at h
  exact absurd h (Nat.lt_irrefl 0)

/-- **One entry**: it is patched, or left alone. -/
theorem linkEntry_eq (hk : k < elf.entries st.symTabSection.toNat) (hi : i < elf.relocations st)
    (htype : l.NoType k) (hname : p.1.chars = l.name k) :
    linkEntry st st.symTabSection.toNat k p.2 (l.patch (ps ++ qs), qs.length) i =
      some (l.patch (ps ++ (qs ++ l.link k p i)), (qs ++ l.link k p i).length) := by
  have hpos : 0 < elf.relocations st := Nat.zero_lt_of_lt hi
  unfold linkEntry
  simp only [block_patch_relTab hpos, block_patch_symTab, block_patch_text hpos,
    Option.bind_some, (relocs_r hi).1, (relocs_r hi).2]
  rw [show l.symbols.st_name (ELF32_R_SYM (l.info i)).toNat = some (l.st_name (l.symbolOf i)) from
    symbols_st_name (l.relTab_symbol i hi), symbols_st_name hk, Option.bind_some, Option.bind_some]
  unfold link
  by_cases he : l.st_name (l.symbolOf i) = l.st_name k
  · rw [if_neg (not_not_intro he), if_pos ⟨htype, hname, he⟩]
    rw [Block.write_eq _ (by rw [size_patchText]; exact l.place i hi), Option.map_some,
      ← List.append_assoc, patch_append_singleton hpos, addr_patchText, List.length_append]
    rfl
  · rw [if_pos he, if_neg (fun h => he h.2.2), List.append_nil]

theorem relocations_eq (h : st.relocTableSection ≠ NOT_LOADED) :
    elf.relocations st = elf.entries st.relocTableSection.toNat := if_neg h

/-- The entries, for a symbol and an element of the list with its name. -/
theorem linkToExternalReference_eq (hloaded : st.relocTableSection ≠ NOT_LOADED)
    (hk : k < elf.entries st.symTabSection.toNat) (htype : l.NoType k)
    (hname : p.1.chars = l.name k) :
    linkToExternalReference st (l.patch ps) k p.2 =
      some (l.patch (ps ++ (List.range (elf.relocations st)).flatMap (l.link k p)),
        ((List.range (elf.relocations st)).flatMap (l.link k p)).length) := by
  rcases l.relTab hloaded with ⟨hin, hentsize, hlink⟩
  have hstep : ∀ i ∈ List.range (elf.relocations st), ∀ qs,
      linkEntry st st.symTabSection.toNat k p.2 (l.patch (ps ++ qs), qs.length) i =
        some (l.patch (ps ++ (qs ++ l.link k p i)), (qs ++ l.link k p i).length) :=
    fun i hi qs => linkEntry_eq hk (List.mem_range.mp hi) htype hname
  have hfold := foldlM_appends hstep []
  rw [List.append_nil, List.nil_append] at hfold
  unfold linkToExternalReference
  rw [shdr_patch, ELF.shdr, if_pos hin, Option.bind_some, hlink,
    if_neg (not_not_intro (inside_patch.mpr (block_eq_some l.symTab).1)), if_neg hentsize]
  rwa [relocations_eq hloaded] at hfold ⊢

theorem klStringEqual_name (hk : k < elf.entries st.symTabSection.toNat) (s : CString) :
    klStringEqual (l.names.bytesFrom (l.st_name k).toNat) (s.chars ++ [0#8]) =
      some (decide (s.chars = l.name k)) := by
  have hends : 0#8 ∈ l.names.bytesFrom (l.st_name k).toNat := l.strTab_ends k hk
  rw [klStringEqual_eq hends s.nonzero]
  exact congrArg some (decide_eq_decide.mpr eq_comm)

/-- One of the named addresses, for a symbol without a type. -/
theorem setSymbol_eq (hloaded : st.relocTableSection ≠ NOT_LOADED)
    (hk : k < elf.entries st.symTabSection.toNat) (htype : l.NoType k) :
    setSymbol st (elf.sections st.symTabSection.toNat).sh_link.toNat k (l.st_name k)
        (l.patch ps, ps.length) p =
      some (l.patch (ps ++ (List.range (elf.relocations st)).flatMap (l.link k p)),
        (ps ++ (List.range (elf.relocations st)).flatMap (l.link k p)).length) := by
  unfold setSymbol
  dsimp only
  rw [block_patch_strTab, Option.bind_some, klStringEqual_name hk, Option.bind_some]
  by_cases hname : p.1.chars = l.name k
  · rw [if_pos (decide_eq_true hname), linkToExternalReference_eq hloaded hk htype hname,
      Option.map_some, List.length_append]
  · have hnone : (List.range (elf.relocations st)).flatMap (l.link k p) = [] :=
      List.flatMap_eq_nil_iff.mpr fun i _ => if_neg fun h => hname h.2.1
    rw [if_neg (fun h => hname (of_decide_eq_true h)), hnone, List.append_nil]

/-- The patches for symbol `k`. -/
def linksOfSymbol (l : Linkable st elf) (symbol : List (CString × UWORD32)) (k : Nat) :
    List (Nat × UWORD32) :=
  symbol.flatMap fun p => (List.range (elf.relocations st)).flatMap fun i => l.link k p i

theorem setEntry_eq (hloaded : st.relocTableSection ≠ NOT_LOADED)
    (hk : k < elf.entries st.symTabSection.toNat) :
    setEntry st (elf.sections st.symTabSection.toNat).sh_link.toNat symbol
        (l.patch ps, ps.length) k =
      some (l.patch (ps ++ l.linksOfSymbol symbol k), (ps ++ l.linksOfSymbol symbol k).length) := by
  unfold setEntry
  dsimp only
  rw [block_patch_symTab, Option.bind_some, symbols_st_info hk, Option.bind_some]
  by_cases htype : ELF32_ST_TYPE (l.symbols.byte (Elf32_Sym.size * k + 12)) = STT_NOTYPE
  · rw [if_neg (not_not_intro htype), symbols_st_name hk, Option.bind_some]
    have hstep : ∀ p ∈ symbol, ∀ ps,
        setSymbol st (elf.sections st.symTabSection.toNat).sh_link.toNat k (l.st_name k)
            (l.patch ps, ps.length) p =
          some (l.patch (ps ++ (List.range (elf.relocations st)).flatMap (l.link k p)),
            (ps ++ (List.range (elf.relocations st)).flatMap (l.link k p)).length) :=
      fun p _ ps => setSymbol_eq hloaded hk htype
    exact foldlM_appends hstep ps
  · have hnone : l.linksOfSymbol symbol k = [] :=
      List.flatMap_eq_nil_iff.mpr fun p _ => List.flatMap_eq_nil_iff.mpr fun i _ =>
        if_neg fun h => htype h.1
    rw [if_pos htype, hnone, List.append_nil]

/-- **What `ELFsetSymbols` does**, if there is a table of relocations. -/
theorem elfSetSymbols_eq (l : Linkable st elf) (symbol : List (CString × UWORD32))
    (hloaded : st.relocTableSection ≠ NOT_LOADED) :
    elfSetSymbols st elf symbol = some (l.patch (l.links symbol), (l.links symbol).length) := by
  have hstep : ∀ k ∈ List.range (elf.entries st.symTabSection.toNat), ∀ ps,
      setEntry st (elf.sections st.symTabSection.toNat).sh_link.toNat symbol
          (l.patch ps, ps.length) k =
        some (l.patch (ps ++ l.linksOfSymbol symbol k),
          (ps ++ l.linksOfSymbol symbol k).length) :=
    fun k hk ps => setEntry_eq hloaded (List.mem_range.mp hk)
  have hfold := foldlM_appends hstep []
  unfold elfSetSymbols
  rw [ELF.shdr, if_pos (block_eq_some l.symTab).1, Option.bind_some,
    if_neg (not_not_intro (block_eq_some l.strTab).1), if_neg l.symTab_entsize]
  rw [patch_nil] at hfold
  exact hfold

/-- A number that stands for no section is none of an element of the arrays. -/
theorem linkToExternalReference_none {addr : UWORD32} (h : st.relocTableSection = NOT_LOADED) :
    linkToExternalReference st elf k addr = none := by
  have hnot : ¬ elf.Inside st.relocTableSection.toNat := by
    intro hin
    have hlt := hin.2
    rw [h] at hlt
    exact absurd hlt (Nat.not_lt.mpr (Nat.le_of_lt_succ elf.header.e_shnum.isLt))
  unfold linkToExternalReference
  rw [ELF.shdr, if_neg hnot]
  rfl

theorem elfSetSymbols_not_loaded (l : Linkable st elf) (symbol : List (CString × UWORD32))
    (h : st.relocTableSection = NOT_LOADED) :
    elfSetSymbols st elf symbol = if l.Unmatched symbol then some (elf, 0) else none := by
  have hsymbol : ∀ k < elf.entries st.symTabSection.toNat, ∀ p : CString × UWORD32,
      setSymbol st (elf.sections st.symTabSection.toNat).sh_link.toNat k (l.st_name k) (elf, 0) p =
        if p.1.chars ≠ l.name k then some (elf, 0) else none := by
    intro k hk p
    unfold setSymbol
    dsimp only
    rw [l.strTab, Option.bind_some, klStringEqual_name hk, Option.bind_some]
    by_cases hname : p.1.chars = l.name k
    · rw [if_pos (decide_eq_true hname), if_neg (not_not_intro hname),
        linkToExternalReference_none h]
      rfl
    · rw [if_neg fun h => hname (of_decide_eq_true h), if_pos hname]
  have hentry : ∀ k ∈ List.range (elf.entries st.symTabSection.toNat),
      setEntry st (elf.sections st.symTabSection.toNat).sh_link.toNat symbol (elf, 0) k =
        if l.NoType k → ∀ p ∈ symbol, p.1.chars ≠ l.name k then some (elf, 0) else none := by
    intro k hk
    have hk := List.mem_range.mp hk
    unfold setEntry
    dsimp only
    rw [l.symTab, Option.bind_some, symbols_st_info hk, Option.bind_some]
    by_cases htype : ELF32_ST_TYPE (l.symbols.byte (Elf32_Sym.size * k + 12)) = STT_NOTYPE
    · rw [if_neg (not_not_intro htype), symbols_st_name hk, Option.bind_some,
        foldlM_guard fun p _ => hsymbol k hk p]
      exact if_congr ⟨fun h _ => h, fun h => h htype⟩ rfl rfl
    · rw [if_pos htype]
      exact (if_pos fun h => absurd h htype).symm
  unfold elfSetSymbols
  rw [ELF.shdr, if_pos (block_eq_some l.symTab).1, Option.bind_some,
    if_neg (not_not_intro (block_eq_some l.strTab).1), if_neg l.symTab_entsize]
  exact foldlM_guard hentry

/-! ## The patches of one entry -/

theorem name_eq (h : l.st_name (l.symbolOf i) = l.st_name k) :
    l.name (l.symbolOf i) = l.name k := by
  unfold name
  rw [h]

/-- The patches of entry `i`, in any order. -/
def linksOfEntry (l : Linkable st elf) (symbol : List (CString × UWORD32)) (i : Nat) :
    List (Nat × UWORD32) :=
  (l.sameName i).flatMap fun _ => (l.named symbol i).map fun p => (i, p.2 - l.P i - 4#32)

/-- The inner two loops, with the one over the entries in front. -/
theorem linksOfEntry_eq : l.linksOfEntry symbol i =
    (List.range (elf.entries st.symTabSection.toNat)).flatMap fun k =>
      symbol.flatMap fun p => l.link k p i := by
  unfold linksOfEntry sameName
  rw [flatMap_filter]
  refine List.flatMap_congr fun k _ => ?_
  split
  · next h =>
    rw [List.map_eq_flatMap, named, flatMap_filter]
    refine List.flatMap_congr fun p _ => ?_
    rw [link, name_eq h.2]
    exact if_congr ⟨fun hname => ⟨h.1, hname, h.2⟩, fun h => h.2.1⟩ rfl rfl
  · next h =>
    symm
    exact List.flatMap_eq_nil_iff.mpr fun p _ => if_neg fun hlink => h ⟨hlink.1, hlink.2.2⟩

theorem links_perm : (l.links symbol).Perm
    ((List.range (elf.relocations st)).flatMap fun i => l.linksOfEntry symbol i) := by
  simp only [linksOfEntry_eq]
  refine (List.Perm.flatMap_left _ fun k _ => flatMap_swap_perm symbol _ _).trans ?_
  exact flatMap_swap_perm _ _ fun k i => symbol.flatMap fun p => l.link k p i

theorem requiredOf_of_not_refers (h : ¬ l.Refers symbol i) : l.requiredOf symbol i = [] := by
  unfold requiredOf
  split
  · next hundef =>
    cases hnamed : l.named symbol i with
    | nil => rfl
    | cons p rest =>
        have hvalue : l.value i p.2 = none := by
          unfold value
          rw [if_neg fun htype => h ⟨hundef, by rw [hnamed]; nofun, .inl htype⟩,
            if_neg fun htype => h ⟨hundef, by rw [hnamed]; nofun, .inr htype⟩]
        rw [List.head?_cons, Option.bind_some, hvalue]
        rfl
  · rfl

theorem requiredOf_of_refers {rest : List (CString × UWORD32)} (h : l.Refers symbol i)
    (hnamed : l.named symbol i = p :: rest) : l.requiredOf symbol i =
      [(i, if ELF32_R_TYPE (l.info i) = R_386_32 then p.2 + l.A i else p.2 + l.A i - l.P i)] := by
  unfold requiredOf
  rw [if_pos h.1, hnamed, List.head?_cons, Option.bind_some, value]
  by_cases habs : ELF32_R_TYPE (l.info i) = R_386_32
  · rw [if_pos habs, if_pos habs]
    rfl
  · rw [if_neg habs, if_neg habs, if_pos (h.2.2.resolve_left habs)]
    rfl

/-- **One entry**: its patches are what it calls for exactly if it is linked once. -/
theorem linksOfEntry_perm_iff :
    (l.linksOfEntry symbol i).Perm (l.requiredOf symbol i) ↔ l.LinkedOnce symbol i := by
  unfold LinkedOnce
  split
  · next h =>
    rcases List.exists_cons_of_ne_nil h.2.1 with ⟨p, rest, hnamed⟩
    rw [requiredOf_of_refers h hnamed, List.perm_singleton]
    -- the word that is there has to make up for the difference
    have hvalue : p.2 - l.P i - 4#32 =
        (if ELF32_R_TYPE (l.info i) = R_386_32 then p.2 + l.A i else p.2 + l.A i - l.P i) ↔
        l.A i = if ELF32_R_TYPE (l.info i) = R_386_32 then - l.P i - 4#32 else -4#32 := by
      split
      · grind
      · grind
    rw [← hvalue]
    constructor
    · intro hlinks
      have hlen := congrArg List.length hlinks
      simp only [linksOfEntry, List.length_flatMap, List.length_map, List.map_const',
        List.sum_replicate_nat, List.length_singleton] at hlen
      have hsame := Nat.eq_one_of_mul_eq_one_right hlen
      have hone := Nat.eq_one_of_mul_eq_one_left hlen
      refine ⟨hsame, hone, ?_⟩
      rcases List.length_eq_one_iff.mp hsame with ⟨k, hk⟩
      rw [hnamed, List.length_cons, Nat.add_eq_right, List.length_eq_zero_iff] at hone
      rw [linksOfEntry, hk, hnamed, hone] at hlinks
      exact (Prod.mk.inj (List.singleton_inj.mp hlinks)).2
    · intro hall
      rcases hall with ⟨hsame, hone, hword⟩
      rcases List.length_eq_one_iff.mp hsame with ⟨k, hk⟩
      rw [hnamed, List.length_cons, Nat.add_eq_right, List.length_eq_zero_iff] at hone
      rw [linksOfEntry, hk, hnamed, hone, ← hword]
      rfl
  · next h =>
    rw [requiredOf_of_not_refers h, List.perm_nil, linksOfEntry, List.flatMap_eq_nil_iff]
    simp only [List.map_eq_nil_iff]
    constructor
    · intro hnil
      cases hsame : l.sameName i with
      | nil => exact .inl rfl
      | cons k rest => exact .inr (hnil k (by rw [hsame]; exact .head _))
    · intro hnil k hk
      rcases hnil with hnil | hnil
      · rw [hnil] at hk
        exact absurd hk List.not_mem_nil
      · exact hnil

/-- **All entries.** -/
theorem links_perm_iff : (l.links symbol).Perm (l.required symbol) ↔
    ∀ i < elf.relocations st, l.LinkedOnce symbol i := by
  have hlinks : ∀ i, ∀ a ∈ l.linksOfEntry symbol i, a.1 = i := by
    intro i a ha
    rcases List.mem_flatMap.mp ha with ⟨k, -, ha⟩
    rcases List.mem_map.mp ha with ⟨p, -, rfl⟩
    rfl
  have hrequired : ∀ i, ∀ a ∈ l.requiredOf symbol i, a.1 = i := by
    intro i a ha
    unfold requiredOf at ha
    split at ha
    · rcases Option.map_eq_some_iff.mp (Option.mem_toList.mp ha) with ⟨v, -, rfl⟩
      rfl
    · exact absurd ha List.not_mem_nil
  have hiff := perm_flatMap_iff hlinks hrequired (List.nodup_range (n := elf.relocations st))
  simp only [List.mem_range, linksOfEntry_perm_iff] at hiff
  rw [← hiff]
  exact ⟨links_perm.symm.trans, links_perm.trans⟩

/-! ## What is in the places -/

/-- Bytes outside of all places stay. -/
theorem byte_patchText (hk : ∀ p ∈ ps, k < l.offset p.1 ∨ l.offset p.1 + 4 ≤ k) :
    (l.patchText ps b).byte k = b.byte k := by
  induction ps generalizing b with
  | nil => rfl
  | cons p ps ih =>
      have hput : (b.put (l.offset p.1) p.2).byte k = b.byte k :=
        Block.byte_put_of_outside p.2 (hk p (.head ps))
      exact (ih fun q hq => hk q (.tail p hq)).trans hput

/-- Each place has what was written there, as the others are apart from it. -/
theorem word_patchText (hnodup : (ps.map Prod.fst).Nodup)
    (hlt : ∀ p ∈ ps, p.1 < elf.relocations st) :
    ∀ p ∈ ps, word (l.patchText ps b).byte (l.offset p.1) = p.2 := by
  induction ps generalizing b with
  | nil => exact fun p hp => absurd hp List.not_mem_nil
  | cons q ps ih =>
      rw [List.map_cons, List.nodup_cons] at hnodup
      intro p hp
      rcases List.mem_cons.mp hp with rfl | hp
      · have hrest : word (l.patchText ps (b.put (l.offset p.1) p.2)).byte (l.offset p.1) =
            word (b.put (l.offset p.1) p.2).byte (l.offset p.1) := by
          refine Block.word_congr fun k hk hk' => byte_patchText fun q hq => ?_
          have hne : p.1 ≠ q.1 := fun he => hnodup.1 (he ▸ List.mem_map_of_mem hq)
          rcases l.places_apart p.1 (hlt p (.head ps)) q.1 (hlt q (.tail p hq)) hne with h | h
          · exact .inl (Nat.lt_of_lt_of_le hk' h)
          · exact .inr (Nat.le_trans h hk)
        exact hrest.trans (Block.word_put p.2)
      · exact ih hnodup.2 (fun p hp => hlt p (.tail q hp)) p hp

theorem required_fst (l : Linkable st elf) (symbol : List (CString × UWORD32)) :
    ((l.required symbol).map Prod.fst).Sublist (List.range (elf.relocations st)) := by
  unfold required
  rw [List.map_flatMap]
  refine flatMap_sublist (fun i => ?_) _
  unfold requiredOf
  split
  · cases ((l.named symbol i).head?.bind fun p => l.value i p.2) with
    | none => exact List.nil_sublist _
    | some v => exact .refl _
  · exact List.nil_sublist _

/-- Patches that are the required ones have the effect of these. -/
theorem patched_of_perm (h : (l.links symbol).Perm (l.required symbol)) :
    l.Patched (l.required symbol) (l.patch (l.links symbol)) := by
  by_cases hpos : 0 < elf.relocations st
  · have hsub := l.required_fst symbol
    have hfst := h.map Prod.fst
    refine .inr ⟨_, patch_eq hpos _, addr_patchText, size_patchText, fun p hp => ?_, fun k hk => ?_⟩
    · refine word_patchText (hfst.nodup_iff.mpr (hsub.nodup List.nodup_range)) (fun q hq => ?_) p
        (h.mem_iff.mpr hp)
      exact List.mem_range.mp (hsub.subset (hfst.mem_iff.mp (List.mem_map_of_mem hq)))
    · exact byte_patchText fun p hp => hk p (h.mem_iff.mp hp)
  · have hzero : elf.relocations st = 0 := Nat.eq_zero_of_not_pos hpos
    refine .inl ⟨?_, if_pos (.inr hzero)⟩
    rw [required, hzero]
    rfl

/-- **When external linking is right.** -/
theorem setsSymbols_iff (l : Linkable st elf) (symbol : List (CString × UWORD32)) :
    l.SetsSymbols symbol ↔ (st.relocTableSection = NOT_LOADED → l.Unmatched symbol) ∧
      ∀ i < elf.relocations st, l.LinkedOnce symbol i := by
  rw [← links_perm_iff]
  by_cases hloaded : st.relocTableSection = NOT_LOADED
  · have hzero : elf.relocations st = 0 := if_pos hloaded
    have hrequired : l.required symbol = [] := by
      rw [required, hzero]
      rfl
    have hlinks : l.links symbol = [] := by
      rw [links, hzero]
      exact List.flatMap_eq_nil_iff.mpr fun _ _ => List.flatMap_eq_nil_iff.mpr fun _ _ => rfl
    rw [SetsSymbols, hlinks, hrequired, elfSetSymbols_not_loaded l symbol hloaded]
    constructor
    · intro h
      rcases h with ⟨elf', hs, -⟩
      refine ⟨fun _ => ?_, .refl _⟩
      by_contra hmatched
      rw [if_neg hmatched] at hs
      exact absurd hs nofun
    · intro h
      exact ⟨elf, if_pos (h.1 hloaded), .refl _, .inl ⟨rfl, rfl⟩⟩
  · rw [SetsSymbols, elfSetSymbols_eq l symbol hloaded]
    constructor
    · intro h
      rcases h with ⟨elf', -, hperm, -⟩
      exact ⟨fun h => absurd h hloaded, hperm⟩
    · intro h
      refine ⟨_, ?_, h.2, patched_of_perm h.2⟩
      rw [h.2.length_eq]

end Linkable

/-- The text calls `f` and has the address of `g`, which are both undefined. -/
def callAndData : ELF where
  header := .ofBytes (fileOf (headerBytes 52 5 0))
  arrays := .both
  sections := fun i =>
    if i = 2 then ⟨0#32, SHT_SYMTAB, 0#32, 0#32, 48#32, 3#32, 16#32⟩
    else if i = 4 then ⟨0#32, SHT_REL, 0#32, 0#32, 16#32, 2#32, 8#32⟩
    else ⟨0#32, 1#32, 0#32, 0#32, 8#32, 0#32, 0#32⟩
  sectionData := fun i =>
    if i = 1 then some (blockOf 0x1000#32 [0xfc, 0xff, 0xff, 0xff, 0, 0, 0, 0])
    else if i = 2 then some (blockOf 0x2000#32 (List.replicate 16 0#8 ++
      [1, 0, 0, 0, 0, 0, 0, 0, 0, 0, 0, 0, 0x10, 0, 0, 0,
        3, 0, 0, 0, 0, 0, 0, 0, 0, 0, 0, 0, 0x10, 0, 0, 0]))
    else if i = 3 then some (blockOf 0x3000#32 [0, 0x66, 0, 0x67, 0])
    else if i = 4 then some (blockOf 0x4000#32
      [0, 0, 0, 0, 2, 1, 0, 0, 4, 0, 0, 0, 1, 2, 0, 0])
    else none

def callAndDataTables : Linkable ⟨1#32, 0#32, 2#32, 4#32⟩ callAndData where
  symbols := _
  names := _
  relocs := _
  text := _
  symTab := rfl
  symTab_entsize := by decide
  symTab_size := by decide
  strTab := rfl
  strTab_ends := by decide
  relTab := fun _ => by decide
  relTab_block := fun _ => rfl
  relTab_size := by decide
  relTab_symbol := by decide
  text_block := fun _ => rfl
  text_apart := fun _ => by decide
  place := by decide
  places_apart := by decide

theorem setsSymbols_iff_call :
    callAndDataTables.SetsSymbols [(⟨chars "f", by decide⟩, 0x5000#32)] :=
  (callAndDataTables.setsSymbols_iff _).mpr (by decide)

/-- The address of `g` is not what is written, but its distance. -/
theorem not_setsSymbols_data :
    ¬ callAndDataTables.SetsSymbols [(⟨chars "g", by decide⟩, 0x5000#32)] := by
  intro h
  rcases h with ⟨elf', -, hperm, -⟩
  exact absurd (Linkable.links_perm_iff.mp hperm) (by decide)

end Alliance.KL.Exec
