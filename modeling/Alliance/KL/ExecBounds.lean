import Alliance.Lib.Guard
import Alliance.KL.Exec

/-!
# What the loader takes for granted

The numbers that index sections, tables and blocks come from the file, and hardly any of them is
checked. `InBounds` says for each call what the code relies on: sections that exist, tables
that are as long as their headers say, names that end within the string table, places to be
relocated within the text section. A call is safe exactly if it finds all this, and a load with the
searches behind it exactly if each of its calls does (`exec_safe_iff`).
-/

namespace Alliance.KL.Exec

open Function Lib

namespace ELF

variable (elf : ELF)

/-! ## Reading the sections -/

/-- The name of the section is long enough for the comparisons that are made. -/
structure NameInBounds (i : Nat) (sh : Elf32_Shdr) : Prop where
  bss : sh.sh_flags &&& SHF_EXECINSTR = 0#32 → (elf.nameIs sh ".bss").isSome
  rel : sh.sh_flags &&& SHF_EXECINSTR = 0#32 → elf.nameIs sh ".bss" = some false →
    sh.sh_type = SHT_REL → (elf.nameIs sh ".rel.text").isSome
  stab : sh.sh_flags &&& SHF_ALLOC = 0#32 → i ≠ elf.e_shstrndx →
    sh.sh_type = SHT_REL ∨ sh.sh_type = SHT_RELA → (elf.nameHas sh "stab").isSome
  stabstr : sh.sh_flags &&& SHF_ALLOC = 0#32 → i ≠ elf.e_shstrndx →
    sh.sh_type = SHT_STRTAB → (elf.nameHas sh "stabstr").isSome

/-- There is a section `i`; if it is in use, there is the section of the names, too. -/
def SectionInBounds (i : Nat) : Prop :=
  elf.Inside i ∧ ((elf.sections i).sh_type ≠ SHT_NULL →
    elf.Inside elf.e_shstrndx ∧ elf.NameInBounds i (elf.sections i))

/-! ## When all is read -/

/-- How many entries the header of a table says there are. -/
def entries (i : Nat) : Nat := ((elf.sections i).sh_size / (elf.sections i).sh_entsize).toNat

/-- The section is loaded, and there are `n` bytes. -/
def Loaded (i n : Nat) : Prop := ∃ b, elf.sectionData i = some b ∧ n ≤ b.size

variable (st : Statics)

/-- All of the symbol table is there. -/
structure BssInBounds : Prop where
  symTab : elf.Inside st.symTabSection.toNat
  entsize : (elf.sections st.symTabSection.toNat).sh_entsize ≠ 0#32
  link : elf.Inside (elf.sections st.symTabSection.toNat).sh_link.toNat
  symbols : ∀ i < elf.entries st.symTabSection.toNat,
    elf.Loaded st.symTabSection.toNat (Elf32_Sym.size * i + 16)

/-- Where the symbol is, and the word in the text section that is to be relocated. -/
def RelocateInBounds (stack : UWORD32) (symbols : Block) (k : Nat) (relocs : Block) (i : Nat) :
    Prop :=
  let offset := word relocs.byte (Elf32_Rel.size * i)
  let info := word relocs.byte (Elf32_Rel.size * i + 4)
  let shndx := half symbols.byte (Elf32_Sym.size * k + 14)
  elf.Inside st.textSection.toNat ∧ ((elf.sections st.textSection.toNat).sh_size ≠ 0#32 →
    (ELF32_R_TYPE info = R_386_32 →
      Elf32_Sym.size * k + 16 ≤ symbols.size ∧
      elf.Inside (if shndx < elf.header.e_shnum then shndx.toNat else stack.toNat) ∧
      elf.Loaded st.textSection.toNat (offset.toNat + 4)) ∧
    (ELF32_R_TYPE info = R_386_PC32 →
      Elf32_Sym.size * k + 8 ≤ symbols.size ∧
      elf.Loaded st.textSection.toNat (offset.toNat + 4)))

/-- The entry of the relocation table is there, and so is the symbol that it names. -/
def EntryInBounds (stack : UWORD32) (link i : Nat) : Prop :=
  elf.Inside link ∧ elf.Inside st.relocTableSection.toNat ∧
  ∃ relocs, elf.sectionData st.relocTableSection.toNat = some relocs ∧
    Elf32_Rel.size * i + 8 ≤ relocs.size ∧
  let k := (ELF32_R_SYM (word relocs.byte (Elf32_Rel.size * i + 4))).toNat
  ∃ symbols, elf.sectionData link = some symbols ∧ Elf32_Sym.size * k + 13 ≤ symbols.size ∧
  let type := ELF32_ST_TYPE (symbols.byte (Elf32_Sym.size * k + 12))
  (type ≠ STT_FILE → type ≠ STT_NOTYPE → elf.RelocateInBounds st stack symbols k relocs i)

/-- If there are relocations, each finds what it needs, after those before it. -/
def RelocationsInBounds (stack : UWORD32) : Prop :=
  st.relocTableSection ≠ NOT_LOADED →
    elf.Inside st.relocTableSection.toNat ∧
    (elf.sections st.relocTableSection.toNat).sh_entsize ≠ 0#32 ∧
    let link := (elf.sections st.relocTableSection.toNat).sh_link.toNat
    Along (relocEntry st stack link) (fun elf i => elf.EntryInBounds st stack link i) elf
      (List.range (elf.entries st.relocTableSection.toNat))

/-- What the step behind the last section relies on. -/
def PostLoadInBounds (heap : Heap) (stack : UWORD32) : Prop :=
  elf.Inside st.bssSection.toNat ∧
  ((elf.sections st.bssSection.toNat).sh_size = 0#32 → elf.BssInBounds st ∧
    ∀ elf', elfSizeAndAssignMemToBSS st elf heap = some elf' →
      elf'.RelocationsInBounds st stack) ∧
  ((elf.sections st.bssSection.toNat).sh_size ≠ 0#32 → elf.RelocationsInBounds st stack)

/-! ## Symbols -/

/-- The number of the section that the symbol is in. -/
def targetIndex (symbols : Block) (i : Nat) : Nat :=
  let shndx := half symbols.byte (Elf32_Sym.size * i + 14)
  (if elf.header.e_shnum < shndx then st.textSection.setWidth 16 else shndx).toNat

/-- Names end within the string table, as far as the search goes, and the symbol that is found is
in a section. -/
def SearchInBounds (link : Nat) (name : CString) : List Nat → Prop
  | [] => True
  | i :: rest =>
    elf.Inside st.symTabSection.toNat ∧ elf.Inside link ∧
    ∃ symbols, elf.sectionData st.symTabSection.toNat = some symbols ∧
      Elf32_Sym.size * i + 4 ≤ symbols.size ∧
    ∃ names, elf.sectionData link = some names ∧
    ∃ found, klStringEqual (name.chars ++ [0#8])
        (names.bytesFrom (word symbols.byte (Elf32_Sym.size * i)).toNat) = some found ∧
      if found then
        Elf32_Sym.size * i + 16 ≤ symbols.size ∧ elf.Inside (elf.targetIndex st symbols i)
      else SearchInBounds link name rest

/-- There is a symbol table, with its names, and the search stays in them. -/
structure SymbolsInBounds (name : CString) : Prop where
  symTab : elf.Inside st.symTabSection.toNat
  link : elf.Inside (elf.sections st.symTabSection.toNat).sh_link.toNat
  entsize : (elf.sections st.symTabSection.toNat).sh_entsize ≠ 0#32
  search : elf.SearchInBounds st (elf.sections st.symTabSection.toNat).sh_link.toNat name
    (List.range (elf.entries st.symTabSection.toNat))

/-! ## Accesses -/

variable {elf} {st} {elf' : ELF} {i j k n o link : Nat} {b symbols relocs : Block} {stack : UWORD32}
  {heap : Heap} {sh : Elf32_Shdr} {name : CString}

theorem exists_shdr {p : Elf32_Shdr → Prop} :
    (∃ sh, elf.shdr i = some sh ∧ p sh) ↔ elf.Inside i ∧ p (elf.sections i) := exists_guard

theorem exists_data {p : Option Block → Prop} :
    (∃ q, elf.data i = some q ∧ p q) ↔ elf.Inside i ∧ p (elf.sectionData i) := exists_guard

theorem exists_block {p : Block → Prop} :
    (∃ b, elf.block i = some b ∧ p b) ↔
      elf.Inside i ∧ ∃ b, elf.sectionData i = some b ∧ p b := by
  unfold block
  by_cases hi : elf.Inside i
  · simp [hi]
  · simp [hi]

theorem exists_readWord {p : Elf32_Word → Prop} :
    (∃ w, b.readWord o = some w ∧ p w) ↔ o + 4 ≤ b.size ∧ p (word b.byte o) := exists_guard

theorem exists_readHalf {p : Elf32_Half → Prop} :
    (∃ w, b.readHalf o = some w ∧ p w) ↔ o + 2 ≤ b.size ∧ p (half b.byte o) := exists_guard

theorem exists_readByte {p : UBYTE → Prop} :
    (∃ w, b.readByte o = some w ∧ p w) ↔ o < b.size ∧ p (b.byte o) := exists_guard

theorem isSome_write {w : Nat} {x : BitVec w} :
    (b.write o x).isSome ↔ o + w / 8 ≤ b.size := isSome_guard

/-! ## Exactly when a call has a result -/

/-- An entry of the symbol table. -/
theorem isSome_bssEntry (total : UWORD32) : (bssEntry st (elf, total) i).isSome ↔
    elf.Inside st.symTabSection.toNat ∧
      elf.Loaded st.symTabSection.toNat (Elf32_Sym.size * i + 16) := by
  simp only [bssEntry, isSome_bind_iff, exists_block, Block.st_shndx, Block.st_info, Block.st_size,
    exists_readHalf, exists_readByte, exists_readWord, isSome_ite, Option.isSome_map, isSome_write,
    Option.isSome_some, implies_true, true_and, Loaded]
  refine and_congr_right fun _ => exists_congr fun b => and_congr_right fun _ => ?_
  constructor
  · rintro ⟨h, -⟩
    omega
  · intro h
    exact ⟨by omega, fun _ => ⟨by omega, fun _ => by omega⟩⟩

/-- An entry moves its symbol, and no section. -/
theorem bssEntry_inside {total total' : UWORD32}
    (hs : bssEntry st (elf, total) i = some (elf', total')) :
    (∀ j, elf'.Inside j ↔ elf.Inside j) ∧ ∀ j n, elf'.Loaded j n ↔ elf.Loaded j n := by
  obtain ⟨symbols, hsymbols, hs⟩ := Option.bind_eq_some_iff.mp hs
  obtain ⟨shndx, -, hs⟩ := Option.bind_eq_some_iff.mp hs
  split at hs
  · obtain ⟨rfl, -⟩ := Prod.mk.inj (Option.some.inj hs)
    exact ⟨fun _ => Iff.rfl, fun _ _ => Iff.rfl⟩
  · obtain ⟨info, -, hs⟩ := Option.bind_eq_some_iff.mp hs
    split at hs
    · obtain ⟨rfl, -⟩ := Prod.mk.inj (Option.some.inj hs)
      exact ⟨fun _ => Iff.rfl, fun _ _ => Iff.rfl⟩
    · obtain ⟨size, -, hs⟩ := Option.bind_eq_some_iff.mp hs
      obtain ⟨written, hw, hs⟩ := Option.map_eq_some_iff.mp hs
      obtain ⟨rfl, -⟩ := Prod.mk.inj hs
      refine ⟨fun _ => Iff.rfl, fun j n => ?_⟩
      have hsize : written.size = symbols.size := by
        unfold Block.write at hw
        split at hw
        · obtain rfl := Option.some.inj hw
          rfl
        · exact absurd hw nofun
      have hold : elf.sectionData st.symTabSection.toNat = some symbols := by
        unfold block at hsymbols
        split at hsymbols
        · exact hsymbols
        · exact absurd hsymbols nofun
      unfold Loaded setData
      by_cases hj : j = st.symTabSection.toNat
      · subst hj
        simp only [update_self, hold, Option.some.injEq, exists_eq_left', hsize]
      · simp only [update_of_ne hj]

/-- The whole symbol table. -/
theorem isSome_bssEntries (total : UWORD32) {l : List Nat} :
    (l.foldlM (bssEntry st) (elf, total)).isSome ↔
      ∀ i ∈ l, elf.Inside st.symTabSection.toNat ∧
        elf.Loaded st.symTabSection.toNat (Elf32_Sym.size * i + 16) := by
  induction l generalizing elf total with
  | nil => exact ⟨fun _ => nofun, fun _ => rfl⟩
  | cons i l ih =>
      rw [List.foldlM_cons, Option.bind_eq_bind, isSome_bind_iff, List.forall_mem_cons,
        ← isSome_bssEntry total, Option.isSome_iff_exists]
      -- the rest of the table is where it was
      have hrest : ∀ r, bssEntry st (elf, total) i = some r →
          ((l.foldlM (bssEntry st) r).isSome ↔
            ∀ i ∈ l, elf.Inside st.symTabSection.toNat ∧
              elf.Loaded st.symTabSection.toNat (Elf32_Sym.size * i + 16)) := by
        rintro ⟨elf', total'⟩ hr
        obtain ⟨hinside, hloaded⟩ := bssEntry_inside hr
        simp only [ih, hinside, hloaded]
      constructor
      · rintro ⟨r, hr, h⟩
        exact ⟨⟨r, hr⟩, (hrest r hr).mp h⟩
      · rintro ⟨⟨r, hr⟩, h⟩
        exact ⟨r, hr, (hrest r hr).mpr h⟩

theorem bssEntries_inside {l : List Nat} {total : UWORD32} {r : ELF × UWORD32}
    (hs : l.foldlM (bssEntry st) (elf, total) = some r) : ∀ j, r.1.Inside j ↔ elf.Inside j := by
  refine foldlM_prefixes (I := fun _ r => ∀ j, r.1.Inside j ↔ elf.Inside j) hs
    (fun _ => Iff.rfl) ?_
  intro _ i _ r r' _ h hs j
  exact ((bssEntry_inside hs).1 j).trans (h j)

theorem isSome_elfSizeAndAssignMemToBSS (heap : Heap) (hbss : elf.Inside st.bssSection.toNat) :
    (elfSizeAndAssignMemToBSS st elf heap).isSome ↔ elf.BssInBounds st := by
  simp only [elfSizeAndAssignMemToBSS, isSome_bind_iff, exists_shdr, isSome_unless, not_not]
  constructor
  · rintro ⟨hsym, hsize, hlink, r, hr, -⟩
    have htable := (isSome_bssEntries 0#32).mp (Option.isSome_iff_exists.mpr ⟨r, hr⟩)
    exact ⟨hsym, hsize, hlink, fun i hi => (htable i (List.mem_range.mpr hi)).2⟩
  · intro h
    refine ⟨h.symTab, h.entsize, h.link, ?_⟩
    obtain ⟨r, hr⟩ := Option.isSome_iff_exists.mp ((isSome_bssEntries 0#32).mpr
      fun i hi => ⟨h.symTab, h.symbols i (List.mem_range.mp hi)⟩)
    refine ⟨r, hr, ?_⟩
    split
    · rfl
    · exact if_neg (not_not_intro ((bssEntries_inside hr _).mpr hbss)) ▸ rfl

/-- A relocation. -/
theorem isSome_relocateSymbol (hentry : Elf32_Rel.size * i + 8 ≤ relocs.size) :
    (relocateSymbol st elf stack symbols k relocs i).isSome ↔
      elf.RelocateInBounds st stack symbols k relocs i := by
  simp only [relocateSymbol, isSome_bind_iff, exists_shdr, exists_data, exists_block,
    Block.r_offset, Block.r_info, Block.st_shndx, Block.st_value, exists_readHalf, exists_readWord,
    isSome_ite, Option.isSome_map, isSome_write, Option.isSome_some, implies_true, true_and,
    and_true, RelocateInBounds, Loaded]
  have hpc : R_386_PC32 ≠ R_386_32 := by decide
  constructor
  · rintro ⟨htext, h⟩
    refine ⟨htext, fun hsize => ?_⟩
    obtain ⟨-, -, h32, hpc32⟩ := h hsize
    refine ⟨fun ht => ?_, fun ht => ?_⟩
    · obtain ⟨hsym, htarget, -, -, b, hb, hword, -⟩ := h32 ht
      exact ⟨hsym, htarget, b, hb, hword⟩
    · obtain ⟨hsym, -, b, hb, hword⟩ := hpc32 (ht ▸ hpc) ht
      exact ⟨hsym, b, hb, hword⟩
  · rintro ⟨htext, h⟩
    refine ⟨htext, fun hsize => ⟨by omega, by omega, fun ht => ?_, fun _ ht => ?_⟩⟩
    · obtain ⟨hsym, htarget, b, hb, hword⟩ := (h hsize).1 ht
      exact ⟨hsym, htarget, by omega, htext, b, hb, hword, hword⟩
    · obtain ⟨hsym, b, hb, hword⟩ := (h hsize).2 ht
      exact ⟨hsym, htext, b, hb, hword⟩

theorem isSome_relocEntry : (relocEntry st stack link elf i).isSome ↔
    elf.EntryInBounds st stack link i := by
  simp only [relocEntry, isSome_unless, isSome_bind_iff, exists_block, Block.r_info, Block.st_info,
    exists_readWord, exists_readByte, not_not, EntryInBounds]
  constructor
  · rintro ⟨hlink, hreloc, relocs, hrelocs, hsize, -, symbols, hsymbols, hinfo, h⟩
    refine ⟨hlink, hreloc, relocs, hrelocs, hsize, symbols, hsymbols, hinfo, fun hfile hno => ?_⟩
    rw [if_neg (not_or.mpr ⟨hfile, hno⟩)] at h
    exact (isSome_relocateSymbol hsize).mp h
  · rintro ⟨hlink, hreloc, relocs, hrelocs, hsize, symbols, hsymbols, hinfo, h⟩
    refine ⟨hlink, hreloc, relocs, hrelocs, hsize, hlink, symbols, hsymbols, hinfo, ?_⟩
    split
    · rfl
    · next hskip =>
      exact (isSome_relocateSymbol hsize).mpr (h (not_or.mp hskip).1 (not_or.mp hskip).2)

theorem isSome_elfResolveRelocations : (elfResolveRelocations st elf stack).isSome ↔
    elf.RelocationsInBounds st stack := by
  unfold elfResolveRelocations RelocationsInBounds
  rw [isSome_ite]
  simp only [isSome_bind_iff, exists_shdr, isSome_unless, isSome_foldlM_iff,
    Along.congr fun _ _ => isSome_relocEntry, Option.isSome_some, implies_true, true_and, entries,
    ne_eq]

theorem isSome_elfPostLoad : (elfPostLoad st elf heap stack).isSome ↔
    elf.PostLoadInBounds st heap stack := by
  simp only [elfPostLoad, isSome_bind_iff, exists_shdr, PostLoadInBounds]
  refine and_congr_right fun hbss => ?_
  by_cases hsize : (elf.sections st.bssSection.toNat).sh_size = 0#32
  · simp only [hsize, if_true, forall_const, ne_eq, not_true_eq_false, false_imp_iff, and_true,
      isSome_elfResolveRelocations, ← isSome_elfSizeAndAssignMemToBSS heap hbss]
    constructor
    · rintro ⟨elf', helf', h⟩
      refine ⟨Option.isSome_iff_exists.mpr ⟨elf', helf'⟩, fun elf'' helf'' => ?_⟩
      exact Option.some.inj (helf'.symm.trans helf'') ▸ h
    · rintro ⟨hs, h⟩
      obtain ⟨elf', helf'⟩ := Option.isSome_iff_exists.mp hs
      exact ⟨elf', helf', h elf' helf'⟩
  · simp only [hsize, if_false, Option.some.injEq, exists_eq_left', isSome_elfResolveRelocations,
      false_imp_iff, true_and, ne_eq, not_false_eq_true, forall_const]

theorem isSome_symbolAddress : (symbolAddress st elf symbols i).isSome ↔
    Elf32_Sym.size * i + 16 ≤ symbols.size ∧ elf.Inside (elf.targetIndex st symbols i) := by
  simp only [symbolAddress, isSome_bind_iff, exists_data, Block.st_shndx, Block.st_value,
    exists_readHalf, Option.isSome_map]
  constructor
  · rintro ⟨hsize, htarget, -⟩
    exact ⟨hsize, htarget⟩
  · rintro ⟨hsize, htarget⟩
    exact ⟨hsize, htarget, isSome_guard.mpr (by omega)⟩

theorem isSome_searchEntries {l : List Nat} : (searchEntries st elf link name l).isSome ↔
    elf.SearchInBounds st link name l := by
  induction l with
  | nil => exact ⟨fun _ => trivial, fun _ => rfl⟩
  | cons i rest ih =>
      simp only [searchEntries, SearchInBounds, isSome_bind_iff, exists_block, Block.st_name,
        exists_readWord]
      have hfound : ∀ (symbols : Block) (found : Bool),
          (if found then symbolAddress st elf symbols i
            else searchEntries st elf link name rest).isSome ↔
          if found then
            Elf32_Sym.size * i + 16 ≤ symbols.size ∧ elf.Inside (elf.targetIndex st symbols i)
          else elf.SearchInBounds st link name rest := by
        intro symbols found
        cases found with
        | false => exact ih
        | true => exact isSome_symbolAddress
      simp only [hfound]
      constructor
      · rintro ⟨hsym, symbols, hsymbols, hsize, hlink, h⟩
        exact ⟨hsym, hlink, symbols, hsymbols, hsize, h⟩
      · rintro ⟨hsym, hlink, symbols, hsymbols, hsize, h⟩
        exact ⟨hsym, symbols, hsymbols, hsize, hlink, h⟩

theorem isSome_elfSearchSymbol : (elfSearchSymbol st elf name).isSome ↔
    elf.SymbolsInBounds st name := by
  simp only [elfSearchSymbol, isSome_bind_iff, exists_shdr, isSome_unless, isSome_searchEntries,
    not_not]
  exact ⟨fun ⟨hsym, hlink, hsize, h⟩ => ⟨hsym, hlink, hsize, h⟩,
    fun h => ⟨h.symTab, h.link, h.entsize, h.search⟩⟩

theorem isSome_cacheIndex : (cacheIndex st elf i sh).isSome ↔
    (sh.sh_flags &&& SHF_EXECINSTR = 0#32 → (elf.nameIs sh ".bss").isSome) ∧
    (sh.sh_flags &&& SHF_EXECINSTR = 0#32 → elf.nameIs sh ".bss" = some false →
      sh.sh_type = SHT_REL → (elf.nameIs sh ".rel.text").isSome) := by
  unfold cacheIndex
  by_cases hexec : sh.sh_flags &&& SHF_EXECINSTR = 0#32
  · simp only [hexec, ne_eq, not_true_eq_false, if_false, forall_const]
    cases hbss : elf.nameIs sh ".bss" with
    | none => simp
    | some bss =>
        cases bss with
        | true => simp
        | false =>
            have hsym : SHT_REL ≠ SHT_SYMTAB := by decide
            simp only [Option.bind_some, Bool.false_eq_true, if_false, isSome_ite,
              Option.isSome_some, Option.isSome_map, implies_true, true_and, and_true, forall_const]
            exact ⟨fun h hrel => h (hrel ▸ hsym) hrel, fun h _ => h⟩
  · simp [hexec]

theorem isSome_skips : (elf.skips i sh).isSome ↔
    (sh.sh_flags &&& SHF_ALLOC = 0#32 → i ≠ elf.e_shstrndx →
      sh.sh_type = SHT_REL ∨ sh.sh_type = SHT_RELA → (elf.nameHas sh "stab").isSome) ∧
    (sh.sh_flags &&& SHF_ALLOC = 0#32 → i ≠ elf.e_shstrndx →
      sh.sh_type = SHT_STRTAB → (elf.nameHas sh "stabstr").isSome) := by
  unfold skips
  by_cases halloc : sh.sh_flags &&& SHF_ALLOC = 0#32
  · simp only [halloc, ne_eq, not_true_eq_false, if_false, forall_const, isSome_ite,
      Option.isSome_some, implies_true, true_and, and_true]
    have hstr : ¬ (SHT_STRTAB = SHT_REL ∨ SHT_STRTAB = SHT_RELA) := by decide
    constructor
    · intro h
      refine ⟨fun hi hrel => ?_, fun hi htab => ?_⟩
      · have hkeep : ¬ (¬ sh.sh_type = SHT_SYMTAB ∧ ¬ sh.sh_type = SHT_DYNSYM ∧
            ¬ sh.sh_type = SHT_STRTAB ∧ ¬ sh.sh_type = SHT_REL ∧ ¬ sh.sh_type = SHT_RELA) :=
          fun ⟨_, _, _, h₁, h₂⟩ => hrel.elim h₁ h₂
        exact (h hkeep hi).1 hrel
      · have hkeep : ¬ (¬ sh.sh_type = SHT_SYMTAB ∧ ¬ sh.sh_type = SHT_DYNSYM ∧
            ¬ sh.sh_type = SHT_STRTAB ∧ ¬ sh.sh_type = SHT_REL ∧ ¬ sh.sh_type = SHT_RELA) :=
          fun ⟨_, _, h, _⟩ => h htab
        exact (h hkeep hi).2 (htab ▸ hstr) htab
    · rintro ⟨hrel, htab⟩ - hi
      exact ⟨hrel hi, fun _ => htab hi⟩
  · simp [halloc]

end ELF

/-! ## Calls -/

/-- A call of `KLexecLoad` or `KLexecSymbols`, or a read of the file. -/
inductive ExecOp where
  | load (heap : Heap) (stack : UWORD32)
  | fill (file : Nat → UBYTE)
  | search (name : CString)

def execStep : Statics × Executable → ExecOp → Option (Statics × Executable)
  | (st, x), .load heap stack => (x.load st heap stack).map fun r => (r.1, r.2.1)
  | (st, x), .fill file => some (st, x.fill file)
  | (st, x), .search name => (elfSearchSymbol st x.elf name).map fun _ => (st, x)

/-- What a call relies on. -/
def ExecOp.InBounds : Statics × Executable → ExecOp → Prop
  | (st, x), .load heap stack =>
    match x.state with
    | .elfSectionNames => x.elf.header.e_shstrndx ≠ SHN_UNDEF → x.elf.Inside x.elf.e_shstrndx
    | .elfSection => x.elf.SectionInBounds x.iterator
    | .postLoad => x.elf.PostLoadInBounds st heap stack
    | .saveElfHeader | .elfInvalid | .finalState => True
  | _, .fill _ => True
  | (st, x), .search name => x.elf.SymbolsInBounds st name

variable {st : Statics} {x : Executable} {heap : Heap} {stack : UWORD32} {s : Statics × Executable}
  {op : ExecOp} {ops : List ExecOp}

theorem isSome_elfSectionProcessing : (elfSectionProcessing st x heap).isSome ↔
    x.elf.SectionInBounds x.iterator := by
  simp only [elfSectionProcessing, isSome_bind_iff, ELF.exists_shdr, ELF.SectionInBounds]
  refine and_congr_right fun _ => ?_
  by_cases hnull : (x.elf.sections x.iterator).sh_type = SHT_NULL
  · simp [hnull]
  · simp only [hnull, if_false, isSome_unless, not_not, isSome_bind_iff, Option.isSome_map, ne_eq,
      not_false_eq_true, forall_const]
    refine and_congr_right fun _ => ?_
    rw [exists_and_right, ← Option.isSome_iff_exists, ELF.isSome_cacheIndex, ELF.isSome_skips]
    exact ⟨fun ⟨⟨h₁, h₂⟩, h₃, h₄⟩ => ⟨h₁, h₂, h₃, h₄⟩,
      fun h => ⟨⟨h.bss, h.rel⟩, h.stab, h.stabstr⟩⟩

theorem isSome_execStep : (execStep s op).isSome ↔ op.InBounds s := by
  obtain ⟨st, x⟩ := s
  cases op with
  | load heap stack =>
      simp only [execStep, Option.isSome_map, Executable.load, ExecOp.InBounds]
      cases hstate : x.state with
      | saveElfHeader => simp
      | elfSectionNames =>
          simp only [Option.isSome_map, elfSectionNamesProcessing, isSome_ite, Option.isSome_some,
            implies_true, and_true]
          exact imp_congr_right fun _ => isSome_guard
      | elfSection =>
          simp only [Option.isSome_map]
          exact isSome_elfSectionProcessing
      | postLoad =>
          simp only [Option.isSome_map]
          exact ELF.isSome_elfPostLoad
      | elfInvalid => simp
      | finalState => simp
  | fill file => exact ⟨fun _ => trivial, fun _ => rfl⟩
  | search name =>
      simp only [execStep, Option.isSome_map]
      exact ELF.isSome_elfSearchSymbol

/-- **Calls are safe** exactly if each finds what it relies on. -/
theorem exec_safe_iff (s : Statics × Executable) (ops : List ExecOp) :
    (ops.foldlM execStep s).isSome ↔ Along execStep (fun s op => op.InBounds s) s ops :=
  isSome_foldlM_iff.trans (Along.congr fun _ _ => isSome_execStep)

/-- The bytes of a file, and 0 behind it. -/
def fileOf (bytes : List UBYTE) (k : Nat) : UBYTE := bytes.getD k 0#8

/-- A header with `e_shoff`, `e_shnum` and `e_shstrndx`. -/
def headerBytes (e_shoff e_shnum e_shstrndx : UBYTE) : List UBYTE :=
  [0x7f, 0x45, 0x4c, 0x46, 1, 1, 1, 0, 0, 0, 0, 0, 0, 0, 0, 0, 1, 0, 3, 0, 1, 0, 0, 0,
    0, 0, 0, 0, 0, 0, 0, 0, e_shoff, 0, 0, 0, 0, 0, 0, 0, 52, 0, 0, 0, 0, 0, 40, 0,
    e_shnum, 0, e_shstrndx, 0]

/-- There is memory for call `k`, at an address of its own. -/
def memoryAt (k : Nat) : Heap := ⟨some (.ofNat 32 (0x1000 * (k + 1)), fun _ => 0#8), true⟩

/-- One section, whose name is in section 5. -/
theorem exec_names_beyond :
    let file := fileOf (headerBytes 52 1 5)
    probe (.ofBytes file) = .EXEC_PROBE_OK ∧
      ¬ ([.fill file, .load (memoryAt 0) 0#32, .fill file, .load (memoryAt 1) 0#32].foldlM execStep
        (.init, .opened fun _ => 0#8)).isSome := by
  decide +kernel

end Alliance.KL.Exec
