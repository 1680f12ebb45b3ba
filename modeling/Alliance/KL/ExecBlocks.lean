import Alliance.KL.ExecShared
import Alliance.Lib.Fill

/-!
# The memory of an executable

What a load gets from `KLmalloc` goes into the `ELF`: its two arrays, and a block for each section
that has data. `ELFclose` frees what it finds there. So a block is freed if its pointer is still
there: a section that is stored to twice loses one. A load that stores to no section that has a
block adds what it gets to what will be freed (`load_frees`).
-/

namespace Alliance.KL.Exec

open Function Lib

/-! ## What is allocated, and what is freed -/

/-- A block from `KLmalloc`. -/
inductive Malloc where
  /-- The `ELF`. -/
  | exec
  /-- `section`. -/
  | headers
  /-- `sectionData`. -/
  | pointers
  /-- The data of a section. -/
  | data (p : UWORD32)
  deriving DecidableEq, Repr

def Arrays.blocks : Arrays → List Malloc
  | .neither => []
  | .sections => [.headers]
  | .both => [.pointers, .headers]

/-- The blocks of the sections. -/
def ELF.dataBlocks (elf : ELF) : List Malloc :=
  (List.range elf.e_shnum).filterMap fun i =>
    (elf.sectionData i).map fun b => Malloc.data b.addr

/-- What `ELFclose` frees. -/
def ELF.frees (elf : ELF) : List Malloc := elf.dataBlocks ++ elf.arrays.blocks

/-- A block of data, if there is memory. -/
def Heap.gets (heap : Heap) : List Malloc := (heap.block.map fun r => Malloc.data r.1).toList

/-- The arrays, if there is memory. -/
def Heap.getsArrays (heap : Heap) : List Malloc :=
  match heap.block with
  | none => []
  | some _ => if heap.pointers then Arrays.both.blocks else Arrays.sections.blocks

namespace Executable

variable (x : Executable)

/-- The header of the section that comes next. -/
def next : Elf32_Shdr := x.elf.sections x.iterator

/-- The section that comes next is loaded. -/
def Loads : Prop := x.next.sh_type ≠ SHT_NULL ∧ x.elf.skips x.iterator x.next = some false

instance : Decidable x.Loads := inferInstanceAs (Decidable (_ ∧ _))

/-- The size of the block for `.bss`, 0 if none is needed. -/
def bssSize (st : Statics) : UWORD32 :=
  let sh := x.elf.sections st.symTabSection.toNat
  if (x.elf.sections st.bssSection.toNat).sh_size = 0#32 then
    (((List.range (sh.sh_size / sh.sh_entsize).toNat).foldlM (bssEntry st) (x.elf, 0#32)).map
      Prod.snd).getD 0#32
  else 0#32

/-- What `KLexecLoad` gets from `KLmalloc`. -/
def gets (st : Statics) (heap : Heap) : List Malloc :=
  match x.state with
  | .saveElfHeader => heap.getsArrays
  | .elfSectionNames => if x.elf.header.e_shstrndx ≠ SHN_UNDEF then heap.gets else []
  | .elfSection => if x.Loads ∧ x.next.sh_size ≠ 0#32 then heap.gets else []
  | .postLoad => if x.bssSize st ≠ 0#32 then heap.gets else []
  | .finalState | .elfInvalid => []

/-- A load stores to a section that has no block. -/
def StoresFresh (st : Statics) (heap : Heap) : Prop :=
  (x.state = .elfSection → x.Loads →
    (x.next.sh_size = 0#32 ∨ x.next.sh_type = SHT_NOBITS ∨ heap.block.isSome) →
      x.elf.sectionData x.iterator = none) ∧
  (x.state = .postLoad → x.bssSize st ≠ 0#32 → x.elf.sectionData st.bssSection.toNat = none)

instance (st : Statics) (heap : Heap) : Decidable (x.StoresFresh st heap) :=
  inferInstanceAs (Decidable (_ ∧ _))

end Executable

@[simp] theorem sectionData_setData (elf : ELF) (i : Nat) (p : Option Block) :
    (elf.setData i p).sectionData = update elf.sectionData i p := rfl

/-! ## Steps that leave the blocks where they are -/

/-- Each section has the block that it had, with other data in it. -/
structure SameBlocks (elf elf' : ELF) : Prop where
  header : elf'.header = elf.header
  arrays : elf'.arrays = elf.arrays
  data : ∀ i, (elf'.sectionData i).map Block.addr = (elf.sectionData i).map Block.addr

theorem SameBlocks.refl (elf : ELF) : SameBlocks elf elf := ⟨rfl, rfl, fun _ => rfl⟩

theorem SameBlocks.trans {elf elf' elf'' : ELF} (h : SameBlocks elf elf')
    (h' : SameBlocks elf' elf'') : SameBlocks elf elf'' :=
  ⟨h'.header.trans h.header, h'.arrays.trans h.arrays, fun i => (h'.data i).trans (h.data i)⟩

theorem SameBlocks.none_iff {elf elf' : ELF} (h : SameBlocks elf elf') (i : Nat) :
    elf'.sectionData i = none ↔ elf.sectionData i = none := by
  have hi := h.data i
  rw [← Option.map_eq_none_iff (f := Block.addr), hi, Option.map_eq_none_iff]

theorem SameBlocks.frees_eq {elf elf' : ELF} (h : SameBlocks elf elf') :
    elf'.frees = elf.frees := by
  have hdata : elf'.dataBlocks = elf.dataBlocks := by
    unfold ELF.dataBlocks
    rw [ELF.e_shnum, ELF.e_shnum, h.header]
    refine congrArg (List.filterMap · _) (funext fun i => ?_)
    have hi := congrArg (Option.map Malloc.data) (h.data i)
    rw [Option.map_map, Option.map_map] at hi
    exact hi
  rw [ELF.frees, ELF.frees, hdata, h.arrays]

variable {st : Statics} {elf elf' : ELF} {heap : Heap} {stack : UWORD32} {i k : Nat}

/-- A block that is written to. -/
theorem sameBlocks_setData {b b' : Block} (hb : elf.block i = some b) (ha : b'.addr = b.addr) :
    SameBlocks elf (elf.setData i (some b')) := by
  have hold : elf.sectionData i = some b := by
    unfold ELF.block at hb
    split at hb
    · exact hb
    · exact absurd hb nofun
  refine ⟨rfl, rfl, fun j => ?_⟩
  by_cases hj : j = i
  · subst hj
    simp only [ELF.setData, update_self, hold, Option.map_some, ha]
  · simp only [ELF.setData, update_of_ne hj]

theorem Block.addr_write {n o : Nat} {b b' : Block} {w : BitVec n} (h : b.write o w = some b') :
    b'.addr = b.addr := by
  unfold Block.write at h
  split at h
  · obtain rfl := Option.some.inj h
    rfl
  · exact absurd h nofun

theorem bssEntry_same {r r' : ELF × UWORD32} (hs : bssEntry st r i = some r') :
    SameBlocks r.1 r'.1 := by
  obtain ⟨symbols, hsymbols, hs⟩ := Option.bind_eq_some_iff.mp hs
  obtain ⟨shndx, -, hs⟩ := Option.bind_eq_some_iff.mp hs
  split at hs
  · obtain rfl := Option.some.inj hs
    exact .refl _
  · obtain ⟨info, -, hs⟩ := Option.bind_eq_some_iff.mp hs
    split at hs
    · obtain rfl := Option.some.inj hs
      exact .refl _
    · obtain ⟨size, -, hs⟩ := Option.bind_eq_some_iff.mp hs
      obtain ⟨written, hw, rfl⟩ := Option.map_eq_some_iff.mp hs
      exact sameBlocks_setData hsymbols (Block.addr_write hw)

theorem relocateSymbol_same {symbols relocs : Block}
    (hs : relocateSymbol st elf stack symbols k relocs i = some elf') : SameBlocks elf elf' := by
  obtain ⟨sh, -, hs⟩ := Option.bind_eq_some_iff.mp hs
  split at hs
  · obtain rfl := Option.some.inj hs
    exact .refl _
  · obtain ⟨offset, -, hs⟩ := Option.bind_eq_some_iff.mp hs
    obtain ⟨info, -, hs⟩ := Option.bind_eq_some_iff.mp hs
    split at hs
    · obtain ⟨shndx, -, hs⟩ := Option.bind_eq_some_iff.mp hs
      obtain ⟨target, -, hs⟩ := Option.bind_eq_some_iff.mp hs
      obtain ⟨value, -, hs⟩ := Option.bind_eq_some_iff.mp hs
      obtain ⟨text, htext, hs⟩ := Option.bind_eq_some_iff.mp hs
      obtain ⟨machineWord, -, hs⟩ := Option.bind_eq_some_iff.mp hs
      obtain ⟨written, hw, rfl⟩ := Option.map_eq_some_iff.mp hs
      exact sameBlocks_setData htext (Block.addr_write hw)
    · split at hs
      · obtain ⟨value, -, hs⟩ := Option.bind_eq_some_iff.mp hs
        obtain ⟨text, htext, hs⟩ := Option.bind_eq_some_iff.mp hs
        obtain ⟨written, hw, rfl⟩ := Option.map_eq_some_iff.mp hs
        exact sameBlocks_setData htext (Block.addr_write hw)
      · obtain rfl := Option.some.inj hs
        exact .refl _

theorem relocEntry_same {link : Nat} (hs : relocEntry st stack link elf i = some elf') :
    SameBlocks elf elf' := by
  unfold relocEntry at hs
  split at hs
  · exact absurd hs nofun
  · obtain ⟨relocs, -, hs⟩ := Option.bind_eq_some_iff.mp hs
    obtain ⟨info, -, hs⟩ := Option.bind_eq_some_iff.mp hs
    obtain ⟨symbols, -, hs⟩ := Option.bind_eq_some_iff.mp hs
    obtain ⟨symbolInfo, -, hs⟩ := Option.bind_eq_some_iff.mp hs
    split at hs
    · obtain rfl := Option.some.inj hs
      exact .refl _
    · exact relocateSymbol_same hs

/-- A fold of steps that leave the blocks where they are. -/
theorem foldlM_same {ρ α : Type} {f : ρ → α → Option ρ} (part : ρ → ELF) {l : List α} {r r' : ρ}
    (hstep : ∀ {r a r'}, f r a = some r' → SameBlocks (part r) (part r'))
    (hs : l.foldlM f r = some r') : SameBlocks (part r) (part r') :=
  foldlM_prefixes (I := fun _ r' => SameBlocks (part r) (part r')) hs (.refl _)
    fun _ h hs => h.trans (hstep hs)

theorem elfResolveRelocations_same (hs : elfResolveRelocations st elf stack = some elf') :
    SameBlocks elf elf' := by
  unfold elfResolveRelocations at hs
  split at hs
  · obtain rfl := Option.some.inj hs
    exact .refl _
  · obtain ⟨sh, -, hs⟩ := Option.bind_eq_some_iff.mp hs
    split at hs
    · exact absurd hs nofun
    · exact foldlM_same id relocEntry_same hs

/-! ## A block for a section that has none -/

/-- The new block will be freed too. -/
theorem frees_setData {b : Block} (hi : i < elf.e_shnum) (hnone : elf.sectionData i = none) :
    (elf.setData i (some b)).frees.Perm (elf.frees ++ [.data b.addr]) := by
  have hupdate :
      (fun j => ((elf.setData i (some b)).sectionData j).map fun b => Malloc.data b.addr) =
      update (fun j => (elf.sectionData j).map fun b => Malloc.data b.addr) i
        (some (.data b.addr)) := by
    funext j
    by_cases hj : j = i
    · subst hj
      simp only [ELF.setData, update_self, Option.map_some]
    · simp only [ELF.setData, update_of_ne hj]
  have hdata : (elf.setData i (some b)).dataBlocks.Perm (elf.dataBlocks ++ [.data b.addr]) := by
    unfold ELF.dataBlocks
    rw [hupdate]
    exact filterMap_update_perm hi (by rw [hnone]; rfl)
  refine (hdata.append_right _).trans ?_
  rw [ELF.frees, List.append_assoc, List.append_assoc]
  exact List.perm_append_comm.append_left _

/-- What `KLmalloc` returns goes to a section without a block. -/
theorem frees_malloc {size : UWORD32} (hi : i < elf.e_shnum) (hnone : elf.sectionData i = none) :
    (elf.setData i (heap.malloc size)).frees.Perm (elf.frees ++ heap.gets) := by
  unfold Heap.malloc Heap.gets
  cases heap.block with
  | none =>
      have hsame : elf.setData i none = elf := by
        rw [ELF.setData, ← hnone, update_eq_self]
      simp only [Option.map_none, hsame, Option.toList_none, List.append_nil]
      exact .refl _
  | some r => exact frees_setData hi hnone

/-! ## Linking -/

theorem linkEntry_same {link : Nat} {symbolAddr : UWORD32} {r r' : ELF × Nat}
    (hs : linkEntry st link k symbolAddr r i = some r') : SameBlocks r.1 r'.1 := by
  obtain ⟨relocs, -, hs⟩ := Option.bind_eq_some_iff.mp hs
  obtain ⟨info, -, hs⟩ := Option.bind_eq_some_iff.mp hs
  obtain ⟨symbolTable, -, hs⟩ := Option.bind_eq_some_iff.mp hs
  obtain ⟨st_name, -, hs⟩ := Option.bind_eq_some_iff.mp hs
  obtain ⟨symbols, -, hs⟩ := Option.bind_eq_some_iff.mp hs
  obtain ⟨name, -, hs⟩ := Option.bind_eq_some_iff.mp hs
  split at hs
  · obtain rfl := Option.some.inj hs
    exact .refl _
  · obtain ⟨offset, -, hs⟩ := Option.bind_eq_some_iff.mp hs
    obtain ⟨text, htext, hs⟩ := Option.bind_eq_some_iff.mp hs
    obtain ⟨written, hw, rfl⟩ := Option.map_eq_some_iff.mp hs
    exact sameBlocks_setData htext (Block.addr_write hw)

theorem linkToExternalReference_same {symbolAddr : UWORD32} {r : ELF × Nat}
    (hs : linkToExternalReference st elf k symbolAddr = some r) : SameBlocks elf r.1 := by
  obtain ⟨sh, -, hs⟩ := Option.bind_eq_some_iff.mp hs
  split at hs
  · exact absurd hs nofun
  · split at hs
    · exact absurd hs nofun
    · exact foldlM_same Prod.fst linkEntry_same hs

theorem setSymbol_same {link : Nat} {o : Elf32_Word} {symbol : CString × UWORD32}
    {r r' : ELF × Nat} (hs : setSymbol st link i o r symbol = some r') : SameBlocks r.1 r'.1 := by
  obtain ⟨names, -, hs⟩ := Option.bind_eq_some_iff.mp hs
  obtain ⟨found, -, hs⟩ := Option.bind_eq_some_iff.mp hs
  split at hs
  · obtain ⟨linked, hlinked, rfl⟩ := Option.map_eq_some_iff.mp hs
    have hsame : SameBlocks r.1 linked.1 := linkToExternalReference_same hlinked
    exact hsame
  · obtain rfl := Option.some.inj hs
    exact .refl _

theorem setEntry_same {link : Nat} {symbol : List (CString × UWORD32)} {r r' : ELF × Nat}
    (hs : setEntry st link symbol r i = some r') : SameBlocks r.1 r'.1 := by
  obtain ⟨symbols, -, hs⟩ := Option.bind_eq_some_iff.mp hs
  obtain ⟨info, -, hs⟩ := Option.bind_eq_some_iff.mp hs
  split at hs
  · obtain rfl := Option.some.inj hs
    exact .refl _
  · obtain ⟨o, -, hs⟩ := Option.bind_eq_some_iff.mp hs
    exact foldlM_same Prod.fst setSymbol_same hs

theorem elfSetSymbols_same {symbol : List (CString × UWORD32)} {r : ELF × Nat}
    (hs : elfSetSymbols st elf symbol = some r) : SameBlocks elf r.1 := by
  obtain ⟨sh, -, hs⟩ := Option.bind_eq_some_iff.mp hs
  split at hs
  · exact absurd hs nofun
  · split at hs
    · exact absurd hs nofun
    · exact foldlM_same Prod.fst setEntry_same hs

/-! ## What an executable has -/

/-- Blocks are in the elements of `sectionData`; the header does not change once there are some. -/
structure Executable.Recorded (x : Executable) : Prop where
  inside : ∀ i, x.elf.sectionData i ≠ none → x.elf.Inside i
  header : x.record.buffer = .header → x.state = .saveElfHeader
  start : x.state = .saveElfHeader → x.elf.arrays = .neither
  names : x.state = .elfSectionNames → ∀ i, x.elf.sectionData i = none

variable {x x' : Executable}

/-- Before there are arrays, there is nothing to free. -/
theorem Executable.Recorded.frees_start (h : x.Recorded) (hstate : x.state = .saveElfHeader) :
    x.elf.frees = [] := by
  have harrays := h.start hstate
  have hdata : ∀ i, x.elf.sectionData i = none := fun i => by
    by_contra hne
    exact absurd (harrays.symm.trans (h.inside i hne).1) nofun
  rw [ELF.frees, harrays, ELF.dataBlocks]
  simp [hdata, Arrays.blocks]

/-- The blocks of `elf`, and those of `gets`, are in the elements of `sectionData`. -/
structure ELF.Adds (elf elf' : ELF) (gets : List Malloc) : Prop where
  inside : ∀ i, elf'.sectionData i ≠ none → elf'.Inside i
  frees : elf'.frees.Perm (elf.frees ++ gets)

theorem SameBlocks.inside {elf elf' : ELF} (h : SameBlocks elf elf')
    (hinside : ∀ i, elf.sectionData i ≠ none → elf.Inside i) :
    ∀ i, elf'.sectionData i ≠ none → elf'.Inside i := by
  intro i hne
  obtain ⟨harrays, hi⟩ := hinside i fun hn => hne ((h.none_iff i).mpr hn)
  rw [ELF.Inside, ELF.e_shnum, h.arrays, h.header]
  exact ⟨harrays, hi⟩

theorem ELF.Adds.nothing {elf elf' : ELF} (hinside : ∀ i, elf.sectionData i ≠ none → elf.Inside i)
    (h : SameBlocks elf elf') : elf.Adds elf' [] := by
  refine ⟨h.inside hinside, ?_⟩
  rw [h.frees_eq, List.append_nil]

theorem ELF.Adds.then_same {elf elf' elf'' : ELF} {gets : List Malloc} (h : elf.Adds elf' gets)
    (hsame : SameBlocks elf' elf'') : elf.Adds elf'' gets := by
  refine ⟨hsame.inside h.inside, ?_⟩
  rw [hsame.frees_eq]
  exact h.frees

/-- What `KLmalloc` returns goes to a section without a block. -/
theorem ELF.Adds.malloc (hinside : ∀ i, elf.sectionData i ≠ none → elf.Inside i)
    (hi : elf.Inside i) (hnone : elf.sectionData i = none) (heap : Heap) (size : UWORD32) :
    elf.Adds (elf.setData i (heap.malloc size)) heap.gets := by
  refine ⟨fun j hne => ?_, frees_malloc hi.2 hnone⟩
  by_cases hj : j = i
  · exact hj ▸ hi
  · rw [sectionData_setData, update_of_ne hj] at hne
    exact hinside j hne

/-- A load in a later state than the first two. -/
theorem Executable.Recorded.of_adds {gets : List Malloc} (h : x.elf.Adds x'.elf gets)
    (hbuffer : x'.record.buffer ≠ .header)
    (hstate : x'.state ≠ .saveElfHeader ∧ x'.state ≠ .elfSectionNames) : x'.Recorded :=
  ⟨h.inside, fun he => absurd he hbuffer, fun he => absurd he hstate.1,
    fun he => absurd he hstate.2⟩

/-- A step that leaves the blocks where they are, and is not one of a load. -/
theorem Executable.Recorded.same (h : x.Recorded) (hsame : SameBlocks x.elf x'.elf)
    (hbuffer : x'.record.buffer = .header → x.record.buffer = .header)
    (hstate : x'.state = x.state) : x'.Recorded := by
  refine ⟨hsame.inside h.inside, fun he => ?_, fun he => ?_, fun he i => ?_⟩
  · exact hstate.trans (h.header (hbuffer he))
  · rw [hsame.arrays]
    exact h.start (hstate.symm.trans he)
  · exact (hsame.none_iff i).mpr (h.names (hstate.symm.trans he) i)

theorem setData_none (hnone : elf.sectionData i = none) : elf.setData i none = elf := by
  rw [ELF.setData, ← hnone, update_eq_self]

/-! ## A load -/

/-- Room for a section. -/
theorem allocate_adds (h : x.Recorded) (hbuffer : x.record.buffer ≠ .header)
    (hi : x.elf.Inside x.iterator)
    (hfresh : (x.next.sh_size = 0#32 ∨ x.next.sh_type = SHT_NOBITS ∨ heap.block.isSome) →
      x.elf.sectionData x.iterator = none) :
    x.elf.Adds (x.allocate x.next heap).1.elf (if x.next.sh_size ≠ 0#32 then heap.gets else []) ∧
      (x.allocate x.next heap).1.record.buffer ≠ .header ∧
      (x.allocate x.next heap).1.state = x.state := by
  unfold Executable.allocate
  split
  · next hsize =>
    rw [if_neg (not_not.mpr hsize)]
    refine ⟨?_, by simp [Executable.endStep], rfl⟩
    show x.elf.Adds (x.elf.setData x.iterator none) []
    rw [setData_none (hfresh (.inl hsize))]
    exact .nothing h.inside (.refl _)
  · split
    · next hbits =>
      split
      · next b hb =>
        have hmem : heap.block.isSome := by
          rw [Heap.malloc] at hb
          rw [← Option.isSome_map, hb]
          rfl
        refine ⟨?_, by simp [Executable.endStep], rfl⟩
        show x.elf.Adds (x.elf.setData x.iterator (some b)) _
        rw [← hb]
        exact .malloc h.inside hi (hfresh (.inr (.inr hmem))) heap _
      · next hb =>
        refine ⟨?_, by simp [Executable.endStep], rfl⟩
        have hgets : heap.gets = [] := by
          rw [Heap.gets, Option.map_eq_none_iff.mp hb]
          rfl
        rw [hgets]
        exact .nothing h.inside (.refl _)
    · next hbits =>
      have hadds := ELF.Adds.malloc h.inside hi (hfresh (.inr (.inl (not_not.mp hbits)))) heap
        x.record.size
      split
      · next b hb =>
        refine ⟨?_, ?_, rfl⟩
        · rw [hb] at hadds
          exact hadds
        · show (if x.record.buffer = .data x.iterator then Buffer.lost else x.record.buffer) ≠ _
          split
          · simp
          · exact hbuffer
      · next hb =>
        refine ⟨?_, hbuffer, rfl⟩
        rw [hb] at hadds
        exact hadds

/-- A section. -/
theorem elfSectionProcessing_adds {r : Statics × Executable × FsmResult} (h : x.Recorded)
    (hbuffer : x.record.buffer ≠ .header) (hstate : x.state = .elfSection)
    (hfresh : x.StoresFresh st heap) (hs : elfSectionProcessing st x heap = some r) :
    x.elf.Adds r.2.1.elf (x.gets st heap) ∧ r.2.1.record.buffer ≠ .header ∧
      r.2.1.state = x.state := by
  unfold Executable.gets
  rw [hstate]
  obtain ⟨sh, hsh, hs⟩ := Option.bind_eq_some_iff.mp hs
  obtain ⟨hi, hsh⟩ := ELF.shdr_eq_some hsh
  obtain rfl : x.next = sh := hsh
  dsimp only
  split at hs
  · next hnull =>
    obtain rfl := Option.some.inj hs
    rw [if_neg fun hl => hl.1.1 hnull]
    exact ⟨.nothing h.inside (.refl _), nofun, hstate⟩
  · next hnull =>
    split at hs
    · exact absurd hs nofun
    · obtain ⟨st', -, hs⟩ := Option.bind_eq_some_iff.mp hs
      obtain ⟨skip, hskip, rfl⟩ := Option.map_eq_some_iff.mp hs
      cases skip with
      | true =>
        have hnot : ¬ x.Loads := fun hl => absurd (hl.2.symm.trans hskip) (by simp)
        show x.elf.Adds x.skip.1.elf _ ∧ x.skip.1.record.buffer ≠ .header ∧ x.skip.1.state = _
        simp only [hnot, false_and, if_false]
        exact ⟨.nothing h.inside (.refl _), nofun, hstate⟩
      | false =>
        have hloads : x.Loads := ⟨hnull, hskip⟩
        simp only [hloads, true_and]
        rw [← hstate]
        exact allocate_adds h hbuffer hi (hfresh.1 hstate hloads)

/-- The symbols of `.bss`, and the relocations. -/
theorem elfPostLoad_adds (h : x.Recorded) (hstate : x.state = .postLoad)
    (hfresh : x.StoresFresh st heap) (hs : elfPostLoad st x.elf heap stack = some elf') :
    x.elf.Adds elf' (x.gets st heap) := by
  have hfresh := hfresh.2 hstate
  unfold Executable.gets
  rw [hstate]
  dsimp only
  obtain ⟨sh, hsh, hs⟩ := Option.bind_eq_some_iff.mp hs
  obtain ⟨hi, rfl⟩ := ELF.shdr_eq_some hsh
  obtain ⟨assigned, hassigned, hs⟩ := Option.bind_eq_some_iff.mp hs
  refine ELF.Adds.then_same ?_ (elfResolveRelocations_same hs)
  split at hassigned
  · next hsize =>
    obtain ⟨table, htable, hassigned⟩ := Option.bind_eq_some_iff.mp hassigned
    obtain ⟨-, rfl⟩ := ELF.shdr_eq_some htable
    split at hassigned
    · exact absurd hassigned nofun
    · split at hassigned
      · exact absurd hassigned nofun
      · obtain ⟨⟨moved, total⟩, hmoved, hassigned⟩ := Option.bind_eq_some_iff.mp hassigned
        have hsame : SameBlocks x.elf moved := foldlM_same Prod.fst bssEntry_same hmoved
        have htotal : x.bssSize st = total := by
          unfold Executable.bssSize
          rw [if_pos hsize, hmoved]
          rfl
        rw [htotal] at hfresh ⊢
        dsimp only at hassigned
        split at hassigned
        · next hzero =>
          obtain rfl := Option.some.inj hassigned
          rw [if_neg (not_not.mpr hzero)]
          exact .nothing h.inside hsame
        · next hzero =>
          split at hassigned
          · exact absurd hassigned nofun
          · next hin =>
            obtain rfl := Option.some.inj hassigned
            rw [if_pos hzero]
            have hadds := ELF.Adds.malloc (hsame.inside h.inside) (not_not.mp hin)
              ((hsame.none_iff _).mpr (hfresh hzero)) heap total
            refine ⟨hadds.inside, ?_⟩
            rw [← hsame.frees_eq]
            exact hadds.frees
  · next hsize =>
    obtain rfl := Option.some.inj hassigned
    have hzero : x.bssSize st = 0#32 := if_neg hsize
    rw [if_neg (not_not.mpr hzero)]
    exact .nothing h.inside (.refl _)

/-- The arrays. -/
theorem elfSectionHeaderProcessing_adds (h : x.Recorded) (hstate : x.state = .saveElfHeader)
    (heap : Heap) {r : ELF × ExecRecord × FsmResult}
    (hr : elfSectionHeaderProcessing x.elf heap = r) :
    x.elf.Adds r.1 heap.getsArrays ∧ r.2.1.buffer ≠ .header ∧
      ∀ i, r.1.sectionData i = none := by
  have hstart := h.frees_start hstate
  have harrays := h.start hstate
  have hnone : ∀ i, x.elf.sectionData i = none := fun i => by
    by_contra hne
    exact absurd (harrays.symm.trans (h.inside i hne).1) nofun
  obtain rfl := hr
  unfold elfSectionHeaderProcessing Heap.getsArrays
  cases heap.block with
  | none => exact ⟨.nothing h.inside (.refl _), nofun, hnone⟩
  | some r =>
      dsimp only
      have hempty : ∀ elf : ELF, (∀ i, elf.sectionData i = none) →
          elf.frees = elf.arrays.blocks := by
        intro elf hnone
        rw [ELF.frees, ELF.dataBlocks]
        simp [hnone]
      split
      · refine ⟨⟨fun _ hne => absurd rfl hne, ?_⟩, nofun, fun _ => rfl⟩
        rw [hstart, hempty _ fun _ => rfl, List.nil_append]
      · refine ⟨⟨fun _ hne => absurd rfl hne, ?_⟩, nofun, fun _ => rfl⟩
        rw [hstart, hempty _ fun _ => rfl, List.nil_append]

/-- The names. -/
theorem elfSectionNamesProcessing_adds (st : Statics) (h : x.Recorded)
    (hstate : x.state = .elfSectionNames) (hbuffer : x.record.buffer ≠ .header)
    {r : ELF × ExecRecord × FsmResult}
    (hs : elfSectionNamesProcessing x.elf x.record heap = some r) :
    x.elf.Adds r.1 (x.gets st heap) ∧ r.2.1.buffer ≠ .header := by
  unfold elfSectionNamesProcessing at hs
  unfold Executable.gets
  rw [hstate]
  dsimp only
  split at hs
  · next hdef =>
    rw [if_pos hdef]
    obtain ⟨sh, hsh, rfl⟩ := Option.map_eq_some_iff.mp hs
    obtain ⟨hi, -⟩ := ELF.shdr_eq_some hsh
    have hadds := ELF.Adds.malloc h.inside hi (h.names hstate _) heap sh.sh_size
    split
    · next b hb =>
      rw [hb] at hadds
      exact ⟨hadds, nofun⟩
    · next hb =>
      rw [hb, setData_none (h.names hstate _)] at hadds
      exact ⟨hadds, nofun⟩
  · next hdef =>
    obtain rfl := Option.some.inj hs
    rw [if_neg hdef]
    exact ⟨.nothing h.inside (.refl _), hbuffer⟩

/-- **A load** adds what it gets to what will be freed, if it stores to no section that has a
block. -/
theorem load_frees {status : LoadStatus} {st' : Statics} (h : x.Recorded)
    (hfresh : x.StoresFresh st heap) (hs : x.load st heap stack = some (st', x', status)) :
    x'.Recorded ∧ x'.elf.frees.Perm (x.elf.frees ++ x.gets st heap) := by
  have hlater : x.state ≠ .saveElfHeader → x.record.buffer ≠ .header := fun hne he =>
    hne (h.header he)
  unfold Executable.load at hs
  cases hstate : x.state with
  | saveElfHeader =>
      rw [hstate] at hs
      obtain ⟨hadds, hbuffer, hnone⟩ := elfSectionHeaderProcessing_adds h hstate heap rfl
      obtain ⟨-, hs⟩ := Prod.mk.inj (Option.some.inj hs)
      obtain ⟨rfl, -⟩ := Prod.mk.inj hs
      have hgets : x.gets st heap = heap.getsArrays := by
        unfold Executable.gets
        rw [hstate]
      refine ⟨⟨hadds.inside, fun he => absurd he hbuffer, fun he => ?_, fun _ => hnone⟩, ?_⟩
      · have hne : ∀ c : Prop, [Decidable c] →
            (if c then FsmState.elfSectionNames else .elfInvalid) ≠ .saveElfHeader := by
          intro c _
          split
          · nofun
          · nofun
        exact absurd he (hne _)
      · rw [hgets]
        exact hadds.frees
  | elfSectionNames =>
      rw [hstate] at hs
      obtain ⟨r, hr, hs⟩ := Option.map_eq_some_iff.mp hs
      obtain ⟨-, hs⟩ := Prod.mk.inj hs
      obtain ⟨rfl, -⟩ := Prod.mk.inj hs
      obtain ⟨hadds, hbuffer⟩ := elfSectionNamesProcessing_adds st h hstate
        (hlater (by rw [hstate]; nofun)) hr
      refine ⟨.of_adds hadds hbuffer ?_, hadds.frees⟩
      dsimp only
      split
      · exact ⟨nofun, nofun⟩
      · exact ⟨nofun, nofun⟩
  | elfSection =>
      rw [hstate] at hs
      obtain ⟨r, hr, hs⟩ := Option.map_eq_some_iff.mp hs
      obtain ⟨-, hs⟩ := Prod.mk.inj hs
      obtain ⟨rfl, -⟩ := Prod.mk.inj hs
      obtain ⟨hadds, hbuffer, hsame⟩ := elfSectionProcessing_adds h
        (hlater (by rw [hstate]; nofun)) hstate hfresh hr
      refine ⟨.of_adds hadds hbuffer ?_, hadds.frees⟩
      dsimp only
      split
      · exact ⟨nofun, nofun⟩
      · rw [hsame, hstate]
        simp
      · exact ⟨nofun, nofun⟩
  | postLoad =>
      rw [hstate] at hs
      obtain ⟨elf, helf, hs⟩ := Option.map_eq_some_iff.mp hs
      obtain ⟨-, hs⟩ := Prod.mk.inj hs
      obtain ⟨rfl, -⟩ := Prod.mk.inj hs
      have hadds := elfPostLoad_adds h hstate hfresh helf
      exact ⟨.of_adds hadds nofun ⟨nofun, nofun⟩, hadds.frees⟩
  | finalState | elfInvalid =>
      rw [hstate] at hs
      obtain ⟨-, hs⟩ := Prod.mk.inj (Option.some.inj hs)
      obtain ⟨rfl, -⟩ := Prod.mk.inj hs
      have hgets : x.gets st heap = [] := by
        unfold Executable.gets
        rw [hstate]
      rw [hgets, List.append_nil]
      exact ⟨h, .refl _⟩

/-- The caller's reads leave the blocks where they are. -/
theorem fill_frees (h : x.Recorded) (file : Nat → UBYTE) :
    (x.fill file).Recorded ∧ (x.fill file).elf.frees.Perm x.elf.frees := by
  by_cases hheader : x.record.buffer = .header
  · -- there are no arrays yet, whatever the header says
    have hstate := h.header hheader
    have hstart := h.frees_start hstate
    have hnone : ∀ i, x.elf.sectionData i = none := fun i => by
      by_contra hne
      exact absurd ((h.start hstate).symm.trans (h.inside i hne).1) nofun
    have hfill : (x.fill file).elf.arrays = x.elf.arrays ∧
        (x.fill file).elf.sectionData = x.elf.sectionData := by
      unfold Executable.fill
      rw [hheader]
      exact ⟨rfl, rfl⟩
    have hrecorded : (x.fill file).Recorded := by
      refine ⟨fun i hne => ?_, fun _ => hstate, fun _ => hfill.1.trans (h.start hstate),
        fun _ i => ?_⟩
      · rw [hfill.2] at hne
        exact absurd (hnone i) hne
      · rw [hfill.2]
        exact hnone i
    refine ⟨hrecorded, ?_⟩
    rw [hstart, hrecorded.frees_start hstate]
  · have hsame : SameBlocks x.elf (x.fill file).elf := by
      unfold Executable.fill
      dsimp only
      split
      · exact .refl _
      · exact .refl _
      · next he => exact absurd he hheader
      · exact ⟨rfl, rfl, fun _ => rfl⟩
      · next i he =>
        refine ⟨rfl, rfl, fun j => ?_⟩
        by_cases hj : j = i
        · subst hj
          rw [sectionData_setData, update_self, Option.map_map]
          rfl
        · rw [sectionData_setData, update_of_ne hj]
    refine ⟨h.same hsame id rfl, ?_⟩
    rw [hsame.frees_eq]

end Alliance.KL.Exec
