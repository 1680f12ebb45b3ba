import Alliance.KL.ExecTable
import Alliance.KL.ExecVisits

/-!
# Executables that share their indices

The indices of the sections for `.text`, `.bss`, symbols and relocations are cached once for all
executables, by whichever load comes past such a section. What they would be if an executable
was the only one that was ever opened is its own set of indices.

As long as a call finds the indices of its own executable where it looks at the cached ones, each
executable is what it would be alone, and so is every result (`alone_of_own`).
-/

namespace Alliance.KL.Exec

open Function Lib

/-! ## Which indices a call looks at -/

/-- An entry of a symbol table has a section number that stands for the text section. -/
def ELF.NamesText (elf : ELF) (symTab : UWORD32) : Prop :=
  ∃ symbols ∈ elf.block symTab.toNat, ∃ i < symbols.size, ∃ shndx ∈ symbols.st_shndx i,
    elf.header.e_shnum < shndx

instance (elf : ELF) (symTab : UWORD32) : Decidable (elf.NamesText symTab) :=
  inferInstanceAs (Decidable (∃ symbols ∈ elf.block symTab.toNat, _))

variable {st own : Statics} {elf : ELF} {heap : Heap} {stack : UWORD32}

/-- The indices are the same, as far as the last step of a load looks at them. -/
structure Statics.AgreePostLoad (st own : Statics) (elf : ELF) : Prop where
  bss : st.bssSection = own.bssSection
  reloc : st.relocTableSection = own.relocTableSection
  symTab : (elf.sections own.bssSection.toNat).sh_size = 0#32 →
    st.symTabSection = own.symTabSection
  text : own.relocTableSection ≠ NOT_LOADED → st.textSection = own.textSection

instance (st own : Statics) (elf : ELF) : Decidable (st.AgreePostLoad own elf) :=
  decidable_of_iff
    (st.bssSection = own.bssSection ∧ st.relocTableSection = own.relocTableSection ∧
      ((elf.sections own.bssSection.toNat).sh_size = 0#32 →
        st.symTabSection = own.symTabSection) ∧
      (own.relocTableSection ≠ NOT_LOADED → st.textSection = own.textSection))
    ⟨fun ⟨bss, reloc, symTab, text⟩ => ⟨bss, reloc, symTab, text⟩,
      fun ⟨bss, reloc, symTab, text⟩ => ⟨bss, reloc, symTab, text⟩⟩

/-- The indices are the same, as far as a call looks at them. -/
def ExecCall.Agrees (st own : Statics) : Option Executable → ExecCall → Prop
  | some x, .load _ _ => x.state = .postLoad → st.AgreePostLoad own x.elf
  | some x, .symbols symbol => symbol ≠ [] →
    st.symTabSection = own.symTabSection ∧
      (st.textSection = own.textSection ∨ ¬ x.elf.NamesText own.symTabSection)
  | some _, .setSymbols symbol =>
    st.symTabSection = own.symTabSection ∧ (symbol ≠ [] →
      st.relocTableSection = own.relocTableSection ∧ st.textSection = own.textSection)
  | _, _ => True

instance (st own : Statics) :
    ∀ (x : Option Executable) (call : ExecCall), Decidable (call.Agrees st own x)
  | some x, .load _ _ => inferInstanceAs (Decidable (x.state = .postLoad → _))
  | some _, .symbols symbol => inferInstanceAs (Decidable (symbol ≠ [] → _))
  | some _, .setSymbols _ => inferInstanceAs (Decidable (_ ∧ _))
  | none, .opens _ | none, .read _ | none, .load _ _ | none, .symbols _ | none, .setSymbols _
  | none, .close | some _, .opens _ | some _, .read _ | some _, .close => instDecidableTrue

theorem bssEntry_congr (hsym : st.symTabSection = own.symTabSection)
    (hbss : st.bssSection = own.bssSection) : bssEntry st = bssEntry own := by
  funext ⟨elf, total⟩ i
  rw [bssEntry, bssEntry, hsym, hbss]

theorem elfSizeAndAssignMemToBSS_congr (hsym : st.symTabSection = own.symTabSection)
    (hbss : st.bssSection = own.bssSection) :
    elfSizeAndAssignMemToBSS st elf heap = elfSizeAndAssignMemToBSS own elf heap := by
  rw [elfSizeAndAssignMemToBSS, elfSizeAndAssignMemToBSS, bssEntry_congr hsym hbss, hsym, hbss]

theorem relocEntry_congr {link : Nat} (hreloc : st.relocTableSection = own.relocTableSection)
    (htext : st.textSection = own.textSection) :
    relocEntry st stack link = relocEntry own stack link := by
  funext elf i
  simp only [relocEntry, relocateSymbol, hreloc, htext]

theorem elfResolveRelocations_congr (hreloc : st.relocTableSection = own.relocTableSection)
    (htext : own.relocTableSection ≠ NOT_LOADED → st.textSection = own.textSection) :
    elfResolveRelocations st elf stack = elfResolveRelocations own elf stack := by
  rw [elfResolveRelocations, elfResolveRelocations, hreloc]
  split
  · rfl
  · next hne => simp only [relocEntry_congr hreloc (htext hne)]

theorem ELF.shdr_eq_some {i : Nat} {sh : Elf32_Shdr} (h : elf.shdr i = some sh) :
    elf.Inside i ∧ elf.sections i = sh := by
  obtain ⟨hi, hsh⟩ := ELF.exists_shdr.mp ⟨sh, h, rfl⟩
  exact ⟨hi, hsh.symm⟩

theorem elfPostLoad_congr (h : st.AgreePostLoad own elf) :
    elfPostLoad st elf heap stack = elfPostLoad own elf heap stack := by
  have hrelocate : ∀ elf,
      elfResolveRelocations st elf stack = elfResolveRelocations own elf stack :=
    fun elf => elfResolveRelocations_congr h.reloc h.text
  simp only [elfPostLoad, h.bss, hrelocate]
  cases hsh : elf.shdr own.bssSection.toNat with
  | none => rfl
  | some sh =>
      obtain ⟨-, rfl⟩ := ELF.shdr_eq_some hsh
      rw [Option.bind_some, Option.bind_some]
      split
      · next hsize => rw [elfSizeAndAssignMemToBSS_congr (h.symTab hsize) h.bss]
      · rfl

theorem symbolAddress_congr {symbols : Block} {i : Nat}
    (htext : elf.NamesText own.symTabSection → st.textSection = own.textSection)
    (hsymbols : elf.block own.symTabSection.toNat = some symbols) :
    symbolAddress st elf symbols i = symbolAddress own elf symbols i := by
  rw [symbolAddress, symbolAddress]
  cases hshndx : symbols.st_shndx i with
  | none => rfl
  | some shndx =>
      rw [Option.bind_some, Option.bind_some]
      split
      · next hlt =>
          have hsize := (ELF.exists_readHalf.mp ⟨shndx, hshndx, hlt⟩).1
          have hi : i < symbols.size := by
            simp only [Elf32_Sym.size] at hsize
            omega
          rw [htext ⟨symbols, hsymbols, i, hi, shndx, hshndx, hlt⟩]
      · rfl

theorem searchEntries_congr {link : Nat} {name : CString} {l : List Nat}
    (hsym : st.symTabSection = own.symTabSection)
    (htext : elf.NamesText own.symTabSection → st.textSection = own.textSection) :
    searchEntries st elf link name l = searchEntries own elf link name l := by
  induction l with
  | nil => rfl
  | cons i rest ih =>
      rw [searchEntries, searchEntries, hsym, ih]
      cases hsymbols : elf.block own.symTabSection.toNat with
      | none => rfl
      | some symbols =>
          rw [Option.bind_some, Option.bind_some, symbolAddress_congr htext hsymbols]

theorem elfSearchSymbol_congr (hsym : st.symTabSection = own.symTabSection)
    (htext : elf.NamesText own.symTabSection → st.textSection = own.textSection)
    (name : CString) : elfSearchSymbol st elf name = elfSearchSymbol own elf name := by
  simp only [elfSearchSymbol, hsym, searchEntries_congr hsym htext]

theorem linkEntry_congr {link k : Nat} {addr : UWORD32}
    (hsym : st.symTabSection = own.symTabSection)
    (hreloc : st.relocTableSection = own.relocTableSection)
    (htext : st.textSection = own.textSection) :
    linkEntry st link k addr = linkEntry own link k addr := by
  funext ⟨elf, linked⟩ i
  simp only [linkEntry, hsym, hreloc, htext]

theorem setSymbol_congr {link i : Nat} {o : Elf32_Word}
    (hsym : st.symTabSection = own.symTabSection)
    (hreloc : st.relocTableSection = own.relocTableSection)
    (htext : st.textSection = own.textSection) :
    setSymbol st link i o = setSymbol own link i o := by
  funext ⟨elf, resolved⟩ ⟨name, addr⟩
  simp only [setSymbol, linkToExternalReference, hreloc, linkEntry_congr hsym hreloc htext]

theorem setEntry_congr {link : Nat} {symbol : List (CString × UWORD32)}
    (hsym : st.symTabSection = own.symTabSection)
    (h : symbol ≠ [] →
      st.relocTableSection = own.relocTableSection ∧ st.textSection = own.textSection) :
    setEntry st link symbol = setEntry own link symbol := by
  funext ⟨elf, resolved⟩ i
  cases symbol with
  | nil => simp only [setEntry, hsym, List.foldlM_nil]
  | cons first rest =>
      obtain ⟨hreloc, htext⟩ := h (List.cons_ne_nil first rest)
      simp only [setEntry, hsym, setSymbol_congr hsym hreloc htext]

theorem elfSetSymbols_congr {symbol : List (CString × UWORD32)}
    (hsym : st.symTabSection = own.symTabSection)
    (h : symbol ≠ [] →
      st.relocTableSection = own.relocTableSection ∧ st.textSection = own.textSection) :
    elfSetSymbols st elf symbol = elfSetSymbols own elf symbol := by
  simp only [elfSetSymbols, hsym, setEntry_congr hsym h]

/-- Reading a section only writes the indices. -/
theorem elfSectionProcessing_congr (st own : Statics) (x : Executable) (heap : Heap) :
    (elfSectionProcessing st x heap).map (·.2) = (elfSectionProcessing own x heap).map (·.2) := by
  unfold elfSectionProcessing
  cases x.elf.shdr x.iterator with
  | none => rfl
  | some sh =>
      rw [Option.bind_some, Option.bind_some]
      split
      · rfl
      · split
        · rfl
        · have hsome : (cacheIndex st x.elf x.iterator sh).isSome =
              (cacheIndex own x.elf x.iterator sh).isSome := by
            rw [Bool.eq_iff_iff, ELF.isSome_cacheIndex, ELF.isSome_cacheIndex]
          cases hst : cacheIndex st x.elf x.iterator sh with
          | none =>
              rw [hst, Option.isSome_none, eq_comm, Option.isSome_eq_false_iff,
                Option.isNone_iff_eq_none] at hsome
              rw [hsome]
          | some st' =>
              rw [hst, Option.isSome_some, eq_comm] at hsome
              obtain ⟨own', hown⟩ := Option.isSome_iff_exists.mp hsome
              rw [hown, Option.bind_some, Option.bind_some, Option.map_map, Option.map_map]
              refine Option.map_congr fun skip _ => ?_
              cases skip with
              | true => rfl
              | false => rfl

theorem Executable.load_congr {x : Executable}
    (h : x.state = .postLoad → st.AgreePostLoad own x.elf) :
    (x.load st heap stack).map (·.2) = (x.load own heap stack).map (·.2) := by
  unfold load
  cases hstate : x.state with
  | elfSection =>
      simp only [Option.map_map]
      exact map_congr_snd (elfSectionProcessing_congr st own x heap) fun _ _ _ => rfl
  | postLoad =>
      rw [elfPostLoad_congr (h hstate), Option.map_map, Option.map_map]
      rfl
  | saveElfHeader => rfl
  | elfSectionNames =>
      simp only [Option.map_map]
      rfl
  | elfInvalid => rfl
  | finalState => rfl

/-- **A call** that finds the indices of its own executable does what it would do alone. -/
theorem callStep_congr {x : Option Executable} {call : ExecCall} (h : call.Agrees st own x) :
    (callStep st x call).map (·.2) = (callStep own x call).map (·.2) := by
  cases x with
  | none =>
      cases call with
      | _ => rfl
  | some x =>
      cases call with
      | opens junk => rfl
      | read file => rfl
      | load heap stack =>
          simp only [callStep, Option.map_map]
          exact map_congr_snd (Executable.load_congr h) fun _ _ _ => rfl
      | symbols symbol =>
          have hsearch : symbol.mapM (elfSearchSymbol st x.elf) =
              symbol.mapM (elfSearchSymbol own x.elf) := by
            cases symbol with
            | nil => rfl
            | cons name rest =>
                obtain ⟨hsym, htext⟩ := h (List.cons_ne_nil name rest)
                have htext' := fun hnames => htext.resolve_right (not_not_intro hnames)
                rw [funext (elfSearchSymbol_congr hsym htext')]
          rw [callStep, callStep, hsearch, Option.map_map, Option.map_map]
          exact Option.map_congr fun _ _ => rfl
      | setSymbols symbol =>
          rw [callStep, callStep, elfSetSymbols_congr h.1 h.2, Option.map_map, Option.map_map]
          exact Option.map_congr fun _ _ => rfl
      | close =>
          rw [callStep, callStep]
          split
          · rfl
          · rfl

/-! ## Alone, and with others -/

/-- An executable that is the only one, and the results of its calls. -/
structure Alone where
  st : Statics
  x : Option Executable
  results : List CallResult

def Alone.init : Alone := ⟨.init, none, []⟩

def Alone.step (a : Alone) (call : ExecCall) : Option Alone :=
  (callStep a.st a.x call).map fun r => ⟨r.1, r.2.1, a.results ++ [r.2.2]⟩

/-- The library; and of each executable the calls since it was opened, their results, and the
indices that were cached if it was the only one. -/
structure Library where
  st : Statics
  eTable : Nat → Option Executable
  maxExecutables : Nat
  calls : Nat → List ExecCall
  results : Nat → List CallResult
  own : Nat → Statics

namespace Library

def init (maxExecutables : Nat) : Library :=
  ⟨.init, fun _ => none, maxExecutables, fun _ => [], fun _ => [], fun _ => .init⟩

variable (s : Library)

/-- `KLexecOpen` takes the first entry that is free. -/
def Admits (e : Nat) : ExecCall → Prop
  | .opens _ => e < s.maxExecutables ∧ (s.eTable e).isNone ∧ ∀ j < e, (s.eTable j).isSome
  | _ => True

instance (e : Nat) : ∀ call, Decidable (s.Admits e call)
  | .opens _ => inferInstanceAs (Decidable (_ ∧ _ ∧ _))
  | .read _ | .load _ _ | .symbols _ | .setSymbols _ | .close => instDecidableTrue

def alone (e : Nat) : Alone := ⟨s.own e, s.eTable e, s.results e⟩

/-- The executable that a call works on is another one if the call opens it. -/
def callsBefore (e : Nat) : ExecCall → List ExecCall
  | .opens _ => []
  | _ => s.calls e

def aloneBefore (e : Nat) : ExecCall → Alone
  | .opens _ => .init
  | _ => s.alone e

def step (s : Library) : Nat × ExecCall → Option Library
  | (e, call) =>
    if ¬ s.Admits e call then none
    else (callStep s.st (s.eTable e) call).map fun (st, x, result) =>
      let before := s.aloneBefore e call
      { s with
        st
        eTable := update s.eTable e x
        calls := update s.calls e (s.callsBefore e call ++ [call])
        results := update s.results e (before.results ++ [result])
        own := update s.own e (((before.step call).map Alone.st).getD before.st) }

/-- A call finds the indices of its own executable, as far as it looks at the cached ones. -/
def Own (s : Library) : Nat × ExecCall → Prop
  | (e, call) => call.Agrees s.st (s.own e) (s.eTable e)

instance (s : Library) (op : Nat × ExecCall) : Decidable (s.Own op) :=
  inferInstanceAs (Decidable (op.2.Agrees s.st (s.own op.1) (s.eTable op.1)))

/-- Each executable is what it was if it was the only one, and so are the results of its calls. -/
def Independent : Prop := ∀ e, (s.calls e).foldlM Alone.step .init = some (s.alone e)

variable {s} {s' : Library} {e : Nat} {call : ExecCall}

theorem aloneBefore_x (h : s.Admits e call) : (s.aloneBefore e call).x = s.eTable e := by
  cases call with
  | opens junk => exact (Option.isNone_iff_eq_none.mp h.2.1).symm
  | _ => rfl

theorem Independent.before (hi : s.Independent) (e : Nat) (call : ExecCall) :
    (s.callsBefore e call).foldlM Alone.step .init = some (s.aloneBefore e call) := by
  cases call with
  | opens junk => rfl
  | _ => exact hi e

/-- **The next call** does what it would do alone, if it finds the indices of its own executable. -/
theorem outcome_eq (hadmits : s.Admits e call) (hown : s.Own (e, call)) :
    (callStep s.st (s.eTable e) call).map (·.2) =
      (callStep (s.aloneBefore e call).st (s.aloneBefore e call).x call).map (·.2) := by
  rw [aloneBefore_x hadmits]
  cases call with
  | opens junk =>
      rw [Option.isNone_iff_eq_none.mp hadmits.2.1]
      rfl
  | _ => exact callStep_congr hown

theorem independent_step {op : Nat × ExecCall} (hi : s.Independent) (hown : s.Own op)
    (hs : s.step op = some s') : s'.Independent := by
  obtain ⟨e, call⟩ := op
  rw [step] at hs
  split at hs
  · exact absurd hs nofun
  · next hadmits =>
    obtain ⟨⟨st, x, result⟩, hr, rfl⟩ := Option.map_eq_some_iff.mp hs
    have houtcome := outcome_eq (not_not.mp hadmits) hown
    rw [hr] at houtcome
    obtain ⟨⟨own, r⟩, halone, hsnd⟩ := Option.map_eq_some_iff.mp houtcome.symm
    obtain rfl : r = (x, result) := hsnd
    have hstep : (s.aloneBefore e call).step call =
        some ⟨own, x, (s.aloneBefore e call).results ++ [result]⟩ := by
      rw [Alone.step, halone, Option.map_some]
    intro e'
    by_cases he : e' = e
    · subst he
      simp only [alone, update_self, List.foldlM_append, List.foldlM_cons, List.foldlM_nil,
        hi.before e' call, hstep, Option.bind_eq_bind, Option.bind_some, Option.map_some,
        Option.getD_some]
      rfl
    · simp only [alone, update_of_ne he]
      exact hi e'

/-- **Executables are independent** as long as each call finds the indices of its own one. -/
theorem alone_of_own {maxExecutables : Nat} {ops : List (Nat × ExecCall)}
    (hr : Run step Own (init maxExecutables) ops s) : s.Independent ∧
    ∀ e call, s.Admits e call → s.Own (e, call) → (callStep s.st (s.eTable e) call).map (·.2) =
      ((s.callsBefore e call).foldlM Alone.step .init).bind fun a =>
        (callStep a.st a.x call).map (·.2) := by
  have hi : s.Independent := hr.invariant independent_step fun _ => rfl
  refine ⟨hi, fun e call hadmits hown => ?_⟩
  rw [outcome_eq hadmits hown, hi.before e call, Option.bind_some]

end Library

/-- A file with the symbol `f`, and two symbol tables, one of which is empty. -/
def symbolFile (tables : List UBYTE) : List UBYTE :=
  headerBytes 84 4 1 ++ literal "" ++ literal ".shstrtab" ++ literal "f" ++ [0, 0, 0] ++
    [11, 0, 0, 0, 0, 0, 0, 0, 0, 0, 0, 0, 1, 0, 1, 0] ++
    sectionBytes 0 0 0 0 0 0 ++ sectionBytes 1 3 52 13 0 0 ++ tables

def symTabFirst : List UBYTE :=
  symbolFile (sectionBytes 0 2 68 16 1 16 ++ sectionBytes 0 11 68 0 1 16)

def symTabLast : List UBYTE :=
  symbolFile (sectionBytes 0 11 68 0 1 16 ++ sectionBytes 0 2 68 16 1 16)

/-- The calls that load a file with four sections. -/
def loadCalls (e : Nat) (file : List UBYTE) : List (Nat × ExecCall) :=
  (e, .opens (some fun _ => 0#8)) ::
    (List.range 7).flatMap fun n =>
      [(e, .read (fileOf file)), (e, .load (memoryAt (8 * e + n)) 0#32)]

def searchF (e : Nat) : Nat × ExecCall := (e, .symbols [⟨chars "f", by decide⟩])

/-- Two executables whose sections are in the same order. -/
def sameOrder : List (Nat × ExecCall) :=
  loadCalls 0 symTabFirst ++ searchF 0 :: loadCalls 1 symTabFirst ++ [searchF 0, searchF 1]

theorem alone_of_own_sameOrder :
    ∃ s, Run Library.step Library.Own (.init 2) sameOrder s ∧ s.Independent := by
  obtain ⟨s, hr, -⟩ := Run.of_exec_any (show (exec Library.step Library.Own (.init 2)
    sameOrder).any (fun _ => true) = true by decide +kernel)
  exact ⟨s, hr, (Library.alone_of_own hr).1⟩

/-- Two executables whose symbol tables have different indices. -/
def otherOrder : List (Nat × ExecCall) :=
  loadCalls 0 symTabFirst ++ loadCalls 1 symTabLast ++ [searchF 0]

/-- The symbol of the first executable is not found any more when the second is loaded. -/
theorem not_alone_otherOrder : ∃ s, Run Library.step (fun _ _ => True) (.init 2) otherOrder s ∧
    ¬ s.Independent := by
  obtain ⟨s, hr, hresults⟩ := Run.of_exec_any (show (exec Library.step (fun _ _ => True) (.init 2)
    otherOrder).any (fun s => decide (((s.calls 0).foldlM Alone.step .init).map Alone.results ≠
      some (s.results 0))) = true by decide +kernel)
  refine ⟨s, hr, fun hi => of_decide_eq_true hresults ?_⟩
  rw [hi 0]
  rfl

end Alliance.KL.Exec
