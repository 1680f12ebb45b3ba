import Mathlib.Logic.Function.Basic
import Alliance.Elf
import Alliance.Lib.CString

/-!
# The executable loader (`KL/Exec`)

An executable is loaded by calls of `KLexecLoad`, each of which does a step and says in a record
what its caller has to read from the file for the next one. What a section holds is in a block of
memory of its own.

The functions here follow pointers and index arrays as the source does, and have no result where
that leaves the array or the block, follows NIL or divides by 0. What `KLmalloc` returns, and what
is on the stack where a variable has not been written, is for the caller to say.
-/

namespace Alliance.KL.Exec

open Function Lib

/-- An unsigned word, or a pointer. -/
abbrev UWORD32 := BitVec 32

/-! ## Memory -/

/-- What `KLmalloc` returns, if it is not NIL. -/
structure Block where
  addr : UWORD32
  size : Nat
  byte : Nat → UBYTE

namespace Block

variable (b : Block)

def readByte (o : Nat) : Option UBYTE := if o < b.size then some (b.byte o) else none

def readHalf (o : Nat) : Option Elf32_Half :=
  if o + 2 ≤ b.size then some (half b.byte o) else none

def readWord (o : Nat) : Option Elf32_Word :=
  if o + 4 ≤ b.size then some (word b.byte o) else none

/-- The bytes of `w` at `o` and behind it. -/
def write {n : Nat} (o : Nat) (w : BitVec n) : Option Block :=
  if o + n / 8 ≤ b.size then
    some
      { b with
        byte := fun k =>
          if o ≤ k ∧ k < o + n / 8 then w.extractLsb' (8 * (k - o)) 8 else b.byte k }
  else none

/-- All that can be read from `o` on. -/
def bytesFrom (o : Nat) : List UBYTE := (List.range (b.size - o)).map fun k => b.byte (o + k)

/-! An `Elf32_Sym` -/

def st_name (i : Nat) : Option Elf32_Word := b.readWord (Elf32_Sym.size * i)

def st_value (i : Nat) : Option Elf32_Word := b.readWord (Elf32_Sym.size * i + 4)

def st_size (i : Nat) : Option Elf32_Word := b.readWord (Elf32_Sym.size * i + 8)

def st_info (i : Nat) : Option UBYTE := b.readByte (Elf32_Sym.size * i + 12)

def st_shndx (i : Nat) : Option Elf32_Half := b.readHalf (Elf32_Sym.size * i + 14)

/-! An `Elf32_Rel` -/

def r_offset (i : Nat) : Option Elf32_Word := b.readWord (Elf32_Rel.size * i)

def r_info (i : Nat) : Option Elf32_Word := b.readWord (Elf32_Rel.size * i + 4)

end Block

/-- The address in a pointer. -/
def address (p : Option Block) : UWORD32 := (p.map Block.addr).getD 0#32

/-- What `KLmalloc` comes to in a call: an address, and what was in memory there. -/
structure Heap where
  block : Option (UWORD32 × (Nat → UBYTE))
  /-- There is memory for an array of pointers, too. -/
  pointers : Bool

def Heap.malloc (heap : Heap) (size : UWORD32) : Option Block :=
  heap.block.map fun r => ⟨r.1, size.toNat, r.2⟩

/-! ## Strings -/

/-- A string literal, with its 0. -/
def literal (s : String) : List UBYTE := chars s ++ [0#8]

/-- `KLstringCompare(p1, p2)==0`, where this is to be read from `p1` and from `p2` on. -/
def klStringEqual : List UBYTE → List UBYTE → Option Bool
  | c1 :: p1, c2 :: p2 =>
    if c1 ≠ c2 then some false else if c1 = 0#8 then some true else klStringEqual p1 p2
  | _, _ => none

/-- `KLstringMatch(phaystack, pneedle)!=NIL`. It looks at the byte behind what it has found. -/
def klStringMatch (needle : List UBYTE) : List UBYTE → Option Bool
  | [] => none
  | c :: haystack =>
    if needle.isPrefixOf (c :: haystack) then
      if needle.length ≤ haystack.length then some true else none
    else if c = 0#8 then some false
    else klStringMatch needle haystack

/-! ## An executable -/

inductive FsmState where
  | saveElfHeader
  | elfSectionNames
  | elfSection
  | postLoad
  | elfInvalid
  | finalState
  deriving DecidableEq, Repr

inductive FsmResult where
  | nextState
  | continueIteration
  | stopIteration
  | stateError
  deriving DecidableEq, Repr

inductive LoadStatus where
  | EXEC_LOAD_AGAIN
  | EXEC_LOAD_INVID
  | EXEC_LOAD_FINISHED
  | EXEC_LOAD_ERROR
  deriving DecidableEq, Repr

/-- Where the next part of the file goes. -/
inductive Buffer where
  | NIL
  | header
  | sections
  | data (i : Nat)
  /-- A block that `sectionData` does not have any more. -/
  | lost
  deriving DecidableEq, Repr

/-- `ExecRecord`. -/
structure ExecRecord where
  position : UWORD32
  size : UWORD32
  buffer : Buffer
  deriving DecidableEq, Repr

/-- The indices of sections that are cached, for all executables together. -/
structure Statics where
  textSection : UWORD32
  bssSection : UWORD32
  symTabSection : UWORD32
  relocTableSection : UWORD32
  deriving DecidableEq, Repr

def NOT_LOADED : UWORD32 := 0xFFFF#32

def Statics.init : Statics := ⟨0#32, 0#32, 0#32, NOT_LOADED⟩

/-- Which of its arrays an `ELF` has: its pointers to them are not initialised. -/
inductive Arrays where
  | neither
  /-- `sectionData` is NIL. -/
  | sections
  | both
  deriving DecidableEq, Repr

/-- `ELF`. -/
structure ELF where
  header : Elf32_Ehdr
  arrays : Arrays
  sections : Nat → Elf32_Shdr
  sectionData : Nat → Option Block

namespace ELF

variable (elf : ELF)

def e_shnum : Nat := elf.header.e_shnum.toNat

def e_shstrndx : Nat := elf.header.e_shstrndx.toNat

/-- The index is one of an element of both arrays. -/
def Inside (i : Nat) : Prop := elf.arrays = .both ∧ i < elf.e_shnum

instance (i : Nat) : Decidable (elf.Inside i) := inferInstanceAs (Decidable (_ ∧ _))

/-- `section[i]`. -/
def shdr (i : Nat) : Option Elf32_Shdr := if elf.Inside i then some (elf.sections i) else none

/-- `sectionData[i]`. -/
def data (i : Nat) : Option (Option Block) :=
  if elf.Inside i then some (elf.sectionData i) else none

/-- `*sectionData[i]`. -/
def block (i : Nat) : Option Block := if elf.Inside i then elf.sectionData i else none

def setData (i : Nat) (p : Option Block) : ELF :=
  { elf with sectionData := update elf.sectionData i p }

/-- The name of a section, and what is behind it. -/
def name (sh : Elf32_Shdr) : Option (List UBYTE) :=
  (elf.block elf.e_shstrndx).map fun b => b.bytesFrom sh.sh_name.toNat

def nameIs (sh : Elf32_Shdr) (s : String) : Option Bool :=
  (elf.name sh).bind fun p => klStringEqual p (literal s)

def nameHas (sh : Elf32_Shdr) (s : String) : Option Bool :=
  (elf.name sh).bind fun p => klStringMatch (chars s) p

end ELF

/-- An entry of `_eTable` whose `exec` is not NIL, which is one whose `type` is `elf32`, and the
record that its caller keeps. -/
structure Executable where
  elf : ELF
  state : FsmState
  iterator : Nat
  record : ExecRecord

/-- What `KLexecOpen` makes of an entry, in memory with `junk` in it: the header is to be read. -/
def Executable.opened (junk : Nat → UBYTE) : Executable where
  elf := ⟨.ofBytes junk, .neither, fun _ => .ofBytes junk 0, fun _ => none⟩
  state := .saveElfHeader
  iterator := 0
  record := ⟨0#32, .ofNat 32 Elf32_Ehdr.size, .header⟩

/-- The caller has read the file from `record.position` on. -/
def Executable.fill (x : Executable) (file : Nat → UBYTE) : Executable :=
  let bytes k := file (x.record.position.toNat + k)
  let elf :=
    match x.record.buffer with
    | .NIL | .lost => x.elf
    | .header => { x.elf with header := .ofBytes bytes }
    | .sections => { x.elf with sections := fun i => .ofBytes bytes (Elf32_Shdr.size * i) }
    | .data i =>
      let fillBlock (b : Block) : Block :=
        { b with byte := fun k => if k < x.record.size.toNat then bytes k else b.byte k }
      x.elf.setData i ((x.elf.sectionData i).map fillBlock)
  { x with elf }

/-! ## The header (`ExecProbe.c`) -/

inductive ProbeStatus where
  | EXEC_PROBE_OK
  | EXEC_PROBE_INVID
  | EXEC_PROBE_NOTOK
  | EXEC_PROBE_NOT_SUPPORTED
  | EXEC_PROBE_NONE
  deriving DecidableEq, Repr

def cpuDependantCheck (elfHeader : Elf32_Ehdr) : Bool :=
  elfHeader.e_machine = EM_386 ∨ elfHeader.e_machine = EM_486

/-- What `KLexecProbe` says of a header. -/
def probe (elfHeader : Elf32_Ehdr) : ProbeStatus :=
  if ¬ elfHeader.Signed then .EXEC_PROBE_NOTOK
  else if elfHeader.e_machine = EM_NONE then .EXEC_PROBE_NOTOK
  else if elfHeader.e_ident 5 = ELFDATANONE then .EXEC_PROBE_NOTOK
  else if elfHeader.e_ident 4 ≠ ELFCLASS32 then .EXEC_PROBE_NOT_SUPPORTED
  else if cpuDependantCheck elfHeader then
    if elfHeader.e_shoff ≠ 0#32 then .EXEC_PROBE_OK else .EXEC_PROBE_NOTOK
  else .EXEC_PROBE_NONE

/-! ## Reading the sections (`loader.c`) -/

/-- `ELFSectionHeaderProcessing`. -/
def elfSectionHeaderProcessing (elf : ELF) (heap : Heap) : ELF × ExecRecord × FsmResult :=
  let sizeOfSectionHeaders : UWORD32 := .ofNat 32 (Elf32_Shdr.size * elf.e_shnum)
  let record buffer : ExecRecord := ⟨elf.header.e_shoff, sizeOfSectionHeaders, buffer⟩
  match heap.block with
  | none => (elf, record .NIL, .stateError)
  | some (_, junk) =>
    let elf (arrays : Arrays) : ELF :=
      { elf with
        arrays
        sections := fun i => .ofBytes junk (Elf32_Shdr.size * i)
        sectionData := fun _ => none }
    if heap.pointers then (elf .both, record .sections, .nextState)
    else (elf .sections, record .sections, .stateError)

/-- `ELFSectionNamesProcessing`. -/
def elfSectionNamesProcessing (elf : ELF) (record : ExecRecord) (heap : Heap) :
    Option (ELF × ExecRecord × FsmResult) :=
  if elf.header.e_shstrndx ≠ SHN_UNDEF then
    (elf.shdr elf.e_shstrndx).map fun sh =>
      match heap.malloc sh.sh_size with
      | some b =>
        (elf.setData elf.e_shstrndx (some b), ⟨sh.sh_offset, sh.sh_size, .data elf.e_shstrndx⟩,
          .nextState)
      | none => (elf, ⟨sh.sh_offset, sh.sh_size, .NIL⟩, .stateError)
  else some (elf, record, .stateError)

/-- The indices of the sections for `.text`, `.bss`, symbols and relocations. -/
def cacheIndex (st : Statics) (elf : ELF) (i : Nat) (sh : Elf32_Shdr) : Option Statics :=
  if sh.sh_flags &&& SHF_EXECINSTR ≠ 0#32 then some { st with textSection := .ofNat 32 i }
  else (elf.nameIs sh ".bss").bind fun bss =>
    if bss then some { st with bssSection := .ofNat 32 i }
    else if sh.sh_type = SHT_SYMTAB then some { st with symTabSection := .ofNat 32 i }
    else if sh.sh_type = SHT_REL then
      (elf.nameIs sh ".rel.text").map fun rel =>
        if rel then { st with relocTableSection := .ofNat 32 i } else st
    else some st

/-- The section is one that is not loaded: without data for the program, with the names of the
sections, or with data for a debugger. -/
def ELF.skips (elf : ELF) (i : Nat) (sh : Elf32_Shdr) : Option Bool :=
  if sh.sh_flags &&& SHF_ALLOC ≠ 0#32 then some false
  else if sh.sh_type ≠ SHT_SYMTAB ∧ sh.sh_type ≠ SHT_DYNSYM ∧ sh.sh_type ≠ SHT_STRTAB ∧
      sh.sh_type ≠ SHT_REL ∧ sh.sh_type ≠ SHT_RELA then some true
  else if i = elf.e_shstrndx then some true
  else if sh.sh_type = SHT_REL ∨ sh.sh_type = SHT_RELA then elf.nameHas sh "stab"
  else if sh.sh_type = SHT_STRTAB then elf.nameHas sh "stabstr"
  else some false

namespace Executable

variable (x : Executable)

/-- The end of a step: the test for the last section. -/
def endStep : Executable × FsmResult :=
  ({ x with iterator := x.iterator + 1 },
    if x.elf.e_shnum = x.iterator + 1 then .stopIteration else .continueIteration)

/-- The end of a step that skips a section. -/
def skip : Executable × FsmResult :=
  ({ x with
      iterator := x.iterator + 1
      record := { x.record with buffer := .NIL } }, .continueIteration)

/-- Room for the section. A section that takes no space in the file gets as much as the last one
that was read. -/
def allocate (sh : Elf32_Shdr) (heap : Heap) : Executable × FsmResult :=
  if sh.sh_size = 0#32 then
    endStep
      { x with
        elf := x.elf.setData x.iterator none
        record := { x.record with buffer := .NIL } }
  else if sh.sh_type ≠ SHT_NOBITS then
    match heap.malloc sh.sh_size with
    | some b =>
      endStep
        { x with
          elf := x.elf.setData x.iterator (some b)
          record := ⟨sh.sh_offset, sh.sh_size, .data x.iterator⟩ }
    | none =>
      ({ x with
          iterator := x.iterator + 1
          record := ⟨sh.sh_offset, sh.sh_size, .NIL⟩ }, .stateError)
  else
    match heap.malloc x.record.size with
    | some b =>
      let buffer := if x.record.buffer = .data x.iterator then .lost else x.record.buffer
      endStep
        { x with
          elf := x.elf.setData x.iterator (some b)
          record := { x.record with buffer } }
    | none => ({ x with elf := x.elf.setData x.iterator none }, .stateError)

end Executable

/-- `ELFSectionProcessing`. -/
def elfSectionProcessing (st : Statics) (x : Executable) (heap : Heap) :
    Option (Statics × Executable × FsmResult) :=
  (x.elf.shdr x.iterator).bind fun sh =>
    if sh.sh_type = SHT_NULL then
      some (st, { x with record := { x.record with buffer := .NIL } }.endStep)
    else if ¬ x.elf.Inside x.elf.e_shstrndx then none
    else (cacheIndex st x.elf x.iterator sh).bind fun st =>
      (x.elf.skips x.iterator sh).map fun skip =>
        if skip then (st, x.skip) else (st, x.allocate sh heap)

/-! ## When all is read -/

/-- An entry of the symbol table gets a place in `.bss`. -/
def bssEntry (st : Statics) : ELF × UWORD32 → Nat → Option (ELF × UWORD32)
  | (elf, totalBSSSize), i =>
    (elf.block st.symTabSection.toNat).bind fun symbols =>
    (symbols.st_shndx i).bind fun shndx =>
      if shndx ≤ elf.header.e_shnum then some (elf, totalBSSSize)
      else (symbols.st_info i).bind fun info =>
        if ELF32_ST_TYPE info = STT_FILE then some (elf, totalBSSSize)
        else (symbols.st_size i).bind fun size =>
          (symbols.write (Elf32_Sym.size * i + 14) (st.bssSection.setWidth 16)).map fun symbols =>
            (elf.setData st.symTabSection.toNat (some symbols), totalBSSSize + size)

/-- The block for `.bss`. -/
def ELF.assignBSS (elf : ELF) (bss : Nat) (totalBSSSize : UWORD32) (heap : Heap) : ELF :=
  { elf.setData bss (heap.malloc totalBSSSize) with
    sections := update elf.sections bss { elf.sections bss with sh_size := totalBSSSize } }

/-- `ELFsizeAndAssignMemToBSS`. -/
def elfSizeAndAssignMemToBSS (st : Statics) (elf : ELF) (heap : Heap) : Option ELF :=
  (elf.shdr st.symTabSection.toNat).bind fun sh =>
    if sh.sh_entsize = 0#32 then none
    else if ¬ elf.Inside sh.sh_link.toNat then none
    else
      ((List.range (sh.sh_size / sh.sh_entsize).toNat).foldlM (bssEntry st) (elf, 0#32)).bind
        fun (elf, totalBSSSize) =>
          if totalBSSSize = 0#32 then some elf
          else if ¬ elf.Inside st.bssSection.toNat then none
          else some (elf.assignBSS st.bssSection.toNat totalBSSSize heap)

/-- `relocateSymbol`: entry `i` of a table of relocations, for entry `k` of a table of symbols. The
number of the target section may be what `stack` has for it. -/
def relocateSymbol (st : Statics) (elf : ELF) (stack : UWORD32) (symbols : Block) (k : Nat)
    (relocs : Block) (i : Nat) : Option ELF :=
  let text := st.textSection.toNat
  (elf.shdr text).bind fun sh =>
    if sh.sh_size = 0#32 then some elf
    else (relocs.r_offset i).bind fun offset => (relocs.r_info i).bind fun info =>
      if ELF32_R_TYPE info = R_386_32 then
        (symbols.st_shndx k).bind fun shndx =>
        (elf.data (if shndx < elf.header.e_shnum then shndx.toNat else stack.toNat)).bind
          fun target =>
        (symbols.st_value k).bind fun value =>
        (elf.block text).bind fun b => (b.readWord offset.toNat).bind fun machineWord =>
        (b.write offset.toNat (address target + value + machineWord)).map fun b =>
          elf.setData text (some b)
      else if ELF32_R_TYPE info = R_386_PC32 then
        (symbols.st_value k).bind fun value =>
        (elf.block text).bind fun b =>
        (b.write offset.toNat (value - offset - 4#32)).map fun b => elf.setData text (some b)
      else some elf

/-- An entry of the relocation table, whose symbols are in section `link`. -/
def relocEntry (st : Statics) (stack : UWORD32) (link : Nat) (elf : ELF) (i : Nat) : Option ELF :=
  if ¬ elf.Inside link then none
  else
    (elf.block st.relocTableSection.toNat).bind fun relocs => (relocs.r_info i).bind fun info =>
    (elf.block link).bind fun symbols =>
    (symbols.st_info (ELF32_R_SYM info).toNat).bind fun symbolInfo =>
      if ELF32_ST_TYPE symbolInfo = STT_FILE ∨ ELF32_ST_TYPE symbolInfo = STT_NOTYPE then some elf
      else relocateSymbol st elf stack symbols (ELF32_R_SYM info).toNat relocs i

/-- `ELFresolveRelocations`. -/
def elfResolveRelocations (st : Statics) (elf : ELF) (stack : UWORD32) : Option ELF :=
  if st.relocTableSection = NOT_LOADED then some elf
  else (elf.shdr st.relocTableSection.toNat).bind fun sh =>
    if sh.sh_entsize = 0#32 then none
    else (List.range (sh.sh_size / sh.sh_entsize).toNat).foldlM
      (relocEntry st stack sh.sh_link.toNat) elf

/-- The state `postLoad`. -/
def elfPostLoad (st : Statics) (elf : ELF) (heap : Heap) (stack : UWORD32) : Option ELF :=
  (elf.shdr st.bssSection.toNat).bind fun sh =>
    (if sh.sh_size = 0#32 then elfSizeAndAssignMemToBSS st elf heap else some elf).bind fun elf =>
      elfResolveRelocations st elf stack

/-- `KLexecLoad`, of an executable that is open. -/
def Executable.load (st : Statics) (x : Executable) (heap : Heap) (stack : UWORD32) :
    Option (Statics × Executable × LoadStatus) :=
  match x.state with
  | .saveElfHeader =>
    let (elf, record, result) := elfSectionHeaderProcessing x.elf heap
    let state := if result = .nextState then .elfSectionNames else .elfInvalid
    some (st, { x with elf, record, state }, .EXEC_LOAD_AGAIN)
  | .elfSectionNames =>
    (elfSectionNamesProcessing x.elf x.record heap).map fun (elf, record, result) =>
      let state := if result = .nextState then .elfSection else .elfInvalid
      (st, { x with elf, record, state }, .EXEC_LOAD_AGAIN)
  | .elfSection =>
    (elfSectionProcessing st x heap).map fun (st, x, result) =>
      let state :=
        match result with
        | .stopIteration => .postLoad
        | .continueIteration => x.state
        | _ => .elfInvalid
      (st, { x with state }, .EXEC_LOAD_AGAIN)
  | .postLoad =>
    (elfPostLoad st x.elf heap stack).map fun elf =>
      (st,
        { x with
          elf
          state := .finalState
          record := { x.record with buffer := .NIL } }, .EXEC_LOAD_AGAIN)
  | .finalState => some (st, x, .EXEC_LOAD_FINISHED)
  | .elfInvalid => some (st, x, .EXEC_LOAD_ERROR)

/-! ## Symbols (`linker.c`) -/

/-- The address of the symbol in entry `i`. A section number above `e_shnum` stands for the text
section. -/
def symbolAddress (st : Statics) (elf : ELF) (symbols : Block) (i : Nat) : Option UWORD32 :=
  (symbols.st_shndx i).bind fun shndx =>
    let targetIndex :=
      if elf.header.e_shnum < shndx then st.textSection.setWidth 16 else shndx
    (elf.data targetIndex.toNat).bind fun target =>
    (symbols.st_value i).map fun value => address target + value

/-- The search among entries of the symbol table, whose names are in section `link`. -/
def searchEntries (st : Statics) (elf : ELF) (link : Nat) (name : CString) :
    List Nat → Option UWORD32
  | [] => some 0#32
  | i :: rest =>
    (elf.block st.symTabSection.toNat).bind fun symbols => (symbols.st_name i).bind fun o =>
    (elf.block link).bind fun names =>
    (klStringEqual (name.chars ++ [0#8]) (names.bytesFrom o.toNat)).bind fun found =>
      if found then symbolAddress st elf symbols i else searchEntries st elf link name rest

/-- `ELFsearchSymbol`. -/
def elfSearchSymbol (st : Statics) (elf : ELF) (name : CString) : Option UWORD32 :=
  (elf.shdr st.symTabSection.toNat).bind fun sh =>
    if ¬ elf.Inside sh.sh_link.toNat then none
    else if sh.sh_entsize = 0#32 then none
    else searchEntries st elf sh.sh_link.toNat name (List.range (sh.sh_size / sh.sh_entsize).toNat)

end Alliance.KL.Exec
