import Alliance.KL.Exec

/-!
# Executables and their symbols (`linker.c`, `ExecOpen.c`, `ExecSymbols.c`)

All that can be done with an executable: to open, load, link and close it, and to ask for
its symbols. A call works on one entry of `_eTable` and on the cached indices, which belong to no
entry.
-/

namespace Alliance.KL.Exec

open Function Lib

/-! ## Linking -/

/-- Entry `i` of the relocation table, if it has the name of symbol `k`. -/
def linkEntry (st : Statics) (link k : Nat) (symbolAddr : UWORD32) :
    ELF × Nat → Nat → Option (ELF × Nat)
  | (elf, numOfSymbolsLinked), i =>
    let text := st.textSection.toNat
    (elf.block st.relocTableSection.toNat).bind fun relocs => (relocs.r_info i).bind fun info =>
    (elf.block link).bind fun symbolTable =>
    (symbolTable.st_name (ELF32_R_SYM info).toNat).bind fun st_name =>
    (elf.block st.symTabSection.toNat).bind fun symbols =>
    (symbols.st_name k).bind fun name =>
      if st_name ≠ name then some (elf, numOfSymbolsLinked)
      else (relocs.r_offset i).bind fun offset => (elf.block text).bind fun b =>
        (b.write offset.toNat (symbolAddr - (b.addr + offset) - 4#32)).map fun b =>
          (elf.setData text (some b), numOfSymbolsLinked + 1)

/-- `linkToExternalReference`. -/
def linkToExternalReference (st : Statics) (elf : ELF) (k : Nat) (symbolAddr : UWORD32) :
    Option (ELF × Nat) :=
  (elf.shdr st.relocTableSection.toNat).bind fun sh =>
    if ¬ elf.Inside sh.sh_link.toNat then none
    else if sh.sh_entsize = 0#32 then none
    else (List.range (sh.sh_size / sh.sh_entsize).toNat).foldlM
      (linkEntry st sh.sh_link.toNat k symbolAddr) (elf, 0)

/-- One of the global symbols, for symbol `i`, whose name is at `o` in section `link`. -/
def setSymbol (st : Statics) (link i : Nat) (o : Elf32_Word) :
    ELF × Nat → CString × UWORD32 → Option (ELF × Nat)
  | (elf, resolved), (name, symbolAddr) =>
    (elf.block link).bind fun names =>
    (klStringEqual (names.bytesFrom o.toNat) (name.chars ++ [0#8])).bind fun found =>
      if found then
        (linkToExternalReference st elf i symbolAddr).map fun r => (r.1, resolved + r.2)
      else some (elf, resolved)

/-- Symbol `i`, if it is undefined. -/
def setEntry (st : Statics) (link : Nat) (symbol : List (CString × UWORD32)) :
    ELF × Nat → Nat → Option (ELF × Nat)
  | (elf, resolved), i =>
    (elf.block st.symTabSection.toNat).bind fun symbols => (symbols.st_info i).bind fun info =>
      if ELF32_ST_TYPE info ≠ STT_NOTYPE then some (elf, resolved)
      else (symbols.st_name i).bind fun o =>
        symbol.foldlM (setSymbol st link i o) (elf, resolved)

/-- `ELFsetSymbols`. -/
def elfSetSymbols (st : Statics) (elf : ELF) (symbol : List (CString × UWORD32)) :
    Option (ELF × Nat) :=
  (elf.shdr st.symTabSection.toNat).bind fun sh =>
    if ¬ elf.Inside sh.sh_link.toNat then none
    else if sh.sh_entsize = 0#32 then none
    else (List.range (sh.sh_size / sh.sh_entsize).toNat).foldlM
      (setEntry st sh.sh_link.toNat symbol) (elf, 0)

/-! ## Calls -/

/-- `ELFclose` frees what the pointers in the `ELF` point to, which must not be uninitialised. -/
def ELF.Closes (elf : ELF) : Prop :=
  elf.arrays = .both ∨ elf.arrays = .sections ∧ elf.e_shnum = 0

instance (elf : ELF) : Decidable elf.Closes := inferInstanceAs (Decidable (_ ∨ _))

inductive ExecCall where
  /-- `KLexecOpen`, and what is in the memory that it gets. -/
  | opens (junk : Option (Nat → UBYTE))
  /-- The caller reads what the record asks for. -/
  | read (file : Nat → UBYTE)
  | load (heap : Heap) (stack : UWORD32)
  | symbols (symbol : List CString)
  | setSymbols (symbol : List (CString × UWORD32))
  | close

inductive CallResult where
  | opened (valid : Bool)
  | read
  | loaded (status : LoadStatus)
  /-- The addresses, and how many symbols were found. -/
  | symbols (symbolAddr : List UWORD32) (symbolsFound : Nat)
  | linked (resolved : Nat)
  /-- `EXEC_SYMBOL_INVID`. -/
  | invalid
  | closed (result : Bool)
  deriving DecidableEq, Repr

/-- A call for an entry of the table. -/
def callStep (st : Statics) : Option Executable → ExecCall →
    Option (Statics × Option Executable × CallResult)
  | none, .opens junk => some (st, junk.map .opened, .opened junk.isSome)
  | some _, .opens _ => none
  | x, .read file => some (st, x.map fun x => x.fill file, .read)
  | none, .load _ _ => some (st, none, .loaded .EXEC_LOAD_INVID)
  | some x, .load heap stack =>
    (x.load st heap stack).map fun r => (r.1, some r.2.1, .loaded r.2.2)
  | none, .symbols _ => some (st, none, .invalid)
  | some x, .symbols symbol =>
    (symbol.mapM (elfSearchSymbol st x.elf)).map fun symbolAddr =>
      (st, some x, .symbols symbolAddr (symbolAddr.countP (· ≠ 0#32)))
  | none, .setSymbols _ => some (st, none, .invalid)
  | some x, .setSymbols symbol =>
    (elfSetSymbols st x.elf symbol).map fun r => (st, some { x with elf := r.1 }, .linked r.2)
  | none, .close => some (st, none, .closed false)
  | some x, .close => if x.elf.Closes then some (st, none, .closed true) else none

end Alliance.KL.Exec
