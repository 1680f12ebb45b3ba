import Mathlib.Data.Nat.Notation

/-!
# The structures of an ELF file (`elf.h`)

The headers and tables of a file are read as they stand in memory: words of two or four bytes,
the lowest byte first. Here are the fields that the loaders use, at their places.
-/

namespace Alliance

/-- A byte of a file or of memory. -/
abbrev UBYTE := BitVec 8

/-- `Elf32_Half`, `Elf32_Section`: an unsigned 16-bit word. -/
abbrev Elf32_Half := BitVec 16

/-- `Elf32_Word`, `Elf32_Addr`, `Elf32_Off`: an unsigned 32-bit word. -/
abbrev Elf32_Word := BitVec 32

/-- The 16-bit word at `o`. -/
def half (bytes : Nat → UBYTE) (o : Nat) : Elf32_Half := bytes (o + 1) ++ bytes o

/-- The 32-bit word at `o`. -/
def word (bytes : Nat → UBYTE) (o : Nat) : Elf32_Word := half bytes (o + 2) ++ half bytes o

/-- `Elf32_Ehdr`. -/
structure Elf32_Ehdr where
  e_ident : Nat → UBYTE
  e_type : Elf32_Half
  e_machine : Elf32_Half
  e_version : Elf32_Word
  e_entry : Elf32_Word
  e_phoff : Elf32_Word
  e_shoff : Elf32_Word
  e_phentsize : Elf32_Half
  e_phnum : Elf32_Half
  e_shnum : Elf32_Half
  e_shstrndx : Elf32_Half

/-- The size of a header. -/
def Elf32_Ehdr.size : Nat := 52

/-- The header at the start of a file. -/
def Elf32_Ehdr.ofBytes (bytes : Nat → UBYTE) : Elf32_Ehdr where
  e_ident := bytes
  e_type := half bytes 16
  e_machine := half bytes 18
  e_version := word bytes 20
  e_entry := word bytes 24
  e_phoff := word bytes 28
  e_shoff := word bytes 32
  e_phentsize := half bytes 42
  e_phnum := half bytes 44
  e_shnum := half bytes 48
  e_shstrndx := half bytes 50

/-- `Elf32_Phdr`. -/
structure Elf32_Phdr where
  p_type : Elf32_Word
  p_offset : Elf32_Word
  p_paddr : Elf32_Word
  p_filesz : Elf32_Word
  p_memsz : Elf32_Word

def Elf32_Phdr.size : Nat := 32

/-- The program header at `o`. -/
def Elf32_Phdr.ofBytes (bytes : Nat → UBYTE) (o : Nat) : Elf32_Phdr where
  p_type := word bytes o
  p_offset := word bytes (o + 4)
  p_paddr := word bytes (o + 12)
  p_filesz := word bytes (o + 16)
  p_memsz := word bytes (o + 20)

/-- `Elf32_Shdr`. -/
structure Elf32_Shdr where
  sh_name : Elf32_Word
  sh_type : Elf32_Word
  sh_flags : Elf32_Word
  sh_offset : Elf32_Word
  sh_size : Elf32_Word
  sh_link : Elf32_Word
  sh_entsize : Elf32_Word

def Elf32_Shdr.size : Nat := 40

/-- The section header at `o`. -/
def Elf32_Shdr.ofBytes (bytes : Nat → UBYTE) (o : Nat) : Elf32_Shdr where
  sh_name := word bytes o
  sh_type := word bytes (o + 4)
  sh_flags := word bytes (o + 8)
  sh_offset := word bytes (o + 16)
  sh_size := word bytes (o + 20)
  sh_link := word bytes (o + 24)
  sh_entsize := word bytes (o + 36)

/-- The size of an `Elf32_Sym`. -/
def Elf32_Sym.size : Nat := 16

/-- The size of an `Elf32_Rel`. -/
def Elf32_Rel.size : Nat := 8

def ELF32_ST_TYPE (val : UBYTE) : UBYTE := val &&& 0xf#8

def ELF32_R_SYM (info : Elf32_Word) : Elf32_Word := info >>> 8

def ELF32_R_TYPE (info : Elf32_Word) : Elf32_Word := info &&& 0xff#32

def SHN_UNDEF : Elf32_Half := 0#16

def SHT_NULL : Elf32_Word := 0#32

def SHT_SYMTAB : Elf32_Word := 2#32

def SHT_STRTAB : Elf32_Word := 3#32

def SHT_RELA : Elf32_Word := 4#32

def SHT_NOBITS : Elf32_Word := 8#32

def SHT_REL : Elf32_Word := 9#32

def SHT_DYNSYM : Elf32_Word := 11#32

def SHF_ALLOC : Elf32_Word := 2#32

def SHF_EXECINSTR : Elf32_Word := 4#32

def STT_NOTYPE : UBYTE := 0#8

def STT_FILE : UBYTE := 4#8

def R_386_32 : Elf32_Word := 1#32

def R_386_PC32 : Elf32_Word := 2#32

def PT_LOAD : Elf32_Word := 1#32

def ET_EXEC : Elf32_Half := 2#16

def EM_NONE : Elf32_Half := 0#16

def EM_386 : Elf32_Half := 3#16

def EM_486 : Elf32_Half := 6#16

def EV_CURRENT : Nat := 1

def ELFCLASS32 : UBYTE := 1#8

def ELFDATANONE : UBYTE := 0#8

def ELFDATA2LSB : UBYTE := 1#8

namespace Elf32_Ehdr

/-- The signature, `EI_MAG0` to `EI_MAG3`. -/
def Signed (h : Elf32_Ehdr) : Prop :=
  h.e_ident 0 = 0x7f#8 ∧ h.e_ident 1 = 0x45#8 ∧ h.e_ident 2 = 0x4c#8 ∧ h.e_ident 3 = 0x46#8

instance (h : Elf32_Ehdr) : Decidable h.Signed := inferInstanceAs (Decidable (_ ∧ _))

/-- `BOOTABLE_I86_ELF`. -/
def BootableI86 (h : Elf32_Ehdr) : Prop :=
  h.Signed ∧ h.e_ident 4 = ELFCLASS32 ∧ h.e_ident 5 = ELFDATA2LSB ∧
    h.e_ident 6 = .ofNat 8 EV_CURRENT ∧ h.e_type = ET_EXEC ∧ h.e_version = .ofNat 32 EV_CURRENT ∧
    (h.e_machine = EM_386 ∨ h.e_machine = EM_486)

instance (h : Elf32_Ehdr) : Decidable h.BootableI86 := inferInstanceAs (Decidable (_ ∧ _))

end Elf32_Ehdr

end Alliance
