import Alliance.ABL.Memory
import Alliance.Elf
import Alliance.Lib.Stretch
import Mathlib.Data.Fin.VecNotation

/-!
# Finding the processors (`boot/ABL/architecture/I80X86/smp.c`)

The BIOS leaves a floating pointer structure somewhere in low memory, with a checksum over it, and
behind its pointer a configuration table with checksums of its own. `ABLinitMP` reads the first
structure that looks right, and from its table the processors that are there. Without a table it
takes one of the default configurations, of which the structure says the number.

An entry of the table is as long as its first byte says: 20 bytes for a processor, and 8 for
everything else. What is printed is left out.
-/

namespace Alliance.ABL

open Function Lib

/-- `UDATA`: an unsigned 32-bit word. -/
abbrev UDATA := BitVec 32

/-- Memory as the BIOS has left it. -/
abbrev Bios := UADDR → UBYTE

def Bios.half (mem : Bios) (a : UADDR) : BitVec 16 := mem (a + 1#32) ++ mem a

def Bios.word (mem : Bios) (a : UADDR) : UDATA := mem.half (a + 2#32) ++ mem.half a

/-- `IMPS_MAX_CPUS`. -/
def IMPS_MAX_CPUS : Nat := 0xff

def LAPIC_ADDR_DEFAULT : UADDR := 0xfee00000#32

def IMPS_FPS_DEFAULT_MAX : UBYTE := 0x07#8

/-- `_MP_`. -/
def IMPS_FPS_SIGNATURE : UDATA := 0x5f504d5f#32

/-- `PCMP`. -/
def IMPS_CTH_SIGNATURE : UDATA := 0x504d4350#32

def IMPS_BCT_PROCESSOR : UBYTE := 0#8

def IMPS_FLAG_ENABLED : UBYTE := 1#8

def IMPS_CPUFLAG_BOOT : UBYTE := 2#8

/-! ## The structures -/

/-- `imps_fps`, with the first of its feature bytes. -/
structure ImpsFps where
  sig : UDATA
  cth_ptr : UADDR
  length : UBYTE
  spec_rev : UBYTE
  feature_info : UBYTE

def Bios.fps (mem : Bios) (a : UADDR) : ImpsFps where
  sig := mem.word a
  cth_ptr := mem.word (a + 4#32)
  length := mem (a + 8#32)
  spec_rev := mem (a + 9#32)
  feature_info := mem (a + 11#32)

/-- `imps_cth`, without the names of the manufacturer. -/
structure ImpsCth where
  sig : UDATA
  base_length : BitVec 16
  spec_rev : UBYTE
  entry_count : BitVec 16
  lapic_addr : UADDR
  extended_length : BitVec 16
  extended_checksum : UBYTE

def Bios.cth (mem : Bios) (a : UADDR) : ImpsCth where
  sig := mem.word a
  base_length := mem.half (a + 4#32)
  spec_rev := mem (a + 6#32)
  entry_count := mem.half (a + 34#32)
  lapic_addr := mem.word (a + 36#32)
  extended_length := mem.half (a + 40#32)
  extended_checksum := mem (a + 42#32)

/-- `sizeof(imps_cth)`. -/
def sizeofCth : Nat := 44

/-- What is found out, and the registers of the local APICs, by their addresses. -/
structure Smp where
  imps_enabled : Bool
  imps_num_cpus : Nat
  imps_all_discrete : Bool
  imps_lapic_addr : UADDR
  imps_cpu_apic_map : Nat → UBYTE
  imps_apic_cpu_map : Nat → UBYTE
  apic : UADDR → UDATA

/-- The registers of the I/O APIC that are read. -/
structure Ioapic where
  id : UDATA
  ver : UDATA

/-- What is true before the search. -/
def Smp.initial (apic : UADDR → UDATA) : Smp where
  imps_enabled := false
  imps_num_cpus := 1
  imps_all_discrete := false
  imps_lapic_addr := 0#32
  imps_cpu_apic_map _ := 0#8
  imps_apic_cpu_map _ := 0#8
  apic := apic

/-- A processor gets a place in both maps. `none` is a write behind them. -/
def Smp.mapCpu (s : Smp) (cpu : Nat) (apicid : UBYTE) : Option Smp :=
  if cpu < IMPS_MAX_CPUS ∧ apicid.toNat < IMPS_MAX_CPUS then
    some { s with
      imps_cpu_apic_map := update s.imps_cpu_apic_map cpu apicid
      imps_apic_cpu_map := update s.imps_apic_cpu_map apicid.toNat (.ofNat 8 cpu) }
  else none

/-! ## The table -/

/-- What `ABLparseMP` does with an enabled processor. -/
def Smp.processor (s : Smp) (apic_id apic_ver flags : UBYTE) : Option Smp :=
  let s := if 0x0f#8 < apic_ver then { s with imps_all_discrete := false } else s
  if flags &&& IMPS_CPUFLAG_BOOT ≠ 0#8 then some s
  else (s.mapCpu s.imps_num_cpus apic_id).map fun s =>
    { s with imps_num_cpus := s.imps_num_cpus + 1 }

/-- `ABLparseMP`. -/
def ablParseMP (mem : Bios) : UADDR → Nat → Smp → Option Smp
  | _, 0, s => some s
  | start, count + 1, s =>
    if mem start = IMPS_BCT_PROCESSOR then
      let flags := mem (start + 3#32)
      if flags &&& IMPS_FLAG_ENABLED = 0#8 then ablParseMP mem (start + 12#32 + 8#32) count s
      else do
        let s ← s.processor (mem (start + 1#32)) (mem (start + 2#32)) flags
        ablParseMP mem (start + 12#32 + 8#32) count s
    else ablParseMP mem (start + 8#32) count s

/-- `ABLchecksumMP`, before `& 0xff`. -/
def sumMP (mem : Bios) (start : UADDR) (length : Nat) : UDATA :=
  (stretch mem start length).foldl (fun sum b => sum + b.setWidth 32) 0#32

/-- `ABLchecksumMP`. -/
def ablChecksumMP (mem : Bios) (start : UADDR) (length : Nat) : UDATA :=
  sumMP mem start length &&& 0xff#32

/-- `ABLcheckMP`: `true` is success. -/
def ablCheckMP (mem : Bios) (fps : ImpsFps) : Bool :=
  let local_cth := mem.cth fps.cth_ptr
  if IMPS_FPS_DEFAULT_MAX < fps.feature_info then false
  else if fps.cth_ptr ≠ 0#32 then
    let sum := ablChecksumMP mem fps.cth_ptr local_cth.base_length.toNat
    if local_cth.sig ≠ IMPS_CTH_SIGNATURE ∨ sum ≠ 0#32 then false
    else if local_cth.spec_rev ≠ fps.spec_rev then false
    else if local_cth.extended_length ≠ 0#16 then
      let sum := (ablChecksumMP mem (fps.cth_ptr + local_cth.base_length.setWidth 32)
        local_cth.extended_length.toNat + local_cth.extended_checksum.setWidth 32) &&& 0xff#32
      sum = 0#32
    else true
  else fps.feature_info ≠ 0#8

/-! ## Entries -/

/-- An entry of the table, with its first byte and the others. -/
inductive Entry
  | processor (apic_id apic_ver flags : UBYTE) (rest : Fin 16 → UBYTE)
  | other (type : {b : UBYTE // b ≠ IMPS_BCT_PROCESSOR}) (rest : Fin 7 → UBYTE)

def Entry.bytes : Entry → List UBYTE
  | .processor apic_id apic_ver flags rest =>
    IMPS_BCT_PROCESSOR :: apic_id :: apic_ver :: flags :: List.ofFn rest
  | .other type rest => type.1 :: List.ofFn rest

/-- Entries one behind the other. -/
def tableBytes (t : List Entry) : List UBYTE := t.flatMap Entry.bytes

namespace Entry

/-- An `imps_processor` of the default configurations. -/
def defaultProcessor (apic_id apic_ver flags : UBYTE) : Entry :=
  .processor apic_id apic_ver flags fun _ => 0#8

/-- A type that is not the one of a processor, and 255 for an entry that is out of use. -/
def typeIf (used : Bool) (type : {b : UBYTE // b ≠ IMPS_BCT_PROCESSOR}) :
    {b : UBYTE // b ≠ IMPS_BCT_PROCESSOR} :=
  if used then type else ⟨255#8, by decide⟩

/-- An `imps_bus`. -/
def bus (used : Bool) (id : UBYTE) (bus_type : Fin 6 → UBYTE) : Entry :=
  .other (typeIf used ⟨1#8, by decide⟩) (Matrix.vecCons id bus_type)

/-- An `imps_ioapic`, at `IOAPIC_ADDR_DEFAULT`. -/
def ioapic (id ver : UBYTE) : Entry :=
  .other ⟨2#8, by decide⟩ ![id, ver, IMPS_FLAG_ENABLED, 0x00#8, 0x00#8, 0xc0#8, 0xfe#8]

/-- An `imps_interrupt` to all APICs. -/
def interrupt (used : Bool) (type : {b : UBYTE // b ≠ IMPS_BCT_PROCESSOR})
    (int_type source_bus_irq dest_apic_intin : UBYTE) : Entry :=
  .other (typeIf used type)
    ![int_type, 0#8, 0#8, 0#8, source_bus_irq, 0xff#8, dest_apic_intin]

end Entry

def IMPS_INT_INT : UBYTE := 0#8
def IMPS_INT_NMI : UBYTE := 1#8
def IMPS_INT_EXTINT : UBYTE := 3#8

/-- `EISA`, or what `KLmemoryCopy` puts in its place. -/
def busType (feature_info : UBYTE) : Fin 6 → UBYTE :=
  if feature_info = 1#8 ∨ feature_info = 5#8 then ![0x49#8, 0x53#8, 0x41#8, 0x20#8, 0x20#8, 0x20#8]
  else if feature_info = 4#8 ∨ feature_info = 7#8 then
    ![0x4d#8, 0x43#8, 0x41#8, 0x20#8, 0x20#8, 0x20#8]
  else ![0x45#8, 0x49#8, 0x53#8, 0x41#8, 0x20#8, 0x20#8]

/-- `defconfig`, as it is adjusted to the structure and to the boot processor. -/
def defconfig (feature_info apicid : UBYTE) (io : Ioapic) : List Entry :=
  let flags (id : UBYTE) : UBYTE :=
    if id = apicid then IMPS_FLAG_ENABLED ||| IMPS_CPUFLAG_BOOT else IMPS_FLAG_ENABLED
  let integrated : Bool := 4#8 < feature_info
  let apic_ver : UBYTE := if integrated then 0x10#8 else 0#8
  let io_interrupt (i irq : UBYTE) (used : Bool) : Entry :=
    .interrupt used ⟨3#8, by decide⟩ IMPS_INT_INT irq i
  [.defaultProcessor 0#8 apic_ver (flags 0#8), .defaultProcessor 1#8 apic_ver (flags 1#8),
    .bus true 0#8 (busType feature_info),
    .bus integrated 1#8 ![0x50#8, 0x43#8, 0x49#8, 0x20#8, 0x20#8, 0x20#8],
    .ioapic ((io.id >>> 24).setWidth 8) (io.ver.setWidth 8),
    .interrupt (feature_info ≠ 7#8) ⟨3#8, by decide⟩ IMPS_INT_EXTINT 0#8 0#8,
    io_interrupt 1#8 1#8 true, io_interrupt 2#8 0#8 (feature_info ≠ 2#8),
    io_interrupt 3#8 3#8 true, io_interrupt 4#8 4#8 true, io_interrupt 5#8 5#8 true,
    io_interrupt 6#8 6#8 true, io_interrupt 7#8 7#8 true, io_interrupt 8#8 8#8 true,
    io_interrupt 9#8 9#8 true, io_interrupt 10#8 10#8 true, io_interrupt 11#8 11#8 true,
    io_interrupt 12#8 12#8 true, io_interrupt 13#8 13#8 (feature_info ≠ 2#8),
    io_interrupt 14#8 14#8 true, io_interrupt 15#8 15#8 true,
    .interrupt true ⟨4#8, by decide⟩ IMPS_INT_EXTINT 15#8 0#8,
    .interrupt true ⟨4#8, by decide⟩ IMPS_INT_NMI 15#8 1#8]

/-- `DEF_ENTRIES`. -/
def DEF_ENTRIES : Nat := 23

/-- The table of the loader's own is in a memory for itself. -/
def ownMemory (l : List UBYTE) : Bios := fun a => l.getD a.toNat 0#8

/-! ## The search -/

/-- Where the local APIC is. -/
def lapicAddr (mem : Bios) (fps : ImpsFps) : UADDR :=
  if fps.cth_ptr ≠ 0#32 then (mem.cth fps.cth_ptr).lapic_addr else LAPIC_ADDR_DEFAULT

/-- The APIC of the boot processor is enabled. -/
def Smp.enableApic (s : Smp) (addr : UADDR) : Smp :=
  { s with
    imps_lapic_addr := addr
    apic := update s.apic (addr + 0xf0#32) (s.apic (addr + 0xf0#32) ||| 0x100#32) }

/-- `LAPIC_VER` tells a discrete APIC from an internal one. -/
def Smp.discrete (s : Smp) : Bool := s.apic (s.imps_lapic_addr + 0x30#32) &&& 0xf0#32 = 0#32

/-- `IMPS_LAPIC_ID`. -/
def Smp.lapicId (s : Smp) : UBYTE :=
  let x := s.apic (s.imps_lapic_addr + 0x20#32)
  if s.imps_all_discrete then (x >>> 24).setWidth 8 else (x >>> 24 &&& 0xf#32).setWidth 8

/-- `ABLreadMP`, up to the tables. -/
def Smp.boot (s : Smp) (addr : UADDR) : Smp :=
  let s := s.enableApic addr
  { s with imps_all_discrete := s.discrete }

/-- `ABLreadMP`. -/
def ablReadMP (mem : Bios) (io : Ioapic) (fps : ImpsFps) (s : Smp) : Option Smp :=
  if ablCheckMP mem fps then do
    let s := s.boot (lapicAddr mem fps)
    let apicid := s.lapicId
    let s ← s.mapCpu 0 apicid
    let s ←
      if fps.cth_ptr ≠ 0#32 then
        ablParseMP mem (fps.cth_ptr + .ofNat 32 sizeofCth)
          (mem.cth fps.cth_ptr).entry_count.toNat s
      else if apicid < 2#8 then
        ablParseMP (ownMemory (tableBytes (defconfig fps.feature_info apicid io))) 0#32
          DEF_ENTRIES s
      else none  -- behind `defconfig.proc`
    some { s with imps_enabled := true }
  else some s

/-- The structure looks right. -/
def FpsValid (mem : Bios) (a : UADDR) : Prop :=
  (mem.fps a).sig = IMPS_FPS_SIGNATURE ∧ (mem.fps a).length = 1#8 ∧
    ((mem.fps a).spec_rev = 1#8 ∨ (mem.fps a).spec_rev = 4#8) ∧ ablChecksumMP mem a 16 = 0#32

instance (mem : Bios) (a : UADDR) : Decidable (FpsValid mem a) := by
  unfold FpsValid
  infer_instance

/-- `ABLscanMP`, with a length of `n` structures. -/
def ablScanMP (mem : Bios) (io : Ioapic) : UADDR → Nat → Smp → Option (Bool × Smp)
  | _, 0, s => some (false, s)
  | start, n + 1, s =>
    if FpsValid mem start then (ablReadMP mem io (mem.fps start) s).map fun s => (true, s)
    else ablScanMP mem io (start + 16#32) n s

/-- The second operand of `||`, if it comes to that. -/
def orScan (r : Bool × Smp) (scan : Smp → Option (Bool × Smp)) : Option (Bool × Smp) :=
  if r.1 then some r else scan r.2

/-- Where the EBDA is, if it fits into low memory. -/
def ebdaAddr (mem : Bios) (mem_lower : UADDR) : UADDR :=
  let ebda_addr : UADDR := (mem.half 0x40e#32).setWidth 32 <<< 4
  if mem_lower - 1024#32 < ebda_addr ∨
      mem_lower < ebda_addr + (mem ebda_addr).setWidth 32 * 1024#32 then 1#32
  else ebda_addr

/-- `ABLinitMP`. -/
def ablInitMP (mem : Bios) (io : Ioapic) (mem_lower : UADDR) (s : Smp) : Option (Nat × Smp) :=
  if mem_lower < 512#32 * 1024#32 ∨ 640#32 * 1024#32 < mem_lower then some (1, s)
  else do
    let ebda_addr := ebdaAddr mem mem_lower
    let r ← if ebda_addr ≠ 0#32 then ablScanMP mem io ebda_addr 64 s else some (false, s)
    let r ← orScan r (ablScanMP mem io (mem_lower - 1024#32) 64)
    let r ← orScan r (ablScanMP mem io 0xf0000#32 4096)
    some (if r.1 ∧ r.2.imps_enabled then r.2.imps_num_cpus else 1, r.2)

end Alliance.ABL
