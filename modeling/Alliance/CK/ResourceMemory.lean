import Alliance.CK.Memory
import Alliance.CK.ResourceIO
import Alliance.CK.Paging
import Alliance.Lib.LockTrace

/-!
# Resource calls and the allocator (`resource.c` with `memory.c`)

The resource calls of `Resource`, with the memory that they get and give back, and with a log of
what they do to the three mutexes and to the free list. Where `Resource` is told what the
allocator found, these calls ask it; `ckResourceAlloc_res` and `ckResourceFree_res` say that the
resources come out the same.

`CKpreProcessTrapAlloc` and `CKpostProcessTrapAlloc` are here too, with the stub of a trap; how
long a stub is, the assembler decides (`stublen`).
-/

namespace Alliance.CK

open Function Lib
open KL (adjustSize)

/-- The mutexes that a resource call enters. -/
inductive KernelMutex where
  | CKFreeListLock
  | resource (k : CKMutex)
  deriving DecidableEq, Repr

/-- A block that the allocator gave out, and one that it was given. -/
inductive MemEvent where
  | taken (data size : UADDR)
  | freed (data size : UADDR)
  deriving DecidableEq, Repr

abbrev KernelEvent := LockEvent KernelMutex MemEvent

structure Machine where
  res : Resources
  memory : Memory
  /-- `CKTrapAlloc.stub` and `CKTrapAlloc.stubsize` of the records. -/
  stub : Addr → UADDR
  stubsize : Addr → UADDR
  log : List KernelEvent

def PAGEBLOCKBITS : Nat := 17
def PAGEBLOCKSIZE : UADDR := 1#32 <<< PAGEBLOCKBITS

/-- `sizeof(TrapAlloc)`, the loader structure of a trap. -/
def TRAPALLOC : UADDR := 16#32

/-- The size of a record: `sizeof(CKPhysRegionAlloc)` and so on. -/
def ResourceSignature.size : ResourceSignature → UADDR
  | .SIGPHYSREGION => 28#32
  | .SIGTRAP => 48#32
  | .SIGDMA => 24#32
  | .SIGIOREGION => 36#32

namespace Machine

/-! ## Mutexes and memory -/

def onRes (m : Machine) (f : Resources → Resources) : Machine := { m with res := f m.res }

/-- `CKenterCritical`. -/
def enter (m : Machine) (k : CKMutex) : Option Machine := do
  let s ← m.res.enter k
  some { m with res := s, log := .enter (.resource k) :: m.log }

/-- `CKexitCritical`. -/
def exit (m : Machine) (k : CKMutex) : Machine :=
  { m with res := m.res.exit k, log := .exit (.resource k) :: m.log }

/-- What an allocation logs: the lock, and the block if there is one. -/
def tookEvents (data size : UADDR) : List KernelEvent :=
  .exit .CKFreeListLock ::
    ((if data = KL.NIL then [] else [.other (.taken data size)]) ++ [.enter .CKFreeListLock])

/-- `CKmemAlloc`. -/
def ckMemAlloc (m : Machine) (size : UADDR) : Option (Machine × UADDR) := do
  let (s, data) ← (m.memory.ckMemAlloc size).toOption
  some ({ m with memory := s, log := tookEvents data size ++ m.log }, data)

/-- `CKmemAllocAlign`. -/
def ckMemAllocAlign (m : Machine) (size : UADDR) (alignment : Nat) : Option (Machine × UADDR) := do
  let (s, data) ← (m.memory.ckMemAllocAlign size alignment).toOption
  some ({ m with memory := s, log := tookEvents data size ++ m.log }, data)

/-- `CKmemFree`. -/
def ckMemFree (m : Machine) (data size : UADDR) : Option Machine := do
  let (s, _) ← (m.memory.ckMemFree data size).toOption
  some
    { m with
      memory := s
      log := .exit .CKFreeListLock :: .other (.freed data size) :: .enter .CKFreeListLock :: m.log }

/-- Allocate the record of a resource. -/
def allocRecord (m : Machine) (k : ResourceSignature) : Option (Machine × Addr) := do
  let (m, data) ← m.ckMemAlloc k.size
  some (if data = KL.NIL then m else m.onRes (·.alloc data.toNat), data.toNat)

/-- Free the record of a resource; `size` is what the call says its size is. -/
def freeRecord (m : Machine) (ckres : Addr) (size : UADDR) : Option Machine := do
  let m ← m.ckMemFree (BitVec.ofNat 32 ckres) size
  some (m.onRes (·.free ckres))

/-- Put a resource into its owner's list, with `resourceAllocLock` held. -/
def linkLocked (m : Machine) (k : ResourceSignature) (owner ckres : Addr) : Option Machine := do
  let m ← m.enter .resourceAllocLock
  some ((m.onRes (·.linkResource k owner ckres)).exit .resourceAllocLock)

/-- Remove a resource from its owner's list, with `resourceAllocLock` held. -/
def unlinkLocked (m : Machine) (k : ResourceSignature) (res : Addr) : Option Machine := do
  let m ← m.enter .resourceAllocLock
  some ((m.onRes (·.unlinkResource k res)).exit .resourceAllocLock)

/-! ## I/O regions -/

/-- `CKallocIORegion`. -/
def ckAllocIORegion (validThread : Addr → Bool) (m : Machine) (resource : Addr) (res : Resource)
    (owner : Addr) (flags : DATA) : Option (Machine × DATA) :=
  if ¬ validThread owner then some (m, ENOVALIDTHREAD)
  else do
    let m ← m.enter .IOAllocLock
    let gap ← m.res.ckIOfindGap res.base res.limit
    if gap = NIL then some (m.exit .IOAllocLock, ERESOURCEBUSY)
    else
      let (m, ckres) ← m.allocRecord .SIGIOREGION
      -- the mutex is not exited here
      if ckres = NIL then some (m, ENOMEM)
      else
        let m := m.onRes (·.insertRegion ckres gap res.base res.limit)
        let m := (m.exit .IOAllocLock).onRes (·.setBasic .SIGIOREGION owner flags ckres)
        let m ← m.linkLocked .SIGIOREGION owner ckres
        some (m.onRes (·.setDescriptor resource ckres), 0#32)

/-- `CKfreeIORegion`. -/
def ckFreeIORegion (m : Machine) (res : Addr) : Option (Machine × DATA) := do
  let m ← m.enter .IOAllocLock
  let m := (m.onRes (·.removeRegion res)).exit .IOAllocLock
  let m ← m.unlinkLocked .SIGIOREGION res
  let m ← m.freeRecord res (ResourceSignature.size .SIGIOREGION)
  some (m, 0#32)

/-! ## DMA channels -/

/-- `CKallocDMA`. -/
def ckAllocDMA (validThread : Addr → Bool) (m : Machine) (resource : Addr) (res : Resource)
    (owner : Addr) (flags : DATA) : Option (Machine × DATA) :=
  if ¬ validThread owner then some (m, ENOVALIDTHREAD)
  else if DMACHANNELS ≤ res.channel.toNat then some (m, EINRESOURCE)
  else if m.res.dmaAllocationMap res.channel then some (m, ERESOURCEBUSY)
  else do
    let m := m.onRes (·.setDMA res.channel true)
    let (m, ckres) ← m.allocRecord .SIGDMA
    if ckres = NIL then some (m.onRes (·.setDMA res.channel false), ENOMEM)
    else
      let m := m.onRes (·.setBasic .SIGDMA owner flags ckres)
      let m ← m.linkLocked .SIGDMA owner ckres
      let m := m.onRes fun s => s.setRec ckres { s.mem ckres with channel := res.channel }
      some (m.onRes (·.setDescriptor resource ckres), 0#32)

/-- `CKfreeDMA`. -/
def ckFreeDMA (m : Machine) (res : Addr) : Option (Machine × DATA) := do
  let m := m.onRes (·.setDMA (m.res.mem res).channel false)
  let m ← m.unlinkLocked .SIGDMA res
  let m ← m.freeRecord res (ResourceSignature.size .SIGDMA)
  some (m, 0#32)

/-! ## Traps -/

/-- `CKpreProcessTrapAlloc`: the record gets the stub of the trap, or a new one. -/
def ckPreProcessTrapAlloc (stublen : UADDR → UADDR) (m : Machine) (trap : UADDR) (ckres : Addr) :
    Option (Machine × DATA) :=
  if Resources.BadTrap trap then some (m, EINRESOURCE)
  else if m.res.trapHeads trap ≠ NIL then
    some
      ({ m with
        stub := update m.stub ckres (m.stub (m.res.trapHeads trap))
        stubsize := update m.stubsize ckres (m.stubsize (m.res.trapHeads trap)) }, 0#32)
  else do
    let (m, stub) ← m.ckMemAllocAlign (stublen trap) 4
    some
      ({ m with
        stub := update m.stub ckres stub
        stubsize := update m.stubsize ckres (stublen trap) }, 0#32)

/-- `CKpostProcessTrapAlloc`: the last allocator of a trap discards the stub. -/
def ckPostProcessTrapAlloc (m : Machine) (res : Addr) : Option Machine :=
  if m.res.trapHeads (m.res.mem res).trap = res ∧ (m.res.mem res).ntp = NIL then
    m.ckMemFree (m.stub res) (m.stubsize res)
  else some m

/-- `CKallocTrap`. A refused trap frees its record by the size of the loader structure. -/
def ckAllocTrap (stublen : UADDR → UADDR) (validThread : Addr → Bool) (m : Machine)
    (resource : Addr) (res : Resource) (owner : Addr) (flags : DATA) : Option (Machine × DATA) :=
  if ¬ validThread owner then some (m, ENOVALIDTHREAD)
  else do
    let (m, ckres) ← m.allocRecord .SIGTRAP
    if ckres = NIL then some (m, ENOMEM)
    else
      let m ← m.enter .resourceAllocLock
      let (m, error) ← m.ckPreProcessTrapAlloc stublen res.trap ckres
      if error ≠ 0#32 then
        let m ← (m.exit .resourceAllocLock).freeRecord ckres TRAPALLOC
        some (m, error)
      else
        let m := m.onRes (·.linkResource .SIGTRAP owner ckres)
        let m := m.onRes fun s =>
          (s.setNtp ckres (s.trapHeads res.trap)).setTrapHead res.trap ckres
        let m := (m.exit .resourceAllocLock).onRes (·.setBasic .SIGTRAP owner flags ckres)
        let m := m.onRes fun s => s.setRec ckres
          { s.mem ckres with
            trap := res.trap
            sigThread := res.sigThread
            priority := res.priority }
        some (m.onRes (·.setDescriptor resource ckres), 0#32)

/-- The part of `CKfreeTrap` that works on the chain of the trap. -/
def unchain (s : Resources) (res : Addr) : Option Resources :=
  let trap := (s.mem res).trap
  if s.trapHeads trap = res then some (s.setTrapHead trap (s.mem res).ntp)
  else do
    let pos ← s.findBefore res (s.records + 1) (s.mem (s.trapHeads trap)).ntp
    some (s.setNtp pos (s.mem res).ntp)

/-- `CKfreeTrap`. -/
def ckFreeTrap (m : Machine) (res : Addr) : Option (Machine × DATA) := do
  let m ← m.ckPostProcessTrapAlloc res
  let m ← m.enter .resourceAllocLock
  let m := m.onRes (·.unlinkResource .SIGTRAP res)
  let s ← unchain m.res res
  let m := { m with res := s }.exit .resourceAllocLock
  let m ← m.freeRecord res (ResourceSignature.size .SIGTRAP)
  some (m, 0#32)

/-! ## Regions of physical memory -/

/-- `CKallocPhysRegion`. The physical address of `NIL` is not `NIL`. -/
def ckAllocPhysRegion (validKernel : Addr → Bool) (m : Machine) (resource owner : Addr) :
    Option (Machine × DATA) :=
  if ¬ validKernel owner then some (m, ENOVALIDTHREAD)
  else do
    let (m, ckres) ← m.allocRecord .SIGPHYSREGION
    if ckres = NIL then some (m, ENOMEM)
    else
      let (m, data) ← m.ckMemAllocAlign PAGEBLOCKSIZE PAGEBLOCKBITS
      let start := phys data
      if start = 0#32 then
        let m ← m.freeRecord ckres (ResourceSignature.size .SIGPHYSREGION)
        some (m, ENOMEM)
      else
        let m := m.onRes fun s =>
          s.setRec ckres { s.mem ckres with start := start.toNat, length := 128 }
        let m ← m.linkLocked .SIGPHYSREGION owner ckres
        let m := m.onRes fun s => s.setBasic .SIGPHYSREGION owner (s.mem ckres).flags ckres
        some (m.onRes (·.setDescriptor resource ckres), 0#32)

/-- `CKfreePhysRegion`. -/
def ckFreePhysRegion (m : Machine) (res : Addr) : Option (Machine × DATA) := do
  let m ← m.ckMemFree (BitVec.ofNat 32 (m.res.mem res).start) PAGEBLOCKSIZE
  let m ← m.unlinkLocked .SIGPHYSREGION res
  let m ← m.freeRecord res (ResourceSignature.size .SIGPHYSREGION)
  some (m, 0#32)

/-! ## The system calls -/

/-- `CKresourceAllocKernelCode`. -/
def ckResourceAlloc (stublen : UADDR → UADDR) (signature : Addr → ObjectSignature) (m : Machine)
    (type : ResourceSignature) (resource : Addr) (res : Resource) (owner : Addr) (flags : DATA) :
    Option (Machine × DATA) :=
  let validThread := fun v => decide (signature v = .SIGTHREAD)
  let validKernel := fun v => decide (signature v = .SIGKERNEL)
  match type with
  | .SIGPHYSREGION => m.ckAllocPhysRegion validKernel resource owner
  | .SIGTRAP => m.ckAllocTrap stublen validThread resource res owner flags
  | .SIGDMA => m.ckAllocDMA validThread resource res owner flags
  | .SIGIOREGION => m.ckAllocIORegion validThread resource res owner flags

/-- `CKresourceFreeKernelCode`. -/
def ckResourceFree (m : Machine) (resource : Addr) : Option (Machine × DATA) :=
  match (m.res.mem resource).typeSignature with
  | .SIGPHYSREGION => m.ckFreePhysRegion resource
  | .SIGTRAP => m.ckFreeTrap resource
  | .SIGDMA => m.ckFreeDMA resource
  | .SIGIOREGION => m.ckFreeIORegion resource

/-! ## Steps of a call -/

variable {m m' : Machine} {k : CKMutex} {sig type : ResourceSignature} {size data : UADDR}
  {owner ckres resource r : Addr} {res : Resource} {flags e : DATA} {alignment : Nat}
  {validThread validKernel : Addr → Bool} {stublen : UADDR → UADDR}

theorem toOption_eq_some {α : Type} {x : Except MemFault α} {a : α} (h : x.toOption = some a) :
    x = .ok a := by
  cases x with
  | error f => exact absurd h (by simp [Except.toOption])
  | ok b => exact congrArg Except.ok (Option.some.inj h)

theorem enter_some (h : m.enter k = some m') : m.res.enter k = some m'.res ∧
    m'.memory = m.memory ∧ m'.log = .enter (.resource k) :: m.log := by
  obtain ⟨s, hs, h⟩ := Option.bind_eq_some_iff.mp h
  obtain rfl := Option.some.inj h
  exact ⟨hs, rfl, rfl⟩

theorem ckMemAlloc_some (h : m.ckMemAlloc size = some (m', data)) : m'.res = m.res ∧
    m.memory.ckMemAlloc size = .ok (m'.memory, data) ∧
    m'.log = tookEvents data size ++ m.log := by
  obtain ⟨⟨s, d⟩, hs, h⟩ := Option.bind_eq_some_iff.mp h
  obtain ⟨rfl, rfl⟩ := Prod.mk.inj (Option.some.inj h)
  exact ⟨rfl, toOption_eq_some hs, rfl⟩

theorem ckMemAllocAlign_some (h : m.ckMemAllocAlign size alignment = some (m', data)) :
    m'.res = m.res ∧ m.memory.ckMemAllocAlign size alignment = .ok (m'.memory, data) ∧
      m'.log = tookEvents data size ++ m.log := by
  obtain ⟨⟨s, d⟩, hs, h⟩ := Option.bind_eq_some_iff.mp h
  obtain ⟨rfl, rfl⟩ := Prod.mk.inj (Option.some.inj h)
  exact ⟨rfl, toOption_eq_some hs, rfl⟩

theorem ckMemFree_some (h : m.ckMemFree data size = some m') : m'.res = m.res ∧
    m'.log = .exit .CKFreeListLock :: .other (.freed data size) :: .enter .CKFreeListLock ::
      m.log := by
  obtain ⟨⟨s, _⟩, _, h⟩ := Option.bind_eq_some_iff.mp h
  obtain rfl := Option.some.inj h
  exact ⟨rfl, rfl⟩

/-- The record is at the block that the allocator found. -/
theorem allocRecord_some (h : m.allocRecord sig = some (m', ckres)) : ∃ data,
    ckres = data.toNat ∧ m.memory.ckMemAlloc sig.size = .ok (m'.memory, data) ∧
      m'.res = (if ckres = NIL then m.res else m.res.alloc ckres) ∧
      m'.log = tookEvents data sig.size ++ m.log := by
  obtain ⟨⟨m₁, d⟩, hm, h⟩ := Option.bind_eq_some_iff.mp h
  obtain ⟨rfl, rfl⟩ := Prod.mk.inj (Option.some.inj h)
  obtain ⟨hres, hmem, hlog⟩ := ckMemAlloc_some hm
  have hd : d = KL.NIL ↔ d.toNat = NIL :=
    ⟨fun h0 => by rw [h0]; rfl, fun h0 => BitVec.eq_of_toNat_eq h0⟩
  refine ⟨d, rfl, ?_, ?_, ?_⟩
  · rw [hmem]
    split <;> rfl
  · by_cases h0 : d = KL.NIL
    · rw [if_pos h0, if_pos (hd.mp h0), hres]
    · rw [if_neg h0, if_neg (mt hd.mpr h0), ← hres]
      rfl
  · rw [← hlog]
    split <;> rfl

/-- What the allocator does for a record, between two calls. -/
theorem allocRecord_takes (hq : m.memory.Quiet) (h : m.allocRecord sig = some (m', ckres)) :
    ∃ data, ckres = data.toNat ∧ m'.memory.Quiet ∧
      m.memory.Takes m'.memory data (adjustSize sig.size) := by
  obtain ⟨data, hdata, halloc, -, -⟩ := allocRecord_some h
  obtain ⟨s, r, hs, hq', ht⟩ := hq.ckMemAlloc_takes sig.size
  obtain ⟨rfl, rfl⟩ := Prod.mk.inj (Except.ok.inj (hs.symm.trans halloc))
  exact ⟨r, hdata, hq', ht⟩

theorem freeRecord_some (h : m.freeRecord ckres size = some m') : m'.res = m.res.free ckres ∧
    m'.log = .exit .CKFreeListLock :: .other (.freed (BitVec.ofNat 32 ckres) size) ::
      .enter .CKFreeListLock :: m.log := by
  obtain ⟨m₁, hm, h⟩ := Option.bind_eq_some_iff.mp h
  obtain rfl := Option.some.inj h
  obtain ⟨hres, hlog⟩ := ckMemFree_some hm
  exact ⟨by rw [onRes, hres], hlog⟩

theorem linkLocked_some (h : m.linkLocked sig owner ckres = some m') : ∃ s,
    m.res.enter .resourceAllocLock = some s ∧
      m'.res = (s.linkResource sig owner ckres).exit .resourceAllocLock ∧
      m'.memory = m.memory ∧
      m'.log = .exit (.resource .resourceAllocLock) :: .enter (.resource .resourceAllocLock) ::
        m.log := by
  obtain ⟨m₁, hm, h⟩ := Option.bind_eq_some_iff.mp h
  obtain rfl := Option.some.inj h
  obtain ⟨hs, hmem, hlog⟩ := enter_some hm
  exact ⟨_, hs, rfl, hmem, congrArg _ hlog⟩

theorem unlinkLocked_some (h : m.unlinkLocked sig r = some m') : ∃ s,
    m.res.enter .resourceAllocLock = some s ∧
      m'.res = (s.unlinkResource sig r).exit .resourceAllocLock ∧
      m'.memory = m.memory ∧
      m'.log = .exit (.resource .resourceAllocLock) :: .enter (.resource .resourceAllocLock) ::
        m.log := by
  obtain ⟨m₁, hm, h⟩ := Option.bind_eq_some_iff.mp h
  obtain rfl := Option.some.inj h
  obtain ⟨hs, hmem, hlog⟩ := enter_some hm
  exact ⟨_, hs, rfl, hmem, congrArg _ hlog⟩

/-! ## The resources of a call -/

theorem ckAllocIORegion_res
    (h : m.ckAllocIORegion validThread resource res owner flags = some (m', e)) : ∃ env,
    m.res.ckAllocIORegion validThread resource res owner flags env = some (m'.res, e) := by
  unfold ckAllocIORegion at h
  unfold Resources.ckAllocIORegion
  split at h
  · next hv =>
    obtain ⟨rfl, rfl⟩ := Prod.mk.inj (Option.some.inj h)
    exact ⟨⟨NIL, NIL⟩, by rw [if_pos hv]⟩
  next hv =>
  obtain ⟨m₁, hm₁, h⟩ := Option.bind_eq_some_iff.mp h
  obtain ⟨gap, hgap, h⟩ := Option.bind_eq_some_iff.mp h
  obtain ⟨hs₁, _, _⟩ := enter_some hm₁
  simp only [hv, hs₁, if_false, Option.bind_eq_bind, Option.bind_some, hgap]
  split at h
  · next h0 =>
    obtain ⟨rfl, rfl⟩ := Prod.mk.inj (Option.some.inj h)
    exact ⟨⟨NIL, NIL⟩, by rw [if_pos h0]; rfl⟩
  next h0 =>
  obtain ⟨⟨m₂, ckres⟩, hm₂, h⟩ := Option.bind_eq_some_iff.mp h
  obtain ⟨_, _, _, hres₂, _⟩ := allocRecord_some hm₂
  refine ⟨⟨ckres, NIL⟩, ?_⟩
  rw [if_neg h0]
  dsimp only at h ⊢
  split at h
  · next hc =>
    obtain ⟨rfl, rfl⟩ := Prod.mk.inj (Option.some.inj h)
    rw [if_pos hc, hres₂, if_pos hc]
  next hc =>
  rw [if_neg hc] at hres₂ ⊢
  obtain ⟨m₃, hm₃, h⟩ := Option.bind_eq_some_iff.mp h
  obtain ⟨rfl, rfl⟩ := Prod.mk.inj (Option.some.inj h)
  obtain ⟨s₃, hs₃, hres₃, _, _⟩ := linkLocked_some hm₃
  have hs₃ : ((((m₁.res.alloc ckres).insertRegion ckres gap res.base res.limit).exit
      .IOAllocLock).setBasic .SIGIOREGION owner flags ckres).enter .resourceAllocLock = some s₃ := by
    rw [← hres₂]
    exact hs₃
  exact Option.bind_eq_some_iff.mpr ⟨s₃, hs₃, by rw [onRes, hres₃]⟩

theorem ckFreeIORegion_res (h : m.ckFreeIORegion r = some (m', e)) :
    m.res.ckFreeIORegion r = some (m'.res, e) := by
  obtain ⟨m₁, hm₁, h⟩ := Option.bind_eq_some_iff.mp h
  obtain ⟨m₂, hm₂, h⟩ := Option.bind_eq_some_iff.mp h
  obtain ⟨m₃, hm₃, h⟩ := Option.bind_eq_some_iff.mp h
  obtain ⟨rfl, rfl⟩ := Prod.mk.inj (Option.some.inj h)
  obtain ⟨hs₁, _, _⟩ := enter_some hm₁
  obtain ⟨s₂, hs₂, hres₂, _, _⟩ := unlinkLocked_some hm₂
  obtain ⟨hres₃, _⟩ := freeRecord_some hm₃
  refine Option.bind_eq_some_iff.mpr ⟨_, hs₁, Option.bind_eq_some_iff.mpr ⟨s₂, hs₂, ?_⟩⟩
  rw [hres₃, hres₂]

theorem ckAllocDMA_res
    (h : m.ckAllocDMA validThread resource res owner flags = some (m', e)) : ∃ env,
    m.res.ckAllocDMA validThread resource res owner flags env = some (m'.res, e) := by
  unfold ckAllocDMA at h
  unfold Resources.ckAllocDMA
  split at h
  · next hv =>
    obtain ⟨rfl, rfl⟩ := Prod.mk.inj (Option.some.inj h)
    exact ⟨⟨NIL, NIL⟩, by rw [if_pos hv]⟩
  next hv =>
  split at h
  · next hch =>
    obtain ⟨rfl, rfl⟩ := Prod.mk.inj (Option.some.inj h)
    exact ⟨⟨NIL, NIL⟩, by rw [if_neg hv, if_pos hch]⟩
  next hch =>
  split at h
  · next hmap =>
    obtain ⟨rfl, rfl⟩ := Prod.mk.inj (Option.some.inj h)
    exact ⟨⟨NIL, NIL⟩, by rw [if_neg hv, if_neg hch, if_pos hmap]⟩
  next hmap =>
  have hmap' : m.res.dmaAllocationMap res.channel = false := Bool.eq_false_iff.mpr hmap
  simp only [hv, hch, hmap', if_false]
  obtain ⟨⟨m₁, ckres⟩, hm₁, h⟩ := Option.bind_eq_some_iff.mp h
  obtain ⟨_, _, _, hres₁, _⟩ := allocRecord_some hm₁
  refine ⟨⟨ckres, NIL⟩, ?_⟩
  dsimp only at h ⊢
  split at h
  · next hc =>
    -- the channel is as it was
    obtain ⟨rfl, rfl⟩ := Prod.mk.inj (Option.some.inj h)
    rw [if_pos hc] at hres₁ ⊢
    have hsame : (m.res.setDMA res.channel true).setDMA res.channel false = m.res := by
      simp only [Resources.setDMA, update_idem, ← hmap', update_eq_self]
    rw [if_neg Bool.false_ne_true, onRes, hres₁]
    show some (m.res, ENOMEM) = some ((m.res.setDMA res.channel true).setDMA res.channel false, _)
    rw [hsame]
  next hc =>
  rw [if_neg hc] at hres₁ ⊢
  obtain ⟨m₂, hm₂, h⟩ := Option.bind_eq_some_iff.mp h
  obtain ⟨rfl, rfl⟩ := Prod.mk.inj (Option.some.inj h)
  obtain ⟨s₂, hs₂, hres₂, _, _⟩ := linkLocked_some hm₂
  refine Option.bind_eq_some_iff.mpr ⟨s₂, ?_, ?_⟩
  · rw [← hs₂, onRes, hres₁]
    rfl
  · simp only [onRes, hres₂]

theorem ckFreeDMA_res (h : m.ckFreeDMA r = some (m', e)) :
    m.res.ckFreeDMA r = some (m'.res, e) := by
  obtain ⟨m₁, hm₁, h⟩ := Option.bind_eq_some_iff.mp h
  obtain ⟨m₂, hm₂, h⟩ := Option.bind_eq_some_iff.mp h
  obtain ⟨rfl, rfl⟩ := Prod.mk.inj (Option.some.inj h)
  obtain ⟨s₁, hs₁, hres₁, _, _⟩ := unlinkLocked_some hm₁
  obtain ⟨hres₂, _⟩ := freeRecord_some hm₂
  refine Option.bind_eq_some_iff.mpr ⟨s₁, hs₁, ?_⟩
  rw [hres₂, hres₁]

/-- The stub is no part of what `Resources` has. -/
theorem ckPreProcessTrapAlloc_some {trap : UADDR}
    (h : m.ckPreProcessTrapAlloc stublen trap ckres = some (m', e)) : m'.res = m.res ∧
      e = (if Resources.BadTrap trap then EINRESOURCE else 0#32) ∧
      (m'.log = m.log ∨ ∃ data, m'.log = tookEvents data (stublen trap) ++ m.log) := by
  unfold ckPreProcessTrapAlloc at h
  split at h
  · next hb =>
    obtain ⟨rfl, rfl⟩ := Prod.mk.inj (Option.some.inj h)
    exact ⟨rfl, by rw [if_pos hb], .inl rfl⟩
  next hb =>
  rw [if_neg hb]
  split at h
  · obtain ⟨rfl, rfl⟩ := Prod.mk.inj (Option.some.inj h)
    exact ⟨rfl, rfl, .inl rfl⟩
  · obtain ⟨⟨m₁, stub⟩, hm₁, h⟩ := Option.bind_eq_some_iff.mp h
    obtain ⟨rfl, rfl⟩ := Prod.mk.inj (Option.some.inj h)
    obtain ⟨hres, _, hlog⟩ := ckMemAllocAlign_some hm₁
    exact ⟨hres, rfl, .inr ⟨stub, hlog⟩⟩

theorem ckPostProcessTrapAlloc_some (h : m.ckPostProcessTrapAlloc r = some m') :
    m'.res = m.res ∧ (m' = m ∨ m.ckMemFree (m.stub r) (m.stubsize r) = some m') := by
  unfold ckPostProcessTrapAlloc at h
  split at h
  · exact ⟨(ckMemFree_some h).1, .inr h⟩
  · obtain rfl := Option.some.inj h
    exact ⟨rfl, .inl rfl⟩

theorem ckAllocTrap_res
    (h : m.ckAllocTrap stublen validThread resource res owner flags = some (m', e)) : ∃ env,
    m.res.ckAllocTrap validThread resource res owner flags env = some (m'.res, e) ∧
      ∀ m₁ ckres, validThread owner = true → m.allocRecord .SIGTRAP = some (m₁, ckres) →
        env.ckres = ckres := by
  unfold ckAllocTrap at h
  unfold Resources.ckAllocTrap
  split at h
  · next hv =>
    obtain ⟨rfl, rfl⟩ := Prod.mk.inj (Option.some.inj h)
    exact ⟨⟨NIL, NIL⟩, by rw [if_pos hv], fun _ _ hv' => absurd hv' hv⟩
  next hv =>
  simp only [hv, if_false]
  obtain ⟨⟨m₁, ckres⟩, hm₁, h⟩ := Option.bind_eq_some_iff.mp h
  obtain ⟨_, _, _, hres₁, _⟩ := allocRecord_some hm₁
  refine ⟨⟨ckres, NIL⟩, ?_, fun m₂ ckres₂ _ hm₂ =>
    congrArg Prod.snd (Option.some.inj (hm₁.symm.trans hm₂))⟩
  dsimp only at h ⊢
  split at h
  · next hc =>
    obtain ⟨rfl, rfl⟩ := Prod.mk.inj (Option.some.inj h)
    rw [if_pos hc] at hres₁ ⊢
    rw [hres₁]
  next hc =>
  rw [if_neg hc] at hres₁ ⊢
  obtain ⟨m₂, hm₂, h⟩ := Option.bind_eq_some_iff.mp h
  obtain ⟨⟨m₃, error⟩, hm₃, h⟩ := Option.bind_eq_some_iff.mp h
  obtain ⟨hs₂, _, _⟩ := enter_some hm₂
  obtain ⟨hres₃, herror, _⟩ := ckPreProcessTrapAlloc_some hm₃
  rw [hres₁] at hs₂
  refine Option.bind_eq_some_iff.mpr ⟨m₂.res, hs₂, ?_⟩
  dsimp only at h
  by_cases hb : Resources.BadTrap res.trap
  · rw [if_pos hb] at herror ⊢
    subst herror
    rw [if_pos (by decide)] at h
    obtain ⟨m₄, hm₄, h⟩ := Option.bind_eq_some_iff.mp h
    obtain ⟨rfl, rfl⟩ := Prod.mk.inj (Option.some.inj h)
    obtain ⟨hres₄, _⟩ := freeRecord_some hm₄
    rw [hres₄, exit, hres₃]
  · rw [if_neg hb] at herror ⊢
    subst herror
    rw [if_neg (by decide)] at h
    obtain ⟨rfl, rfl⟩ := Prod.mk.inj (Option.some.inj h)
    simp only [onRes, exit, hres₃]

theorem ckFreeTrap_res (h : m.ckFreeTrap r = some (m', e)) :
    m.res.ckFreeTrap r = some (m'.res, e) := by
  obtain ⟨m₀, hm₀, h⟩ := Option.bind_eq_some_iff.mp h
  obtain ⟨m₁, hm₁, h⟩ := Option.bind_eq_some_iff.mp h
  obtain ⟨s, hs, h⟩ := Option.bind_eq_some_iff.mp h
  obtain ⟨m₂, hm₂, h⟩ := Option.bind_eq_some_iff.mp h
  obtain ⟨rfl, rfl⟩ := Prod.mk.inj (Option.some.inj h)
  obtain ⟨hres₀, _⟩ := ckPostProcessTrapAlloc_some hm₀
  obtain ⟨hs₁, _, _⟩ := enter_some hm₁
  obtain ⟨hres₂, _⟩ := freeRecord_some hm₂
  rw [hres₀] at hs₁
  refine Option.bind_eq_some_iff.mpr ⟨m₁.res, hs₁, ?_⟩
  rw [hres₂]
  unfold unchain at hs
  dsimp only at hs ⊢
  split at hs
  · next hc =>
    obtain rfl := Option.some.inj hs
    exact if_pos hc
  · next hc =>
    obtain ⟨pos, hpos, hs⟩ := Option.bind_eq_some_iff.mp hs
    obtain rfl := Option.some.inj hs
    exact (if_neg hc).trans (Option.bind_eq_some_iff.mpr ⟨pos, hpos, rfl⟩)

theorem ckAllocPhysRegion_res
    (h : m.ckAllocPhysRegion validKernel resource owner = some (m', e)) : ∃ env,
    m.res.ckAllocPhysRegion validKernel resource owner env = some (m'.res, e) := by
  unfold ckAllocPhysRegion at h
  unfold Resources.ckAllocPhysRegion
  split at h
  · next hv =>
    obtain ⟨rfl, rfl⟩ := Prod.mk.inj (Option.some.inj h)
    exact ⟨⟨NIL, NIL⟩, by rw [if_pos hv]⟩
  next hv =>
  simp only [hv, if_false]
  obtain ⟨⟨m₁, ckres⟩, hm₁, h⟩ := Option.bind_eq_some_iff.mp h
  obtain ⟨_, _, _, hres₁, _⟩ := allocRecord_some hm₁
  dsimp only at h
  split at h
  · next hc =>
    obtain ⟨rfl, rfl⟩ := Prod.mk.inj (Option.some.inj h)
    refine ⟨⟨ckres, NIL⟩, ?_⟩
    dsimp only
    rw [if_pos hc] at hres₁ ⊢
    rw [hres₁]
  next hc =>
  rw [if_neg hc] at hres₁
  obtain ⟨⟨m₂, data⟩, hm₂, h⟩ := Option.bind_eq_some_iff.mp h
  obtain ⟨hres₂, _, _⟩ := ckMemAllocAlign_some hm₂
  refine ⟨⟨ckres, (phys data).toNat⟩, ?_⟩
  dsimp only at h ⊢
  rw [if_neg hc]
  have hstart : (phys data).toNat = 0 ↔ phys data = 0#32 :=
    ⟨fun h0 => BitVec.eq_of_toNat_eq h0, fun h0 => by rw [h0]; rfl⟩
  split at h
  · next h0 =>
    obtain ⟨m₃, hm₃, h⟩ := Option.bind_eq_some_iff.mp h
    obtain ⟨rfl, rfl⟩ := Prod.mk.inj (Option.some.inj h)
    obtain ⟨hres₃, _⟩ := freeRecord_some hm₃
    rw [if_pos (hstart.mpr h0), hres₃, hres₂, hres₁]
  · next h0 =>
    obtain ⟨m₃, hm₃, h⟩ := Option.bind_eq_some_iff.mp h
    obtain ⟨rfl, rfl⟩ := Prod.mk.inj (Option.some.inj h)
    obtain ⟨s₃, hs₃, hres₃, _, _⟩ := linkLocked_some hm₃
    rw [if_neg (mt hstart.mp h0)]
    refine Option.bind_eq_some_iff.mpr ⟨s₃, ?_, ?_⟩
    · rw [← hs₃, onRes, hres₂, hres₁]
    · simp only [onRes, hres₃]

theorem ckFreePhysRegion_res (h : m.ckFreePhysRegion r = some (m', e)) :
    m.res.ckFreePhysRegion r = some (m'.res, e) := by
  obtain ⟨m₀, hm₀, h⟩ := Option.bind_eq_some_iff.mp h
  obtain ⟨m₁, hm₁, h⟩ := Option.bind_eq_some_iff.mp h
  obtain ⟨m₂, hm₂, h⟩ := Option.bind_eq_some_iff.mp h
  obtain ⟨rfl, rfl⟩ := Prod.mk.inj (Option.some.inj h)
  obtain ⟨hres₀, _⟩ := ckMemFree_some hm₀
  obtain ⟨s₁, hs₁, hres₁, _, _⟩ := unlinkLocked_some hm₁
  obtain ⟨hres₂, _⟩ := freeRecord_some hm₂
  rw [hres₀] at hs₁
  refine Option.bind_eq_some_iff.mpr ⟨s₁, hs₁, ?_⟩
  rw [hres₂, hres₁]

/-- **An allocation** does to the resources what it does where the allocator is left out. -/
theorem ckResourceAlloc_res {signature : Addr → ObjectSignature}
    (h : m.ckResourceAlloc stublen signature type resource res owner flags = some (m', e)) :
    ∃ env, m.res.ckResourceAlloc signature type resource res owner flags env =
      some (m'.res, e) := by
  unfold ckResourceAlloc at h
  unfold Resources.ckResourceAlloc
  cases type with
  | SIGPHYSREGION => exact ckAllocPhysRegion_res h
  | SIGTRAP =>
      obtain ⟨env, hs, -⟩ := ckAllocTrap_res h
      exact ⟨env, hs⟩
  | SIGDMA => exact ckAllocDMA_res h
  | SIGIOREGION => exact ckAllocIORegion_res h

/-- So does a release. -/
theorem ckResourceFree_res (h : m.ckResourceFree r = some (m', e)) :
    m.res.ckResourceFree r = some (m'.res, e) := by
  unfold ckResourceFree at h
  unfold Resources.ckResourceFree
  cases hsig : (m.res.mem r).typeSignature with
  | SIGPHYSREGION => rw [hsig] at h; exact ckFreePhysRegion_res h
  | SIGTRAP => rw [hsig] at h; exact ckFreeTrap_res h
  | SIGDMA => rw [hsig] at h; exact ckFreeDMA_res h
  | SIGIOREGION => rw [hsig] at h; exact ckFreeIORegion_res h

end Machine

end Alliance.CK
