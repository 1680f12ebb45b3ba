import Alliance.CK.ObjMgmt

/-!
# Resource allocation (`resource.c`)

A resource is allocated to an object, its owner: traps, DMA channels and I/O regions to a
thread, regions of physical memory to a kernel. Every owner heads one list of its resources
of each type, newest first. Beyond that the I/O regions of all owners are in one list
ordered by port, the live allocations of a trap in a chain from `trapHeads`, and a DMA
channel is marked in a map.

`mem` is the memory of the `CKResource` records, with the fields of the four expanded ones.
Where a walk along links would not end, its result is `none`; `records` counts the
allocations and bounds it. The stub that a trap is forwarded by and the interrupt table are
not in the model, nor are priorities and flags read by anyone here.

A call that enters a mutex which is held waits for ever: its result is `none`.
-/

namespace Alliance.CK

open Function

def EINRESOURCE : DATA := -15
def ERESOURCEBUSY : DATA := -16
def ENOVALIDTHREAD : DATA := -12

def M_VEC : UADDR := 0x68#32
def DMACHANNELS : Nat := 8

inductive ResourceSignature where
  | SIGPHYSREGION
  | SIGTRAP
  | SIGDMA
  | SIGIOREGION
  deriving DecidableEq, Repr

inductive CKMutex where
  | IOAllocLock
  | resourceAllocLock
  deriving DecidableEq, Repr

/-- `CKResource`, with the data of a region of physical memory, a DMA channel, a trap and an
I/O region behind the header. -/
structure CKResource where
  typeSignature : ResourceSignature
  owner : Addr
  next : Addr
  prev : Addr
  flags : DATA
  start : Addr
  length : Nat
  channel : UADDR
  trap : UADDR
  sigThread : Addr
  priority : DATA
  ntp : Addr
  base : UADDR
  limit : UADDR
  prevAlloc : Addr
  nextAlloc : Addr
  deriving DecidableEq, Repr

/-- The resource loader structure of the user, with the data of all four types. -/
structure Resource where
  channel : UADDR
  trap : UADDR
  sigThread : Addr
  priority : DATA
  base : UADDR
  limit : UADDR
  deriving DecidableEq, Repr

/-- What an allocation gets from outside: the memory of the record, and the physical address
of the memory to hand out. -/
structure AllocEnv where
  ckres : Addr
  start : Addr
  deriving DecidableEq, Repr

/-- `IOfirstAlloc`: the holder of the list of I/O regions. -/
def IOfirstAlloc : Addr := 12

structure Resources where
  mem : Addr → CKResource
  /-- `thread->trap`, `thread->dmachan`, `thread->ioregion` and `kernel->physregion`. -/
  head : ResourceSignature → Addr → Addr
  trapHeads : UADDR → Addr
  dmaAllocationMap : UADDR → Bool
  held : CKMutex → Bool
  /-- The records that `CKmemAlloc` gave out and that were not freed since. -/
  allocated : Addr → Bool
  records : Nat
  /-- What the loader structures got back. -/
  descriptor : Addr → Addr

namespace Resources

/-! ## Stores -/

def setRec (s : Resources) (r : Addr) (x : CKResource) : Resources :=
  { s with mem := update s.mem r x }

def setNext (s : Resources) (r v : Addr) : Resources := s.setRec r { s.mem r with next := v }

def setPrev (s : Resources) (r v : Addr) : Resources := s.setRec r { s.mem r with prev := v }

def setNtp (s : Resources) (r v : Addr) : Resources := s.setRec r { s.mem r with ntp := v }

def setNextAlloc (s : Resources) (r v : Addr) : Resources :=
  s.setRec r { s.mem r with nextAlloc := v }

def setPrevAlloc (s : Resources) (r v : Addr) : Resources :=
  s.setRec r { s.mem r with prevAlloc := v }

def setHead (s : Resources) (k : ResourceSignature) (owner v : Addr) : Resources :=
  { s with head := update s.head k (update (s.head k) owner v) }

def setTrapHead (s : Resources) (trap : UADDR) (v : Addr) : Resources :=
  { s with trapHeads := update s.trapHeads trap v }

def setDMA (s : Resources) (channel : UADDR) (b : Bool) : Resources :=
  { s with dmaAllocationMap := update s.dmaAllocationMap channel b }

def setDescriptor (s : Resources) (resource v : Addr) : Resources :=
  { s with descriptor := update s.descriptor resource v }

/-- `CKenterCritical`. -/
def enter (s : Resources) (m : CKMutex) : Option Resources :=
  if s.held m then none else some { s with held := update s.held m true }

/-- `CKexitCritical`. -/
def exit (s : Resources) (m : CKMutex) : Resources := { s with held := update s.held m false }

/-- `CKmemAlloc` of a record, where it succeeds. -/
def alloc (s : Resources) (r : Addr) : Resources :=
  { s with allocated := update s.allocated r true, records := s.records + 1 }

/-- `CKmemFree` of a record. -/
def free (s : Resources) (r : Addr) : Resources :=
  { s with allocated := update s.allocated r false }

/-! ## The list of an owner -/

/-- Put a resource into its owner's list. -/
def linkResource (s : Resources) (k : ResourceSignature) (owner ckres : Addr) : Resources :=
  let head := s.head k owner
  let s := (s.setNext ckres NIL).setPrev ckres head
  let s := if head ≠ NIL then s.setNext head ckres else s
  s.setHead k owner ckres

/-- Remove a resource from its owner's list. -/
def unlinkResource (s : Resources) (k : ResourceSignature) (res : Addr) : Resources :=
  let s := if (s.mem res).prev ≠ NIL then s.setNext (s.mem res).prev (s.mem res).next else s
  if (s.mem res).next ≠ NIL then s.setPrev (s.mem res).next (s.mem res).prev
  else s.setHead k (s.mem res).owner (s.mem res).prev

/-- Set the basic resource data. -/
def setBasic (s : Resources) (k : ResourceSignature) (owner : Addr) (flags : DATA)
    (ckres : Addr) : Resources :=
  s.setRec ckres { s.mem ckres with typeSignature := k, owner := owner, flags := flags }

/-! ## I/O regions -/

/-- The loop of `CKIOfindGap`, from the region `gap` on; `NIL` where the range is taken. -/
def findGapFrom (s : Resources) (base limit : UADDR) : Nat → Addr → Option Addr
  | 0, _ => none
  | n + 1, gap =>
    if gap ≠ IOfirstAlloc ∧ base < (s.mem gap).base + (s.mem gap).limit then some NIL
    else if (s.mem gap).nextAlloc = NIL ∨
        base + limit ≤ (s.mem (s.mem gap).nextAlloc).base then some gap
    else findGapFrom s base limit n (s.mem gap).nextAlloc

/-- `CKIOfindGap`. -/
def ckIOfindGap (s : Resources) (base limit : UADDR) : Option Addr :=
  if limit = 0#32 then some NIL
  else s.findGapFrom base limit (s.records + 1) IOfirstAlloc

/-- `CKallocIORegion`. Without memory for the record it returns with the mutex held. -/
def ckAllocIORegion (validThread : Addr → Bool) (s : Resources) (resource : Addr)
    (res : Resource) (owner : Addr) (flags : DATA) (env : AllocEnv) :
    Option (Resources × DATA) :=
  if ¬ validThread owner then some (s, ENOVALIDTHREAD)
  else do
    let s ← s.enter .IOAllocLock
    let gap ← s.ckIOfindGap res.base res.limit
    if gap = NIL then some (s.exit .IOAllocLock, ERESOURCEBUSY)
    else if env.ckres = NIL then some (s, ENOMEM)
    else
      let s := s.alloc env.ckres
      let s := s.setRec env.ckres
        { s.mem env.ckres with
          base := res.base
          limit := res.limit
          nextAlloc := (s.mem gap).nextAlloc }
      let s := (s.setNextAlloc gap env.ckres).setPrevAlloc env.ckres gap
      let after := (s.mem env.ckres).nextAlloc
      let s := if after ≠ NIL then s.setPrevAlloc after env.ckres else s
      let s := (s.exit .IOAllocLock).setBasic .SIGIOREGION owner flags env.ckres
      let s ← s.enter .resourceAllocLock
      let s := (s.linkResource .SIGIOREGION owner env.ckres).exit .resourceAllocLock
      some (s.setDescriptor resource env.ckres, 0#32)

/-- `CKfreeIORegion`. -/
def ckFreeIORegion (s : Resources) (res : Addr) : Option (Resources × DATA) := do
  let s ← s.enter .IOAllocLock
  let s := s.setNextAlloc (s.mem res).prevAlloc (s.mem res).nextAlloc
  let s := if (s.mem res).nextAlloc ≠ NIL then
    s.setPrevAlloc (s.mem res).nextAlloc (s.mem res).prevAlloc else s
  let s ← (s.exit .IOAllocLock).enter .resourceAllocLock
  let s := (s.unlinkResource .SIGIOREGION res).exit .resourceAllocLock
  some (s.free res, 0#32)

/-! ## DMA channels -/

/-- `CKallocDMA`. -/
def ckAllocDMA (validThread : Addr → Bool) (s : Resources) (resource : Addr) (res : Resource)
    (owner : Addr) (flags : DATA) (env : AllocEnv) : Option (Resources × DATA) :=
  if ¬ validThread owner then some (s, ENOVALIDTHREAD)
  else if DMACHANNELS ≤ res.channel.toNat then some (s, EINRESOURCE)
  else if s.dmaAllocationMap res.channel then some (s, ERESOURCEBUSY)
  else if env.ckres = NIL then some (s, ENOMEM)
  else do
    let s := ((s.setDMA res.channel true).alloc env.ckres).setBasic .SIGDMA owner flags env.ckres
    let s ← s.enter .resourceAllocLock
    let s := (s.linkResource .SIGDMA owner env.ckres).exit .resourceAllocLock
    let s := s.setRec env.ckres { s.mem env.ckres with channel := res.channel }
    some (s.setDescriptor resource env.ckres, 0#32)

/-- `CKfreeDMA`. -/
def ckFreeDMA (s : Resources) (res : Addr) : Option (Resources × DATA) := do
  let s := s.setDMA (s.mem res).channel false
  let s ← s.enter .resourceAllocLock
  let s := (s.unlinkResource .SIGDMA res).exit .resourceAllocLock
  some (s.free res, 0#32)

/-! ## Traps -/

/-- The traps that `CKpreProcessTrapAlloc` refuses. -/
def BadTrap (trap : UADDR) : Prop :=
  0xff < trap.toInt ∨ trap.toInt < 0x20 ∨ trap = M_VEC ∨ trap = M_VEC + 2#32

instance (trap : UADDR) : Decidable (BadTrap trap) := inferInstanceAs (Decidable (_ ∨ _))

/-- `CKallocTrap`. -/
def ckAllocTrap (validThread : Addr → Bool) (s : Resources) (resource : Addr) (res : Resource)
    (owner : Addr) (flags : DATA) (env : AllocEnv) : Option (Resources × DATA) :=
  if ¬ validThread owner then some (s, ENOVALIDTHREAD)
  else if env.ckres = NIL then some (s, ENOMEM)
  else do
    let s ← (s.alloc env.ckres).enter .resourceAllocLock
    if BadTrap res.trap then
      some ((s.exit .resourceAllocLock).free env.ckres, EINRESOURCE)
    else
      let s := s.linkResource .SIGTRAP owner env.ckres
      let s := (s.setNtp env.ckres (s.trapHeads res.trap)).setTrapHead res.trap env.ckres
      let s := (s.exit .resourceAllocLock).setBasic .SIGTRAP owner flags env.ckres
      let s := s.setRec env.ckres
        { s.mem env.ckres with
          trap := res.trap
          sigThread := res.sigThread
          priority := res.priority }
      some (s.setDescriptor resource env.ckres, 0#32)

/-- The loop of `CKfreeTrap`: go on as long as the next allocation is `res`. -/
def findBefore (s : Resources) (res : Addr) : Nat → Addr → Option Addr
  | 0, _ => none
  | n + 1, pos =>
    if (s.mem pos).ntp = res then findBefore s res n (s.mem pos).ntp else some pos

/-- `CKfreeTrap`. -/
def ckFreeTrap (s : Resources) (res : Addr) : Option (Resources × DATA) := do
  let s ← s.enter .resourceAllocLock
  let s := s.unlinkResource .SIGTRAP res
  let trap := (s.mem res).trap
  let s ←
    if s.trapHeads trap = res then some (s.setTrapHead trap (s.mem res).ntp)
    else do
      let pos ← s.findBefore res (s.records + 1) (s.mem (s.trapHeads trap)).ntp
      some (s.setNtp pos (s.mem res).ntp)
  some ((s.exit .resourceAllocLock).free res, 0#32)

/-- The loop of `CKforwardGlobalInterrupt`: the threads that are signalled, with the
priorities. -/
def forwardFrom (s : Resources) : Nat → Addr → Option (List (Addr × DATA))
  | 0, _ => none
  | n + 1, allocator =>
    if allocator = NIL then some []
    else (forwardFrom s n (s.mem allocator).ntp).map
      (((s.mem allocator).sigThread, (s.mem allocator).priority) :: ·)

/-- `CKforwardGlobalInterrupt`. -/
def ckForwardGlobalInterrupt (s : Resources) (intr : UADDR) : Option (List (Addr × DATA)) :=
  s.forwardFrom (s.records + 1) (s.trapHeads intr)

/-! ## Regions of physical memory -/

/-- `CKallocPhysRegion`. -/
def ckAllocPhysRegion (validKernel : Addr → Bool) (s : Resources) (resource : Addr)
    (owner : Addr) (env : AllocEnv) : Option (Resources × DATA) :=
  if ¬ validKernel owner then some (s, ENOVALIDTHREAD)
  else if env.ckres = NIL then some (s, ENOMEM)
  else if env.start = 0 then some ((s.alloc env.ckres).free env.ckres, ENOMEM)
  else do
    let s := s.alloc env.ckres
    let s := s.setRec env.ckres { s.mem env.ckres with start := env.start, length := 128 }
    let s ← s.enter .resourceAllocLock
    let s := (s.linkResource .SIGPHYSREGION owner env.ckres).exit .resourceAllocLock
    let s := s.setBasic .SIGPHYSREGION owner (s.mem env.ckres).flags env.ckres
    some (s.setDescriptor resource env.ckres, 0#32)

/-- `CKfreePhysRegion`. -/
def ckFreePhysRegion (s : Resources) (res : Addr) : Option (Resources × DATA) := do
  let s ← s.enter .resourceAllocLock
  let s := (s.unlinkResource .SIGPHYSREGION res).exit .resourceAllocLock
  some (s.free res, 0#32)

/-! ## The system calls -/

/-- `CKresourceAllocKernelCode`. -/
def ckResourceAlloc (signature : Addr → ObjectSignature) (s : Resources)
    (type : ResourceSignature) (resource : Addr) (res : Resource) (owner : Addr) (flags : DATA)
    (env : AllocEnv) : Option (Resources × DATA) :=
  let validThread := fun v => decide (signature v = .SIGTHREAD)
  let validKernel := fun v => decide (signature v = .SIGKERNEL)
  match type with
  | .SIGPHYSREGION => s.ckAllocPhysRegion validKernel resource owner env
  | .SIGTRAP => s.ckAllocTrap validThread resource res owner flags env
  | .SIGDMA => s.ckAllocDMA validThread resource res owner flags env
  | .SIGIOREGION => s.ckAllocIORegion validThread resource res owner flags env

/-- `CKresourceFreeKernelCode`. -/
def ckResourceFree (s : Resources) (resource : Addr) : Option (Resources × DATA) :=
  match (s.mem resource).typeSignature with
  | .SIGPHYSREGION => s.ckFreePhysRegion resource
  | .SIGTRAP => s.ckFreeTrap resource
  | .SIGDMA => s.ckFreeDMA resource
  | .SIGIOREGION => s.ckFreeIORegion resource

end Resources

/-! ## At boot -/

/-- The record that static storage holds. -/
def CKResource.zero : CKResource where
  typeSignature := .SIGPHYSREGION
  owner := NIL
  next := NIL
  prev := NIL
  flags := 0
  start := 0
  length := 0
  channel := 0
  trap := 0
  sigThread := NIL
  priority := 0
  ntp := NIL
  base := 0
  limit := 0
  prevAlloc := NIL
  nextAlloc := NIL

/-- Nothing is allocated. -/
def resourcesAtBoot : Resources where
  mem _ := .zero
  head _ _ := NIL
  trapHeads _ := NIL
  dmaAllocationMap _ := false
  held _ := false
  allocated _ := false
  records := 0
  descriptor _ := NIL

end Alliance.CK
