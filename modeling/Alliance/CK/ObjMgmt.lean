import Alliance.CK.GraphProof
import Alliance.CK.Sched

/-!
# The System Object Manager (`objmgmt.c`)

Objects are loaded behind a header that is linked into the list of its peers, and an
edge to them is added for each object they depend on. Uncaching an object first
uncaches everything that depends on it: as long as it has an edge, the child of its
first one is unloaded, and the child removes that edge itself.

What the headers do not hold of the object structures is in `body`. The allocator and
the hardware-dependent preprocessing are seen through what they return (`LoadEnv`), and
`unloaded` records the calls of the four unload functions; nothing reads it. The result of
unloading is `none` as an error code where the call does not return, and `none` as a whole
where the bound on its recursion and its loops did not suffice. The
scheduling part of loading and unloading a thread is in `Sched`; here only `currtask`
is kept. All calls are made under the object manager's mutex.
-/

namespace Alliance.CK

open Function

/-- `DATA`: a signed 32-bit word, here an error code or 0. -/
abbrev DATA := BitVec 32

def ENOVALIDADDRSPC : DATA := -1
def ENOVALIDKERNEL : DATA := -2
def EINSCHEDPARMS : DATA := -3
def ENOMEM : DATA := -4
def ELOCKED : DATA := -6
def ENOLOCKPERMS : DATA := -7
def ENOSIGHANDL : DATA := -13

/-- `((VOID *) -1)`: the parent kernel of the running thread. -/
def ownKernel : Addr := 2 ^ 32 - 1

/-- The fields behind the headers of the four object structures, each read only in the
objects that have it; `owner` is the one of the `SHMEMOBJ`. -/
structure ObjectBody where
  addressSpace : Addr
  parentKernel : Addr
  addrSpace : Addr
  sigHandler : Addr
  owner : Addr
  deriving DecidableEq, Repr

/-- What the load functions read of the user's object. -/
structure UserObject where
  addressSpace : Addr
  parentKernel : Addr
  quantum : TIME
  defer : TIME
  addrSpace : Addr
  sigHandler : Addr
  deriving DecidableEq, Repr

/-- What a load gets from outside: the header's memory, the result of
`CKpreProcessTaskState`, `CKpreProcessAddrSpc` or `CKpreProcessKernel`, and the memory of
the `SHMEMOBJ`. -/
structure LoadEnv where
  ckobject : Addr
  error : DATA
  shMem : Addr
  deriving DecidableEq, Repr

structure ObjectManager where
  odg : ODG
  body : Addr → ObjectBody
  /-- `threadObjHead`, `addrSpcObjHead`, `kernelObjHead` and `shMemObjHead`. -/
  objHead : ObjectSignature → Addr
  /-- `object->self` of the user objects. -/
  self : Addr → Addr
  interruptable : Addr → UDATA
  currtask : Addr
  /-- The headers that `CKmemAlloc` gave out and that were not freed since. -/
  allocated : Addr → Bool
  unloaded : List Addr

namespace ObjectManager

variable (s : ObjectManager)

/-! ## Stores -/

def setHeader (v : Addr) (h : ObjectHeader) : ObjectManager :=
  { s with odg := { s.odg with vertex := update s.odg.vertex v h } }

def setNext (v w : Addr) : ObjectManager :=
  s.setHeader v { s.odg.vertex v with nextObject := w }

def setPrev (v w : Addr) : ObjectManager :=
  s.setHeader v { s.odg.vertex v with prevObject := w }

def setHead (k : ObjectSignature) (v : Addr) : ObjectManager :=
  { s with objHead := update s.objHead k v }

def setODG (g : ODG) : ObjectManager := { s with odg := g }

def setBody (v : Addr) (b : ObjectBody) : ObjectManager := { s with body := update s.body v b }

def setSelf (object v : Addr) : ObjectManager := { s with self := update s.self object v }

def setInterruptable (object : Addr) (u : UDATA) : ObjectManager :=
  { s with interruptable := update s.interruptable object u }

def setAllocated (v : Addr) (b : Bool) : ObjectManager :=
  { s with allocated := update s.allocated v b }

/-! ## Reading the headers -/

def signature (v : Addr) : ObjectSignature := (s.odg.vertex v).objectSignature

def flags (v : Addr) : UDATA := (s.odg.vertex v).flags

def objectData (v : Addr) : Addr := (s.odg.vertex v).objectData

def next (v : Addr) : Addr := (s.odg.vertex v).nextObject

def prev (v : Addr) : Addr := (s.odg.vertex v).prevObject

/-- `CKvalidAddrSpc`. -/
abbrev ckValidAddrSpc (v : Addr) : Prop := s.signature v = .SIGADDRSPC

/-- `CKvalidKernel`. -/
abbrev ckValidKernel (v : Addr) : Prop := s.signature v = .SIGKERNEL

/-- `object->flags & OFLOCKED`. -/
abbrev Locked (v : Addr) : Prop := s.flags v &&& OFLOCKED ≠ 0#32

/-- The test of a user object's `parentKernel` that loading a thread or an address space
fails on. -/
abbrev BadKernel (kernel : Addr) : Prop :=
  kernel ≠ NIL ∧ kernel ≠ ownKernel ∧ ¬ s.ckValidKernel kernel

/-- The parent kernel of a new thread or address space. -/
def parentKernelFor (kernel : Addr) : Addr :=
  if kernel ≠ ownKernel then kernel
  else if s.currtask ≠ NIL then (s.body s.currtask).parentKernel
  else NIL

end ObjectManager

/-- The parents that an object of a kind has an edge from. -/
def ObjectBody.parents (b : ObjectBody) : ObjectSignature → List Addr
  | .SIGTHREAD => b.addressSpace :: if b.parentKernel ≠ NIL then [b.parentKernel] else []
  | .SIGADDRSPC => if b.parentKernel ≠ NIL then [b.parentKernel] else []
  | .SIGKERNEL => []
  | .SIGSHMEM => [b.owner]

namespace ObjectManager

/-! ## Loading -/

/-- Fill in a new header and put it at the head of its peer list. -/
def linkObject (s : ObjectManager) (k : ObjectSignature) (object : Addr) (flags : UDATA)
    (ckobject : Addr) : ObjectManager :=
  let head := s.objHead k
  let s := (s.setAllocated ckobject true).setHeader ckobject
    { objectSignature := k, flags := flags, objectData := object, nextObject := NIL,
      prevObject := head, dependencies := 0, firstDependency := 0 }
  let s := if head ≠ NIL then s.setNext head ckobject else s
  s.setHead k ckobject

/-- Load the object dependencies. -/
def addDeps (s : ObjectManager) (parents : List Addr) (child : Addr) : Option ObjectManager :=
  (parents.foldlM (fun g p => ckAddObjectDep g p child) s.odg).map s.setODG

/-- The end of every load: on an error the header is freed, though it stays linked; else
the edges are added and the user object learns its descriptor. -/
def finishLoad (s : ObjectManager) (k : ObjectSignature) (object ckobject : Addr)
    (error : DATA) : Option (ObjectManager × DATA) :=
  if error ≠ 0#32 then
    some (s.setAllocated ckobject false, error)
  else
    (s.addDeps ((s.body ckobject).parents k) ckobject).map fun s =>
      (s.setSelf object ckobject, 0#32)

/-- `CKloadThreadObject`. -/
def ckLoadThreadObject (s : ObjectManager) (object : Addr) (u : UserObject) (flags : UDATA)
    (env : LoadEnv) : Option (ObjectManager × DATA) :=
  if flags &&& OFLOCKED ≠ 0#32 then some (s, ENOLOCKPERMS)
  else if u.addressSpace = NIL ∨ ¬ s.ckValidAddrSpc u.addressSpace then
    some (s, ENOVALIDADDRSPC)
  else if u.quantum = 0#32 ∨ u.defer = 0#32 then some (s, EINSCHEDPARMS)
  else if s.BadKernel u.parentKernel then some (s, ENOVALIDKERNEL)
  else if env.ckobject = NIL then some (s, ENOMEM)
  else
    let s := s.linkObject .SIGTHREAD object flags env.ckobject
    let kernel := s.parentKernelFor u.parentKernel
    let s := s.setBody env.ckobject
      { s.body env.ckobject with addressSpace := u.addressSpace, parentKernel := kernel }
    let s := s.setInterruptable object (if kernel ≠ NIL then 0#32 else 1#32)
    s.finishLoad .SIGTHREAD object env.ckobject env.error

/-- `CKloadAddrSpcObject`. -/
def ckLoadAddrSpcObject (s : ObjectManager) (object : Addr) (u : UserObject) (flags : UDATA)
    (env : LoadEnv) : Option (ObjectManager × DATA) :=
  if flags &&& OFLOCKED ≠ 0#32 then some (s, ENOLOCKPERMS)
  else if s.BadKernel u.parentKernel then some (s, ENOVALIDKERNEL)
  else if env.ckobject = NIL then some (s, ENOMEM)
  else
    let s := s.linkObject .SIGADDRSPC object flags env.ckobject
    let s := s.setBody env.ckobject
      { s.body env.ckobject with parentKernel := s.parentKernelFor u.parentKernel }
    s.finishLoad .SIGADDRSPC object env.ckobject env.error

/-- `CKloadKernelObject`. -/
def ckLoadKernelObject (s : ObjectManager) (object : Addr) (u : UserObject) (flags : UDATA)
    (env : LoadEnv) : Option (ObjectManager × DATA) :=
  if flags &&& OFLOCKED ≠ 0#32 then some (s, ENOLOCKPERMS)
  else if u.addrSpace = NIL ∨ ¬ s.ckValidAddrSpc u.addrSpace then some (s, ENOVALIDADDRSPC)
  else if u.sigHandler = NIL then some (s, ENOSIGHANDL)
  else if env.ckobject = NIL then some (s, ENOMEM)
  else
    let s := s.linkObject .SIGKERNEL object flags env.ckobject
    let s := s.setBody env.ckobject
      { s.body env.ckobject with addrSpace := u.addrSpace, sigHandler := u.sigHandler }
    s.finishLoad .SIGKERNEL object env.ckobject env.error

/-- `CKloadSHMemObject`. Its second allocation fails where the others' preprocessing does. -/
def ckLoadSHMemObject (s : ObjectManager) (object : Addr) (flags : UDATA)
    (env : LoadEnv) : Option (ObjectManager × DATA) :=
  if flags &&& OFLOCKED ≠ 0#32 then some (s, ENOLOCKPERMS)
  else if env.ckobject = NIL then some (s, ENOMEM)
  else
    let s := s.linkObject .SIGSHMEM object flags env.ckobject
    let s := if env.shMem = NIL then s
      else s.setBody env.ckobject { s.body env.ckobject with owner := s.currtask }
    s.finishLoad .SIGSHMEM object env.ckobject (if env.shMem = NIL then ENOMEM else 0#32)

/-- `CKcacheObjectKernelCode`. -/
def ckCacheObject (s : ObjectManager) (signature : ObjectSignature) (object : Addr)
    (u : UserObject) (flags : UDATA) (env : LoadEnv) : Option (ObjectManager × DATA) :=
  match signature with
  | .SIGTHREAD => s.ckLoadThreadObject object u flags env
  | .SIGADDRSPC => s.ckLoadAddrSpcObject object u flags env
  | .SIGKERNEL => s.ckLoadKernelObject object u flags env
  | .SIGSHMEM => s.ckLoadSHMemObject object flags env

/-! ## Unloading -/

/-- Remove an object from its peer list. -/
def unlinkObject (s : ObjectManager) (k : ObjectSignature) (object : Addr) : ObjectManager :=
  let s := if s.prev object ≠ NIL then s.setNext (s.prev object) (s.next object) else s
  if s.next object ≠ NIL then s.setPrev (s.next object) (s.prev object)
  else s.setHead k (s.prev object)

def removeDeps (s : ObjectManager) (parents : List Addr) (child : Addr) : ObjectManager :=
  s.setODG (parents.foldl (fun g p => ckRemoveDepSearch g p child) s.odg)

/-- What the four unload functions do: remove the dependencies, remove the object from the
linked list, write back and free the header. -/
def retire (s : ObjectManager) (k : ObjectSignature) (object : Addr) : ObjectManager :=
  let s := s.removeDeps ((s.body object).parents k) object
  let s := s.unlinkObject k object
  let s := (s.setSelf (s.objectData object) NIL).setAllocated object false
  { s with unloaded := s.unloaded ++ [object] }

/-- `CKunloadThreadObject`. A thread that unloads itself leaves `zombietask` as the current
task and gives up the processor: the call does not return. -/
def ckUnloadThreadObject (s : ObjectManager) (object : Addr) : ObjectManager × Option DATA :=
  let s := s.retire .SIGTHREAD object
  if s.currtask = object then ({ s with currtask := zombietask }, none) else (s, some 0#32)

/-- `CKunloadAddrSpcObject`. -/
def ckUnloadAddrSpcObject (s : ObjectManager) (object : Addr) : ObjectManager × Option DATA :=
  (s.retire .SIGADDRSPC object, some 0#32)

/-- `CKunloadSHMemObject`. -/
def ckUnloadSHMemObject (s : ObjectManager) (object : Addr) : ObjectManager × Option DATA :=
  (s.retire .SIGSHMEM object, some 0#32)

/-- `CKunloadKernelObject`. -/
def ckUnloadKernelObject (s : ObjectManager) (object : Addr) : ObjectManager × Option DATA :=
  (s.retire .SIGKERNEL object, some 0#32)

/-- The switch that ends both `CKunloadObject` and `CKunCacheObjectKernelCode`. -/
def unloadSwitch (s : ObjectManager) (object : Addr) : ObjectManager × Option DATA :=
  match s.signature object with
  | .SIGTHREAD => s.ckUnloadThreadObject object
  | .SIGADDRSPC => s.ckUnloadAddrSpcObject object
  | .SIGKERNEL => s.ckUnloadKernelObject object
  | .SIGSHMEM => s.ckUnloadSHMemObject object

/-- The loop over the dependants. The index is stepped back in every round, so it is
always the first edge's child that is unloaded. `CKunloadObject` returns on the first error
(`stop`), `CKunCacheObjectKernelCode` goes on with the last one. -/
def unloadDependants (unload : ObjectManager → Addr → Option (ObjectManager × Option DATA))
    (stop : Bool) (object : Addr) :
    Nat → ObjectManager → DATA → Option (ObjectManager × Option DATA)
  | 0, _, _ => none
  | n + 1, s, error =>
    if s.odg.dependencies object = 0 then some (s, some error)
    else
      (unload s (s.odg.oda (s.odg.firstDependency object)).child).bind fun r =>
        match r.2 with
        | none => some r
        | some error =>
          if stop ∧ error ≠ 0#32 then some r
          else unloadDependants unload stop object n r.1 error

/-- `CKunloadObject`, where `n` bounds the depth of the recursion and the rounds of its
loops. -/
def ckUnloadObject : Nat → ObjectManager → Addr → Option (ObjectManager × Option DATA)
  | 0, _, _ => none
  | n + 1, s, object =>
    if s.Locked object then some (s, some ELOCKED)
    else
      (unloadDependants (ckUnloadObject n) true object (n + 1) s 0#32).bind fun r =>
        if r.2 = some 0#32 then some (r.1.unloadSwitch object) else some r

/-- `CKunCacheObjectKernelCode`. -/
def ckUnCacheObject (n : Nat) (s : ObjectManager) (object : Addr) :
    Option (ObjectManager × Option DATA) :=
  if s.Locked object then some (s, some ELOCKED)
  else
    (unloadDependants (ckUnloadObject n) false object (n + 1) s 0#32).bind fun r =>
      if r.2 = some 0#32 then some (r.1.unloadSwitch object) else some r

end ObjectManager

/-! ## Runs of loads -/

/-- A load, or the scheduler switching to another thread between two of them. -/
inductive LoadOp where
  | cache (signature : ObjectSignature) (object : Addr) (u : UserObject) (flags : UDATA)
    (env : LoadEnv)
  | dispatch (thread : Addr)

def loadStep (s : ObjectManager) : LoadOp → Option ObjectManager
  | .cache signature object u flags env =>
    (s.ckCacheObject signature object u flags env).map Prod.fst
  | .dispatch thread => some { s with currtask := thread }

/-- An object is loaded from when its header is allocated until it is freed. -/
def ObjectManager.Loaded (s : ObjectManager) (v : Addr) : Prop := s.allocated v = true

/-- A descriptor is the address of a loaded object's header. -/
def ObjectManager.Descriptor (s : ObjectManager) (v : Addr) : Prop := v = NIL ∨ s.Loaded v

/-- Memory that `CKmemAlloc` may give out for a header: none of the memory in use, and not
the address that the word before the dependency table happens to hold. -/
structure ObjectManager.Free (s : ObjectManager) (v : Addr) : Prop where
  free : ¬ s.Loaded v
  nil : v ≠ NIL
  idle : v ≠ idleLoop
  zombie : v ≠ zombietask
  before : v ≠ s.odg.before

/-- The descriptors that a load is given are descriptors; it does not fail once its header
is linked; and shared memory is loaded from a system call, so by a running thread. -/
def LoadOp.Legal (s : ObjectManager) : LoadOp → Prop
  | .cache signature _ u _ env =>
    (env.ckobject = NIL ∨ s.Free env.ckobject) ∧ env.error = 0#32 ∧ env.shMem ≠ NIL ∧
      s.Descriptor u.addressSpace ∧ (u.parentKernel = ownKernel ∨ s.Descriptor u.parentKernel) ∧
      s.Descriptor u.addrSpace ∧ (signature = .SIGSHMEM → s.currtask ≠ NIL)
  | .dispatch thread =>
    (s.Loaded thread ∧ s.signature thread = .SIGTHREAD) ∨ thread = idleLoop ∨ thread = zombietask

instance (s : ObjectManager) (v : Addr) : Decidable (s.Loaded v) :=
  inferInstanceAs (Decidable (_ = _))

instance (s : ObjectManager) (v : Addr) : Decidable (s.Descriptor v) :=
  inferInstanceAs (Decidable (_ ∨ _))

instance (s : ObjectManager) (v : Addr) : Decidable (s.Free v) :=
  decidable_of_iff (¬ s.Loaded v ∧ v ≠ NIL ∧ v ≠ idleLoop ∧ v ≠ zombietask ∧ v ≠ s.odg.before)
    ⟨fun ⟨a, b, c, d, e⟩ => ⟨a, b, c, d, e⟩, fun ⟨a, b, c, d, e⟩ => ⟨a, b, c, d, e⟩⟩

instance LoadOp.decidableLegal (s : ObjectManager) : (op : LoadOp) → Decidable (op.Legal s)
  | .cache .. => inferInstanceAs (Decidable (_ ∧ _))
  | .dispatch _ => inferInstanceAs (Decidable (_ ∨ _))

/-- The object manager at boot. -/
structure ObjectManager.Boot (s : ObjectManager) : Prop where
  odg : s.odg.Empty
  objHead : ∀ k, s.objHead k = NIL
  allocated : ∀ v, ¬ s.Loaded v
  currtask : s.currtask = NIL
  idle : (s.body idleLoop).parentKernel = NIL
  zombie : (s.body zombietask).parentKernel = NIL
  idle_before : idleLoop ≠ s.odg.before
  zombie_before : zombietask ≠ s.odg.before

end Alliance.CK
