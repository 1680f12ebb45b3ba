import Alliance.CK.KernelStack
import Alliance.CK.Memory
import Alliance.CK.ObjMgmtLoads
import Alliance.CK.Paging

/-!
# Loads and their memory (`objmgmt.c` with `memory.c`, `tasks.c`, `memhw.c`)

The load functions of `ObjMgmt` are told what the allocator and the preprocessing found; the ones
here ask them. A load checks its object, allocates and links the header, and then sets up what
else the object has: the TSS and the stack of a thread, the page directory of an address space,
the `SHMEMOBJ` of shared memory. Where that fails, the header is freed.

`ckCacheObject_objects` says that the objects come out as in `ObjMgmt`.
-/

namespace Alliance.CK

open Function Lib

def ENOVIRTMEM : DATA := -9
def ESEGMENTATION : DATA := -10

/-- `STDFLAGS`: I/O privilege level 3, interrupts on. -/
def STDFLAGS : UDATA := 0x3202

/-- `sizeof(SHMEMOBJ)`. -/
def SHMEMOBJSIZE : UADDR := 36#32

/-- The size of a header: `sizeof(CKThreadObject)` and so on. -/
def ObjectSignature.size : ObjectSignature → UADDR
  | .SIGTHREAD => 296#32
  | .SIGADDRSPC => 44#32
  | .SIGKERNEL => 48#32
  | .SIGSHMEM => 40#32

/-- What `CKpreProcessTaskState` checks and sets of a TSS; it copies the other fields. -/
structure TaskState where
  back : UDATA
  esp0 : UDATA
  ss0 : UDATA
  cr3 : UDATA
  eip : UDATA
  eflags : UDATA
  cs : UDATA
  ss : UDATA
  ds : UDATA
  /-- `i387.used`. -/
  used : DATA
  deriving DecidableEq, Repr

structure ObjectCache where
  objects : ObjectManager
  memory : Memory
  taskState : Addr → TaskState
  /-- The page directories of the address spaces; `Paging` has what they hold. -/
  addrSpc : Addr → UADDR
  shMem : Addr → UADDR

/-- The arguments of `CKcacheObject`, with what the user's object holds. -/
structure CacheCall where
  signature : ObjectSignature
  object : Addr
  u : UserObject
  userState : TaskState
  flags : UDATA
  deriving DecidableEq, Repr

namespace ObjectCache

def onObjects (s : ObjectCache) (f : ObjectManager → ObjectManager) : ObjectCache :=
  { s with objects := f s.objects }

def setTaskState (s : ObjectCache) (ckobject : Addr) (t : TaskState) : ObjectCache :=
  { s with taskState := update s.taskState ckobject t }

def ckMemAlloc (s : ObjectCache) (size : UADDR) : Option (ObjectCache × UADDR) := do
  let (memory, data) ← (s.memory.ckMemAlloc size).toOption
  some ({ s with memory := memory }, data)

def ckMemAllocPages (s : ObjectCache) (nopages : UADDR) : Option (ObjectCache × UADDR) := do
  let (memory, data) ← (s.memory.ckMemAllocPages nopages).toOption
  some ({ s with memory := memory }, data)

def ckMemFree (s : ObjectCache) (data size : UADDR) : Option ObjectCache := do
  let (memory, _) ← (s.memory.ckMemFree data size).toOption
  some { s with memory := memory }

/-! ## Preprocessing -/

/-- `CKpreProcessTaskState`. -/
def ckPreProcessTaskState (userState : TaskState) (s : ObjectCache) (ckobject : Addr) :
    Option (ObjectCache × DATA) :=
  let aspace := (s.objects.body ckobject).addressSpace
  let taskState := { userState with back := 0, cr3 := phys (s.addrSpc aspace) }
  if taskState.cr3 = 0#32 then some (s.setTaskState ckobject taskState, ENOVIRTMEM)
  else if taskState.eip = 0#32 then some (s.setTaskState ckobject taskState, ESEGMENTATION)
  else
    let taskState := { taskState with eflags := STDFLAGS, used := 0 }
    if taskState.cs = 0#32 ∨ taskState.ds = 0#32 ∨ taskState.ss = 0#32 then
      some (s.setTaskState ckobject taskState, ESEGMENTATION)
    else do
      let (s, stack) ← s.ckMemAlloc KSTACKSIZE
      let taskState := { taskState with ss0 := KDATA, esp0 := stack }
      if stack = KL.NIL then some (s.setTaskState ckobject taskState, ENOMEM)
      else
        some (s.setTaskState ckobject { taskState with esp0 := stack + KSTACKSIZE }, 0#32)

/-- `CKpreProcessAddrSpc`. -/
def ckPreProcessAddrSpc (s : ObjectCache) (object : Addr) : Option (ObjectCache × DATA) :=
  if object = NIL then some (s, ENOVALIDADDRSPC)
  else do
    let (s, addrSpc) ← s.ckMemAllocPages 2#32
    let s := { s with addrSpc := update s.addrSpc object addrSpc }
    if addrSpc = KL.NIL then some (s, ENOMEM) else some (s, 0#32)

/-- `CKpreProcessKernel`: nothing (yet). -/
def ckPreProcessKernel (s : ObjectCache) (_ckobject : Addr) : Option (ObjectCache × DATA) :=
  some (s, 0#32)

/-- Set up a shared memory region. -/
def setUpSHMem (s : ObjectCache) (ckobject : Addr) : Option (ObjectCache × DATA) := do
  let (s, shMem) ← s.ckMemAlloc SHMEMOBJSIZE
  let s := { s with shMem := update s.shMem ckobject shMem }
  if shMem = KL.NIL then some (s, ENOMEM)
  else
    some (s.onObjects fun o => o.setBody ckobject { o.body ckobject with owner := o.currtask },
      0#32)

/-! ## Loading -/

/-- What the four load functions do once the object is valid: allocate memory for its header,
fill the header in and link it, do what can fail after that, and add the edges. -/
def load (s : ObjectCache) (k : ObjectSignature) (object : Addr) (flags : UDATA)
    (fill : ObjectManager → Addr → ObjectManager)
    (preProcess : ObjectCache → Addr → Option (ObjectCache × DATA)) :
    Option (ObjectCache × DATA) := do
  let (s, ckobject) ← s.ckMemAlloc k.size
  if ckobject = KL.NIL then some (s, ENOMEM)
  else
    let link := fun o : ObjectManager => o.linkObject k object flags ckobject.toNat
    let (s, error) ← preProcess (s.onObjects fun o => fill (link o) ckobject.toNat) ckobject.toNat
    -- the header is freed where it is
    let s ← if error ≠ 0#32 then s.ckMemFree ckobject k.size else some s
    let (objects, error) ← s.objects.finishLoad k object ckobject.toNat error
    some ({ s with objects := objects }, error)

/-- The fields of a new thread behind its header. -/
def fillThread (object : Addr) (u : UserObject) (o : ObjectManager) (ckobject : Addr) :
    ObjectManager :=
  let kernel := o.parentKernelFor u.parentKernel
  let o := o.setBody ckobject
    { o.body ckobject with addressSpace := u.addressSpace, parentKernel := kernel }
  o.setInterruptable object (if kernel ≠ NIL then 0#32 else 1#32)

/-- The fields of a new address space. -/
def fillAddrSpc (u : UserObject) (o : ObjectManager) (ckobject : Addr) : ObjectManager :=
  o.setBody ckobject
    { o.body ckobject with parentKernel := o.parentKernelFor u.parentKernel }

/-- The fields of a new kernel. -/
def fillKernel (u : UserObject) (o : ObjectManager) (ckobject : Addr) : ObjectManager :=
  o.setBody ckobject
    { o.body ckobject with addrSpace := u.addrSpace, sigHandler := u.sigHandler }

/-- `CKloadThreadObject`. -/
def ckLoadThreadObject (s : ObjectCache) (object : Addr) (u : UserObject) (userState : TaskState)
    (flags : UDATA) : Option (ObjectCache × DATA) :=
  if flags &&& OFLOCKED ≠ 0#32 then some (s, ENOLOCKPERMS)
  else if u.addressSpace = NIL ∨ ¬ s.objects.ckValidAddrSpc u.addressSpace then
    some (s, ENOVALIDADDRSPC)
  else if u.quantum = 0#32 ∨ u.defer = 0#32 then some (s, EINSCHEDPARMS)
  else if s.objects.BadKernel u.parentKernel then some (s, ENOVALIDKERNEL)
  else
    s.load .SIGTHREAD object flags (fillThread object u) (ckPreProcessTaskState userState)

/-- `CKloadAddrSpcObject`. -/
def ckLoadAddrSpcObject (s : ObjectCache) (object : Addr) (u : UserObject) (flags : UDATA) :
    Option (ObjectCache × DATA) :=
  if flags &&& OFLOCKED ≠ 0#32 then some (s, ENOLOCKPERMS)
  else if s.objects.BadKernel u.parentKernel then some (s, ENOVALIDKERNEL)
  else s.load .SIGADDRSPC object flags (fillAddrSpc u) ckPreProcessAddrSpc

/-- `CKloadKernelObject`. -/
def ckLoadKernelObject (s : ObjectCache) (object : Addr) (u : UserObject) (flags : UDATA) :
    Option (ObjectCache × DATA) :=
  if flags &&& OFLOCKED ≠ 0#32 then some (s, ENOLOCKPERMS)
  else if u.addrSpace = NIL ∨ ¬ s.objects.ckValidAddrSpc u.addrSpace then
    some (s, ENOVALIDADDRSPC)
  else if u.sigHandler = NIL then some (s, ENOSIGHANDL)
  else s.load .SIGKERNEL object flags (fillKernel u) ckPreProcessKernel

/-- `CKloadSHMemObject`. -/
def ckLoadSHMemObject (s : ObjectCache) (object : Addr) (flags : UDATA) :
    Option (ObjectCache × DATA) :=
  if flags &&& OFLOCKED ≠ 0#32 then some (s, ENOLOCKPERMS)
  else s.load .SIGSHMEM object flags (fun o _ => o) setUpSHMem

/-- `CKcacheObject`. -/
def ckCacheObject (s : ObjectCache) (c : CacheCall) : Option (ObjectCache × DATA) :=
  match c.signature with
  | .SIGTHREAD => s.ckLoadThreadObject c.object c.u c.userState c.flags
  | .SIGADDRSPC => s.ckLoadAddrSpcObject c.object c.u c.flags
  | .SIGKERNEL => s.ckLoadKernelObject c.object c.u c.flags
  | .SIGSHMEM => s.ckLoadSHMemObject c.object c.flags

variable {s s' s₁ : ObjectCache} {k : ObjectSignature} {object ckobject : Addr} {e : DATA}
  {flags : UDATA} {header size data n : UADDR} {m : Memory} {userState : TaskState}
  {c : CacheCall} {fill : ObjectManager → Addr → ObjectManager}
  {preProcess : ObjectCache → Addr → Option (ObjectCache × DATA)}

/-! ## The allocator -/

theorem ckMemAlloc_eq (h : s.memory.ckMemAlloc size = .ok (m, data)) :
    s.ckMemAlloc size = some ({ s with memory := m }, data) := by
  rw [ckMemAlloc, h]
  rfl

theorem ckMemAllocPages_eq
    (h : s.memory.ckMemAllocPages n = .ok (m, data)) :
    s.ckMemAllocPages n = some ({ s with memory := m }, data) := by
  rw [ckMemAllocPages, h]
  rfl

theorem ckMemAlloc_some (hs : s.ckMemAlloc size = some (s', data)) :
    ∃ m, s.memory.ckMemAlloc size = .ok (m, data) ∧ s' = { s with memory := m } := by
  unfold ckMemAlloc at hs
  cases hm : s.memory.ckMemAlloc size with
  | error x =>
    rw [hm] at hs
    exact absurd hs (by simp [Except.toOption])
  | ok r =>
    rw [hm] at hs
    obtain ⟨rfl, rfl⟩ := Prod.mk.inj (Option.some.inj hs)
    exact ⟨r.1, rfl, rfl⟩

theorem ckMemAllocPages_some (hs : s.ckMemAllocPages n = some (s', data)) :
    ∃ m, s' = { s with memory := m } := by
  obtain ⟨⟨m, _⟩, _, hs⟩ := Option.bind_eq_some_iff.mp hs
  obtain ⟨rfl, rfl⟩ := Prod.mk.inj (Option.some.inj hs)
  exact ⟨m, rfl⟩

theorem ckMemFree_some (hs : s.ckMemFree data size = some s') :
    ∃ m, s' = { s with memory := m } := by
  obtain ⟨⟨m, _⟩, _, hs⟩ := Option.bind_eq_some_iff.mp hs
  obtain rfl := Option.some.inj hs
  exact ⟨m, rfl⟩

/-! ## The objects of a load -/

/-- The state when the header is filled in and linked, and the memory `m` is left. -/
def linked (s : ObjectCache) (k : ObjectSignature) (object : Addr) (flags : UDATA)
    (fill : ObjectManager → Addr → ObjectManager) (m : Memory) (ckobject : Addr) : ObjectCache :=
  { s with
    memory := m
    objects := fill (s.objects.linkObject k object flags ckobject) ckobject }

/-- What a load that returned did: there was no memory for the header, or the header was linked
and the preprocessing decided. -/
theorem load_some (hs : s.load k object flags fill preProcess = some (s', e)) :
    ((∃ m, s.memory.ckMemAlloc k.size = .ok (m, KL.NIL)) ∧ s'.objects = s.objects ∧ e = ENOMEM) ∨
    ∃ m header s₁ e₁,
      s.memory.ckMemAlloc k.size = .ok (m, header) ∧ header ≠ KL.NIL ∧
      preProcess (s.linked k object flags fill m header.toNat) header.toNat = some (s₁, e₁) ∧
      s₁.objects.finishLoad k object header.toNat e₁ = some (s'.objects, e) ∧
      (e₁ = 0#32 → s'.memory = s₁.memory) := by
  obtain ⟨⟨s₀, header⟩, hs₀, hs⟩ := Option.bind_eq_some_iff.mp hs
  obtain ⟨m, hm, rfl⟩ := ckMemAlloc_some hs₀
  dsimp only at hs
  split at hs
  · next hnil =>
    obtain ⟨rfl, rfl⟩ := Prod.mk.inj (Option.some.inj hs)
    exact .inl ⟨⟨m, hnil ▸ hm⟩, rfl, rfl⟩
  next hheader =>
  obtain ⟨⟨s₁, e₁⟩, hp, hs⟩ := Option.bind_eq_some_iff.mp hs
  refine .inr ⟨m, header, s₁, e₁, hm, hheader, hp, ?_⟩
  dsimp only at hs
  split at hs
  · next he =>
    -- the header is freed, which the objects do not see
    obtain ⟨s₂, hs₂, hs⟩ := Option.bind_eq_some_iff.mp hs
    obtain ⟨m', rfl⟩ := ckMemFree_some hs₂
    obtain ⟨⟨o, e₂⟩, hfin, hs⟩ := Option.bind_eq_some_iff.mp hs
    obtain ⟨rfl, rfl⟩ := Prod.mk.inj (Option.some.inj hs)
    exact ⟨hfin, fun h0 => absurd h0 he⟩
  · obtain ⟨s₂, hs₂, hs⟩ := Option.bind_eq_some_iff.mp hs
    obtain rfl := Option.some.inj hs₂
    obtain ⟨⟨o, e₂⟩, hfin, hs⟩ := Option.bind_eq_some_iff.mp hs
    obtain ⟨rfl, rfl⟩ := Prod.mk.inj (Option.some.inj hs)
    exact ⟨hfin, fun _ => rfl⟩

theorem ckPreProcessTaskState_objects
    (hs : ckPreProcessTaskState userState s ckobject = some (s', e)) : s'.objects = s.objects := by
  unfold ckPreProcessTaskState at hs
  dsimp only at hs
  split at hs
  · obtain rfl := congrArg Prod.fst (Option.some.inj hs)
    rfl
  split at hs
  · obtain rfl := congrArg Prod.fst (Option.some.inj hs)
    rfl
  split at hs
  · obtain rfl := congrArg Prod.fst (Option.some.inj hs)
    rfl
  obtain ⟨⟨s₁, stack⟩, hs₁, hs⟩ := Option.bind_eq_some_iff.mp hs
  obtain ⟨m, _, rfl⟩ := ckMemAlloc_some hs₁
  dsimp only at hs
  split at hs
  · obtain rfl := congrArg Prod.fst (Option.some.inj hs)
    rfl
  · obtain rfl := congrArg Prod.fst (Option.some.inj hs)
    rfl

theorem ckPreProcessAddrSpc_objects (hs : ckPreProcessAddrSpc s object = some (s', e)) :
    s'.objects = s.objects := by
  unfold ckPreProcessAddrSpc at hs
  split at hs
  · obtain rfl := congrArg Prod.fst (Option.some.inj hs)
    rfl
  obtain ⟨⟨s₁, addrSpc⟩, hs₁, hs⟩ := Option.bind_eq_some_iff.mp hs
  obtain ⟨m, rfl⟩ := ckMemAllocPages_some hs₁
  dsimp only at hs
  split at hs
  · obtain rfl := congrArg Prod.fst (Option.some.inj hs)
    rfl
  · obtain rfl := congrArg Prod.fst (Option.some.inj hs)
    rfl

/-- Setting up shared memory fills in its owner, if there is memory. -/
theorem setUpSHMem_objects (hs : setUpSHMem s ckobject = some (s', e)) :
    s'.objects = s.objects ∧ e = ENOMEM ∨
    s'.objects = s.objects.setBody ckobject
      { s.objects.body ckobject with owner := s.objects.currtask } ∧ e = 0#32 := by
  obtain ⟨⟨s₁, shMem⟩, hs₁, hs⟩ := Option.bind_eq_some_iff.mp hs
  obtain ⟨m, _, rfl⟩ := ckMemAlloc_some hs₁
  dsimp only at hs
  split at hs
  · obtain ⟨rfl, rfl⟩ := Prod.mk.inj (Option.some.inj hs)
    exact .inl ⟨rfl, rfl⟩
  · obtain ⟨rfl, rfl⟩ := Prod.mk.inj (Option.some.inj hs)
    exact .inr ⟨rfl, rfl⟩

theorem addr_ne (h : header ≠ KL.NIL) : header.toNat ≠ NIL :=
  fun h0 => h (BitVec.eq_of_toNat_eq h0)

/-- A refusal leaves the objects alone on both sides. -/
theorem refused_objects {x : DATA} (hs : some (s, x) = some (s', e)) :
    some (s.objects, x) = some (s'.objects, e) := by
  obtain ⟨rfl, rfl⟩ := Prod.mk.inj (Option.some.inj hs)
  rfl

/-! Each load goes through the same guards in `ObjMgmt`; only then the environment matters. -/

theorem ckLoadThreadObject_objects {u : UserObject}
    (hs : s.ckLoadThreadObject object u userState flags = some (s', e)) :
    ∃ env, s.objects.ckLoadThreadObject object u flags env = some (s'.objects, e) := by
  unfold ckLoadThreadObject at hs
  unfold ObjectManager.ckLoadThreadObject
  split at hs
  · next h => exact ⟨⟨NIL, 0, NIL⟩, by rw [if_pos h]; exact refused_objects hs⟩
  next h₁ =>
  split at hs
  · next h => exact ⟨⟨NIL, 0, NIL⟩, by rw [if_neg h₁, if_pos h]; exact refused_objects hs⟩
  next h₂ =>
  split at hs
  · next h =>
    exact ⟨⟨NIL, 0, NIL⟩, by rw [if_neg h₁, if_neg h₂, if_pos h]; exact refused_objects hs⟩
  next h₃ =>
  split at hs
  · next h =>
    refine ⟨⟨NIL, 0, NIL⟩, ?_⟩
    rw [if_neg h₁, if_neg h₂, if_neg h₃, if_pos h]
    exact refused_objects hs
  next h₄ =>
  rcases load_some hs with ⟨_, ho, rfl⟩ | ⟨_, header, s₁, e₁, _, hheader, hp, hfin, _⟩
  · refine ⟨⟨NIL, 0, NIL⟩, ?_⟩
    rw [if_neg h₁, if_neg h₂, if_neg h₃, if_neg h₄, if_pos rfl, ho]
  · refine ⟨⟨header.toNat, e₁, NIL⟩, ?_⟩
    rw [if_neg h₁, if_neg h₂, if_neg h₃, if_neg h₄, if_neg (addr_ne hheader)]
    rw [ckPreProcessTaskState_objects hp] at hfin
    exact hfin

theorem ckLoadAddrSpcObject_objects {u : UserObject}
    (hs : s.ckLoadAddrSpcObject object u flags = some (s', e)) :
    ∃ env, s.objects.ckLoadAddrSpcObject object u flags env = some (s'.objects, e) := by
  unfold ckLoadAddrSpcObject at hs
  unfold ObjectManager.ckLoadAddrSpcObject
  split at hs
  · next h => exact ⟨⟨NIL, 0, NIL⟩, by rw [if_pos h]; exact refused_objects hs⟩
  next h₁ =>
  split at hs
  · next h => exact ⟨⟨NIL, 0, NIL⟩, by rw [if_neg h₁, if_pos h]; exact refused_objects hs⟩
  next h₂ =>
  rcases load_some hs with ⟨_, ho, rfl⟩ | ⟨_, header, s₁, e₁, _, hheader, hp, hfin, _⟩
  · refine ⟨⟨NIL, 0, NIL⟩, ?_⟩
    rw [if_neg h₁, if_neg h₂, if_pos rfl, ho]
  · refine ⟨⟨header.toNat, e₁, NIL⟩, ?_⟩
    rw [if_neg h₁, if_neg h₂, if_neg (addr_ne hheader)]
    rw [ckPreProcessAddrSpc_objects hp] at hfin
    exact hfin

theorem ckLoadKernelObject_objects {u : UserObject}
    (hs : s.ckLoadKernelObject object u flags = some (s', e)) :
    ∃ env, s.objects.ckLoadKernelObject object u flags env = some (s'.objects, e) := by
  unfold ckLoadKernelObject at hs
  unfold ObjectManager.ckLoadKernelObject
  split at hs
  · next h => exact ⟨⟨NIL, 0, NIL⟩, by rw [if_pos h]; exact refused_objects hs⟩
  next h₁ =>
  split at hs
  · next h => exact ⟨⟨NIL, 0, NIL⟩, by rw [if_neg h₁, if_pos h]; exact refused_objects hs⟩
  next h₂ =>
  split at hs
  · next h =>
    exact ⟨⟨NIL, 0, NIL⟩, by rw [if_neg h₁, if_neg h₂, if_pos h]; exact refused_objects hs⟩
  next h₃ =>
  rcases load_some hs with ⟨_, ho, rfl⟩ | ⟨_, header, s₁, e₁, _, hheader, hp, hfin, _⟩
  · refine ⟨⟨NIL, 0, NIL⟩, ?_⟩
    rw [if_neg h₁, if_neg h₂, if_neg h₃, if_pos rfl, ho]
  · refine ⟨⟨header.toNat, e₁, NIL⟩, ?_⟩
    rw [if_neg h₁, if_neg h₂, if_neg h₃, if_neg (addr_ne hheader)]
    obtain ⟨rfl, rfl⟩ := Prod.mk.inj (Option.some.inj hp)
    exact hfin

theorem ckLoadSHMemObject_objects (hs : s.ckLoadSHMemObject object flags = some (s', e)) :
    ∃ env, s.objects.ckLoadSHMemObject object flags env = some (s'.objects, e) := by
  unfold ckLoadSHMemObject at hs
  unfold ObjectManager.ckLoadSHMemObject
  split at hs
  · next h => exact ⟨⟨NIL, 0, NIL⟩, by rw [if_pos h]; exact refused_objects hs⟩
  next h₁ =>
  rcases load_some hs with ⟨_, ho, rfl⟩ | ⟨_, header, s₁, e₁, _, hheader, hp, hfin, _⟩
  · refine ⟨⟨NIL, 0, NIL⟩, ?_⟩
    rw [if_neg h₁, if_pos rfl, ho]
  -- the environment says whether there was memory for the region's own data
  rcases setUpSHMem_objects hp with ⟨ho, rfl⟩ | ⟨ho, rfl⟩
  · refine ⟨⟨header.toNat, 0, NIL⟩, ?_⟩
    rw [if_neg h₁, if_neg (addr_ne hheader)]
    rw [ho] at hfin
    exact hfin
  · refine ⟨⟨header.toNat, 0, 1⟩, ?_⟩
    rw [if_neg h₁, if_neg (addr_ne hheader)]
    rw [ho] at hfin
    exact hfin

/-- **The objects come out as in `ObjMgmt`**, for what the allocator and the preprocessing
found. -/
theorem ckCacheObject_objects (hs : s.ckCacheObject c = some (s', e)) :
    ∃ env, s.objects.ckCacheObject c.signature c.object c.u c.flags env =
      some (s'.objects, e) := by
  obtain ⟨k, object, u, userState, flags⟩ := c
  cases k with
  | SIGTHREAD => exact ckLoadThreadObject_objects hs
  | SIGADDRSPC => exact ckLoadAddrSpcObject_objects hs
  | SIGKERNEL => exact ckLoadKernelObject_objects hs
  | SIGSHMEM => exact ckLoadSHMemObject_objects hs

end ObjectCache

end Alliance.CK
