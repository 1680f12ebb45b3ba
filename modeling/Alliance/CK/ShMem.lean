import Alliance.CK.SharedMem
import Alliance.Lib.Queue

/-!
# Shared memory objects in memory (`shmem.c`)

The same calls as in `SharedMem`, on the pointers: an object's record has a pointer to the
first and to the last node of its two lists, a node is in one of them, and attaching and
detaching move it from one to the other. Both lists are handled alike, so `ends` and the
steps on a list take which of the two is meant.

The mutex of the record is held over each change of the lists, so a call is one step. The
log is not memory: it records what the calls returned, the signals they sent and what was
freed, newest first. A step is `none` where a call reads a record that has been freed.
-/

namespace Alliance.CK

open Function Lib

def SIGNLSHINVI : UDATA := 0x03#32
def SIGNLSHDEAD : UDATA := 0x05#32
def SIGNLSHNOTIFY : UDATA := 0x07#32

/-- The number of addresses. A walk that takes as many steps is in a circle. -/
def ADDRESSES : Nat := 2 ^ 32

/-- The two lists of a shared memory object. -/
inductive ShMemList where
  /-- From `firstInvited` to `lastInvited`. -/
  | invited
  /-- From `firstThread` to `lastThread`. -/
  | threads
  deriving DecidableEq

/-- `SHMEMOBJ`: the record of a shared memory object. -/
structure ShMemRecord where
  owner : Addr
  dead : Bool
  logicalAddr : UADDR
  size : UADDR
  ends : ShMemList → Ends Addr

/-- The system calls. `node` is the memory that `CKmemAlloc` finds for the list node,
`pageTables` the one for page tables. -/
inductive ShMemCall where
  | invite (object thread node : Addr)
  | setRange (object : Addr) (logicalAddr size : UADDR)
  | attach (object : Addr) (logAddr size pageTables : UADDR)
  | detach (object : Addr)
  | remap (object : Addr) (logAddr size pageTables : UADDR)
  | notify (object : Addr)
  deriving DecidableEq

/-- The object a call is on. -/
def ShMemCall.object : ShMemCall → Addr
  | .invite object _ _ | .setRange object _ _ | .attach object _ _ _ | .detach object
  | .remap object _ _ _ | .notify object => object

inductive ShMemEvent where
  | loaded (object owner : Addr)
  | called (caller : Addr) (c : ShMemCall) (result : DATA)
  | sent (thread : Addr) (signal : UDATA) (object : Addr)
  | freedNode (node : Addr)
  | freedRecord (object : Addr)
  deriving DecidableEq

structure ShMem where
  paging : Paging
  signature : Addr → ObjectSignature
  /-- `addrSpc` of the address space objects. -/
  addrSpc : Addr → Addr
  /-- `addressSpace` of the thread objects. -/
  addressSpace : Addr → Addr
  /-- `shMem` of the shared memory objects, while it is allocated. -/
  shMem : Addr → Option ShMemRecord
  node : Addr → SHTHREADLIST
  next : Addr → Addr
  /-- The nodes that were allocated and not freed since. -/
  used : Addr → Bool
  currtask : Addr
  log : List ShMemEvent

namespace ShMem

variable (m : ShMem)

def record (e : ShMemEvent) : ShMem := { m with log := e :: m.log }

def setShMem (object : Addr) (smo : ShMemRecord) : ShMem :=
  { m with shMem := update m.shMem object (some smo) }

/-! ## The lists -/

/-- `fetchThread`: the node of a thread, or `NIL`, and the node before it. -/
def fetchThread (stl thread : Addr) : Option (Addr × Addr) :=
  search NIL m.next (fun n => (m.node n).thread = thread) ADDRESSES stl NIL

/-- `stl->next = NIL`, and the node becomes the last of a list. -/
def append (object : Addr) (smo : ShMemRecord) (w : ShMemList) (stl : Addr) : ShMem :=
  let r := (smo.ends w).push NIL (update m.next stl NIL) stl
  { m with
    next := r.1
    shMem := update m.shMem object (some { smo with ends := update smo.ends w r.2 }) }

/-- The node `stl`, which is behind `ptl`, is taken out of a list. -/
def takeOut (object : Addr) (smo : ShMemRecord) (w : ShMemList) (stl ptl : Addr) : ShMem :=
  let r := (smo.ends w).unlink NIL m.next stl ptl
  { m with
    next := r.1
    shMem := update m.shMem object (some { smo with ends := update smo.ends w r.2 }) }

/-- `CKmemAlloc(sizeof(SHTHREADLIST))`. -/
def allocNode (node : Addr) : ShMem := { m with used := update m.used node true }

/-- `CKmemFree(stl, sizeof(SHTHREADLIST))`. -/
def freeNode (node : Addr) : ShMem :=
  { m with used := update m.used node false }.record (.freedNode node)

/-! ## The calls -/

/-- `CKshMemInviteKernelCode`. -/
def ckShMemInvite (object thread node : Addr) : Option (ShMem × DATA) :=
  if m.signature object ≠ .SIGSHMEM then some (m, ENOVALIDSHMEM)
  else do
    let smo ← m.shMem object
    if smo.dead then some (m, ENOVALIDSHMEM)
    else if node = NIL then some (m, ENOMEM)
    else
      let m := m.allocNode node
      let m := { m with node := update m.node node { m.node node with thread := thread } }
      some ((m.append object smo .invited node).record (.sent thread SIGNLSHINVI object), 0#32)

/-- `CKshMemSetRangeKernelCode`. -/
def ckShMemSetRange (object : Addr) (logicalAddr size : UADDR) : Option (ShMem × DATA) :=
  if m.signature object ≠ .SIGSHMEM then some (m, ENOVALIDSHMEM)
  else do
    let smo ← m.shMem object
    if m.currtask ≠ smo.owner then some (m, ENOSECURITY)
    else if smo.dead then some (m, ENOVALIDSHMEM)
    else some (m.setShMem object { smo with logicalAddr := logicalAddr, size := size }, 0#32)

/-- `addrspc == NIL` or not valid. -/
def NoAddrSpc (aspace : Addr) : Prop := aspace = NIL ∨ m.signature aspace ≠ .SIGADDRSPC

instance decidableNoAddrSpc (aspace : Addr) : Decidable (m.NoAddrSpc aspace) :=
  inferInstanceAs (Decidable (_ ∨ _))

/-- The smaller of the size asked for and the size that is shared, as `DATA`. -/
def attachSize (smo : ShMemRecord) (size : UADDR) : UADDR :=
  if size.slt smo.size then size else smo.size

/-- `CKshMemAttachKernelCode`. -/
def ckShMemAttach (object : Addr) (logAddr size pageTables : UADDR) : Option (ShMem × DATA) :=
  if m.signature object ≠ .SIGSHMEM then some (m, ENOVALIDSHMEM)
  else do
    let smo ← m.shMem object
    let aspace := m.addressSpace m.currtask
    let ownerAspace := m.addressSpace smo.owner
    if m.currtask = smo.owner then some (m, ENOSECURITY)
    else if smo.dead then some (m, ENOVALIDSHMEM)
    else if m.NoAddrSpc aspace then some (m, ENOVALIDADDRSPC)
    else if m.NoAddrSpc ownerAspace then some (m, ENOVALIDADDRSPC)
    else
      let (stl, ptl) ← m.fetchThread (smo.ends .invited).first m.currtask
      if stl = NIL then some (m, ENOSECURITY)
      else
        let sz := attachSize smo size
        let (paging, ok) ← m.paging.ckCopySharedPageMapping (m.addrSpc ownerAspace)
          smo.logicalAddr (m.addrSpc aspace) logAddr sz pageTables
        let m := { m with paging := paging }
        if ok then do
          let m := m.takeOut object smo .invited stl ptl
          let filled := { m.node stl with logicalAddr := logAddr, size := sz }
          let m := { m with node := update m.node stl filled }
          let smo ← m.shMem object
          some (m.append object smo .threads stl, 0#32)
        else some (m, ENOSECURITY)

/-- `CKshMemDetachKernelCode`. -/
def ckShMemDetach (object : Addr) : Option (ShMem × DATA) :=
  let aspace := m.addressSpace m.currtask
  if m.signature object ≠ .SIGSHMEM then some (m, ENOVALIDSHMEM)
  else do
    let smo ← m.shMem object
    if smo.dead then some (m, ENOVALIDSHMEM)
    else if m.NoAddrSpc aspace then some (m, ENOVALIDADDRSPC)
    else
      let (stl, ptl) ← m.fetchThread (smo.ends .threads).first m.currtask
      if stl = NIL then some (m, ENOSECURITY)
      else
        let paging ← m.paging.ckMarkPageNotPresent (m.addrSpc aspace) (m.node stl).logicalAddr
          (m.node stl).size 0#32
        let m := { m with paging := paging }.takeOut object smo .threads stl ptl
        let smo ← m.shMem object
        if smo.dead then some (m.freeNode stl, 0#32)
        else some (m.append object smo .invited stl, 0#32)

/-- `CKshMemRemapKernelCode`. -/
def ckShMemRemap (object : Addr) (logAddr size pageTables : UADDR) : Option (ShMem × DATA) :=
  if m.signature object ≠ .SIGSHMEM then some (m, ENOVALIDSHMEM)
  else do
    let (m, err) ← m.ckShMemDetach object
    if err ≠ 0#32 then some (m, err)
    else m.ckShMemAttach object logAddr size pageTables

/-- Send a signal to the thread of each node from `stl` on. -/
def signalFrom (object : Addr) (signal : UDATA) : Nat → Addr → ShMem → Option ShMem
  | 0, _, _ => none
  | fuel + 1, stl, m =>
    if stl = NIL then some m
    else
      signalFrom object signal fuel (m.next stl) (m.record (.sent (m.node stl).thread signal object))

/-- `CKshMemNotifyKernelCode`. -/
def ckShMemNotify (object : Addr) : Option (ShMem × DATA) :=
  if m.signature object ≠ .SIGSHMEM then some (m, ENOVALIDSHMEM)
  else do
    let smo ← m.shMem object
    if m.currtask ≠ smo.owner then some (m, ENOSECURITY)
    else if smo.dead then some (m, ENOVALIDSHMEM)
    else
      let m ← signalFrom object SIGNLSHNOTIFY ADDRESSES (smo.ends .invited).first m
      some (m, 0#32)

def call : ShMemCall → Option (ShMem × DATA)
  | .invite object thread node => m.ckShMemInvite object thread node
  | .setRange object logicalAddr size => m.ckShMemSetRange object logicalAddr size
  | .attach object logAddr size pageTables => m.ckShMemAttach object logAddr size pageTables
  | .detach object => m.ckShMemDetach object
  | .remap object logAddr size pageTables => m.ckShMemRemap object logAddr size pageTables
  | .notify object => m.ckShMemNotify object

/-! ## Loading and unloading -/

/-- The shared memory part of `CKloadSHMemObject`: the new record is cleared, and belongs to
the running thread. -/
def ckLoadSHMemObject (object : Addr) : ShMem :=
  { m with
    signature := update m.signature object .SIGSHMEM
    shMem := update m.shMem object (some {
      owner := m.currtask
      dead := false
      logicalAddr := 0#32
      size := 0#32
      ends := fun _ => ⟨NIL, NIL⟩ }) }.record (.loaded object m.currtask)

/-- The first loop of `CKshMemDestroy`: free each node from `stl` on and signal its thread. -/
def freeFrom (object : Addr) : Nat → Addr → ShMem → Option ShMem
  | 0, _, _ => none
  | fuel + 1, stl, m =>
    if stl = NIL then some m
    else
      freeFrom object fuel (m.next stl)
        ((m.freeNode stl).record (.sent (m.node stl).thread SIGNLSHDEAD object))

/-- `CKshMemDestroy`. -/
def ckShMemDestroy (object : Addr) : Option (ShMem × DATA) :=
  if m.signature object ≠ .SIGSHMEM then some (m, ENOVALIDSHMEM)
  else do
    let smo ← m.shMem object
    if m.currtask ≠ smo.owner then some (m, ENOSECURITY)
    else if smo.dead then some (m, ENOVALIDSHMEM)
    else
      let ends := update smo.ends .invited ⟨NIL, NIL⟩
      let m := m.setShMem object { smo with dead := true, ends }
      let m ← freeFrom object ADDRESSES (smo.ends .invited).first m
      let m ← signalFrom object SIGNLSHDEAD ADDRESSES (smo.ends .threads).first m
      some (m, 0#32)

/-- The shared memory part of `CKunloadSHMemObject`, which does not look at what
`CKshMemDestroy` returns. The first word of the freed header then reads `header`: what it
was, if the header becomes part of the free block below it, else a link of the free list. -/
def ckUnloadSHMemObject (object : Addr) (header : ObjectSignature) : Option ShMem := do
  let (m, _) ← m.ckShMemDestroy object
  let freed := { m with
    shMem := update m.shMem object none
    signature := update m.signature object header }
  some (freed.record (.freedRecord object))

end ShMem

/-! ## Runs -/

inductive ShMemOp where
  /-- The scheduler switches to a thread. -/
  | dispatch (thread : Addr)
  | call (c : ShMemCall)
  | load (object : Addr)
  | unload (object : Addr) (header : ObjectSignature)
  /-- The rest of the kernel writes the header of an object. -/
  | header (object : Addr) (signature : ObjectSignature)
  /-- The rest of the kernel changes the address spaces. -/
  | rest (addrSpc addressSpace : Addr → Addr) (paging : Paging)

def shMemStep (m : ShMem) : ShMemOp → Option ShMem
  | .dispatch thread => some { m with currtask := thread }
  | .call c => (m.call c).map fun r => r.1.record (.called m.currtask c r.2)
  | .load object => some (m.ckLoadSHMemObject object)
  | .unload object header => m.ckUnloadSHMemObject object header
  | .header object signature => some { m with signature := update m.signature object signature }
  | .rest addrSpc addressSpace paging => some { m with addrSpc, addressSpace, paging }

/-- The memory for a node or an object is free before it is allocated, a node is an address, and
the rest of the kernel leaves the headers of the shared memory objects alone. -/
def ShMemOp.Legal (m : ShMem) : ShMemOp → Prop
  | .call (.invite _ _ node) => m.used node = false ∧ node < ADDRESSES
  | .load object | .header object _ => (m.shMem object).isNone
  | .unload object _ => (m.shMem object).isSome
  | _ => True

instance ShMemOp.decidableLegal (m : ShMem) : (op : ShMemOp) → Decidable (op.Legal m)
  | .call (.invite _ _ _) => inferInstanceAs (Decidable (_ ∧ _))
  | .load _ | .header _ _ | .unload _ _ => inferInstanceAs (Decidable (_ = true))
  | .dispatch _ | .rest _ _ _ => .isTrue trivial
  | .call (.setRange _ _ _) | .call (.attach _ _ _ _) | .call (.detach _)
  | .call (.remap _ _ _ _) | .call (.notify _) => .isTrue trivial

/-- The machine before any shared memory object is loaded. -/
structure ShMem.Boot (m : ShMem) : Prop where
  shMem : ∀ o, m.shMem o = none
  used : ∀ n, m.used n = false
  log : m.log = []

end Alliance.CK
