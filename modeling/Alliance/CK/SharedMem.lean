import Alliance.CK.Paging
import Alliance.Lib.Run

/-!
# The calls on mappings and shared memory (`paging.c`, `shmem.c`)

What the calls read of the object headers is in `VM`, with the page tables. A shared memory
object holds the list of the threads that are invited to it and the list of those that are
attached; attaching maps the owner's pages into the address space of the running thread and
moves the thread from the first list to the second, detaching does the reverse. Each call
leaves the mutex of the object that it entered; neither the mutexes nor the signals that are
sent are in the model.
-/

namespace Alliance.CK

open Function

def ENOSECURITY : DATA := -8
def ENOVALIDSHMEM : DATA := -17

/-- `SHTHREADLIST`: a thread with the range that it attached. -/
structure SHTHREADLIST where
  thread : Addr
  logicalAddr : UADDR
  size : UADDR
  deriving DecidableEq, Repr

structure SHMEMOBJ where
  owner : Addr
  dead : Bool
  logicalAddr : UADDR
  size : UADDR
  /-- The list from `firstInvited` to `lastInvited`. -/
  invited : List SHTHREADLIST
  /-- The list from `firstThread` to `lastThread`. -/
  threads : List SHTHREADLIST

structure VM where
  paging : Paging
  signature : Addr → ObjectSignature
  /-- `addrSpc` of the address space objects: their directories. -/
  addrSpc : Addr → Addr
  /-- `addressSpace` of the thread objects. -/
  addressSpace : Addr → Addr
  shMem : Addr → SHMEMOBJ
  currtask : Addr

namespace VM

variable (m : VM)

def setPaging (s : Paging) : VM := { m with paging := s }

def setShMem (object : Addr) (smo : SHMEMOBJ) : VM :=
  { m with shMem := update m.shMem object smo }

/-! ## Mappings -/

/-- `CKloadMappingKernelCode`. -/
def ckLoadMapping (object : Addr) (physaddr logicaladdr length flags pageTables : UADDR) :
    Option (VM × DATA) :=
  if m.signature object = .SIGADDRSPC then
    (m.paging.ckSetPageMapping (m.addrSpc object) logicaladdr physaddr length flags
      pageTables).map fun r => (m.setPaging r.1, if r.2 then 0#32 else ENOMEM)
  else some (m, ENOVALIDADDRSPC)

/-- `CKunloadMappingKernelCode`. It passes the length in the place of the data. -/
def ckUnloadMapping (object : Addr) (logicaladdr length : UADDR) : Option (VM × DATA) :=
  if m.signature object = .SIGADDRSPC then
    (m.paging.ckMarkPageNotPresent (m.addrSpc object) logicaladdr 0#32 length).map fun s =>
      (m.setPaging s, 0#32)
  else some (m, ENOVALIDADDRSPC)

/-! ## Shared memory -/

/-- `fetchThread`. -/
def fetchThread (stl : List SHTHREADLIST) (thread : Addr) : Option SHTHREADLIST :=
  stl.find? fun e => e.thread = thread

/-- The list without the element that `fetchThread` finds. -/
def dropThread (stl : List SHTHREADLIST) (thread : Addr) : List SHTHREADLIST :=
  stl.eraseP fun e => e.thread = thread

/-- The size that is attached: no more than what is shared. -/
def attachSize (smo : SHMEMOBJ) (size : UADDR) : UADDR :=
  if size.slt smo.size then size else smo.size

/-- `CKshMemInviteKernelCode`, where the memory for the list element was there. -/
def ckShMemInvite (object thread : Addr) : VM × DATA :=
  let smo := m.shMem object
  if m.signature object ≠ .SIGSHMEM then (m, ENOVALIDSHMEM)
  else if smo.dead then (m, ENOVALIDSHMEM)
  else (m.setShMem object { smo with invited := smo.invited ++ [⟨thread, 0#32, 0#32⟩] }, 0#32)

/-- `CKshMemSetRangeKernelCode`. -/
def ckShMemSetRange (object : Addr) (logicalAddr size : UADDR) : VM × DATA :=
  let smo := m.shMem object
  if m.signature object ≠ .SIGSHMEM then (m, ENOVALIDSHMEM)
  else if m.currtask ≠ smo.owner then (m, ENOSECURITY)
  else if smo.dead then (m, ENOVALIDSHMEM)
  else (m.setShMem object { smo with logicalAddr := logicalAddr, size := size }, 0#32)

/-- `CKshMemAttachKernelCode`. -/
def ckShMemAttach (object : Addr) (logAddr size pageTables : UADDR) : Option (VM × DATA) :=
  let smo := m.shMem object
  let aspace := m.addressSpace m.currtask
  let ownerAspace := m.addressSpace smo.owner
  if m.signature object ≠ .SIGSHMEM then some (m, ENOVALIDSHMEM)
  else if m.currtask = smo.owner then some (m, ENOSECURITY)
  else if smo.dead then some (m, ENOVALIDSHMEM)
  else if aspace = NIL ∨ m.signature aspace ≠ .SIGADDRSPC then some (m, ENOVALIDADDRSPC)
  else if ownerAspace = NIL ∨ m.signature ownerAspace ≠ .SIGADDRSPC then
    some (m, ENOVALIDADDRSPC)
  else
    match fetchThread smo.invited m.currtask with
    | none => some (m, ENOSECURITY)
    | some stl =>
      let sz := attachSize smo size
      (m.paging.ckCopySharedPageMapping (m.addrSpc ownerAspace) smo.logicalAddr
        (m.addrSpc aspace) logAddr sz pageTables).map fun r =>
          if r.2 then
            ((m.setPaging r.1).setShMem object
              { smo with
                invited := dropThread smo.invited m.currtask
                threads := smo.threads ++ [{ stl with logicalAddr := logAddr, size := sz }] },
              0#32)
          else (m.setPaging r.1, ENOSECURITY)

/-- `CKshMemDetachKernelCode`. -/
def ckShMemDetach (object : Addr) : Option (VM × DATA) :=
  let smo := m.shMem object
  let aspace := m.addressSpace m.currtask
  if m.signature object ≠ .SIGSHMEM then some (m, ENOVALIDSHMEM)
  else if smo.dead then some (m, ENOVALIDSHMEM)
  else if aspace = NIL ∨ m.signature aspace ≠ .SIGADDRSPC then some (m, ENOVALIDADDRSPC)
  else
    match fetchThread smo.threads m.currtask with
    | none => some (m, ENOSECURITY)
    | some stl =>
      (m.paging.ckMarkPageNotPresent (m.addrSpc aspace) stl.logicalAddr stl.size 0#32).map
        fun s =>
          ((m.setPaging s).setShMem object
            { smo with
              threads := dropThread smo.threads m.currtask
              invited := smo.invited ++ [stl] }, 0#32)

end VM

/-! ## Runs of calls -/

/-- The calls that reach the page tables, address spaces that are set up and freed, and what
the rest of the kernel may do to the objects in between. -/
inductive VMOp where
  | preProcess (d : Addr)
  | postProcess (d : Addr)
  | loadMapping (object : Addr) (physaddr logicaladdr length flags pageTables : UADDR)
  | unloadMapping (object : Addr) (logicaladdr length : UADDR)
  | shMemInvite (object thread : Addr)
  | shMemSetRange (object : Addr) (logicalAddr size : UADDR)
  | shMemAttach (object : Addr) (logAddr size pageTables : UADDR)
  | shMemDetach (object : Addr)
  | objects (signature : Addr → ObjectSignature) (addrSpc addressSpace : Addr → Addr)
    (shMem : Addr → SHMEMOBJ) (currtask : Addr)

def vmStep (m : VM) : VMOp → Option VM
  | .preProcess d => (m.paging.ckPreProcessAddrSpc d).map fun r => m.setPaging r.1
  | .postProcess d => (m.paging.ckPostProcessAddrSpc d).map m.setPaging
  | .loadMapping object physaddr logicaladdr length flags pageTables =>
    (m.ckLoadMapping object physaddr logicaladdr length flags pageTables).map Prod.fst
  | .unloadMapping object logicaladdr length =>
    (m.ckUnloadMapping object logicaladdr length).map Prod.fst
  | .shMemInvite object thread => some (m.ckShMemInvite object thread).1
  | .shMemSetRange object logicalAddr size => some (m.ckShMemSetRange object logicalAddr size).1
  | .shMemAttach object logAddr size pageTables =>
    (m.ckShMemAttach object logAddr size pageTables).map Prod.fst
  | .shMemDetach object => (m.ckShMemDetach object).map Prod.fst
  | .objects signature addrSpc addressSpace shMem currtask =>
    some { m with signature, addrSpc, addressSpace, shMem, currtask }

end Alliance.CK
