import Alliance.Lib.Circular

/-!
# Cache Kernel objects and machine words

The part of `ckobjects.h`, `objects.h`, `arith.h` and `pri_heap.h` that the
scheduler, the priority heaps and the signal code read and write.

Addresses are natural numbers, `NIL` is `0`. A scheduler time is a 32-bit word
compared on the circle. A pointer into one of the three heap arrays
(`EVENT **`) is the heap it points into together with the slot's index.
-/

namespace Alliance.CK

open Lib

abbrev Addr := Nat

def NIL : Addr := 0

/-- `typedef DATA TIME`: a signed 32-bit word. -/
abbrev TIME := BitVec 32

/-- `UDATA`: an unsigned 32-bit word. -/
abbrev UDATA := BitVec 32

/-- `UADDR`: an unsigned 32-bit word. -/
abbrev UADDR := BitVec 32

/-- `CLESS(x,y)`: `((DATA)x - (DATA)y) < 0`. -/
abbrev cless (x y : TIME) : Prop := Circular.Before x y

/-- `CLSE(x,y)`: `((DATA)x - (DATA)y) <= 0`. -/
abbrev clse (x y : TIME) : Prop := Circular.BeforeEq x y

/-- The priority heaps of the scheduler. -/
inductive HeapType where
  | timesharing
  | realtime
  | idle
  deriving DecidableEq, Repr

inductive ThreadState where
  | running
  | realTime
  | idle
  | blocked
  deriving DecidableEq, Repr

inductive TunnelType where
  | conservative
  | swapping
  | unblocking
  deriving DecidableEq, Repr

/-- `MAXEVENTS`: the slots of one heap array. -/
def MAXEVENTS : Nat := 1024

/-- `EVENT **`: a pointer to a slot of a heap array. -/
structure Slot where
  heap : HeapType
  idx : Nat
  deriving DecidableEq, Repr

/-- `SFBUSY`: the highest bit of the signal number. -/
def SFBUSY : UDATA := 1#32 <<< 31

/-- A pending signal, allocated at `addr`; the `next` links are the list a thread's
`signals` heads. -/
structure SIGNAL where
  addr : Addr
  signal : UDATA
  extra : UDATA
  priority : UDATA
  sender : Addr
  deriving DecidableEq, Repr

/-- `signal & SFBUSY`. -/
def SIGNAL.busy (s : SIGNAL) : Bool := s.signal &&& SFBUSY != 0#32

/-- The scheduling part of a thread object; the scheduler calls it an `EVENT`. -/
structure CKThreadObject where
  /-- `head.objectData`: the address of the thread's user object. -/
  objectData : Addr
  quantum : TIME
  defer : TIME
  time : TIME
  /-- Back pointer to the event's slot in its heap. -/
  heap : Slot
  ts : ThreadState
  signals : List SIGNAL
  deriving Repr

abbrev EVENT := CKThreadObject

/-- The fields of a user thread object that the kernel reads and writes while scheduling. -/
structure ThreadObject where
  time : TIME
  realtime : TIME
  interruptable : UDATA
  deriving Repr

end Alliance.CK
