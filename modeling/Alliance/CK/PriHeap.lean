import Alliance.CK.Objects
import Alliance.Lib.BinHeap

/-!
# The priority heaps (`pri_heap.c`)

`Heaps` is the memory the heap operations work on: the three `HeapSelector`s and
the thread objects that the slots point to. A heap's `used` is one more than the
index `heapLast` points at, so `heapLast == heap - 1` reads `used = 0`. Slots past
`heapLast` keep what was last stored in them, as they do in the source.

The child and parent macros work on addresses; on slot indices they are the
usual tree. A loop of the source that writes
`next[0] = e; e->heap = next;` each round is a recursion over `place`.

An operation is `none` where the source leaves the heap array: inserting into an
array that is full, removing through a pointer into another heap, removing from an
empty heap.
-/

namespace Alliance.CK

open Function Lib Lib.BinHeap

/-- `HeapSelector`: the slots of a heap, and how many are in use. -/
structure HeapSelector where
  heap : Nat → Addr
  used : Nat

/-- The heaps and the events they point to. -/
structure Heaps where
  sel : HeapType → HeapSelector
  ev : Addr → EVENT

namespace Heaps

variable (m : Heaps) (ht : HeapType)

/-- The event pointer stored in slot `i`. -/
def slot (i : Nat) : Addr := (m.sel ht).heap i

/-- The number of used slots. -/
def used : Nat := (m.sel ht).used

/-- `e->time`. -/
def time (e : Addr) : TIME := (m.ev e).time

/-- `CKgetNextEvent(x)`: `heaps[x].heap[0]`. -/
def ckGetNextEvent : Addr := m.slot ht 0

/-- `CKisHeapEmpty(x)`: `heaps[x].heapLast == heaps[x].heap - 1`. -/
def ckIsHeapEmpty : Prop := m.used ht = 0

instance : Decidable (m.ckIsHeapEmpty ht) := inferInstanceAs (Decidable (_ = 0))

/-- `CKgetNextQuantum(x)`. -/
def ckGetNextQuantum : TIME := (m.ev (m.ckGetNextEvent ht)).quantum

/-- `CKgetNextTime(x)`. -/
def ckGetNextTime : TIME := m.time (m.ckGetNextEvent ht)

/-! ## Stores -/

/-- Replace the event at an address. -/
def setEv (e : Addr) (x : EVENT) : Heaps := { m with ev := update m.ev e x }

/-- `e->time = t`. -/
def setTime (e : Addr) (t : TIME) : Heaps := m.setEv e { m.ev e with time := t }

/-- `e->ts = s`. -/
def setTs (e : Addr) (s : ThreadState) : Heaps := m.setEv e { m.ev e with ts := s }

/-- Move `heapLast`. -/
def setUsed (n : Nat) : Heaps := { m with sel := update m.sel ht { m.sel ht with used := n } }

/-- `next[0] = e; e->heap = next`, for `next` the address of slot `i`. -/
def place (i : Nat) (e : Addr) : Heaps where
  sel := update m.sel ht { m.sel ht with heap := update (m.sel ht).heap i e }
  ev := update m.ev e { m.ev e with heap := ⟨ht, i⟩ }

end Heaps

/-! ## The operations -/

/-- `CKsetupHeaps`: all heaps are empty. -/
def ckSetupHeaps (m : Heaps) : Heaps := { m with sel := fun ht => { m.sel ht with used := 0 } }

/-- The loop of `CKsiftup` and `CKprioritise`: events above the hole `next` come down
until `e` fits, then `e` is stored. -/
def siftupFrom (m : Heaps) (ht : HeapType) (e : Addr) (next : Nat) : Heaps :=
  if _h : 0 < next ∧ cless (m.time e) (m.time (m.slot ht (parent next))) then
    siftupFrom (m.place ht next (m.slot ht (parent next))) ht e (parent next)
  else
    m.place ht next e
termination_by next
decreasing_by exact parent_lt _h.1

/-- `CKsiftup`: add an event to a heap. -/
def ckSiftup (m : Heaps) (ht : HeapType) (newEvt : Addr) : Option Heaps :=
  if m.used ht < MAXEVENTS then
    some (siftupFrom (m.setUsed ht (m.used ht + 1)) ht newEvt (m.used ht))
  else
    none

/-- `MINCHILD(x)`: the child with the earliest execution time. -/
def minchild (m : Heaps) (ht : HeapType) (x : Nat) : Nat :=
  if lchild x + 1 < m.used ht ∧
      clse (m.time (m.slot ht (rchild x))) (m.time (m.slot ht (lchild x))) then
    rchild x
  else
    lchild x

theorem lt_minchild (m : Heaps) (ht : HeapType) (x : Nat) : x < minchild m ht x := by
  unfold minchild
  split
  · exact lt_rchild x
  · exact lt_lchild x

theorem used_place (m : Heaps) (ht : HeapType) (i : Nat) (e : Addr) (ht' : HeapType) :
    (m.place ht i e).used ht' = m.used ht' := by
  by_cases h : ht' = ht
  · subst h
    simp [Heaps.used, Heaps.place]
  · simp [Heaps.used, Heaps.place, h]

/-- The loop of `CKsiftdown` and `CKremoveEvent`: the earlier child of the hole `next`
comes up until `e` fits, then `e` is stored. -/
def siftdownFrom (m : Heaps) (ht : HeapType) (e : Addr) (next : Nat) : Heaps :=
  if _h : minchild m ht next < m.used ht ∧
      cless (m.time (m.slot ht (minchild m ht next))) (m.time e) then
    siftdownFrom (m.place ht next (m.slot ht (minchild m ht next))) ht e (minchild m ht next)
  else
    m.place ht next e
termination_by m.used ht - next
decreasing_by
  have := lt_minchild m ht next
  rw [used_place]
  omega

/-- `CKsiftdown`: move the root to where its time belongs. -/
def ckSiftdown (m : Heaps) (ht : HeapType) : Heaps :=
  siftdownFrom m ht (m.slot ht 0) 0

/-- `CKremoveEvent`: the last event takes the place of the removed one and sifts down. -/
def ckRemoveEvent (m : Heaps) (ht : HeapType) (evt : Slot) : Option Heaps :=
  if evt.heap = ht ∧ 0 < m.used ht then
    let last := m.slot ht (m.used ht - 1)
    let m := (m.place ht evt.idx last).setUsed ht (m.used ht - 1)
    some (siftdownFrom m ht (m.slot ht evt.idx) evt.idx)
  else
    none

/-- `CKprioritise`: give a timesharing event the time of the root and sift it up. -/
def ckPrioritise (m : Heaps) (event : Addr) : Option Heaps :=
  if (m.ev event).ts = .running then
    let m := m.setTime event (m.ckGetNextTime .timesharing)
    if (m.ev event).heap.heap = .timesharing then
      some (siftupFrom m .timesharing event (m.ev event).heap.idx)
    else
      none
  else
    some m

end Alliance.CK
