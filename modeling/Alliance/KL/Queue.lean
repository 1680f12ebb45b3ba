import Alliance.CK.Objects
import Alliance.Lib.Ring
import Alliance.Lib.Run

/-!
# Packet queues (`Queue/*.c`)

A table of queues, each a circular array of which one element is left free: `r` is where the
last packet was put, `f` where the last one was taken from. A queue that is allocated by
reference keeps pointers to packets; one with a size is meant to keep copies.

Pointers into an array that `KLmalloc` gave are modelled by the array. An access outside the
array, through `NIL` or beyond the table has no meaning. `KLqueueRemove` takes the packet through
a pointer that it never sets; what is found there is an argument of the model.

The indices are right in every queue that starts empty (`queue_occupancy_run`). `KLqueueAlloc`
leaves the indices of the last queue of its slot, though, and it never sets `maxSize`.
-/

namespace Alliance.KL

open Function Lib
open CK (UADDR)

abbrev UWORD32 := BitVec 32

abbrev Qhandle := UWORD32

/-! ## Arrays -/

/-- An array of words: where it starts, the size of its memory in bytes, and what it holds. -/
structure Words where
  start : UADDR
  bytes : Nat
  word : UWORD32 → UWORD32

namespace Words

/-- What `KLmalloc` returns, if it has memory somewhere. It holds anything. -/
def malloc (size : UWORD32) (memory : Option Words) : Option Words :=
  memory.map fun w => { w with bytes := size.toNat }

/-- The memory has the whole word. -/
def Inside (w : Words) (i : UWORD32) : Prop := 4 * (i.toNat + 1) ≤ w.bytes

instance (w : Words) (i : UWORD32) : Decidable (w.Inside i) := inferInstanceAs (Decidable (_ ≤ _))

def get (w : Words) (i : UWORD32) : Option UWORD32 := if w.Inside i then some (w.word i) else none

def set (w : Words) (i v : UWORD32) : Option Words :=
  if w.Inside i then some { w with word := update w.word i v } else none

theorem word_set {w w' : Words} {i v : UWORD32} (h : w.set i v = some w') :
    w'.word = update w.word i v := by
  unfold set at h
  split at h
  · exact Option.some.inj h ▸ rfl
  · exact absurd h nofun

theorem word_get {w : Words} {i v : UWORD32} (h : w.get i = some v) : v = w.word i := by
  unfold get at h
  split at h
  · exact (Option.some.inj h).symm
  · exact absurd h nofun

end Words

/-! ## Queues -/

/-- `Packet`: an individual item in the queue. -/
structure Packet where
  data : UADDR
  size : UWORD32
  deriving DecidableEq, Repr

inductive QueueState where
  | Q_NOQUEUE | Q_OVERFLOW | Q_UNDERFLOW | Q_WRITEERR | Q_READOK | Q_WRITEOK
  deriving DecidableEq, Repr

/-- `Queue`. A pointer that is `NIL` is `none`. -/
structure Queue where
  maxPackets : UWORD32
  maxSize : UWORD32
  currentSize : UWORD32
  r : UWORD32
  f : UWORD32
  buffer : Option Words
  packetPtr : Option Words
  packetSize : Option Words

namespace Queue

def zeroed : Queue := ⟨0, 0, 0, 0, 0, none, none, none⟩

/-- The index behind `i`. -/
def advance (queue : Queue) (i : UWORD32) : UWORD32 :=
  if i = queue.maxPackets - 1 then 0 else i + 1

/-- `KLqueueInsert` in a queue that exists. -/
def insert (queue : Queue) (packet : Packet) : Option (Queue × QueueState) :=
  let upperLimit := queue.maxPackets - 1
  let r := queue.advance queue.r
  if r = queue.f then
    some ({ queue with r := if r ≠ 0 then r - 1 else upperLimit }, .Q_OVERFLOW)
  else
    let queue := { queue with r }
    if queue.maxSize ≠ 0 then
      let sizeWithThisPacket := queue.currentSize + packet.size
      if queue.maxSize < sizeWithThisPacket then some (queue, .Q_WRITEERR)
      else do
        let packetSize ← (← queue.packetSize).set r packet.size
        some ({ queue with currentSize := sizeWithThisPacket, packetSize }, .Q_WRITEOK)
    else do
      let packetPtr ← (← queue.packetPtr).set r packet.data
      let packetSize ← (← queue.packetSize).set r packet.size
      some ({ queue with packetPtr, packetSize }, .Q_WRITEOK)

/-- `KLqueueRemove` from a queue that exists. `ptrPacket` is a local variable without a value. -/
def remove (queue : Queue) (ptrPacket : UWORD32 → UADDR) :
    Option (Queue × QueueState × Option Packet) :=
  if queue.f = queue.r then some (queue, .Q_UNDERFLOW, none)
  else do
    let f := queue.advance queue.f
    let size ← (← queue.packetSize).get f
    some ({ queue with f }, .Q_READOK, some ⟨ptrPacket f, size⟩)

end Queue

/-! ## The table -/

/-- `_qTable` and `_maxQueues`. -/
structure Queues where
  qTable : Option (List Queue)
  maxQueues : UWORD32

/-- `QVALID_HANDLE`: handles are below. -/
def QVALID_HANDLE : Qhandle := 0xFFFF0000

def QNO_PACKETS : Qhandle := QVALID_HANDLE + 1

/-- `sizeof(Queue)`. -/
def SIZEOF_QUEUE : UWORD32 := 32

namespace Queues

/-- `_qTable[qId]`. -/
def slot (s : Queues) (qId : Qhandle) : Option Queue := do
  let table ← s.qTable
  table[qId.toNat]?

def setSlot (s : Queues) (qId : Qhandle) (queue : Queue) : Queues :=
  { s with qTable := s.qTable.map fun table => table.set qId.toNat queue }

/-- `KLqueueInit`. -/
def klQueueInit (s : Queues) (numOfQueues : UWORD32) (memory : Bool) : Queues × Bool :=
  match s.qTable with
  | none =>
    if numOfQueues = 0 then (s, false)
    else if memory then
      let queueAllocatedSize := numOfQueues * SIZEOF_QUEUE
      ({ qTable := some (List.replicate (queueAllocatedSize / SIZEOF_QUEUE).toNat .zeroed)
         maxQueues := numOfQueues }, true)
    else (s, false)
  | some _ => (s, false)

/-- The first slot without a queue. The search does not know where the table ends. -/
def freeSlot (s : Queues) : Option Qhandle := do
  let table ← s.qTable
  let qId ← table.findIdx? fun queue => queue.maxPackets = 0
  some (.ofNat 32 qId)

/-- What `KLqueueAlloc` makes of a slot. `dataMemory` is the memory for the data or for the
pointers to it, `sizeMemory` that for the sizes. -/
def setup (queue : Queue) (queueSize maxPackets : UWORD32)
    (dataMemory sizeMemory : Option Words) : Queue :=
  { queue with
    maxPackets := maxPackets + 1
    buffer := if queueSize ≠ 0 then Words.malloc queueSize dataMemory else none
    packetPtr := if queueSize ≠ 0 then none else Words.malloc (4 * (maxPackets + 1)) dataMemory
    packetSize := Words.malloc (4 * (maxPackets + 1)) sizeMemory
    currentSize := 0 }

/-- `KLqueueAlloc`. -/
def klQueueAlloc (s : Queues) (queueSize maxPackets : UWORD32)
    (dataMemory sizeMemory : Option Words) : Option (Queues × Qhandle) :=
  if maxPackets = 0 then some (s, QNO_PACKETS)
  else do
    let qId ← s.freeSlot
    let queue ← s.slot qId
    some (s.setSlot qId (setup queue queueSize maxPackets dataMemory sizeMemory), qId)

/-- `KLqueueInsert`. -/
def klQueueInsert (s : Queues) (qId : Qhandle) (packet : Packet) :
    Option (Queues × QueueState) :=
  if qId < s.maxQueues then do
    let queue ← s.slot qId
    if queue.maxPackets = 0 then some (s, .Q_NOQUEUE)
    else
      let (queue, state) ← queue.insert packet
      some (s.setSlot qId queue, state)
  else some (s, .Q_NOQUEUE)

/-- `KLqueueRemove`, with the packet that it puts out. -/
def klQueueRemove (s : Queues) (qId : Qhandle) (ptrPacket : UWORD32 → UADDR) :
    Option (Queues × QueueState × Option Packet) :=
  if qId < s.maxQueues then do
    let queue ← s.slot qId
    if queue.maxPackets = 0 then some (s, .Q_NOQUEUE, none)
    else
      let (queue, state, packet) ← queue.remove ptrPacket
      some (s.setSlot qId queue, state, packet)
  else some (s, .Q_NOQUEUE, none)

/-- `KLqueueFree`. -/
def klQueueFree (s : Queues) (qId : Qhandle) : Option (Queues × Bool) :=
  if qId < s.maxQueues then do
    let queue ← s.slot qId
    if queue.maxPackets ≠ 0 then
      some (s.setSlot qId { queue with currentSize := 0, maxSize := 0, maxPackets := 0 }, true)
    else some (s, false)
  else some (s, false)

/-- Before `KLqueueInit`. -/
def atBoot : Queues := ⟨none, 0⟩

end Queues

/-- The calls of the library, with what the rest of the system has for them. -/
inductive QueueOp where
  | init (numOfQueues : UWORD32) (memory : Bool)
  | alloc (queueSize maxPackets : UWORD32) (dataMemory sizeMemory : Option Words)
  | insert (qId : Qhandle) (packet : Packet)
  | remove (qId : Qhandle) (ptrPacket : UWORD32 → UADDR)
  | free (qId : Qhandle)

def queuesStep (s : Queues) : QueueOp → Option Queues
  | .init numOfQueues memory => some (s.klQueueInit numOfQueues memory).1
  | .alloc queueSize maxPackets dataMemory sizeMemory =>
    (s.klQueueAlloc queueSize maxPackets dataMemory sizeMemory).map Prod.fst
  | .insert qId packet => (s.klQueueInsert qId packet).map Prod.fst
  | .remove qId ptrPacket => (s.klQueueRemove qId ptrPacket).map Prod.fst
  | .free qId => (s.klQueueFree qId).map Prod.fst

/-! ## What a queue holds -/

namespace Queue

variable {n i : UWORD32} {queue queue' : Queue} {l : List Packet} {packet x : Packet}
  {state : QueueState} {ptrPacket : UWORD32 → UADDR}

/-- What the two arrays have at an index. -/
def packetAt (queue : Queue) (i : UWORD32) : Packet where
  data := (queue.packetPtr.map fun w => w.word i).getD 0
  size := (queue.packetSize.map fun w => w.word i).getD 0

/-- A queue by reference for `n` packets, in which those of `l` are outstanding. -/
structure Holds (n : UWORD32) (queue : Queue) (l : List Packet) : Prop where
  capacity : queue.maxPackets = n + 1
  byReference : queue.maxSize = 0
  front : queue.f.toNat ≤ n.toNat
  rear : queue.r.toNat = (queue.f.toNat + l.length) % (n.toNat + 1)
  room : l.length ≤ n.toNat
  ring : Ring (n.toNat + 1) (fun i => queue.packetAt (.ofNat 32 i))
    ((queue.f.toNat + 1) % (n.toNat + 1)) l

theorem upperLimit_eq (hcap : queue.maxPackets = n + 1) : queue.maxPackets - 1 = n := by
  rw [hcap, BitVec.add_sub_cancel]

/-- The wrap is behind element `n`. -/
theorem toNat_advance (hcap : queue.maxPackets = n + 1) (hi : i.toNat ≤ n.toNat) :
    (queue.advance i).toNat = (i.toNat + 1) % (n.toNat + 1) := by
  unfold advance
  rw [upperLimit_eq hcap, succ_mod (by omega)]
  split
  · next he => rw [if_pos (by rw [he])]; rfl
  · next hne =>
    have hlt : i.toNat < n.toNat := Nat.lt_of_le_of_ne hi fun he => hne (BitVec.eq_of_toNat_eq he)
    rw [if_neg (by omega)]
    exact BitVec.toNat_add_of_lt (by have := n.isLt; simp; omega)

/-- An insertion that goes back finds the old index. -/
theorem back_advance (hcap : queue.maxPackets = n + 1) (hi : i.toNat ≤ n.toNat) :
    (if queue.advance i ≠ 0 then queue.advance i - 1 else queue.maxPackets - 1) = i := by
  unfold advance
  rw [upperLimit_eq hcap]
  by_cases he : i = n
  · rw [if_pos he, if_neg (not_not_intro rfl), he]
  · have hlt : i.toNat < n.toNat := Nat.lt_of_le_of_ne hi fun h => he (BitVec.eq_of_toNat_eq h)
    have hne : i + 1 ≠ 0 := by
      have := n.isLt
      bv_omega
    rw [if_neg he, if_pos hne, BitVec.add_sub_cancel]

namespace Holds

theorem rear_le (h : queue.Holds n l) : queue.r.toNat ≤ n.toNat := by
  rw [h.rear]
  exact Nat.le_of_lt_succ (Nat.mod_lt _ (Nat.succ_pos _))

theorem length_eq (h : queue.Holds n l) :
    l.length = (queue.r.toNat + (n.toNat + 1) - queue.f.toNat) % (n.toNat + 1) := by
  rw [h.rear, ahead_eq (Nat.lt_succ_of_le h.front) (Nat.lt_succ_of_le h.room)]

theorem empty_iff (h : queue.Holds n l) : queue.f = queue.r ↔ l = [] := by
  rw [← BitVec.toNat_inj, h.rear, eq_comm,
    add_mod_eq_iff (Nat.lt_succ_of_le h.front) (Nat.le_succ_of_le h.room),
    ← List.length_eq_zero_iff]
  have := h.room
  omega

theorem full_iff (h : queue.Holds n l) :
    queue.advance queue.r = queue.f ↔ l.length = n.toNat := by
  rw [← BitVec.toNat_inj, toNat_advance h.capacity h.rear_le, h.rear, Nat.mod_add_mod,
    Nat.add_assoc, add_mod_eq_iff (Nat.lt_succ_of_le h.front) (Nat.succ_le_succ h.room)]
  omega

/-- What an insertion does to a queue that has room. -/
theorem insert_room (h : queue.Holds n l) (hroom : l.length ≠ n.toNat)
    (hs : queue.insert packet = some (queue', state)) : state = .Q_WRITEOK ∧
      ∃ packetPtr packetSize,
        queue' = { queue with r := queue.advance queue.r, packetPtr, packetSize } ∧
        ∀ i, queue'.packetAt i = update queue.packetAt (queue.advance queue.r) packet i := by
  unfold Queue.insert at hs
  rw [if_neg fun he => hroom (h.full_iff.mp he), if_neg (not_not_intro h.byReference)] at hs
  obtain ⟨ptrs, hptrs, hs⟩ := Option.bind_eq_some_iff.mp hs
  obtain ⟨ptrs', hptrs', hs⟩ := Option.bind_eq_some_iff.mp hs
  obtain ⟨sizes, hsizes, hs⟩ := Option.bind_eq_some_iff.mp hs
  obtain ⟨sizes', hsizes', hs⟩ := Option.bind_eq_some_iff.mp hs
  obtain ⟨rfl, rfl⟩ := Prod.mk.inj (Option.some.inj hs)
  dsimp only at hptrs hsizes
  refine ⟨rfl, some ptrs', some sizes', rfl, fun i => ?_⟩
  simp only [packetAt, Option.map_some, Option.getD_some, Words.word_set hptrs',
    Words.word_set hsizes']
  by_cases he : i = queue.advance queue.r
  · rw [he, update_self, update_self, update_self]
  · rw [update_of_ne he, update_of_ne he, update_of_ne he]
    simp only [packetAt, hptrs, hsizes, Option.map_some, Option.getD_some]

/-- **An insertion** finds the queue full, or puts its packet behind the others. -/
theorem insert (h : queue.Holds n l) (packet : Packet) :
    if l.length = n.toNat then queue.insert packet = some (queue, .Q_OVERFLOW)
    else ∀ queue' state, queue.insert packet = some (queue', state) →
      state = .Q_WRITEOK ∧ queue'.Holds n (l ++ [packet]) := by
  split
  · next hfull =>
    unfold Queue.insert
    rw [if_pos (h.full_iff.mpr hfull), back_advance h.capacity h.rear_le]
  · next hroom =>
    intro queue' state hs
    obtain ⟨hstate, packetPtr, packetSize, rfl, hat⟩ := h.insert_room hroom hs
    have hlen : l.length < n.toNat + 1 := Nat.lt_succ_of_le h.room
    have hr : (queue.advance queue.r).toNat = (queue.f.toNat + (l.length + 1)) % (n.toNat + 1) := by
      rw [toNat_advance h.capacity h.rear_le, h.rear, Nat.mod_add_mod, Nat.add_assoc]
    refine ⟨hstate, h.capacity, h.byReference, h.front, ?_, ?_, ?_⟩
    · rw [List.length_append, List.length_singleton]
      exact hr
    · have := h.room
      rw [List.length_append, List.length_singleton]
      omega
    · refine (h.ring.push hlen packet).congr fun i hi => ?_
      rw [hat, mod_add_mod_succ, ← hr]
      by_cases he : i = (queue.advance queue.r).toNat
      · rw [he, BitVec.ofNat_toNat, BitVec.setWidth_eq, update_self, update_self]
      · have hne : BitVec.ofNat 32 i ≠ queue.advance queue.r := fun h => he (by
          have := n.isLt
          rw [← h, BitVec.toNat_ofNat, Nat.mod_eq_of_lt (by omega)])
        rw [update_of_ne he, update_of_ne hne]

/-- **A removal** finds the queue empty, or takes the size of the first packet. -/
theorem remove (h : queue.Holds n l) (ptrPacket : UWORD32 → UADDR) :
    match l with
    | [] => queue.remove ptrPacket = some (queue, .Q_UNDERFLOW, none)
    | x :: l => x = queue.packetAt (queue.advance queue.f) ∧
        ∀ queue' state packet, queue.remove ptrPacket = some (queue', state, packet) →
          state = .Q_READOK ∧ packet = some ⟨ptrPacket (queue.advance queue.f), x.size⟩ ∧
          queue'.Holds n l := by
  cases l with
  | nil => exact if_pos (h.empty_iff.mpr rfl)
  | cons x l =>
      have hf := toNat_advance h.capacity h.front
      have hx : x = queue.packetAt (queue.advance queue.f) := by
        rw [← h.ring.first, ← hf, BitVec.ofNat_toNat, BitVec.setWidth_eq]
      refine ⟨hx, fun queue' state packet hs => ?_⟩
      unfold Queue.remove at hs
      rw [if_neg fun he => List.cons_ne_nil x l (h.empty_iff.mp he)] at hs
      obtain ⟨sizes, hsizes, hs⟩ := Option.bind_eq_some_iff.mp hs
      obtain ⟨size, hget, hs⟩ := Option.bind_eq_some_iff.mp hs
      obtain ⟨hqueue, hs⟩ := Prod.mk.inj (Option.some.inj hs)
      obtain ⟨rfl, rfl⟩ := Prod.mk.inj hs
      subst hqueue
      have hroom := h.room
      rw [List.length_cons] at hroom
      refine ⟨rfl, ?_, h.capacity, h.byReference, ?_, ?_, by omega, ?_⟩
      · rw [hx, Words.word_get hget]
        simp only [packetAt, hsizes, Option.map_some, Option.getD_some]
      · show (queue.advance queue.f).toNat ≤ n.toNat
        rw [hf]
        exact Nat.le_of_lt_succ (Nat.mod_lt _ (Nat.succ_pos _))
      · show queue.r.toNat = ((queue.advance queue.f).toNat + l.length) % (n.toNat + 1)
        rw [hf, mod_add_mod_succ]
        exact h.rear
      · show Ring (n.toNat + 1) _ (((queue.advance queue.f).toNat + 1) % (n.toNat + 1)) l
        rw [hf]
        exact h.ring.pop

end Holds

end Queue

end Alliance.KL
