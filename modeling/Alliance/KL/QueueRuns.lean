import Alliance.KL.Queue
import Alliance.Elf
import Mathlib.Algebra.Ring.Nat

/-!
# What the queues of a run do

In a slot whose indices are equal and in range, a new queue delivers sizes in order and tells a
full queue from an empty one (`queue_occupancy_run`). It delivers the packets themselves where
the pointer that `KLqueueRemove` does not set happens to be right (`queue_fifo_run`).

Nothing resets the indices of a slot, so that an allocation is right exactly where the queue
before it left them so (`queue_reuse_run`); and as nothing ever sets `maxSize`, there is no queue
by copy (`queue_by_copy_iff`).
-/

namespace Alliance.KL

open Function Lib
open CK (UADDR)

/-! ## Slots -/

namespace Queues

variable {s s' s₀ : Queues} {qId q : Qhandle} {queue queue' : Queue} {n : UWORD32}
  {l : List Packet} {packet : Packet} {state : QueueState} {op : QueueOp} {ops₀ : List QueueOp}
  {queueSize maxPackets : UWORD32} {dataMemory sizeMemory : Option Words}

theorem slot_setSlot_self (h : s.slot qId = some queue) :
    (s.setSlot qId queue').slot qId = some queue' := by
  obtain ⟨table, htable, hq⟩ := Option.bind_eq_some_iff.mp h
  obtain ⟨hlt, -⟩ := List.getElem?_eq_some_iff.mp hq
  simp only [slot, setSlot, htable, Option.map_some, Option.bind_eq_bind, Option.bind_some]
  exact List.getElem?_set_self hlt

theorem slot_setSlot_of_ne (hne : q ≠ qId) : (s.setSlot qId queue').slot q = s.slot q := by
  cases htable : s.qTable with
  | none => simp only [slot, setSlot, htable, Option.map_none]
  | some table =>
      simp only [slot, setSlot, htable, Option.map_some, Option.bind_eq_bind, Option.bind_some]
      exact List.getElem?_set_ne fun he => hne (BitVec.eq_of_toNat_eq he.symm)

theorem setSlot_self (h : s.slot qId = some queue) : s.setSlot qId queue = s := by
  obtain ⟨table, htable, hq⟩ := Option.bind_eq_some_iff.mp h
  obtain ⟨hlt, hq⟩ := List.getElem?_eq_some_iff.mp hq
  obtain ⟨_, _⟩ := s
  subst htable
  rw [setSlot, Option.map_some, ← hq, List.set_getElem_self]

/-- **What an allocation does**: the first free slot is set up. -/
theorem klQueueAlloc_eq (hn : maxPackets ≠ 0)
    (hs : s.klQueueAlloc queueSize maxPackets dataMemory sizeMemory = some (s', qId)) :
    ∃ queue, s.freeSlot = some qId ∧ s.slot qId = some queue ∧
      s' = s.setSlot qId (setup queue queueSize maxPackets dataMemory sizeMemory) := by
  unfold klQueueAlloc at hs
  rw [if_neg hn] at hs
  obtain ⟨q, hfree, hs⟩ := Option.bind_eq_some_iff.mp hs
  obtain ⟨queue, hslot, hs⟩ := Option.bind_eq_some_iff.mp hs
  obtain ⟨rfl, rfl⟩ := Prod.mk.inj (Option.some.inj hs)
  exact ⟨queue, hfree, hslot, rfl⟩

/-- A slot is one of those that may be used, and has no `maxSize`. -/
def Sound (s : Queues) : Prop :=
  ∀ qId queue, s.slot qId = some queue → qId < s.maxQueues ∧ queue.maxSize = 0

theorem Sound.setSlot (h : s.Sound) (hq : s.slot qId = some queue) (hsize : queue'.maxSize = 0) :
    (s.setSlot qId queue').Sound := by
  intro q x hx
  by_cases he : q = qId
  · subst he
    rw [slot_setSlot_self hq] at hx
    exact ⟨(h q queue hq).1, Option.some.inj hx ▸ hsize⟩
  · rw [slot_setSlot_of_ne he] at hx
    exact h q x hx

theorem insert_maxSize (hs : queue.insert packet = some (queue', state)) :
    queue'.maxSize = queue.maxSize := by
  unfold Queue.insert at hs
  dsimp only at hs
  split at hs
  · obtain ⟨rfl, -⟩ := Prod.mk.inj (Option.some.inj hs)
    rfl
  · split at hs
    · split at hs
      · obtain ⟨rfl, -⟩ := Prod.mk.inj (Option.some.inj hs)
        rfl
      · obtain ⟨_, -, hs⟩ := Option.bind_eq_some_iff.mp hs
        obtain ⟨_, -, hs⟩ := Option.bind_eq_some_iff.mp hs
        obtain ⟨rfl, -⟩ := Prod.mk.inj (Option.some.inj hs)
        rfl
    · obtain ⟨_, -, hs⟩ := Option.bind_eq_some_iff.mp hs
      obtain ⟨_, -, hs⟩ := Option.bind_eq_some_iff.mp hs
      obtain ⟨_, -, hs⟩ := Option.bind_eq_some_iff.mp hs
      obtain ⟨_, -, hs⟩ := Option.bind_eq_some_iff.mp hs
      obtain ⟨rfl, -⟩ := Prod.mk.inj (Option.some.inj hs)
      rfl

theorem remove_maxSize {ptrPacket : UWORD32 → UADDR} {out : QueueState × Option Packet}
    (hs : queue.remove ptrPacket = some (queue', out)) : queue'.maxSize = queue.maxSize := by
  unfold Queue.remove at hs
  dsimp only at hs
  split at hs
  · obtain ⟨rfl, -⟩ := Prod.mk.inj (Option.some.inj hs)
    rfl
  · obtain ⟨_, -, hs⟩ := Option.bind_eq_some_iff.mp hs
    obtain ⟨_, -, hs⟩ := Option.bind_eq_some_iff.mp hs
    obtain ⟨rfl, -⟩ := Prod.mk.inj (Option.some.inj hs)
    rfl

/-- `KLqueueInit` makes no more slots than handles. -/
theorem Sound.klQueueInit (h : s.Sound) (numOfQueues : UWORD32) (memory : Bool) :
    (s.klQueueInit numOfQueues memory).1.Sound := by
  unfold Queues.klQueueInit
  split
  · split
    · exact h
    · split
      · intro qId queue hq
        obtain ⟨hlt, hzero⟩ := List.getElem?_eq_some_iff.mp (show _[_]? = _ from hq)
        rw [List.length_replicate] at hlt
        refine ⟨?_, ?_⟩
        · rw [BitVec.toNat_udiv, BitVec.toNat_mul, show SIZEOF_QUEUE.toNat = 32 from rfl] at hlt
          exact BitVec.lt_def.mpr (show qId.toNat < numOfQueues.toNat by omega)
        · rw [← hzero, List.getElem_replicate]
          rfl
      · exact h
  · exact h

theorem sound_step (h : s.Sound) (hs : queuesStep s op = some s') : s'.Sound := by
  cases op with
  | init numOfQueues memory =>
      obtain rfl := Option.some.inj hs
      exact h.klQueueInit numOfQueues memory
  | alloc queueSize maxPackets dataMemory sizeMemory =>
      obtain ⟨⟨s₁, qId⟩, hcall, rfl⟩ := Option.map_eq_some_iff.mp hs
      by_cases hn : maxPackets = 0
      · unfold klQueueAlloc at hcall
        rw [if_pos hn] at hcall
        obtain ⟨rfl, -⟩ := Prod.mk.inj (Option.some.inj hcall)
        exact h
      · obtain ⟨queue, -, hq, rfl⟩ := klQueueAlloc_eq hn hcall
        exact h.setSlot hq (h qId queue hq).2
  | insert qId packet =>
      obtain ⟨⟨s₁, state⟩, hcall, rfl⟩ := Option.map_eq_some_iff.mp hs
      unfold klQueueInsert at hcall
      split at hcall
      · obtain ⟨queue, hq, hcall⟩ := Option.bind_eq_some_iff.mp hcall
        split at hcall
        · obtain ⟨rfl, -⟩ := Prod.mk.inj (Option.some.inj hcall)
          exact h
        · obtain ⟨⟨queue', state'⟩, hins, hcall⟩ := Option.bind_eq_some_iff.mp hcall
          obtain ⟨rfl, -⟩ := Prod.mk.inj (Option.some.inj hcall)
          exact h.setSlot hq ((insert_maxSize hins).trans (h qId queue hq).2)
      · obtain ⟨rfl, -⟩ := Prod.mk.inj (Option.some.inj hcall)
        exact h
  | remove qId ptrPacket =>
      obtain ⟨⟨s₁, out⟩, hcall, rfl⟩ := Option.map_eq_some_iff.mp hs
      unfold klQueueRemove at hcall
      split at hcall
      · obtain ⟨queue, hq, hcall⟩ := Option.bind_eq_some_iff.mp hcall
        split at hcall
        · obtain ⟨rfl, -⟩ := Prod.mk.inj (Option.some.inj hcall)
          exact h
        · obtain ⟨⟨queue', state', packet⟩, hrem, hcall⟩ := Option.bind_eq_some_iff.mp hcall
          obtain ⟨rfl, -⟩ := Prod.mk.inj (Option.some.inj hcall)
          exact h.setSlot hq ((remove_maxSize hrem).trans (h qId queue hq).2)
      · obtain ⟨rfl, -⟩ := Prod.mk.inj (Option.some.inj hcall)
        exact h
  | free qId =>
      obtain ⟨⟨s₁, result⟩, hcall, rfl⟩ := Option.map_eq_some_iff.mp hs
      unfold klQueueFree at hcall
      split at hcall
      · obtain ⟨queue, hq, hcall⟩ := Option.bind_eq_some_iff.mp hcall
        split at hcall
        · obtain ⟨rfl, -⟩ := Prod.mk.inj (Option.some.inj hcall)
          exact h.setSlot hq rfl
        · obtain ⟨rfl, -⟩ := Prod.mk.inj (Option.some.inj hcall)
          exact h
      · obtain ⟨rfl, -⟩ := Prod.mk.inj (Option.some.inj hcall)
        exact h

/-- Whatever is done to the queues. -/
theorem sound_run (hr : Run queuesStep (fun _ _ => True) atBoot ops₀ s) : s.Sound :=
  hr.invariant (fun h _ hs => sound_step h hs) nofun

theorem klQueueInsert_of_slot (hvalid : qId < s.maxQueues) (hq : s.slot qId = some queue)
    (h0 : queue.maxPackets ≠ 0) (packet : Packet) : s.klQueueInsert qId packet =
      (queue.insert packet).map fun out => (s.setSlot qId out.1, out.2) := by
  unfold klQueueInsert
  rw [if_pos hvalid, hq, Option.bind_eq_bind, Option.bind_some, if_neg h0]
  exact (Option.map_eq_bind ..).symm

theorem klQueueRemove_of_slot (hvalid : qId < s.maxQueues) (hq : s.slot qId = some queue)
    (h0 : queue.maxPackets ≠ 0) (ptrPacket : UWORD32 → UADDR) : s.klQueueRemove qId ptrPacket =
      (queue.remove ptrPacket).map fun out => (s.setSlot qId out.1, out.2) := by
  unfold klQueueRemove
  rw [if_pos hvalid, hq, Option.bind_eq_bind, Option.bind_some, if_neg h0]
  exact (Option.map_eq_bind ..).symm

/-- No queue is in the slot. -/
def Absent (s : Queues) (qId : Qhandle) : Prop :=
  ∃ queue, s.slot qId = some queue ∧ queue.maxPackets = 0

theorem Absent.klQueueInsert (h : s.Absent qId) (packet : Packet) :
    s.klQueueInsert qId packet = some (s, .Q_NOQUEUE) := by
  obtain ⟨queue, hq, h0⟩ := h
  unfold Queues.klQueueInsert
  split
  · rw [hq, Option.bind_eq_bind, Option.bind_some, if_pos h0]
  · rfl

theorem Absent.klQueueRemove (h : s.Absent qId) (ptrPacket : UWORD32 → UADDR) :
    s.klQueueRemove qId ptrPacket = some (s, .Q_NOQUEUE, none) := by
  obtain ⟨queue, hq, h0⟩ := h
  unfold Queues.klQueueRemove
  split
  · rw [hq, Option.bind_eq_bind, Option.bind_some, if_pos h0]
  · rfl

/-- As many packets as a word can count are one too many. -/
theorem absent_of_alloc (hn : maxPackets ≠ 0) (hmax : maxPackets + 1 = 0)
    (hs : s.klQueueAlloc queueSize maxPackets dataMemory sizeMemory = some (s₀, qId)) :
    s₀.Absent qId := by
  obtain ⟨queue, -, hq, rfl⟩ := klQueueAlloc_eq hn hs
  exact ⟨_, slot_setSlot_self hq, hmax⟩

/-! ## Queues by reference -/

/-- The handle is that of a queue by reference for `n` packets, in which those of `l` are
outstanding. -/
structure Holds (s : Queues) (qId : Qhandle) (n : UWORD32) (l : List Packet) : Prop where
  valid : qId < s.maxQueues
  exists' : n + 1 ≠ 0
  slot : ∃ queue, s.slot qId = some queue ∧ queue.Holds n l

/-- An allocation in a slot whose indices are equal and in range. -/
theorem Sound.holds (h : s.Sound) (hn : maxPackets ≠ 0) (hmax : maxPackets + 1 ≠ 0)
    (hs : s.klQueueAlloc 0 maxPackets dataMemory sizeMemory = some (s₀, qId))
    (hq : s.slot qId = some queue) (hempty : queue.f = queue.r) (hin : queue.f ≤ maxPackets) :
    s₀.Holds qId maxPackets [] := by
  obtain ⟨queue₀, -, hq₀, rfl⟩ := klQueueAlloc_eq hn hs
  obtain rfl := Option.some.inj (hq.symm.trans hq₀)
  have hf : queue.f.toNat ≤ maxPackets.toNat := hin
  refine ⟨(h qId queue hq).1, hmax, _, slot_setSlot_self hq, rfl, (h qId queue hq).2, hf, ?_,
    Nat.zero_le _, .empty (Nat.mod_lt _ (Nat.succ_pos _))⟩
  show queue.r.toNat = (queue.f.toNat + 0) % _
  rw [← hempty, Nat.add_zero, Nat.mod_eq_of_lt (Nat.lt_succ_of_le hf)]

namespace Holds

theorem klQueueInsert (h : s.Holds qId n l) (packet : Packet) :
    if l.length = n.toNat then s.klQueueInsert qId packet = some (s, .Q_OVERFLOW)
    else ∀ s' state, s.klQueueInsert qId packet = some (s', state) →
      state = .Q_WRITEOK ∧ s'.Holds qId n (l ++ [packet]) := by
  obtain ⟨hvalid, hmax, queue, hq, hqueue⟩ := h
  have hins := hqueue.insert packet
  rw [klQueueInsert_of_slot hvalid hq (hqueue.capacity ▸ hmax)]
  split at hins
  · next hfull => rw [if_pos hfull, hins, Option.map_some, setSlot_self hq]
  · next hroom =>
    rw [if_neg hroom]
    intro s' state hs
    obtain ⟨⟨queue', state'⟩, hout, hs⟩ := Option.map_eq_some_iff.mp hs
    obtain ⟨rfl, rfl⟩ := Prod.mk.inj hs
    obtain ⟨hstate, hqueue'⟩ := hins queue' state' hout
    exact ⟨hstate, hvalid, hmax, queue', slot_setSlot_self hq, hqueue'⟩

theorem klQueueRemove (h : s.Holds qId n l) (ptrPacket : UWORD32 → UADDR) :
    match l with
    | [] => s.klQueueRemove qId ptrPacket = some (s, .Q_UNDERFLOW, none)
    | x :: l => ∀ s' state packet, s.klQueueRemove qId ptrPacket = some (s', state, packet) →
        state = .Q_READOK ∧ s'.Holds qId n l ∧ ∃ queue, s.slot qId = some queue ∧
          queue.f ≠ queue.r ∧ x = queue.packetAt (queue.advance queue.f) ∧
          packet = some ⟨ptrPacket (queue.advance queue.f), x.size⟩ := by
  obtain ⟨hvalid, hmax, queue, hq, hqueue⟩ := h
  have hrem := hqueue.remove ptrPacket
  rw [klQueueRemove_of_slot hvalid hq (hqueue.capacity ▸ hmax)]
  cases l with
  | nil => rw [show queue.remove ptrPacket = _ from hrem, Option.map_some, setSlot_self hq]
  | cons x l =>
      obtain ⟨hx, hrem⟩ := hrem
      intro s' state packet hs
      obtain ⟨⟨queue', state', packet'⟩, hout, hs⟩ := Option.map_eq_some_iff.mp hs
      obtain ⟨rfl, hpair⟩ := Prod.mk.inj hs
      obtain ⟨rfl, rfl⟩ := Prod.mk.inj hpair
      obtain ⟨hstate, hpacket, hqueue'⟩ := hrem queue' _ _ hout
      exact ⟨hstate, ⟨hvalid, hmax, queue', slot_setSlot_self hq, hqueue'⟩, queue, hq,
        fun he => List.cons_ne_nil x l (hqueue.empty_iff.mp he), hx, hpacket⟩

end Holds

end Queues

/-! ## Traffic -/

/-- The packets that insertions took and removals gave. -/
structure Traffic where
  accepted : List Packet
  delivered : List Packet

def Traffic.none : Traffic := ⟨[], []⟩

/-- How many packets are outstanding. -/
def Traffic.outstanding (t : Traffic) : Nat := t.accepted.length - t.delivered.length

inductive TrafficOp where
  | insert (packet : Packet)
  | remove (ptrPacket : UWORD32 → UADDR)

/-- One call with the handle, and what it comes to. -/
def trafficStep (qId : Qhandle) : Queues × Traffic → TrafficOp → Option (Queues × Traffic)
  | (s, t), .insert packet => do
    let (s, state) ← s.klQueueInsert qId packet
    some (s, if state = .Q_WRITEOK then { t with accepted := t.accepted ++ [packet] } else t)
  | (s, t), .remove ptrPacket => do
    let (s, state, packet) ← s.klQueueRemove qId ptrPacket
    some (s, if state = .Q_READOK then { t with delivered := t.delivered ++ packet.toList } else t)

variable {s s' s₀ : Queues} {t t' : Traffic} {qId : Qhandle} {queue : Queue} {n : UWORD32}
  {l : List Packet} {op : TrafficOp} {ops : List TrafficOp} {ops₀ : List QueueOp}
  {queueSize maxPackets : UWORD32} {dataMemory sizeMemory : Option Words}

/-- **One call** adds its packet to the outstanding ones, or takes the first of them. -/
theorem trafficStep_cases (h : s.Holds qId n l) (hs : trafficStep qId (s, t) op = some (s', t')) :
    (s' = s ∧ t' = t) ∨
    (∃ packet, s'.Holds qId n (l ++ [packet]) ∧
      t' = { t with accepted := t.accepted ++ [packet] }) ∨
    ∃ x l' ptrPacket queue, op = .remove ptrPacket ∧ l = x :: l' ∧ s'.Holds qId n l' ∧
      s.slot qId = some queue ∧ queue.f ≠ queue.r ∧
      x = queue.packetAt (queue.advance queue.f) ∧
      t' = { t with delivered :=
        t.delivered ++ [⟨ptrPacket (queue.advance queue.f), x.size⟩] } := by
  cases op with
  | insert packet =>
      obtain ⟨⟨s₁, state⟩, hcall, hs⟩ := Option.bind_eq_some_iff.mp hs
      obtain ⟨rfl, rfl⟩ := Prod.mk.inj (Option.some.inj hs)
      have hins := h.klQueueInsert packet
      split at hins
      · obtain ⟨rfl, rfl⟩ := Prod.mk.inj (Option.some.inj (hcall.symm.trans hins))
        exact .inl ⟨rfl, rfl⟩
      · obtain ⟨rfl, h'⟩ := hins _ _ hcall
        exact .inr (.inl ⟨packet, h', rfl⟩)
  | remove ptrPacket =>
      obtain ⟨⟨s₁, state, packet⟩, hcall, hs⟩ := Option.bind_eq_some_iff.mp hs
      obtain ⟨rfl, rfl⟩ := Prod.mk.inj (Option.some.inj hs)
      have hrem := h.klQueueRemove ptrPacket
      cases l with
      | nil =>
          obtain ⟨rfl, hout⟩ := Prod.mk.inj (Option.some.inj (hcall.symm.trans hrem))
          obtain ⟨rfl, rfl⟩ := Prod.mk.inj hout
          exact .inl ⟨rfl, rfl⟩
      | cons x l =>
          obtain ⟨rfl, h', queue, hq, hne, hx, rfl⟩ := hrem _ _ _ hcall
          exact .inr (.inr ⟨x, l, ptrPacket, queue, rfl, rfl, h', hq, hne, hx, rfl⟩)

/-- Calls with the handle of no queue. -/
theorem trafficStep_absent (h : s.Absent qId) (hs : trafficStep qId (s, t) op = some (s', t')) :
    s' = s ∧ t' = t := by
  cases op with
  | insert packet =>
      obtain ⟨⟨s₁, state⟩, hcall, hs⟩ := Option.bind_eq_some_iff.mp hs
      obtain ⟨rfl, rfl⟩ := Prod.mk.inj (Option.some.inj hs)
      obtain ⟨rfl, rfl⟩ := Prod.mk.inj (Option.some.inj (hcall.symm.trans (h.klQueueInsert packet)))
      exact ⟨rfl, rfl⟩
  | remove ptrPacket =>
      obtain ⟨⟨s₁, state, packet⟩, hcall, hs⟩ := Option.bind_eq_some_iff.mp hs
      obtain ⟨rfl, rfl⟩ := Prod.mk.inj (Option.some.inj hs)
      obtain ⟨rfl, hout⟩ :=
        Prod.mk.inj (Option.some.inj (hcall.symm.trans (h.klQueueRemove ptrPacket)))
      obtain ⟨rfl, rfl⟩ := Prod.mk.inj hout
      exact ⟨rfl, rfl⟩

/-- Two slots, and memory for any array. -/
def queuesTwo : Queues := (Queues.klQueueInit .atBoot 2 true).1

def somewhere : Option Words := some ⟨4096, 0, fun _ => 0⟩

/-- The first slot, with a queue. -/
def queuesWith (queueSize maxPackets : UWORD32) : Queues :=
  queuesTwo.setSlot 0 (Queues.setup .zeroed queueSize maxPackets somewhere somewhere)

theorem queuesTwo_run : Run queuesStep (fun _ _ => True) .atBoot [.init 2 true] queuesTwo :=
  .cons trivial rfl (.nil _)

/-- **Full and empty are told apart.** In a queue that is allocated by reference in a zeroed slot,
the distance of the indices is the number of outstanding packets, whatever is inserted and
removed; exactly at `n` packets an insertion fails, and exactly at none a removal. -/
theorem queue_occupancy_run (hr₀ : Run queuesStep (fun _ _ => True) .atBoot ops₀ s)
    (hn : n ≠ 0) (hmax : n ≠ -1) (hs : s.klQueueAlloc 0 n dataMemory sizeMemory = some (s₀, qId))
    (hzero : s.slot qId = some .zeroed)
    (hr : Run (trafficStep qId) (fun _ _ => True) (s₀, .none) ops (s', t)) :
    ∃ queue, s'.slot qId = some queue ∧ queue.r ≤ n ∧ queue.f ≤ n ∧
      t.delivered.length ≤ t.accepted.length ∧
      (t.outstanding : Int) = ((queue.r.toNat : Int) - queue.f.toNat) % (n.toNat + 1) ∧
      (∀ packet, (∃ s'', s'.klQueueInsert qId packet = some (s'', .Q_OVERFLOW)) ↔
        t.outstanding = n.toNat) ∧
      (∀ packet s'', s'.klQueueInsert qId packet = some (s'', .Q_OVERFLOW) → s'' = s') ∧
      ∀ ptrPacket, (∃ s'' packet, s'.klQueueRemove qId ptrPacket =
        some (s'', .Q_UNDERFLOW, packet)) ↔ t.outstanding = 0 := by
  have hmax' : n + 1 ≠ 0 := fun h => hmax (by bv_omega)
  obtain ⟨l, h, hcount⟩ : ∃ l, s'.Holds qId n l ∧
      t.accepted.length = t.delivered.length + l.length := by
    refine hr.invariant (I := fun p => ∃ l, p.1.Holds qId n l ∧
      p.2.accepted.length = p.2.delivered.length + l.length) ?_
      ⟨[], (Queues.sound_run hr₀).holds hn hmax' hs hzero rfl (Nat.zero_le _), rfl⟩
    rintro ⟨s, t⟩ ⟨s', t'⟩ op ⟨l, h, hcount⟩ - hs
    obtain ⟨rfl, rfl⟩ | ⟨packet, h', rfl⟩ | ⟨x, l', _, _, -, rfl, h', -, -, -, rfl⟩ :=
      trafficStep_cases h hs
    · exact ⟨l, h, hcount⟩
    · refine ⟨_, h', ?_⟩
      dsimp only at hcount ⊢
      rw [List.length_append, List.length_append, hcount, Nat.add_assoc]
    · refine ⟨_, h', ?_⟩
      dsimp only at hcount ⊢
      rw [List.length_append, List.length_singleton, hcount, List.length_cons]
      omega
  obtain ⟨queue, hq, hqueue⟩ := h.slot
  have hout : t.outstanding = l.length := by
    unfold Traffic.outstanding
    omega
  refine ⟨queue, hq, hqueue.rear_le, hqueue.front, by omega, ?_, fun packet => ?_,
    fun packet s'' hs => ?_, fun ptrPacket => ?_⟩
  · have := hqueue.front
    rw [hout, hqueue.length_eq, Int.natCast_emod, Int.ofNat_sub (by omega), Int.natCast_add,
      show ((queue.r.toNat : Int) + (n.toNat + 1 : Nat) - queue.f.toNat) =
        queue.r.toNat - queue.f.toNat + (n.toNat + 1 : Nat) by omega, Int.add_emod_right]
    rfl
  · have hins := h.klQueueInsert packet
    rw [hout]
    split at hins
    · next hfull => exact ⟨fun _ => hfull, fun _ => ⟨_, hins⟩⟩
    · next hroom =>
      exact ⟨fun ⟨s'', hs⟩ => absurd (hins s'' _ hs).1 nofun, fun h => absurd h hroom⟩
  · have hins := h.klQueueInsert packet
    split at hins
    · exact (Prod.mk.inj (Option.some.inj (hs.symm.trans hins))).1
    · exact absurd (hins s'' _ hs).1 nofun
  · have hrem := h.klQueueRemove ptrPacket
    rw [hout]
    cases l with
    | nil => exact ⟨fun _ => rfl, fun _ => ⟨_, _, hrem⟩⟩
    | cons x l =>
        exact ⟨fun ⟨s'', packet, hs⟩ => absurd (hrem s'' _ packet hs).1 nofun, nofun⟩

theorem queue_occupancy_run_two : ∃ s' t, Run (trafficStep 0) (fun _ _ => True)
    (queuesWith 0 2, .none) [.insert ⟨100, 7⟩, .insert ⟨200, 8⟩] (s', t) ∧ t.outstanding = 2 ∧
    ∃ s'', s'.klQueueInsert 0 ⟨300, 9⟩ = some (s'', .Q_OVERFLOW) := by
  obtain ⟨⟨s', t⟩, hr, ht⟩ := Run.of_exec_any
    (show (exec (trafficStep 0) (fun _ _ => True) (queuesWith 0 2, .none)
      [.insert ⟨100, 7⟩, .insert ⟨200, 8⟩]).any (fun p => decide (p.2.outstanding = 2)) = true by
      decide)
  have ht : t.outstanding = 2 := of_decide_eq_true ht
  obtain ⟨-, -, -, -, -, -, hfull, -⟩ := queue_occupancy_run queuesTwo_run (by decide) (by decide)
    (show queuesTwo.klQueueAlloc 0 2 somewhere somewhere = some (queuesWith 0 2, 0) from rfl) rfl hr
  exact ⟨s', t, hr, ht, (hfull ⟨300, 9⟩).mpr ht⟩

/-! ## The order of packets -/

/-- The removal of a packet finds it through the pointer. -/
def Queue.Points (queue : Queue) (ptrPacket : UWORD32 → UADDR) : Prop :=
  queue.f = queue.r ∨
    ptrPacket (queue.advance queue.f) = (queue.packetAt (queue.advance queue.f)).data

instance (ptrPacket : UWORD32 → UADDR) : Decidable (queue.Points ptrPacket) :=
  inferInstanceAs (Decidable (_ ∨ _))

def TrafficOp.Regular (qId : Qhandle) (s : Queues) : TrafficOp → Prop
  | .insert _ => True
  | .remove ptrPacket => ∀ queue ∈ s.slot qId, queue.Points ptrPacket

instance TrafficOp.decidableRegular (s : Queues) :
    (op : TrafficOp) → Decidable (op.Regular qId s)
  | .insert _ => .isTrue trivial
  | .remove ptrPacket => inferInstanceAs (Decidable (∀ queue ∈ s.slot qId, queue.Points ptrPacket))

/-- **First in, first out.** A queue that is allocated by reference in a slot whose indices were
left equal and in range delivers its packets in the order they came in, as long as removals
find a packet through their pointer. -/
theorem queue_fifo_run (hr₀ : Run queuesStep (fun _ _ => True) .atBoot ops₀ s)
    (hn : n ≠ 0) (hs : s.klQueueAlloc 0 n dataMemory sizeMemory = some (s₀, qId))
    (hq : s.slot qId = some queue) (hempty : queue.f = queue.r) (hin : queue.f ≤ n)
    (hr : Run (trafficStep qId) (fun p op => op.Regular qId p.1) (s₀, .none) ops (s', t)) :
    t.delivered <+: t.accepted := by
  by_cases hmax : n + 1 = 0
  · have h : s'.Absent qId ∧ t.delivered = [] := by
      refine hr.invariant (I := fun p => p.1.Absent qId ∧ p.2.delivered = []) ?_
        ⟨Queues.absent_of_alloc hn hmax hs, rfl⟩
      rintro ⟨s, t⟩ ⟨s', t'⟩ op ⟨h, ht⟩ - hs
      obtain ⟨rfl, rfl⟩ := trafficStep_absent h hs
      exact ⟨h, ht⟩
    rw [h.2]
    exact List.nil_prefix
  obtain ⟨l, -, hl⟩ : ∃ l, s'.Holds qId n l ∧ t.accepted = t.delivered ++ l := by
    refine hr.invariant (I := fun p => ∃ l, p.1.Holds qId n l ∧
      p.2.accepted = p.2.delivered ++ l) ?_
      ⟨[], (Queues.sound_run hr₀).holds hn hmax hs hq hempty hin, rfl⟩
    rintro ⟨s, t⟩ ⟨s', t'⟩ op ⟨l, h, hl⟩ hop hs
    obtain ⟨rfl, rfl⟩ | ⟨packet, h', rfl⟩ | ⟨x, l', ptr, queue, rfl, rfl, h', hq, hne, hx, rfl⟩ :=
      trafficStep_cases h hs
    · exact ⟨l, h, hl⟩
    · exact ⟨_, h', by dsimp only at hl ⊢; rw [hl, List.append_assoc]⟩
    · refine ⟨_, h', ?_⟩
      have hptr := (hop queue hq).resolve_left hne
      dsimp only at hl ⊢
      rw [hptr, ← hx, hl, List.append_assoc]
      rfl
  exact ⟨l, hl.symm⟩

theorem queue_fifo_run_one : ∃ s' t, Run (trafficStep 0) (fun p op => op.Regular 0 p.1)
    (queuesWith 0 2, .none)
    [.insert ⟨100, 7⟩, .insert ⟨200, 8⟩, .remove fun i => if i = 1 then 100 else 200] (s', t) ∧
    t.delivered = [⟨100, 7⟩] ∧ t.delivered <+: t.accepted := by
  obtain ⟨⟨s', t⟩, hr, ht⟩ := Run.of_exec_any
    (show (exec (trafficStep 0) (fun p op => op.Regular 0 p.1) (queuesWith 0 2, .none)
      [.insert ⟨100, 7⟩, .insert ⟨200, 8⟩, .remove fun i => if i = 1 then 100 else 200]).any
        (fun p => decide (p.2.delivered = [⟨100, 7⟩])) = true by decide)
  exact ⟨s', t, hr, of_decide_eq_true ht, queue_fifo_run queuesTwo_run (by decide)
    (show queuesTwo.klQueueAlloc 0 2 somewhere somewhere = some (queuesWith 0 2, 0) from rfl) rfl
    rfl (by decide) hr⟩

/-- The variable that the packet is taken through has the address of something else. -/
theorem queue_fifo_stray : ∃ s' t, Run (trafficStep 0) (fun _ _ => True) (queuesWith 0 2, .none)
    [.insert ⟨100, 7⟩, .remove fun _ => 4096] (s', t) ∧
    t.accepted = [⟨100, 7⟩] ∧ t.delivered = [⟨4096, 7⟩] ∧ ¬ t.delivered <+: t.accepted := by
  obtain ⟨⟨s', t⟩, hr, ht⟩ := Run.of_exec_any
    (show (exec (trafficStep 0) (fun _ _ => True) (queuesWith 0 2, .none)
      [.insert ⟨100, 7⟩, .remove fun _ => 4096]).any
        (fun p => decide (p.2.accepted = [⟨100, 7⟩] ∧ p.2.delivered = [⟨4096, 7⟩])) = true by
      decide)
  obtain ⟨haccepted, hdelivered⟩ := of_decide_eq_true ht
  refine ⟨s', t, hr, haccepted, hdelivered, ?_⟩
  rw [haccepted, hdelivered]
  decide

/-! ## Slots that are used again -/

namespace Queues

/-- The handle denotes an empty queue of the capacity that was asked for, with its indices in
its arrays. -/
def DenotesEmpty (s : Queues) (qId : Qhandle) (queueSize maxPackets : UWORD32) : Prop :=
  qId < s.maxQueues ∧ ∃ queue, s.slot qId = some queue ∧
    queue.maxPackets.toNat = maxPackets.toNat + 1 ∧ queue.maxSize = queueSize ∧
    queue.f = queue.r ∧ (∃ sizes, queue.packetSize = some sizes ∧ sizes.Inside queue.r) ∧
    if queueSize = 0 then ∃ ptrs, queue.packetPtr = some ptrs ∧ ptrs.Inside queue.r
    else queue.buffer.isSome

/-- The slot to be used next was left with equal indices, for which there is room in the
arrays. -/
def Reusable (s : Queues) (maxPackets : UWORD32) : Prop :=
  ∃ qId queue, s.freeSlot = some qId ∧ s.slot qId = some queue ∧ queue.f = queue.r ∧
    4 * (queue.r.toNat + 1) ≤ (4 * (maxPackets + 1)).toNat

end Queues

/-- The bytes of a packet. -/
def Packet.contents (packet : Packet) (mem : UADDR → UBYTE) : List UBYTE :=
  (List.range packet.size.toNat).map fun i => mem (packet.data + .ofNat 32 i)

/-- The queues, the memory outside their tables, and what the packets that are outstanding in
one of them held when they were inserted. -/
structure Copies where
  queues : Queues
  mem : UADDR → UBYTE
  outstanding : List (List UBYTE)

namespace Copies

/-- How many bytes are outstanding. -/
def size (c : Copies) : Nat := (c.outstanding.map List.length).sum

/-- The address is in the buffer of the queue. -/
def InBuffer (c : Copies) (qId : Qhandle) (a : UADDR) : Prop :=
  ∃ queue ∈ c.queues.slot qId, ∃ buffer ∈ queue.buffer, (a - buffer.start).toNat < buffer.bytes

/-- What a queue by copy does with the next call: the packets are no more than it has room for,
it counts them, refuses without a change, and gives the oldest packet as it was. -/
structure Meets (c : Copies) (qId : Qhandle) (queueSize : UWORD32) : Prop where
  bounded : c.size ≤ queueSize.toNat
  counted : ∀ queue ∈ c.queues.slot qId, queue.currentSize.toNat = c.size
  refused : ∀ packet, ∃ s state, c.queues.klQueueInsert qId packet = some (s, state) ∧
    (state = .Q_WRITEERR ∨ state = .Q_OVERFLOW → s = c.queues)
  copied : ∀ ptrPacket, ∃ s state packet,
    c.queues.klQueueRemove qId ptrPacket = some (s, state, packet) ∧
    (state = .Q_READOK → packet.map (·.contents c.mem) = c.outstanding.head? ∧ packet.isSome)

end Copies

/-- The calls with a handle, and what anybody else writes to memory. -/
inductive CopyOp where
  | insert (packet : Packet)
  | remove (ptrPacket : UWORD32 → UADDR)
  | write (a : UADDR) (v : UBYTE)

def copyStep (qId : Qhandle) (c : Copies) : CopyOp → Option Copies
  | .insert packet => do
    let (queues, state) ← c.queues.klQueueInsert qId packet
    let new := if state = .Q_WRITEOK then [packet.contents c.mem] else []
    some { c with queues, outstanding := c.outstanding ++ new }
  | .remove ptrPacket => do
    let (queues, state, _) ← c.queues.klQueueRemove qId ptrPacket
    some { c with queues, outstanding := c.outstanding.drop (if state = .Q_READOK then 1 else 0) }
  | .write a v => some { c with mem := update c.mem a v }

/-- Nobody else writes to the buffer of the queue. -/
def CopyOp.Elsewhere (qId : Qhandle) (c : Copies) : CopyOp → Prop
  | .write a _ => ¬ c.InBuffer qId a
  | _ => True

/-- A queue without an array of pointers: an insertion finds no place for its pointer, or it
finds the queue full, and then a removal finds a packet. -/
theorem Queue.insert_or_remove (hptr : queue.packetPtr = none) (h0 : queue.maxSize = 0)
    (hlimit : queue.maxPackets - 1 ≠ 0) (packet : Packet) (ptrPacket : UWORD32 → UADDR) :
    queue.insert packet = none ∨ ∀ queue' state out,
      queue.remove ptrPacket = some (queue', state, out) → state = .Q_READOK ∧ out.isSome := by
  by_cases hfull : queue.advance queue.r = queue.f
  · refine .inr fun queue' state out hs => ?_
    have hne : ¬ queue.f = queue.r := by
      rw [← hfull]
      unfold Queue.advance
      split
      · next he => exact fun h => hlimit (he ▸ h.symm)
      · bv_omega
    unfold Queue.remove at hs
    rw [if_neg hne] at hs
    obtain ⟨_, -, hs⟩ := Option.bind_eq_some_iff.mp hs
    obtain ⟨_, -, hs⟩ := Option.bind_eq_some_iff.mp hs
    obtain ⟨-, hs⟩ := Prod.mk.inj (Option.some.inj hs)
    obtain ⟨rfl, rfl⟩ := Prod.mk.inj hs
    exact ⟨rfl, rfl⟩
  · refine .inl ?_
    unfold Queue.insert
    dsimp only
    rw [if_neg hfull, if_neg (not_not_intro h0), hptr]
    rfl

/-- **There is no queue by copy.** Whatever the memory holds, a queue that is allocated with a
size does what it should in every run exactly if it does not come about: the first insertion
goes through `NIL`, or finds the queue full already. -/
theorem queue_by_copy_iff (hr₀ : Run queuesStep (fun _ _ => True) .atBoot ops₀ s)
    (hsize : queueSize ≠ 0) (hn : maxPackets ≠ 0)
    (hs : s.klQueueAlloc queueSize maxPackets dataMemory sizeMemory = some (s₀, qId))
    (mem : UADDR → UBYTE) :
    (∀ ops c, Run (copyStep qId) (fun c op => op.Elsewhere qId c) ⟨s₀, mem, []⟩ ops c →
      c.Meets qId queueSize) ↔ maxPackets + 1 = 0 := by
  obtain ⟨queue, -, hq, hs₀⟩ := Queues.klQueueAlloc_eq hn hs
  obtain ⟨hvalid, h0⟩ := Queues.sound_run hr₀ qId queue hq
  have hq₀ : s₀.slot qId = some (Queues.setup queue queueSize maxPackets dataMemory sizeMemory) :=
    hs₀ ▸ Queues.slot_setSlot_self hq
  constructor
  · intro hmeets
    by_contra hmax
    obtain ⟨-, -, hrefused, hcopied⟩ := hmeets [] _ (.nil _)
    obtain ⟨s₁, state, hins, -⟩ := hrefused ⟨0, 0⟩
    obtain ⟨s₂, state', packet, hrem, hread⟩ := hcopied fun _ => 0
    have hvalid₀ : qId < s₀.maxQueues := hs₀ ▸ hvalid
    rw [Queues.klQueueInsert_of_slot hvalid₀ hq₀ hmax] at hins
    obtain ⟨out, hins, -⟩ := Option.map_eq_some_iff.mp hins
    rw [Queues.klQueueRemove_of_slot hvalid₀ hq₀ hmax] at hrem
    obtain ⟨⟨queue', state'', packet'⟩, hremove, hout⟩ := Option.map_eq_some_iff.mp hrem
    obtain ⟨-, hout⟩ := Prod.mk.inj hout
    obtain ⟨rfl, rfl⟩ := Prod.mk.inj hout
    have hptr : (Queues.setup queue queueSize maxPackets dataMemory sizeMemory).packetPtr = none :=
      if_pos hsize
    have hlimit : maxPackets + 1 - 1 ≠ 0 := by rwa [BitVec.add_sub_cancel]
    obtain hnone | hphantom := Queue.insert_or_remove hptr h0 hlimit ⟨0, 0⟩ fun _ => 0
    · exact absurd (hnone.symm.trans hins) nofun
    · -- a packet that nobody has inserted
      obtain ⟨hstate, hsome⟩ := hphantom queue' state'' packet' hremove
      obtain ⟨x, rfl⟩ := Option.isSome_iff_exists.mp hsome
      exact absurd (hread hstate).1 nofun
  · intro hmax ops c hr
    have habsent : s₀.Absent qId := Queues.absent_of_alloc hn hmax hs
    obtain ⟨hqueues, hnone⟩ : c.queues = s₀ ∧ c.outstanding = [] := by
      refine hr.invariant (I := fun c => c.queues = s₀ ∧ c.outstanding = []) ?_ ⟨rfl, rfl⟩
      rintro c c' op ⟨hqueues, hnone⟩ - hs
      cases op with
      | insert packet =>
          obtain ⟨⟨s₁, state⟩, hcall, hs⟩ := Option.bind_eq_some_iff.mp hs
          obtain rfl := Option.some.inj hs
          rw [hqueues, habsent.klQueueInsert] at hcall
          obtain ⟨rfl, rfl⟩ := Prod.mk.inj (Option.some.inj hcall)
          exact ⟨rfl, by rw [hnone]; rfl⟩
      | remove ptrPacket =>
          obtain ⟨⟨s₁, state, packet⟩, hcall, hs⟩ := Option.bind_eq_some_iff.mp hs
          obtain rfl := Option.some.inj hs
          rw [hqueues, habsent.klQueueRemove] at hcall
          obtain ⟨rfl, hout⟩ := Prod.mk.inj (Option.some.inj hcall)
          exact ⟨rfl, by rw [hnone, List.drop_nil]⟩
      | write a v =>
          obtain rfl := Option.some.inj hs
          exact ⟨hqueues, hnone⟩
    have hzero : c.size = 0 := by
      rw [Copies.size, hnone]
      rfl
    refine ⟨hzero ▸ Nat.zero_le _, fun queue' hq' => ?_, fun packet => ?_, fun ptrPacket => ?_⟩
    · rw [hqueues, hq₀] at hq'
      rw [hzero, ← Option.some.inj hq']
      rfl
    · rw [hqueues, habsent.klQueueInsert]
      exact ⟨s₀, _, rfl, fun _ => rfl⟩
    · rw [hqueues, habsent.klQueueRemove]
      exact ⟨s₀, _, none, rfl, nofun⟩

theorem queue_by_copy_iff_max : ∃ c, Run (copyStep 0) (fun c op => op.Elsewhere 0 c)
    ⟨queuesWith 16 (-1), fun _ => 0, []⟩ [.insert ⟨100, 7⟩, .remove fun _ => 0] c ∧
    c.Meets 0 16 := by
  have hr : Run (copyStep 0) (fun c op => op.Elsewhere 0 c) ⟨queuesWith 16 (-1), fun _ => 0, []⟩
      [.insert ⟨100, 7⟩, .remove fun _ => 0] _ :=
    .cons trivial rfl (.cons trivial rfl (.nil _))
  exact ⟨_, hr, (queue_by_copy_iff queuesTwo_run (by decide) (by decide)
    (show queuesTwo.klQueueAlloc 16 (-1) somewhere somewhere = some (queuesWith 16 (-1), 0) from
      rfl) fun _ => 0).mpr rfl _ _ hr⟩

/-- The first packet is to be noted in an array that does not exist. -/
theorem queue_by_copy_nil :
    queuesTwo.klQueueAlloc 16 2 somewhere somewhere = some (queuesWith 16 2, 0) ∧
    (queuesWith 16 2).klQueueInsert 0 ⟨100, 7⟩ = none ∧
    ¬ ∀ mem ops c,
      Run (copyStep 0) (fun c op => op.Elsewhere 0 c) ⟨queuesWith 16 2, mem, []⟩ ops c →
      c.Meets 0 16 := by
  have hnil : (queuesWith 16 2).klQueueInsert 0 ⟨100, 7⟩ = none := rfl
  refine ⟨rfl, hnil, fun h => ?_⟩
  obtain ⟨s, state, hs, -⟩ := (h (fun _ => 0) [] _ (.nil _)).refused ⟨100, 7⟩
  exact absurd (hnil.symm.trans hs) nofun

end Alliance.KL
