import Alliance.KL.QueueRuns
import Alliance.Lib.Handles

/-!
# The table of queues (`QueueAlloc.c`, `QueueFree.c`)

`KLqueueAlloc` takes the first slot whose `maxPackets` is 0, and writes `maxPackets + 1` to it
before it asks for memory. The search does not ask how many slots there are, no result of
`KLmalloc` is looked at, and `maxPackets + 1` may be 0. So handles are those of distinct slots with
complete queues as long as no call meets one of the three, and a call that does is not what it
should be (`queue_handles_run`).
-/

namespace Alliance.KL

open Function Lib

/-- The queues, and the handles that were given out and not freed. -/
structure QueueTable where
  queues : Queues
  live : List Nat

/-- `KLqueueAlloc` and `KLqueueFree`, with the memory that `KLmalloc` has for the two arrays. -/
inductive TableOp where
  | alloc (queueSize maxPackets : UWORD32) (dataMemory sizeMemory : Option Words)
  | free (qId : Qhandle)

/-- A queue is complete: it counts to one more than the packets it is for, and none of its arrays
is missing. -/
structure Queue.Complete (queue : Queue) (queueSize maxPackets : UWORD32) : Prop where
  capacity : queue.maxPackets.toNat = maxPackets.toNat + 1
  data : if queueSize ≠ 0 then queue.buffer.isSome else queue.packetPtr.isSome
  sizes : queue.packetSize.isSome

namespace QueueTable

/-- After `KLqueueInit(n)`. -/
def init (n : UWORD32) : QueueTable := ⟨(Queues.klQueueInit .atBoot n true).1, []⟩

/-- The slots that the memory of the table has room for. -/
def slots (n : UWORD32) : Nat := (n * SIZEOF_QUEUE / SIZEOF_QUEUE).toNat

variable (s : QueueTable)

def step : TableOp → Option QueueTable
  | .alloc queueSize maxPackets dataMemory sizeMemory =>
    (s.queues.klQueueAlloc queueSize maxPackets dataMemory sizeMemory).map fun r =>
      ⟨r.1, if r.2 < QVALID_HANDLE then s.live ++ [r.2.toNat] else s.live⟩
  | .free qId =>
    (s.queues.klQueueFree qId).map fun r => ⟨r.1, if r.2 then s.live.erase qId.toNat else s.live⟩

/-- What `KLqueueAlloc` should do: it stays in the table; if `n` queues are live or there is no
memory, it says so and leaves the table as it is; a valid handle is one that is not live, below
`n`, with a complete queue. -/
def Allocates (n queueSize maxPackets : UWORD32) (dataMemory sizeMemory : Option Words) : Prop :=
  ∃ queues qId,
    s.queues.klQueueAlloc queueSize maxPackets dataMemory sizeMemory = some (queues, qId) ∧
    (s.live.length = n.toNat ∨ dataMemory.isNone ∨ sizeMemory.isNone →
      QVALID_HANDLE ≤ qId ∧ queues = s.queues) ∧
    (qId < QVALID_HANDLE → qId.toNat ∉ s.live ∧ qId < n ∧
      ∃ queue, queues.slot qId = some queue ∧ queue.Complete queueSize maxPackets)

/-- A slot of the table is free, there is memory, and `maxPackets + 1` is not 0; or no packets are
asked for, and nothing is done. -/
def Fits (n : UWORD32) (s : QueueTable) : TableOp → Prop
  | .alloc _ maxPackets dataMemory sizeMemory => maxPackets = 0 ∨
    s.live.length < slots n ∧ maxPackets ≠ -1 ∧ dataMemory.isSome ∧ sizeMemory.isSome
  | .free _ => True

instance (n : UWORD32) : ∀ op, Decidable (s.Fits n op)
  | .alloc _ maxPackets dataMemory sizeMemory => inferInstanceAs (Decidable (maxPackets = 0 ∨
      s.live.length < slots n ∧ maxPackets ≠ -1 ∧ dataMemory.isSome ∧ sizeMemory.isSome))
  | .free _ => instDecidableTrue

/-! ## The invariant -/

/-- The queues of the table. -/
def table : List Queue := s.queues.qTable.getD []

/-- There is a queue in the slot. -/
def InUse (i : Nat) : Prop := ∃ queue, s.table[i]? = some queue ∧ queue.maxPackets ≠ 0

/-- The queue has all its arrays. -/
def Built (i : Nat) : Prop := ∃ queue, s.table[i]? = some queue ∧
  (queue.buffer.isSome ∨ queue.packetPtr.isSome) ∧ queue.packetSize.isSome

/-- The table has all its slots, the live handles are those of the slots in use, and these have all
their arrays. -/
structure Consistent (n : UWORD32) (s : QueueTable) : Prop where
  length : s.table.length = slots n
  given : Given (slots n) s.InUse s.live
  built : ∀ i ∈ s.live, s.Built i

variable {s s' : QueueTable} {n qId : UWORD32} {queue queue' : Queue} {i : Nat}

theorem slots_le : slots n ≤ n.toNat := by
  unfold slots SIZEOF_QUEUE
  rw [BitVec.toNat_udiv, BitVec.toNat_mul]
  exact Nat.div_le_of_le_mul (Nat.mul_comm 32 _ ▸ Nat.mod_le _ _)

/-- Every slot has a handle. -/
theorem slots_lt : slots n < QVALID_HANDLE.toNat := by
  unfold slots SIZEOF_QUEUE
  rw [BitVec.toNat_udiv, BitVec.toNat_mul]
  exact Nat.div_lt_of_lt_mul (Nat.lt_of_lt_of_le (Nat.mod_lt _ (Nat.two_pow_pos 32)) (by decide))

theorem slot_eq : s.queues.slot qId = s.table[qId.toNat]? := by
  unfold Queues.slot table
  cases s.queues.qTable with
  | none => rfl
  | some table => rfl

theorem table_setSlot (live : List Nat) :
    table ⟨s.queues.setSlot qId queue, live⟩ = s.table.set qId.toNat queue := by
  unfold Queues.setSlot table
  cases s.queues.qTable with
  | none => rfl
  | some table => rfl

theorem freeSlot_eq : s.queues.freeSlot =
    (s.table.findIdx? fun queue => queue.maxPackets = 0).map (BitVec.ofNat 32) := by
  unfold Queues.freeSlot table
  cases s.queues.qTable with
  | none => rfl
  | some table => exact Option.map_eq_bind.symm

namespace Consistent

theorem init (n : UWORD32) : (init n).Consistent n := by
  have htable : (QueueTable.init n).table = List.replicate (QueueTable.slots n) .zeroed := by
    unfold QueueTable.init table Queues.klQueueInit Queues.atBoot
    by_cases hn : n = 0
    · rw [if_pos hn, hn]
      rfl
    · rw [if_neg hn, if_pos rfl]
      rfl
  constructor
  case length => rw [htable, List.length_replicate]
  case given =>
    refine Given.empty.congr fun i hi => iff_of_false id ?_
    intro huse
    rcases huse with ⟨queue, hqueue, hne⟩
    rw [htable, List.getElem?_replicate, if_pos hi] at hqueue
    exact hne (Option.some.inj hqueue ▸ rfl)
  case built => exact fun i hi => absurd hi List.not_mem_nil

theorem getElem?_isSome_iff (h : s.Consistent n) : (s.table[i]?).isSome ↔ i < QueueTable.slots n := by
  rw [← h.length, Option.isSome_iff_exists]
  constructor
  · intro hq
    rcases hq with ⟨queue, hq⟩
    exact (List.getElem?_eq_some_iff.mp hq).1
  · intro hi
    exact ⟨_, List.getElem?_eq_getElem hi⟩

/-- What the search finds. -/
theorem of_freeSlot (h : s.Consistent n) (hfree : s.queues.freeSlot = some qId) :
    qId.toNat < QueueTable.slots n ∧ ¬ s.InUse qId.toNat := by
  rw [freeSlot_eq] at hfree
  rcases Option.map_eq_some_iff.mp hfree with ⟨i, hi, rfl⟩
  rcases List.findIdx?_eq_some_iff_getElem.mp hi with ⟨hlt, hzero, -⟩
  have hslots : i < QueueTable.slots n := h.length ▸ hlt
  have hi : (BitVec.ofNat 32 i).toNat = i := by
    rw [BitVec.toNat_ofNat, Nat.mod_eq_of_lt (by have := slots_le (n := n); omega)]
  rw [hi]
  refine ⟨hslots, fun huse => ?_⟩
  rcases huse with ⟨queue, hqueue, hne⟩
  rw [List.getElem?_eq_getElem hlt] at hqueue
  exact hne (Option.some.inj hqueue ▸ of_decide_eq_true hzero)

/-- The search ends in the table as long as there is a free slot. -/
theorem freeSlot_isSome_iff (h : s.Consistent n) :
    s.queues.freeSlot.isSome ↔ s.live.length < QueueTable.slots n := by
  rw [← h.given.exists_free_iff, freeSlot_eq, Option.isSome_map, List.findIdx?_isSome,
    List.any_eq_true]
  constructor
  · intro hany
    rcases hany with ⟨queue, hmem, hzero⟩
    rcases List.getElem_of_mem hmem with ⟨i, hi, rfl⟩
    refine ⟨i, h.length ▸ hi, fun huse => ?_⟩
    rcases huse with ⟨queue, hqueue, hne⟩
    rw [List.getElem?_eq_getElem hi] at hqueue
    exact hne (Option.some.inj hqueue ▸ of_decide_eq_true hzero)
  · intro hfree
    rcases hfree with ⟨i, hi, hfree⟩
    have hlt : i < s.table.length := h.length ▸ hi
    refine ⟨s.table[i], List.getElem_mem hlt, decide_eq_true ?_⟩
    by_contra hne
    exact hfree ⟨s.table[i], List.getElem?_eq_getElem hlt, hne⟩

/-! ### Steps -/

/-- A queue that is put into a slot leaves the others in use. -/
theorem inUse_set (hlt : qId.toNat < s.table.length) (i : Nat) (live : List Nat) :
    InUse ⟨s.queues.setSlot qId queue, live⟩ i ↔
      if i = qId.toNat then queue.maxPackets ≠ 0 else s.InUse i := by
  unfold InUse
  rw [table_setSlot]
  split
  · next he =>
    rw [he, List.getElem?_set_self hlt]
    constructor
    · intro huse
      rcases huse with ⟨x, hx, hne⟩
      exact Option.some.inj hx ▸ hne
    · exact fun hne => ⟨queue, rfl, hne⟩
  · next hne => rw [List.getElem?_set_ne (Ne.symm hne)]

theorem built_set (hne : i ≠ qId.toNat) (hbuilt : s.Built i) (live : List Nat) :
    Built ⟨s.queues.setSlot qId queue, live⟩ i := by
  rcases hbuilt with ⟨x, hx, hbuilt⟩
  refine ⟨x, ?_, hbuilt⟩
  rw [table_setSlot, List.getElem?_set_ne (Ne.symm hne), hx]

/-- The first free slot is given out. -/
theorem alloc (h : s.Consistent n) (hfree : s.queues.freeSlot = some qId)
    (huse : queue.maxPackets ≠ 0) (hdata : queue.buffer.isSome ∨ queue.packetPtr.isSome)
    (hsizes : queue.packetSize.isSome) :
    Consistent n ⟨s.queues.setSlot qId queue, s.live ++ [qId.toNat]⟩ := by
  rcases h.of_freeSlot hfree with ⟨hlt, hnot⟩
  have hin : qId.toNat < s.table.length := h.length ▸ hlt
  constructor
  case length => rw [table_setSlot, List.length_set, h.length]
  case given =>
    refine (h.given.give hlt hnot).congr fun i _ => ?_
    rw [inUse_set hin]
    by_cases he : i = qId.toNat
    · rw [if_pos he]
      exact iff_of_true (.inl he) huse
    · rw [if_neg he]
      exact or_iff_right he
  case built =>
    intro i hi
    by_cases he : i = qId.toNat
    · subst he
      exact ⟨queue, by rw [table_setSlot, List.getElem?_set_self hin], hdata, hsizes⟩
    · rcases List.mem_append.mp hi with hi | hi
      · exact built_set he (h.built i hi) _
      · exact absurd (List.mem_singleton.mp hi) he

/-- A slot is free again. -/
theorem free (h : s.Consistent n) (hq : s.table[qId.toNat]? = some queue)
    (hzero : queue'.maxPackets = 0) :
    Consistent n ⟨s.queues.setSlot qId queue', s.live.erase qId.toNat⟩ := by
  have hin : qId.toNat < s.table.length := (List.getElem?_eq_some_iff.mp hq).1
  constructor
  case length => rw [table_setSlot, List.length_set, h.length]
  case given =>
    refine (h.given.take qId.toNat).congr fun i _ => ?_
    rw [inUse_set hin]
    by_cases he : i = qId.toNat
    · rw [if_pos he]
      exact iff_of_false (fun hi => hi.1 he) (not_not_intro hzero)
    · rw [if_neg he]
      exact and_iff_right he
  case built =>
    intro i hi
    rcases h.given.nodup.mem_erase_iff.mp hi with ⟨hne, hi⟩
    exact built_set hne (h.built i hi) _

end Consistent

/-! ## One call -/

variable {queueSize maxPackets : UWORD32} {dataMemory sizeMemory : Option Words}

/-- With memory for both arrays, and a count of packets that has a successor, a slot is set up. -/
theorem setup_complete_iff : (Queues.setup queue queueSize maxPackets dataMemory sizeMemory).Complete
    queueSize maxPackets ↔ maxPackets ≠ -1 ∧ dataMemory.isSome ∧ sizeMemory.isSome := by
  have hcap : (maxPackets + 1).toNat = maxPackets.toNat + 1 ↔ maxPackets ≠ -1 := by
    constructor
    · intro hcap he
      rw [he] at hcap
      exact absurd hcap (by decide)
    · intro hne
      bv_omega
  have hdata : (if queueSize ≠ 0
      then (Queues.setup queue queueSize maxPackets dataMemory sizeMemory).buffer.isSome = true
      else (Queues.setup queue queueSize maxPackets dataMemory sizeMemory).packetPtr.isSome = true) ↔
      dataMemory.isSome = true := by
    unfold Queues.setup Words.malloc
    by_cases hsize : queueSize ≠ 0
    · simp only [if_pos hsize, Option.isSome_map]
    · simp only [if_neg hsize, Option.isSome_map]
  constructor
  · intro h
    exact ⟨hcap.mp h.capacity, hdata.mp h.data, Option.isSome_map.symm.trans h.sizes⟩
  · intro h
    rcases h with ⟨hne, hdataMem, hsizeMem⟩
    exact ⟨hcap.mpr hne, hdata.mpr hdataMem, Option.isSome_map.trans hsizeMem⟩

theorem klQueueAlloc_of_freeSlot (hzero : maxPackets ≠ 0) (hfree : s.queues.freeSlot = some qId)
    (hq : s.queues.slot qId = some queue) :
    s.queues.klQueueAlloc queueSize maxPackets dataMemory sizeMemory = some
      (s.queues.setSlot qId (Queues.setup queue queueSize maxPackets dataMemory sizeMemory), qId) := by
  unfold Queues.klQueueAlloc
  rw [if_neg hzero, hfree]
  show (s.queues.slot qId).bind _ = _
  rw [hq, Option.bind_some]

/-- **When `KLqueueAlloc` does what it should.** -/
theorem Consistent.allocates_iff (h : s.Consistent n) :
    s.Allocates n queueSize maxPackets dataMemory sizeMemory ↔
      Fits n s (.alloc queueSize maxPackets dataMemory sizeMemory) := by
  unfold Allocates Fits
  by_cases hzero : maxPackets = 0
  · refine iff_of_true ?_ (.inl hzero)
    refine ⟨s.queues, QNO_PACKETS, if_pos hzero, fun _ => ⟨by decide, rfl⟩, ?_⟩
    exact fun hlt => absurd hlt (by decide)
  · refine Iff.trans ?_ (or_iff_right hzero).symm
    constructor
    · intro hall
      rcases hall with ⟨queues, qId, hs, hfail, hvalid⟩
      rcases Queues.klQueueAlloc_eq hzero hs with ⟨queue, hfree, hq, rfl⟩
      have hroom := h.freeSlot_isSome_iff.mp (Option.isSome_of_eq_some hfree)
      have hlt : qId < QVALID_HANDLE := Nat.lt_trans (h.of_freeSlot hfree).1 slots_lt
      -- the handle is valid, so the queue is complete
      rcases hvalid hlt with ⟨-, -, queue', hq', hcomplete⟩
      rw [Queues.slot_setSlot_self hq] at hq'
      obtain rfl := Option.some.inj hq'
      exact ⟨hroom, setup_complete_iff.mp hcomplete⟩
    · intro hfits
      rcases hfits with ⟨hroom, hfits⟩
      rcases Option.isSome_iff_exists.mp (h.freeSlot_isSome_iff.mpr hroom) with ⟨qId, hfree⟩
      rcases h.of_freeSlot hfree with ⟨hlt, hnot⟩
      have hslot : (s.queues.slot qId).isSome := by
        rw [slot_eq]
        exact h.getElem?_isSome_iff.mpr hlt
      rcases Option.isSome_iff_exists.mp hslot with ⟨queue, hq⟩
      refine ⟨_, qId, klQueueAlloc_of_freeSlot hzero hfree hq, fun hfail => ?_,
        fun _ => ⟨?_, ?_, ?_⟩⟩
      · -- the call does not fail: there is a slot, and there is memory
        have hle := slots_le (n := n)
        rcases hfail with hfull | hnone | hnone
        · omega
        · rw [Option.isNone_iff_eq_none.mp hnone] at hfits
          exact absurd hfits.2.1 nofun
        · rw [Option.isNone_iff_eq_none.mp hnone] at hfits
          exact absurd hfits.2.2 nofun
      · intro hmem
        exact hnot ((h.given.mem_iff _).mp hmem).2
      · exact Nat.lt_of_lt_of_le hlt slots_le
      · exact ⟨_, Queues.slot_setSlot_self hq, setup_complete_iff.mpr hfits⟩

/-! ## Runs -/

theorem consistent_step {op : TableOp} (h : s.Consistent n) (hfits : s.Fits n op)
    (hs : s.step op = some s') : s'.Consistent n := by
  cases op with
  | alloc queueSize maxPackets dataMemory sizeMemory =>
      rcases Option.map_eq_some_iff.mp hs with ⟨⟨queues, qId⟩, hcall, rfl⟩
      dsimp only
      by_cases hzero : maxPackets = 0
      · unfold Queues.klQueueAlloc at hcall
        rw [if_pos hzero] at hcall
        rcases Prod.mk.inj (Option.some.inj hcall) with ⟨rfl, rfl⟩
        rw [if_neg (by decide)]
        exact h
      · rcases Queues.klQueueAlloc_eq hzero hcall with ⟨queue, hfree, -, rfl⟩
        have hlt : qId < QVALID_HANDLE := Nat.lt_trans (h.of_freeSlot hfree).1 slots_lt
        have hcomplete : (Queues.setup queue queueSize maxPackets dataMemory sizeMemory).Complete
            queueSize maxPackets := setup_complete_iff.mpr (hfits.resolve_left hzero).2
        rw [if_pos hlt]
        refine h.alloc hfree (fun he => ?_) ?_ hcomplete.sizes
        · -- it has room for one more than the packets it is for
          have := hcomplete.capacity
          rw [he] at this
          exact absurd this (Nat.succ_ne_zero _).symm
        · have := hcomplete.data
          split at this
          · exact .inl this
          · exact .inr this
  | free qId =>
      rcases Option.map_eq_some_iff.mp hs with ⟨⟨queues, freed⟩, hcall, rfl⟩
      unfold Queues.klQueueFree at hcall
      split at hcall
      · rcases Option.bind_eq_some_iff.mp hcall with ⟨queue, hq, hcall⟩
        rw [slot_eq] at hq
        split at hcall
        · rcases Prod.mk.inj (Option.some.inj hcall) with ⟨rfl, rfl⟩
          exact h.free hq rfl
        · rcases Prod.mk.inj (Option.some.inj hcall) with ⟨rfl, rfl⟩
          exact h
      · rcases Prod.mk.inj (Option.some.inj hcall) with ⟨rfl, rfl⟩
        exact h

/-- **Handles of queues**: as long as the calls fit, the live handles are distinct ones below `n`
of queues that have all their arrays, and the next `KLqueueAlloc` does what it should exactly if it
fits, too. -/
theorem queue_handles_run {ops : List TableOp} (hr : Run step (Fits n) (QueueTable.init n) ops s) :
    s.live.Nodup ∧ (∀ i ∈ s.live, i < n.toNat ∧ s.Built i) ∧
      ∀ queueSize maxPackets dataMemory sizeMemory,
        s.Allocates n queueSize maxPackets dataMemory sizeMemory ↔
          Fits n s (.alloc queueSize maxPackets dataMemory sizeMemory) := by
  have h : s.Consistent n := hr.invariant consistent_step (Consistent.init n)
  refine ⟨h.given.nodup, fun i hi => ⟨?_, h.built i hi⟩, fun _ _ _ _ => h.allocates_iff⟩
  exact Nat.lt_of_lt_of_le ((h.given.mem_iff i).mp hi).1 slots_le

/-- Two queues are allocated, one of them is freed, and its slot is used again. -/
def reuse : List TableOp :=
  [.alloc 0 3 somewhere somewhere, .alloc 64 3 somewhere somewhere, .free 0,
    .alloc 0 7 somewhere somewhere]

theorem queue_handles_run_reuse : ∃ s, Run step (Fits 2) (QueueTable.init 2) reuse s ∧
    s.live = [1, 0] ∧ s.live.Nodup := by
  rcases Run.of_exec_any (show (exec step (Fits 2) (QueueTable.init 2) reuse).any
    (fun s => s.live = [1, 0]) = true by decide) with ⟨s, hr, hlive⟩
  exact ⟨s, hr, of_decide_eq_true hlive, (queue_handles_run hr).1⟩

/-- In a table for one queue that is live, the search for another slot does not stop. Without memory,
the slot is taken all the same, and its handle is returned. -/
theorem queue_handles_full : ∃ s, Run step (fun _ _ => True) (QueueTable.init 1)
    [.alloc 0 3 somewhere somewhere] s ∧ ¬ s.Allocates 1 0 3 somewhere somewhere ∧
      ¬ (QueueTable.init 1).Allocates 1 0 3 none none := by
  refine ⟨_, .cons trivial rfl (.nil _), ?_, ?_⟩
  · intro h
    rcases h with ⟨queues, qId, hs, -⟩
    exact absurd hs nofun
  · intro h
    rcases h with ⟨queues, qId, hs, hfail, -⟩
    rcases Prod.mk.inj (Option.some.inj hs) with ⟨-, rfl⟩
    exact absurd (hfail (.inr (.inl rfl))).1 (by decide)

end QueueTable

end Alliance.KL
