import Alliance.Lib.Ring
import Alliance.Lib.Run

/-!
# The queue of message identifiers (`ipcqueue.c`)

A circular array of `QUEUESIZE` slots, of which one is left free: a write to a full queue drops
the oldest identifier. `QUEUESIZE` is set at compile time.

A read steps the index first and goes back from there for the identifier, by a signed
remainder: where the index has just started again at 0, it reads `shmemId[-1]`. In every run
without such a read, reads deliver what they should (`ipcQueue_run`), and what that is says
`Sent`.
-/

namespace Alliance.SORB

open Function Lib

/-- A signed word, such as an identifier of shared memory. -/
abbrev INT32 := BitVec 32

/-- `IPCQueue`. Both indices are remainders by `QUEUESIZE`, which fit their type `QIndex`. -/
structure IPCQueue where
  read : Nat
  write : Nat
  shmemId : Nat → INT32

/-- `shmemId[i]` is one of the `QUEUESIZE+1` elements. -/
def InArray (QUEUESIZE : Nat) (i : Int) : Prop := 0 ≤ i ∧ i ≤ QUEUESIZE

instance (QUEUESIZE : Nat) (i : Int) : Decidable (InArray QUEUESIZE i) :=
  inferInstanceAs (Decidable (_ ∧ _))

/-- `IPCQueueWrite`, which returns 0. An access outside the array has no meaning. -/
def ipcQueueWrite (QUEUESIZE : Nat) (queue : IPCQueue) (shmId : INT32) : Option IPCQueue :=
  if ¬ InArray QUEUESIZE queue.write then none
  else
    let write := (queue.write + 1) % QUEUESIZE
    some
      { read := if write = queue.read then (queue.read + 1) % QUEUESIZE else queue.read
        write
        shmemId := update queue.shmemId queue.write shmId }

/-- `IPCQueueRead`. The remainder has the sign of `queue->read-1`. -/
def ipcQueueRead (QUEUESIZE : Nat) (queue : IPCQueue) : Option (IPCQueue × INT32) :=
  if queue.read ≠ queue.write then
    let read := (queue.read + 1) % QUEUESIZE
    let i := Int.tmod (read - 1) QUEUESIZE
    if ¬ InArray QUEUESIZE i then none
    else some ({ queue with read }, queue.shmemId i.toNat)
  else some (queue, -1#32)

/-! ## What is to be read -/

/-- All that was written, and how much of it is not behind the last read identifier. -/
structure Sent where
  written : List INT32
  taken : Nat
  taken_le : taken ≤ written.length

namespace Sent

def none : Sent := ⟨[], 0, Nat.le_refl 0⟩

/-- The place of the oldest write that is neither read nor behind `QUEUESIZE-1` later ones. -/
def next (QUEUESIZE : Nat) (s : Sent) : Nat :=
  max s.taken (s.written.length - (QUEUESIZE - 1))

/-- The last `QUEUESIZE-1` writes, as far as they are not yet read. -/
def unread (QUEUESIZE : Nat) (s : Sent) : List INT32 := s.written.drop (s.next QUEUESIZE)

theorem next_le (QUEUESIZE : Nat) (s : Sent) : s.next QUEUESIZE ≤ s.written.length :=
  Nat.max_le.mpr ⟨s.taken_le, Nat.sub_le _ _⟩

def write (s : Sent) (shmId : INT32) : Sent where
  written := s.written ++ [shmId]
  taken := s.taken
  taken_le := by
    have := s.taken_le
    rw [List.length_append]
    omega

/-- The oldest identifier is read, if there is one. -/
def read (QUEUESIZE : Nat) (s : Sent) : Sent where
  written := s.written
  taken := min (s.next QUEUESIZE + 1) s.written.length
  taken_le := Nat.min_le_right _ _

variable {QUEUESIZE : Nat} {s : Sent}

theorem length_unread : (s.unread QUEUESIZE).length = s.written.length - s.next QUEUESIZE :=
  List.length_drop

/-- A write appends its identifier, and drops one from a full queue. -/
theorem unread_write (h0 : 0 < QUEUESIZE) (shmId : INT32) : (s.write shmId).unread QUEUESIZE =
    if (s.unread QUEUESIZE).length + 1 = QUEUESIZE then (s.unread QUEUESIZE ++ [shmId]).drop 1
    else s.unread QUEUESIZE ++ [shmId] := by
  have hle := s.next_le QUEUESIZE
  have happ : s.unread QUEUESIZE ++ [shmId] = (s.write shmId).written.drop (s.next QUEUESIZE) :=
    (List.drop_append_of_le_length hle).symm
  have hlen : (s.write shmId).written.length = s.written.length + 1 := List.length_append
  have hnext : (s.write shmId).next QUEUESIZE =
      max s.taken (s.written.length + 1 - (QUEUESIZE - 1)) := by
    rw [next, hlen]
    rfl
  rw [happ, length_unread]
  unfold next at hle ⊢
  split
  · next hfull =>
    rw [List.drop_drop, unread, hnext]
    congr 1
    omega
  · next hfull =>
    rw [unread, hnext]
    congr 1
    omega

theorem unread_read : (s.read QUEUESIZE).unread QUEUESIZE = (s.unread QUEUESIZE).drop 1 := by
  have hle := s.next_le QUEUESIZE
  have hnext : (s.read QUEUESIZE).next QUEUESIZE = min (s.next QUEUESIZE + 1) s.written.length := by
    show max (min (s.next QUEUESIZE + 1) s.written.length) (s.written.length - (QUEUESIZE - 1)) = _
    unfold next at hle ⊢
    omega
  rw [unread, unread, hnext, List.drop_drop]
  show s.written.drop _ = _
  by_cases h : s.next QUEUESIZE + 1 ≤ s.written.length
  · rw [Nat.min_eq_left h]
  · rw [Nat.min_eq_right (by omega), List.drop_length, List.drop_eq_nil_of_le (by omega)]

end Sent
/-! ## What the array holds -/

variable {QUEUESIZE : Nat} {q q' : IPCQueue} {l : List INT32} {s s' : Sent} {shmId r : INT32}

/-- The identifiers of `l` are queued. -/
structure IPCQueue.Holds (QUEUESIZE : Nat) (q : IPCQueue) (l : List INT32) : Prop where
  ring : Ring QUEUESIZE q.shmemId q.read l
  write : q.write = (q.read + l.length) % QUEUESIZE
  room : l.length < QUEUESIZE

namespace IPCQueue.Holds

theorem empty (hlt : q.read < QUEUESIZE) (he : q.read = q.write) : q.Holds QUEUESIZE [] where
  ring := .empty hlt
  write := by rw [← he, List.length_nil, Nat.add_zero, Nat.mod_eq_of_lt hlt]
  room := by
    rw [List.length_nil]
    omega

theorem write_lt (h : q.Holds QUEUESIZE l) : q.write < QUEUESIZE := by
  rw [h.write]
  exact Nat.mod_lt _ (Nat.zero_lt_of_lt h.room)

theorem read_eq_write (h : q.Holds QUEUESIZE l) : q.read = q.write ↔ l = [] := by
  rw [h.write, eq_comm, add_mod_eq_iff h.ring.start h.ring.room, ← List.length_eq_zero_iff]
  have := h.room
  omega

/-- The write that makes the indices meet is one too many. -/
theorem write_meets (h : q.Holds QUEUESIZE l) :
    (q.write + 1) % QUEUESIZE = q.read ↔ l.length + 1 = QUEUESIZE := by
  rw [h.write, Nat.mod_add_mod, Nat.add_assoc, add_mod_eq_iff h.ring.start h.room]
  omega

/-- **A write** appends the identifier, and drops the oldest one of a full queue. -/
theorem ipcQueueWrite (h : q.Holds QUEUESIZE l) (shmId : INT32) :
    ∃ q', ipcQueueWrite QUEUESIZE q shmId = some q' ∧ q'.Holds QUEUESIZE
      (if l.length + 1 = QUEUESIZE then (l ++ [shmId]).drop 1 else l ++ [shmId]) := by
  have hin : InArray QUEUESIZE q.write := by
    have := h.write_lt
    unfold InArray
    omega
  unfold SORB.ipcQueueWrite
  rw [if_neg (not_not_intro hin)]
  refine ⟨_, rfl, ?_⟩
  have hpush := h.ring.push h.room shmId
  rw [← h.write] at hpush
  have hnext : (q.write + 1) % QUEUESIZE = (q.read + (l.length + 1)) % QUEUESIZE := by
    rw [h.write, Nat.mod_add_mod, Nat.add_assoc]
  simp only [h.write_meets]
  split
  · next hfull =>
    -- the index of the reader is pushed past the oldest identifier
    cases hl : l ++ [shmId] with
    | nil => exact absurd hl (by simp)
    | cons x rest =>
        have hlen : rest.length + 1 = QUEUESIZE := by
          rw [← hfull, ← List.length_cons, ← hl, List.length_append, List.length_singleton]
        rw [hl] at hpush
        refine ⟨hpush.pop, ?_, ?_⟩
        · show (q.write + 1) % QUEUESIZE = ((q.read + 1) % QUEUESIZE + rest.length) % QUEUESIZE
          rw [mod_add_mod_succ, hnext, hlen, hfull]
        · rw [List.drop_one, List.tail_cons]
          omega
  · next hfull =>
    refine ⟨hpush, ?_, ?_⟩
    · rw [List.length_append, List.length_singleton]
      exact hnext
    · have := h.room
      rw [List.length_append, List.length_singleton]
      omega

/-- **A read** delivers the oldest identifier, unless its slot is the last of the array. -/
theorem ipcQueueRead_cons {x : INT32} (h : q.Holds QUEUESIZE (x :: l)) :
    if q.read + 1 = QUEUESIZE then ipcQueueRead QUEUESIZE q = none
    else ∃ q', ipcQueueRead QUEUESIZE q = some (q', x) ∧ q'.Holds QUEUESIZE l := by
  have hne : q.read ≠ q.write := fun he => List.cons_ne_nil x l (h.read_eq_write.mp he)
  have hroom := h.room
  have hstart := h.ring.start
  rw [List.length_cons] at hroom
  unfold ipcQueueRead
  rw [if_pos hne]
  dsimp only
  split
  · next hlast =>
    -- the index is 0 again, and the one before it is -1
    have hi : Int.tmod (((q.read + 1) % QUEUESIZE : Nat) - 1) QUEUESIZE = -1 := by
      rw [hlast, Nat.mod_self]
      show Int.tmod (-1) QUEUESIZE = -1
      rw [Int.neg_tmod, Int.tmod_eq_of_lt (by omega) (by omega)]
    rw [hi, if_pos]
    exact fun hin => absurd hin.1 (by decide)
  · next hlast =>
    have hmod : (q.read + 1) % QUEUESIZE = q.read + 1 := Nat.mod_eq_of_lt (by omega)
    have hi : Int.tmod (((q.read + 1) % QUEUESIZE : Nat) - 1) QUEUESIZE = q.read := by
      rw [hmod, Int.natCast_add, Int.natCast_one, Int.add_sub_cancel]
      exact Int.tmod_eq_of_lt (by omega) (by omega)
    have hin : InArray QUEUESIZE q.read := by
      unfold InArray
      omega
    rw [hi, if_neg (not_not_intro hin)]
    refine ⟨{ q with read := (q.read + 1) % QUEUESIZE }, ?_, h.ring.pop, ?_, by omega⟩
    · rw [Int.toNat_natCast, h.ring.first]
    · show q.write = ((q.read + 1) % QUEUESIZE + l.length) % QUEUESIZE
      rw [mod_add_mod_succ, h.write, List.length_cons]

theorem ipcQueueRead_nil (h : q.Holds QUEUESIZE []) :
    ipcQueueRead QUEUESIZE q = some (q, -1#32) :=
  if_neg (not_not_intro (h.read_eq_write.mpr rfl))

end IPCQueue.Holds

/-! ## Runs -/

inductive IPCQueueOp where
  | write (shmId : INT32)
  | read
  deriving DecidableEq, Repr

/-- One call, and what it comes to. -/
def ipcQueueStep (QUEUESIZE : Nat) : IPCQueue × Sent → IPCQueueOp → Option (IPCQueue × Sent)
  | (q, s), .write shmId => (ipcQueueWrite QUEUESIZE q shmId).map fun q => (q, s.write shmId)
  | (q, s), .read => (ipcQueueRead QUEUESIZE q).map fun r => (r.1, s.read QUEUESIZE)

/-- The read does not have to start again at 0 behind the last slot. -/
def IPCQueue.NotLast (QUEUESIZE : Nat) (q : IPCQueue) : Prop :=
  q.read = q.write ∨ q.read + 1 ≠ QUEUESIZE

instance (QUEUESIZE : Nat) (q : IPCQueue) : Decidable (q.NotLast QUEUESIZE) :=
  inferInstanceAs (Decidable (_ ∨ _))

/-- A write is of an identifier, and a read is not of the last slot. -/
def IPCQueueOp.Regular (QUEUESIZE : Nat) (q : IPCQueue) : IPCQueueOp → Prop
  | .write shmId => shmId ≠ -1#32
  | .read => q.NotLast QUEUESIZE

instance IPCQueueOp.decidableRegular (QUEUESIZE : Nat) (q : IPCQueue) :
    (op : IPCQueueOp) → Decidable (op.Regular QUEUESIZE q)
  | .write _ => inferInstanceAs (Decidable (_ ≠ _))
  | .read => inferInstanceAs (Decidable (IPCQueue.NotLast ..))

/-- A read accesses the array only, and returns the oldest unread identifier, or -1 exactly if
there is none. -/
def IPCQueue.ReadsOldest (QUEUESIZE : Nat) (q : IPCQueue) (s : Sent) : Prop :=
  ∃ q' r, ipcQueueRead QUEUESIZE q = some (q', r) ∧
    r = (s.unread QUEUESIZE).head?.getD (-1#32) ∧ (r = -1#32 ↔ s.unread QUEUESIZE = [])

/-- **One call** keeps what the array holds. -/
theorem ipcQueueStep_holds {op : IPCQueueOp} (h : q.Holds QUEUESIZE (s.unread QUEUESIZE))
    (hs : ipcQueueStep QUEUESIZE (q, s) op = some (q', s')) :
    q'.Holds QUEUESIZE (s'.unread QUEUESIZE) := by
  have h0 : 0 < QUEUESIZE := Nat.zero_lt_of_lt h.room
  cases op with
  | write shmId =>
      obtain ⟨q₁, hq₁, hs⟩ := Option.map_eq_some_iff.mp hs
      obtain ⟨rfl, rfl⟩ := Prod.mk.inj hs
      obtain ⟨q₂, hq₂, h'⟩ := h.ipcQueueWrite shmId
      obtain rfl := Option.some.inj (hq₁.symm.trans hq₂)
      rwa [Sent.unread_write h0]
  | read =>
      obtain ⟨⟨q₁, r⟩, hq₁, hs⟩ := Option.map_eq_some_iff.mp hs
      obtain ⟨rfl, rfl⟩ := Prod.mk.inj hs
      rw [Sent.unread_read]
      cases hl : s.unread QUEUESIZE with
      | nil =>
          rw [hl] at h
          obtain ⟨rfl, -⟩ := Prod.mk.inj (Option.some.inj (hq₁.symm.trans h.ipcQueueRead_nil))
          exact h
      | cons x l =>
          rw [hl] at h
          have hread := h.ipcQueueRead_cons
          split at hread
          · exact absurd (hq₁.symm.trans hread) (by simp)
          · obtain ⟨q₂, hq₂, h'⟩ := hread
            obtain ⟨rfl, -⟩ := Prod.mk.inj (Option.some.inj (hq₁.symm.trans hq₂))
            exact h'

/-- Where identifiers are queued, exactly the reads of the last slot go wrong. -/
theorem IPCQueue.Holds.readsOldest_iff (h : q.Holds QUEUESIZE (s.unread QUEUESIZE))
    (hid : ∀ x ∈ s.written, x ≠ -1#32) : q.ReadsOldest QUEUESIZE s ↔ q.NotLast QUEUESIZE := by
  unfold ReadsOldest NotLast
  rw [h.read_eq_write]
  cases hl : s.unread QUEUESIZE with
  | nil =>
      rw [hl] at h
      exact ⟨fun _ => .inl rfl, fun _ => ⟨q, _, h.ipcQueueRead_nil, rfl, by simp⟩⟩
  | cons x l =>
      rw [hl] at h
      have hx : x ≠ -1#32 := by
        have hmem : x ∈ s.unread QUEUESIZE := hl ▸ .head l
        exact hid x (List.mem_of_mem_drop hmem)
      have hread := h.ipcQueueRead_cons
      split at hread
      · next hlast => simp [hread, hlast]
      · next hlast =>
        obtain ⟨q', hq', _⟩ := hread
        exact ⟨fun _ => .inr hlast, fun _ => ⟨q', x, hq', rfl, fun he => absurd he hx, nofun⟩⟩

/-- **A bounded queue that drops the oldest.** In a run from an empty queue in which no read is
of the last slot, every access is within the array; and the next read returns what it should
exactly if it is not of the last slot either. -/
theorem ipcQueue_run {q₀ : IPCQueue} {ops : List IPCQueueOp} (hlt : q₀.read < QUEUESIZE)
    (hempty : q₀.read = q₀.write)
    (hr : Run (ipcQueueStep QUEUESIZE) (fun p op => op.Regular QUEUESIZE p.1) (q₀, .none) ops
      (q, s)) :
    (∀ shmId, (ipcQueueWrite QUEUESIZE q shmId).isSome) ∧
      (q.ReadsOldest QUEUESIZE s ↔ q.NotLast QUEUESIZE) := by
  obtain ⟨h, hid⟩ : q.Holds QUEUESIZE (s.unread QUEUESIZE) ∧ ∀ x ∈ s.written, x ≠ -1#32 := by
    refine hr.invariant (I := fun p => p.1.Holds QUEUESIZE (p.2.unread QUEUESIZE) ∧
      ∀ x ∈ p.2.written, x ≠ -1#32) ?_ ⟨?_, by simp [Sent.none]⟩
    case refine_2 => simpa [Sent.unread, Sent.none] using IPCQueue.Holds.empty hlt hempty
    rintro ⟨q, s⟩ ⟨q', s'⟩ op ⟨h, hid⟩ hop hs
    refine ⟨ipcQueueStep_holds h hs, ?_⟩
    cases op with
    | write shmId =>
        obtain ⟨_, -, hs⟩ := Option.map_eq_some_iff.mp hs
        obtain ⟨-, rfl⟩ := Prod.mk.inj hs
        intro x hx
        obtain hx | hx := List.mem_append.mp hx
        · exact hid x hx
        · exact List.mem_singleton.mp hx ▸ hop
    | read =>
        obtain ⟨_, -, hs⟩ := Option.map_eq_some_iff.mp hs
        obtain ⟨-, rfl⟩ := Prod.mk.inj hs
        exact hid
  refine ⟨fun shmId => ?_, h.readsOldest_iff hid⟩
  obtain ⟨q', hq', _⟩ := h.ipcQueueWrite shmId
  rw [hq']
  rfl

/-- `IPCQueueInit`, as far as it matters. -/
def ipcQueueInit : IPCQueue := ⟨0, 0, fun _ => 0⟩

theorem ipcQueue_run_three : ∃ q s, Run (ipcQueueStep 3) (fun p op => op.Regular 3 p.1)
    (ipcQueueInit, .none) [.write 5, .write 7, .write 9] (q, s) ∧ s.unread 3 = [7, 9] ∧
    q.ReadsOldest 3 s := by
  obtain ⟨⟨q, s⟩, hr, hp⟩ := Run.of_exec_any
    (show (exec (ipcQueueStep 3) (fun p op => op.Regular 3 p.1) (ipcQueueInit, .none)
      [.write 5, .write 7, .write 9]).any
        (fun p => decide (p.2.unread 3 = [7, 9] ∧ p.1.NotLast 3)) = true by decide)
  obtain ⟨hunread, hlast⟩ := of_decide_eq_true hp
  exact ⟨q, s, hr, hunread, (ipcQueue_run (by decide) rfl hr).2.mpr hlast⟩

/-- After a lap the read of the last slot accesses `shmemId[-1]`. -/
theorem ipcQueue_lap : ∃ q s, Run (ipcQueueStep 250) (fun _ _ => True) (ipcQueueInit, .none)
    ((List.replicate 249 [.write 5, .read]).flatten ++ [.write 7]) (q, s) ∧
    s.unread 250 = [7] ∧ ipcQueueRead 250 q = none ∧ ¬ q.ReadsOldest 250 s := by
  obtain ⟨⟨q, s⟩, hr, hp⟩ := Run.of_exec_any
    (show (exec (ipcQueueStep 250) (fun _ _ => True) (ipcQueueInit, .none)
      ((List.replicate 249 [.write 5, .read]).flatten ++ [.write 7])).any
        (fun p => decide (p.2.unread 250 = [7] ∧ (ipcQueueRead 250 p.1).isNone)) = true by
      decide +kernel)
  obtain ⟨hunread, hnone⟩ := of_decide_eq_true hp
  have hnone := Option.isNone_iff_eq_none.mp hnone
  exact ⟨q, s, hr, hunread, hnone, fun ⟨_, _, hread, _⟩ => absurd (hnone.symm.trans hread) nofun⟩

end Alliance.SORB
