import Alliance.SORB.IPCQueue

/-!
# Messages between processes (`libIPC.c`)

Every receiver has an entry in a table that all processes share: a queue of identifiers and a
semaphore. A send writes the queue and then adds 1 to the semaphore; a get takes 1 from the
semaphore and then reads the queue. These are the steps of a call, and between them any other
process may take steps of its own.

The semaphore is meant to count the queued messages. It does in every run in which no write
finds the queue full: `IPCQueueWrite` drops the oldest message there and tells nobody, and the
credit of that message stays (`ipc_credits_run`).
-/

namespace Alliance.SORB

open Function Lib

abbrev ProcessId := Nat

/-- The owner of an entry that nobody owns. -/
def NOPROCESS : ProcessId := 0

def MAXIPCQUEUES : Nat := 5

/-- `QUEUESIZE`, as long as nobody sets it at compile time. -/
def QUEUESIZE : Nat := 250

/-- The largest value of a semaphore; `semop` fails where it would be exceeded. -/
def SEMVMX : Nat := 32767

/-- `struct ipcQueueStruct`, with the value of the semaphore `semId`. -/
structure IpcQueueEntry where
  owner : ProcessId
  sem : Nat
  queue : IPCQueue

/-- The four library calls that use a queue. -/
inductive IpcRequest where
  | send (shmemId : INT32) (target : ProcessId) (sync : Bool)
  | get (sync : Bool)
  deriving DecidableEq, Repr

/-- What a call does next. -/
inductive IpcStage where
  | findEntry
  /-- A send writes the queue, a get takes from the semaphore. -/
  | found (entry : Nat)
  /-- A send has written the queue. -/
  | queued (entry : Nat)
  /-- A get has taken from the semaphore. -/
  | taken (entry : Nat)
  /-- A send has woken the receiver up. -/
  | woken
  deriving DecidableEq, Repr

/-- A call in progress. -/
structure IpcCall where
  pid : ProcessId
  request : IpcRequest
  stage : IpcStage
  deriving DecidableEq, Repr

inductive IpcResult where
  | sent (result : Int)
  /-- `none` is `IPCNOBUFFER`. -/
  | got (shmemId : Option INT32)
  deriving DecidableEq, Repr

/-- The shared table, the semaphore in the header of each buffer, and the calls. -/
structure IPC where
  ipcQueues : Nat → IpcQueueEntry
  senderSem : INT32 → Nat
  calls : List IpcCall
  results : List (ProcessId × IpcResult)

namespace IPC

def setEntry (s : IPC) (entry : Nat) (x : IpcQueueEntry) : IPC :=
  { s with ipcQueues := update s.ipcQueues entry x }

def setQueue (s : IPC) (entry : Nat) (queue : IPCQueue) : IPC :=
  s.setEntry entry { s.ipcQueues entry with queue }

def setSem (s : IPC) (entry sem : Nat) : IPC :=
  s.setEntry entry { s.ipcQueues entry with sem }

/-- The call goes on in another stage. -/
def goOn (s : IPC) (c : IpcCall) (stage : IpcStage) : IPC :=
  { s with calls := { c with stage } :: s.calls }

/-- The call returns. -/
def finish (s : IPC) (c : IpcCall) (result : IpcResult) : IPC :=
  { s with results := (c.pid, result) :: s.results }

/-- `ipcBufferFindEntry`: the entry of a process, which may be a new one. Without a free entry
the caller exits. -/
def ipcBufferFindEntry (s : IPC) (pid : ProcessId) : Option (IPC × Nat) :=
  match (List.range MAXIPCQUEUES).find? fun i => (s.ipcQueues i).owner = pid with
  | some i => some (s, i)
  | none =>
    match (List.range MAXIPCQUEUES).find? fun i => (s.ipcQueues i).owner = NOPROCESS with
    | some firstFree =>
      some (s.setEntry firstFree { s.ipcQueues firstFree with owner := pid }, firstFree)
    | none => none

end IPC

/-- The process in whose queue a request works. -/
def IpcCall.receiver (c : IpcCall) : ProcessId :=
  match c.request with
  | .send _ target _ => target
  | .get _ => c.pid

/-- The next step of a call that is taken out of `s.calls`: of `ipcBufferSendSync`,
`ipcBufferSendAsync`, `ipcBufferGetSync` or `ipcBufferGetAsync`. A step that waits has no
result, unless a signal interrupts it (`ok` is false); `ok` is false as well where a buffer
cannot be attached. -/
def IPC.advance (s : IPC) (c : IpcCall) (ok : Bool) : Option IPC :=
  match c.stage, c.request with
  | .findEntry, _ =>
    match s.ipcBufferFindEntry c.receiver with
    | none => some s
    | some (s, entry) => some (s.goOn c (.found entry))
  | .found entry, .send shmemId _ _ => do
    let queue ← ipcQueueWrite QUEUESIZE (s.ipcQueues entry).queue shmemId
    some ((s.setQueue entry queue).goOn c (.queued entry))
  | .queued entry, .send .. =>
    if (s.ipcQueues entry).sem = SEMVMX then some (s.finish c (.sent (-1)))
    else some ((s.setSem entry ((s.ipcQueues entry).sem + 1)).goOn c .woken)
  | .woken, .send shmemId _ sync =>
    if s.senderSem shmemId ≠ 0 then
      some ({ s with senderSem := update s.senderSem shmemId (s.senderSem shmemId - 1) }.finish c
        (.sent 0))
    else if sync ∧ ok then none
    else some (s.finish c (.sent (-2)))
  | .found entry, .get sync =>
    if (s.ipcQueues entry).sem ≠ 0 then
      some ((s.setSem entry ((s.ipcQueues entry).sem - 1)).goOn c (.taken entry))
    else if sync ∧ ok then none
    else some (s.finish c (.got none))
  | .taken entry, .get _ => do
    let (queue, shmemId) ← ipcQueueRead QUEUESIZE (s.ipcQueues entry).queue
    let s := s.setQueue entry queue
    if shmemId = -1#32 ∨ ¬ ok then some (s.finish c (.got none))
    else some (s.finish c (.got (some shmemId)))
  | _, _ => none

inductive IpcOp where
  /-- A process makes a call. -/
  | call (pid : ProcessId) (request : IpcRequest)
  /-- A call takes its next step. -/
  | step (c : IpcCall) (ok : Bool)
  /-- `ipcBufferDone` of a receiver. -/
  | done (shmemId : INT32)
  deriving DecidableEq, Repr

def ipcStep (s : IPC) : IpcOp → Option IPC
  | .call pid request => some { s with calls := ⟨pid, request, .findEntry⟩ :: s.calls }
  | .step c ok =>
    if c ∈ s.calls then { s with calls := s.calls.erase c }.advance c ok else none
  | .done shmemId =>
    some { s with senderSem := update s.senderSem shmemId (s.senderSem shmemId + 1) }

/-- The messages in a queue. -/
def IPCQueue.queued (q : IPCQueue) : Nat := (q.write + QUEUESIZE - q.read) % QUEUESIZE

/-- The queue takes one more message. -/
def IPCQueue.NotFull (q : IPCQueue) : Prop := (q.write + 1) % QUEUESIZE ≠ q.read

instance (q : IPCQueue) : Decidable q.NotFull := inferInstanceAs (Decidable (_ ≠ _))

/-- Writes do not find the queue full, and reads are not of the last slot. -/
def IpcCall.Regular (s : IPC) (c : IpcCall) : Prop :=
  match c.stage, c.request with
  | .found entry, .send .. => (s.ipcQueues entry).queue.NotFull
  | .taken entry, .get _ => (s.ipcQueues entry).queue.NotLast QUEUESIZE
  | _, _ => True

instance IpcCall.decidableRegular (s : IPC) : (c : IpcCall) → Decidable (c.Regular s)
  | ⟨_, .send .., .found entry⟩ => inferInstanceAs (Decidable (s.ipcQueues entry).queue.NotFull)
  | ⟨_, .get _, .taken entry⟩ =>
    inferInstanceAs (Decidable ((s.ipcQueues entry).queue.NotLast QUEUESIZE))
  | ⟨_, .send .., .findEntry⟩ | ⟨_, .send .., .queued _⟩ | ⟨_, .send .., .taken _⟩
  | ⟨_, .send .., .woken⟩ | ⟨_, .get _, .findEntry⟩ | ⟨_, .get _, .found _⟩
  | ⟨_, .get _, .queued _⟩ | ⟨_, .get _, .woken⟩ => .isTrue trivial

/-- Buffers have an identifier. -/
def IpcRequest.HasBuffer : IpcRequest → Prop
  | .send shmemId .. => shmemId ≠ -1#32
  | .get _ => True

instance : (request : IpcRequest) → Decidable request.HasBuffer
  | .send shmemId .. => inferInstanceAs (Decidable (shmemId ≠ -1#32))
  | .get _ => .isTrue trivial

def IpcOp.Regular (s : IPC) : IpcOp → Prop
  | .call _ request => request.HasBuffer
  | .step c _ => c.Regular s
  | .done _ => True

instance IpcOp.decidableRegular (s : IPC) : (op : IpcOp) → Decidable (op.Regular s)
  | .call _ request => inferInstanceAs (Decidable request.HasBuffer)
  | .step c _ => inferInstanceAs (Decidable (c.Regular s))
  | .done _ => .isTrue trivial

/-- `_init`: the queues are empty, and nobody owns one. -/
def ipcAtInit : IPC where
  ipcQueues _ := ⟨NOPROCESS, 0, ipcQueueInit⟩
  senderSem _ := 0
  calls := []
  results := []

/-! ## Credits -/

/-- The call has a message of the entry on one side only: queued without a credit, or with a
credit that is taken but not read. -/
def IpcCall.Between (entry : Nat) (c : IpcCall) : Prop :=
  c.stage = .queued entry ∨ c.stage = .taken entry

instance (entry : Nat) (c : IpcCall) : Decidable (c.Between entry) :=
  inferInstanceAs (Decidable (_ ∨ _))

namespace IPC

variable {s s' : IPC} {entry entry' sem extra : Nat} {c : IpcCall} {stage : IpcStage}
  {result : IpcResult} {queue : IPCQueue} {l : List INT32} {ok : Bool}

def inFlight (s : IPC) (entry : Nat) : Nat := s.calls.countP fun c => c.Between entry

/-- The messages of `l` are queued. Each has a credit, or a call that is in between; `extra` of
these calls are not among `s.calls`. -/
structure Holds (s : IPC) (entry extra : Nat) (l : List INT32) : Prop where
  queue : (s.ipcQueues entry).queue.Holds QUEUESIZE l
  count : l.length = (s.ipcQueues entry).sem + s.inFlight entry + extra
  ids : ∀ x ∈ l, x ≠ -1#32

/-- How many calls in between a call is. -/
def share (c : IpcCall) (entry : Nat) : Nat := if c.Between entry then 1 else 0

/-- Every queue has its credits. -/
def Credits (s : IPC) (extra : Nat → Nat) : Prop := ∀ entry, ∃ l, s.Holds entry (extra entry) l

@[simp] theorem inFlight_goOn : (s.goOn c stage).inFlight entry =
    s.inFlight entry + share { c with stage } entry := by
  simp only [inFlight, goOn, share, List.countP_cons, decide_eq_true_eq]

@[simp] theorem inFlight_setEntry {x : IpcQueueEntry} :
    (s.setEntry entry' x).inFlight entry = s.inFlight entry := rfl

theorem inFlight_erase (hc : c ∈ s.calls) : s.inFlight entry =
    { s with calls := s.calls.erase c }.inFlight entry + share c entry := by
  simp only [inFlight, share, (List.perm_cons_erase hc).countP_eq, List.countP_cons,
    decide_eq_true_eq]

@[simp] theorem ipcQueues_goOn : (s.goOn c stage).ipcQueues = s.ipcQueues := rfl

@[simp] theorem ipcQueues_setEntry {x : IpcQueueEntry} :
    (s.setEntry entry x).ipcQueues = update s.ipcQueues entry x := rfl

/-- What a queue holds is seen from its entry and the calls. -/
theorem Holds.congr {extra' : Nat} (h : s.Holds entry extra l)
    (hqueue : (s'.ipcQueues entry).queue = (s.ipcQueues entry).queue)
    (hcount : (s'.ipcQueues entry).sem + s'.inFlight entry + extra' =
      (s.ipcQueues entry).sem + s.inFlight entry + extra) : s'.Holds entry extra' l where
  queue := hqueue ▸ h.queue
  count := h.count.trans hcount.symm
  ids := h.ids

/-- A call goes on, and what it does to its own entry keeps the credits there. -/
theorem Credits.goOn_setEntry {x : IpcQueueEntry} (h : s.Credits (share c))
    (hc : ∀ entry', entry' ≠ entry → share c entry' = share { c with stage } entry')
    (hx : ∃ l, ((s.setEntry entry x).goOn c stage).Holds entry 0 l) :
    ((s.setEntry entry x).goOn c stage).Credits fun _ => 0 := by
  intro entry'
  by_cases he : entry' = entry
  · exact he ▸ hx
  · obtain ⟨l, hl⟩ := h entry'
    have hsame : update s.ipcQueues entry x entry' = s.ipcQueues entry' := update_of_ne he ..
    refine ⟨l, hl.congr ?_ ?_⟩
    · simp [hsame]
    · simp [hsame, hc entry' he, Nat.add_assoc]

/-- A step that leaves queues and semaphores alone. -/
theorem Credits.congr {extra extra' : Nat → Nat} (h : s.Credits extra)
    (hqueues : ∀ e, (s'.ipcQueues e).queue = (s.ipcQueues e).queue ∧
      (s'.ipcQueues e).sem = (s.ipcQueues e).sem)
    (hcount : ∀ e, s'.inFlight e + extra' e = s.inFlight e + extra e) : s'.Credits extra' := by
  intro entry
  obtain ⟨l, hl⟩ := h entry
  refine ⟨l, hl.congr (hqueues entry).1 ?_⟩
  have := hcount entry
  rw [(hqueues entry).2]
  omega

/-- A call that is not in between returns. -/
theorem Credits.returns (h : s.Credits (share c)) (hc : ∀ entry, share c entry = 0)
    (hqueues : s'.ipcQueues = s.ipcQueues) (hcalls : s'.calls = s.calls) :
    s'.Credits fun _ => 0 :=
  h.congr (fun _ => by rw [hqueues]; exact ⟨rfl, rfl⟩) fun _ => by
    rw [hc, inFlight, hcalls]
    rfl

/-- A process that finds or makes its entry does not change the queues. -/
theorem ipcBufferFindEntry_rest {pid : ProcessId} {r : IPC × Nat}
    (hs : s.ipcBufferFindEntry pid = some r) :
    (∀ e, (r.1.ipcQueues e).queue = (s.ipcQueues e).queue ∧
      (r.1.ipcQueues e).sem = (s.ipcQueues e).sem) ∧ r.1.calls = s.calls := by
  unfold ipcBufferFindEntry at hs
  split at hs
  · obtain rfl := Option.some.inj hs
    exact ⟨fun _ => ⟨rfl, rfl⟩, rfl⟩
  · split at hs
    · next firstFree _ =>
      obtain rfl := Option.some.inj hs
      refine ⟨fun e => ?_, rfl⟩
      by_cases he : e = firstFree
      · rw [he, ipcQueues_setEntry, update_self]
        exact ⟨rfl, rfl⟩
      · rw [ipcQueues_setEntry, update_of_ne he]
        exact ⟨rfl, rfl⟩
    · exact absurd hs nofun

theorem share_of_stage (h : ∀ entry, stage ≠ .queued entry ∧ stage ≠ .taken entry)
    (entry : Nat) : share { c with stage } entry = 0 :=
  if_neg fun hb => hb.elim (h entry).1 (h entry).2

theorem share_queued : share { c with stage := .queued entry } entry' =
    if entry' = entry then 1 else 0 := by
  simp only [share, IpcCall.Between, IpcStage.queued.injEq, reduceCtorEq, or_false, eq_comm]

theorem share_taken : share { c with stage := .taken entry } entry' =
    if entry' = entry then 1 else 0 := by
  simp only [share, IpcCall.Between, IpcStage.taken.injEq, reduceCtorEq, false_or, eq_comm]

/-- **A write** to a queue that is not full adds a message and a call in between. -/
theorem Credits.send {shmemId : INT32} (h : s.Credits (share c)) (hc : c.stage = .found entry)
    (hid : shmemId ≠ -1#32) (hfull : (s.ipcQueues entry).queue.NotFull)
    (hw : ipcQueueWrite QUEUESIZE (s.ipcQueues entry).queue shmemId = some queue) :
    ((s.setQueue entry queue).goOn c (.queued entry)).Credits fun _ => 0 := by
  have hshare : ∀ e, share c e = 0 := fun e => if_neg (by simp [IpcCall.Between, hc])
  refine h.goOn_setEntry (fun e he => ?_) ?_
  · rw [hshare, share_queued, if_neg he]
  obtain ⟨l, hl⟩ := h entry
  obtain ⟨queue', hw', hqueue⟩ := hl.queue.ipcQueueWrite shmemId
  obtain rfl := Option.some.inj (hw.symm.trans hw')
  rw [if_neg fun he => hfull (hl.queue.write_meets.mpr he)] at hqueue
  refine ⟨l ++ [shmemId], ?_, ?_, ?_⟩
  · simpa using hqueue
  · have hcount := hl.count
    rw [hshare] at hcount
    simp only [List.length_append, List.length_singleton, ipcQueues_goOn, ipcQueues_setEntry,
      update_self, inFlight_goOn, inFlight_setEntry, share_queued, if_true]
    omega
  · intro x hx
    obtain hx | hx := List.mem_append.mp hx
    · exact hl.ids x hx
    · exact List.mem_singleton.mp hx ▸ hid

/-- **A credit** for a message that is queued. Credits are never as many as a semaphore can
count. -/
theorem Credits.wake (h : s.Credits (share c)) (hc : c.stage = .queued entry) :
    (s.ipcQueues entry).sem ≠ SEMVMX ∧
      ((s.setSem entry ((s.ipcQueues entry).sem + 1)).goOn c .woken).Credits fun _ => 0 := by
  have hshare : ∀ e, share c e = if e = entry then 1 else 0 := fun e => by
    rw [← share_queued (c := c), ← hc]
  obtain ⟨l, hl⟩ := h entry
  have hcount := hl.count
  rw [hshare, if_pos rfl] at hcount
  refine ⟨?_, h.goOn_setEntry (fun e he => ?_) ⟨l, hl.congr ?_ ?_⟩⟩
  · have hroom := hl.queue.room
    unfold SEMVMX
    unfold QUEUESIZE at hroom
    omega
  · rw [hshare, if_neg he, share_of_stage (by simp)]
  · simp
  · simp only [ipcQueues_goOn, ipcQueues_setEntry, update_self, inFlight_goOn, inFlight_setEntry,
      share_of_stage (show ∀ e, IpcStage.woken ≠ .queued e ∧ IpcStage.woken ≠ .taken e by simp),
      hshare, if_true]
    omega

/-- A get takes a credit, and is in between. -/
theorem Credits.take (h : s.Credits (share c)) (hc : c.stage = .found entry)
    (hsem : (s.ipcQueues entry).sem ≠ 0) :
    ((s.setSem entry ((s.ipcQueues entry).sem - 1)).goOn c (.taken entry)).Credits fun _ => 0 := by
  have hshare : ∀ e, share c e = 0 := fun e => if_neg (by simp [IpcCall.Between, hc])
  obtain ⟨l, hl⟩ := h entry
  refine h.goOn_setEntry (fun e he => ?_) ⟨l, hl.congr ?_ ?_⟩
  · rw [hshare, share_taken, if_neg he]
  · simp
  · simp only [ipcQueues_goOn, ipcQueues_setEntry, update_self, inFlight_goOn, inFlight_setEntry,
      share_taken, hshare, if_true]
    omega

/-- **A get that has a credit** finds a message. It reads it, if its slot is not the last one. -/
theorem Credits.read (h : s.Credits (share c)) (hc : c.stage = .taken entry) :
    ∃ x, x ≠ -1#32 ∧
      if (s.ipcQueues entry).queue.NotLast QUEUESIZE then
        ∃ queue, ipcQueueRead QUEUESIZE (s.ipcQueues entry).queue = some (queue, x) ∧
          (s.setQueue entry queue).Credits fun _ => 0
      else ipcQueueRead QUEUESIZE (s.ipcQueues entry).queue = none := by
  have hshare : ∀ e, share c e = if e = entry then 1 else 0 := fun e => by
    rw [← share_taken (c := c), ← hc]
  obtain ⟨l, hl⟩ := h entry
  have hcount := hl.count
  rw [hshare, if_pos rfl] at hcount
  cases l with
  | nil => exact absurd hcount (by simp)
  | cons x l =>
      have hread := hl.queue.ipcQueueRead_cons
      have hne : ¬ (s.ipcQueues entry).queue.read = (s.ipcQueues entry).queue.write :=
        fun he => List.cons_ne_nil x l (hl.queue.read_eq_write.mp he)
      refine ⟨x, hl.ids x (.head l), ?_⟩
      split at hread
      · next hlast => rwa [if_neg (by simp [IPCQueue.NotLast, hne, hlast])]
      · next hlast =>
        rw [if_pos (.inr hlast)]
        obtain ⟨queue, hqueue, hl'⟩ := hread
        refine ⟨queue, hqueue, fun e => ?_⟩
        by_cases he : e = entry
        · subst he
          refine ⟨l, ?_, ?_, fun y hy => hl.ids y (.tail x hy)⟩
          · simpa [setQueue] using hl'
          · rw [List.length_cons] at hcount
            simp only [setQueue, ipcQueues_setEntry, update_self, inFlight_setEntry]
            omega
        · obtain ⟨l', hl'⟩ := h e
          have hsame : (s.setQueue entry queue).ipcQueues e = s.ipcQueues e := update_of_ne he ..
          refine ⟨l', hl'.congr (by rw [hsame]) ?_⟩
          rw [hsame, hshare, if_neg he]
          rfl

/-- **One step of a call** keeps the credits. -/
theorem Credits.advance (h : s.Credits (share c)) (hid : c.request.HasBuffer) (hreg : c.Regular s)
    (hs : s.advance c ok = some s') : s'.Credits fun _ => 0 := by
  unfold IPC.advance at hs
  split at hs
  · next hstage =>
    have hshare : ∀ e, share c e = 0 := fun e => if_neg (by simp [IpcCall.Between, hstage])
    split at hs
    · obtain rfl := Option.some.inj hs
      exact h.returns hshare rfl rfl
    · next hfind =>
      obtain rfl := Option.some.inj hs
      obtain ⟨hqueues, hcalls⟩ := ipcBufferFindEntry_rest hfind
      refine h.congr hqueues fun e => ?_
      rw [inFlight_goOn, share_of_stage (by simp), hshare, inFlight, hcalls]
      rfl
  · next entry shmemId target sync hstage hreq =>
    obtain ⟨queue, hw, hs⟩ := Option.bind_eq_some_iff.mp hs
    obtain rfl := Option.some.inj hs
    rw [hreq] at hid
    simp only [IpcCall.Regular, hstage, hreq] at hreg
    exact h.send hstage hid hreg hw
  · next entry shmemId target sync hstage hreq =>
    rw [if_neg (h.wake hstage).1] at hs
    obtain rfl := Option.some.inj hs
    exact (h.wake hstage).2
  · next shmemId target sync hstage hreq =>
    have hshare : ∀ e, share c e = 0 := fun e => if_neg (by simp [IpcCall.Between, hstage])
    split at hs
    · obtain rfl := Option.some.inj hs
      exact h.returns hshare rfl rfl
    · split at hs
      · exact absurd hs nofun
      · obtain rfl := Option.some.inj hs
        exact h.returns hshare rfl rfl
  · next entry sync hstage hreq =>
    have hshare : ∀ e, share c e = 0 := fun e => if_neg (by simp [IpcCall.Between, hstage])
    split at hs
    · next hsem =>
      obtain rfl := Option.some.inj hs
      exact h.take hstage hsem
    · split at hs
      · exact absurd hs nofun
      · obtain rfl := Option.some.inj hs
        exact h.returns hshare rfl rfl
  · next entry sync hstage hreq =>
    obtain ⟨⟨queue, x⟩, hread, hs⟩ := Option.bind_eq_some_iff.mp hs
    simp only [IpcCall.Regular, hstage, hreq] at hreg
    obtain ⟨y, -, hy⟩ := h.read hstage
    rw [if_pos hreg] at hy
    obtain ⟨queue', hread', h'⟩ := hy
    obtain ⟨rfl, -⟩ := Prod.mk.inj (Option.some.inj (hread.symm.trans hread'))
    dsimp only at hs
    split at hs
    · obtain rfl := Option.some.inj hs
      exact h'.congr (fun _ => ⟨rfl, rfl⟩) fun _ => rfl
    · obtain rfl := Option.some.inj hs
      exact h'.congr (fun _ => ⟨rfl, rfl⟩) fun _ => rfl
  · exact absurd hs nofun

/-- A step of a call starts no other call. -/
theorem advance_calls {d : IpcCall} (hs : s.advance c ok = some s') (hd : d ∈ s'.calls) :
    d ∈ s.calls ∨ d.request = c.request := by
  have hgoOn : ∀ {t : IPC} {stage}, t.calls = s.calls → d ∈ (t.goOn c stage).calls →
      d ∈ s.calls ∨ d.request = c.request := by
    intro t stage ht hd
    obtain hd | hd := List.mem_cons.mp hd
    · exact .inr (hd ▸ rfl)
    · exact .inl (ht ▸ hd)
  unfold IPC.advance at hs
  split at hs
  · split at hs
    · exact .inl (Option.some.inj hs ▸ hd)
    · next hfind =>
      obtain rfl := Option.some.inj hs
      exact hgoOn (ipcBufferFindEntry_rest hfind).2 hd
  · obtain ⟨queue, -, hs⟩ := Option.bind_eq_some_iff.mp hs
    obtain rfl := Option.some.inj hs
    exact hgoOn rfl hd
  · split at hs
    · obtain rfl := Option.some.inj hs
      exact .inl hd
    · obtain rfl := Option.some.inj hs
      exact hgoOn rfl hd
  · split at hs
    · obtain rfl := Option.some.inj hs
      exact .inl hd
    · split at hs
      · exact absurd hs nofun
      · obtain rfl := Option.some.inj hs
        exact .inl hd
  · split at hs
    · obtain rfl := Option.some.inj hs
      exact hgoOn rfl hd
    · split at hs
      · exact absurd hs nofun
      · obtain rfl := Option.some.inj hs
        exact .inl hd
  · obtain ⟨⟨queue, x⟩, -, hs⟩ := Option.bind_eq_some_iff.mp hs
    dsimp only at hs
    split at hs
    · obtain rfl := Option.some.inj hs
      exact .inl hd
    · obtain rfl := Option.some.inj hs
      exact .inl hd
  · exact absurd hs nofun

end IPC

/-! ## Runs -/

variable {s s' : IPC} {ops : List IpcOp}

/-- What every state of a run has. -/
structure IPC.Counted (s : IPC) : Prop where
  credits : s.Credits fun _ => 0
  ids : ∀ c ∈ s.calls, c.request.HasBuffer

/-- The credits without a call that has been taken out. -/
theorem IPC.Counted.erase {c : IpcCall} (h : s.Counted) (hc : c ∈ s.calls) :
    IPC.Credits { s with calls := s.calls.erase c } (IPC.share c) :=
  h.credits.congr (fun _ => ⟨rfl, rfl⟩) fun _ => (IPC.inFlight_erase hc).symm

theorem ipcStep_counted {op : IpcOp} (h : s.Counted) (hop : op.Regular s)
    (hs : ipcStep s op = some s') : s'.Counted := by
  cases op with
  | call pid request =>
      obtain rfl := Option.some.inj hs
      refine ⟨h.credits.congr (fun _ => ⟨rfl, rfl⟩) fun e => ?_, fun c hc => ?_⟩
      · exact congrArg (· + 0) (List.countP_cons_of_neg (by simp [IpcCall.Between]))
      · obtain rfl | hc := List.mem_cons.mp hc
        · exact hop
        · exact h.ids c hc
  | step c ok =>
      dsimp only [ipcStep] at hs
      split at hs
      · next hc =>
        refine ⟨(h.erase hc).advance (h.ids c hc) hop hs, fun d hd => ?_⟩
        obtain hd | hd := IPC.advance_calls hs hd
        · exact h.ids d (List.mem_of_mem_erase hd)
        · exact hd ▸ h.ids c hc
      · exact absurd hs nofun
  | done shmemId =>
      obtain rfl := Option.some.inj hs
      exact ⟨h.credits.congr (fun _ => ⟨rfl, rfl⟩) fun _ => rfl, h.ids⟩

theorem ipcAtInit_counted : ipcAtInit.Counted where
  credits _ := ⟨[], .empty (show 0 < 250 by decide) rfl, rfl, nofun⟩
  ids := nofun

/-- Between calls a semaphore says how many messages are queued. -/
theorem IPC.Counted.sem_eq {entry : Nat} (h : s.Counted)
    (hrest : ∀ c ∈ s.calls, ¬ c.Between entry) :
    (s.ipcQueues entry).sem = (s.ipcQueues entry).queue.queued := by
  obtain ⟨l, hl⟩ := h.credits entry
  have hflight : s.inFlight entry = 0 := List.countP_eq_zero.mpr fun c hc => by simp [hrest c hc]
  have hcount : l.length = (s.ipcQueues entry).sem + s.inFlight entry + 0 := hl.count
  rw [IPCQueue.queued, hl.queue.write, ahead_eq hl.queue.ring.start hl.queue.room]
  omega

/-- A get that has passed the semaphore delivers a message with its next step. -/
def IPC.Delivers (s : IPC) (c : IpcCall) : Prop :=
  ∃ x s', x ≠ -1#32 ∧ ipcStep s (.step c true) = some s' ∧
    s'.results = (c.pid, .got (some x)) :: s.results

/-- It does so exactly if its slot is not the last one. -/
theorem IPC.Counted.delivers_iff {c : IpcCall} {entry : Nat} {sync : Bool} (h : s.Counted)
    (hc : c ∈ s.calls) (hreq : c.request = .get sync) (hstage : c.stage = .taken entry) :
    s.Delivers c ↔ (s.ipcQueues entry).queue.NotLast QUEUESIZE := by
  obtain ⟨x, hx, hread⟩ := (h.erase hc).read hstage
  have hadvance : ipcStep s (.step c true) =
      IPC.advance { s with calls := s.calls.erase c } c true :=
    if_pos hc
  unfold IPC.Delivers
  rw [hadvance, IPC.advance, hstage, hreq]
  dsimp only at hread ⊢
  split at hread
  · next hlast =>
    obtain ⟨queue, hqueue, -⟩ := hread
    rw [hqueue, Option.bind_eq_bind, Option.bind_some, if_neg (not_or.mpr ⟨hx, not_not_intro rfl⟩)]
    exact ⟨fun _ => hlast, fun _ => ⟨x, _, hx, rfl, rfl⟩⟩
  · next hlast =>
    rw [hread]
    exact ⟨fun ⟨_, _, _, hs, _⟩ => absurd hs nofun, fun h => absurd h hlast⟩

/-- **The semaphore counts the messages.** In a run in which no write finds the queue full, and no
get so far has read the last slot of the array, semaphore and queue agree between the calls, and
a get that has passed the semaphore delivers a message unless it is the one of the last slot. -/
theorem ipc_credits_run (hr : Run ipcStep (fun s op => op.Regular s) ipcAtInit ops s) :
    (∀ entry, (∀ c ∈ s.calls, ¬ c.Between entry) →
      (s.ipcQueues entry).sem = (s.ipcQueues entry).queue.queued) ∧
    ∀ c ∈ s.calls, ∀ entry sync, c.request = .get sync → c.stage = .taken entry →
      (s.Delivers c ↔ (s.ipcQueues entry).queue.NotLast QUEUESIZE) := by
  have h : s.Counted := hr.invariant (fun h hop hs => ipcStep_counted h hop hs) ipcAtInit_counted
  exact ⟨fun entry hrest => h.sem_eq hrest, fun c hc entry sync hreq hstage =>
    h.delivers_iff hc hreq hstage⟩

/-- An asynchronous send, with no other step in between. -/
def ipcBufferSendAsync (pid : ProcessId) (shmemId : INT32) (target : ProcessId) (entry : Nat) :
    List IpcOp :=
  let step stage := IpcOp.step ⟨pid, .send shmemId target false, stage⟩ true
  [.call pid (.send shmemId target false), step .findEntry, step (.found entry),
    step (.queued entry), step .woken]

theorem ipc_credits_run_get : ∃ s, Run ipcStep (fun s op => op.Regular s) ipcAtInit
    (ipcBufferSendAsync 1 5 2 0 ++ [.call 2 (.get true), .step ⟨2, .get true, .findEntry⟩ true,
      .step ⟨2, .get true, .found 0⟩ true]) s ∧ s.Delivers ⟨2, .get true, .taken 0⟩ := by
  obtain ⟨s, hr, hs⟩ := Run.of_exec_any
    (show (exec ipcStep (fun s op => op.Regular s) ipcAtInit
      (ipcBufferSendAsync 1 5 2 0 ++ [.call 2 (.get true), .step ⟨2, .get true, .findEntry⟩ true,
        .step ⟨2, .get true, .found 0⟩ true])).any
        (fun s => decide (⟨2, .get true, .taken 0⟩ ∈ s.calls ∧
          (s.ipcQueues 0).queue.NotLast QUEUESIZE)) = true by decide +kernel)
  obtain ⟨hc, hlast⟩ := of_decide_eq_true hs
  exact ⟨s, hr, ((ipc_credits_run hr).2 _ hc 0 true rfl rfl).mpr hlast⟩

/-- The sends are more than the queue has room for, and each has its credit. -/
theorem ipc_credits_burst : ∃ s, Run ipcStep (fun _ _ => True) ipcAtInit
    (List.replicate 250 (ipcBufferSendAsync 1 5 2 0)).flatten s ∧ s.calls = [] ∧
    (s.ipcQueues 0).owner = 2 ∧ (s.ipcQueues 0).sem = 250 ∧ (s.ipcQueues 0).queue.queued = 249 := by
  obtain ⟨s, hr, hs⟩ := Run.of_exec_any
    (show (exec ipcStep (fun _ _ => True) ipcAtInit
      (List.replicate 250 (ipcBufferSendAsync 1 5 2 0)).flatten).any
        (fun s => decide (s.calls = [] ∧ (s.ipcQueues 0).owner = 2 ∧ (s.ipcQueues 0).sem = 250 ∧
          (s.ipcQueues 0).queue.queued = 249)) = true by decide +kernel)
  exact ⟨s, hr, of_decide_eq_true hs⟩

end Alliance.SORB
