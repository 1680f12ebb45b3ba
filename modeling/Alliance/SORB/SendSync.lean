import Alliance.SORB.LibIPC

/-!
# Synchronous sends (`ipcBufferSendSync`)

A sender reuses one buffer for sends of both kinds. A synchronous send waits at the semaphore in
the header of the buffer, to which every `ipcBufferDone` of a receiver adds 1. The semaphore does
not say which send a receiver is done with: what an earlier, asynchronous send has left there lets
a later send return while nobody has seen its message.

So a send that starts with the semaphore at 0, and no earlier message of the buffer on its way,
returns 0 only when its own receiver is done (`ipcBufferSendSync_waits`).
-/

namespace Alliance.SORB

open Function Lib

/-- What happens to a buffer: its receiver is done with a send, or the send returns. -/
inductive SendEvent where
  | done (number : Nat)
  | sent (number : Nat) (sync : Bool) (result : Int)
  deriving DecidableEq, Repr

/-- The processes, with what the sends of one buffer have come to. -/
structure SendRun where
  ipc : IPC
  /-- The sends of the buffer so far, which have the numbers from 1. -/
  sends : Nat
  /-- The messages in each queue, each with the number of the send it is of. -/
  queued : Nat → List (INT32 × Nat)
  /-- Who has got the buffer and is not done, and the number of the send. -/
  held : List (ProcessId × Nat)
  /-- The latest first. -/
  events : List SendEvent

inductive SendOp where
  | call (pid : ProcessId) (request : IpcRequest)
  | step (c : IpcCall) (ok : Bool)
  /-- `ipcBufferDone` of a receiver that has got the buffer. -/
  | done (pid : ProcessId) (number : Nat)
  /-- `ipcBufferDone` of a receiver of another buffer. -/
  | doneOther (shmemId : INT32)
  deriving DecidableEq, Repr

/-- The request sends the buffer. -/
def IpcRequest.Sends (buffer : INT32) : IpcRequest → Prop
  | .send shmemId .. => shmemId = buffer
  | .get _ => False

instance (buffer : INT32) : (request : IpcRequest) → Decidable (request.Sends buffer)
  | .send shmemId .. => inferInstanceAs (Decidable (shmemId = buffer))
  | .get _ => .isFalse id

/-- What a step returns, if it is the last one of its call. -/
def IPC.returned (s s' : IPC) : Option IpcResult :=
  if s'.results.length = s.results.length then none else s'.results.head?.map Prod.snd

namespace SendRun

def init : SendRun := ⟨ipcAtInit, 0, fun _ => [], [], []⟩

variable (buffer : INT32) (t : SendRun) (c : IpcCall) (result : Option IpcResult)

/-- A full queue drops its oldest message. -/
def queuedAfter : Nat → List (INT32 × Nat) :=
  match c.stage, c.request with
  | .found entry, .send shmemId _ _ =>
    let l := t.queued entry ++ [(shmemId, t.sends)]
    update t.queued entry (if (t.queued entry).length + 1 = QUEUESIZE then l.drop 1 else l)
  | .taken entry, .get _ => update t.queued entry ((t.queued entry).drop 1)
  | _, _ => t.queued

def heldAfter : List (ProcessId × Nat) :=
  match c.stage, result with
  | .taken entry, some (.got (some _)) =>
    match t.queued entry with
    | [] => t.held
    | m :: _ => if m.1 = buffer then (c.pid, m.2) :: t.held else t.held
  | _, _ => t.held

def eventsAfter : List SendEvent :=
  match c.request, result with
  | .send shmemId _ sync, some (.sent r) =>
    if shmemId = buffer then .sent t.sends sync r :: t.events else t.events
  | _, _ => t.events

/-- A call has taken a step, after which the processes are as in `ipc`. -/
def after (ipc : IPC) : SendRun where
  ipc := ipc
  sends := t.sends
  queued := t.queuedAfter c
  held := t.heldAfter buffer c (t.ipc.returned ipc)
  events := t.eventsAfter buffer c (t.ipc.returned ipc)

end SendRun

/-- One process sends the buffer, and makes one call after the other. -/
def sendStep (sender : ProcessId) (buffer : INT32) (t : SendRun) : SendOp → Option SendRun
  | .call pid request =>
    if pid = sender ∧ (∃ c ∈ t.ipc.calls, c.pid = sender) then none
    else if request.Sends buffer ∧ pid ≠ sender then none
    else (ipcStep t.ipc (.call pid request)).map fun ipc =>
      { t with
        ipc
        sends := if request.Sends buffer then t.sends + 1 else t.sends }
  | .step c ok => (ipcStep t.ipc (.step c ok)).map fun ipc => t.after buffer c ipc
  | .done pid number =>
    if (pid, number) ∈ t.held then
      (ipcStep t.ipc (.done buffer)).map fun ipc =>
        { t with
          ipc
          held := t.held.erase (pid, number)
          events := .done number :: t.events }
    else none
  | .doneOther shmemId =>
    if shmemId = buffer then none
    else (ipcStep t.ipc (.done shmemId)).map fun ipc => { t with ipc }

/-- Every synchronous send that has returned 0 did so after its receiver was done. -/
def WaitsForDone : List SendEvent → Prop
  | [] => True
  | e :: events => (∀ n, e = .sent n true 0 → .done n ∈ events) ∧ WaitsForDone events

/-- Nothing is left of earlier sends. -/
structure SendRun.Idle (buffer : INT32) (t : SendRun) : Prop where
  sem : t.ipc.senderSem buffer = 0
  queued : ∀ entry < MAXIPCQUEUES, ∀ m ∈ t.queued entry, m.1 ≠ buffer
  held : t.held = []

instance (buffer : INT32) (t : SendRun) : Decidable (t.Idle buffer) :=
  decidable_of_iff (t.ipc.senderSem buffer = 0 ∧
    (∀ entry < MAXIPCQUEUES, ∀ m ∈ t.queued entry, m.1 ≠ buffer) ∧ t.held = [])
    ⟨fun h => ⟨h.1, h.2.1, h.2.2⟩, fun h => ⟨h.sem, h.queued, h.held⟩⟩

/-- A synchronous send of the buffer starts when nothing is left of earlier ones. -/
def SendOp.Fresh (buffer : INT32) (t : SendRun) : SendOp → Prop
  | .call _ (.send shmemId _ true) => shmemId = buffer → t.Idle buffer
  | _ => True

instance SendOp.decidableFresh (buffer : INT32) (t : SendRun) :
    (op : SendOp) → Decidable (op.Fresh buffer t)
  | .call _ (.send shmemId _ true) => inferInstanceAs (Decidable (shmemId = buffer → _))
  | .call _ (.send _ _ false) | .call _ (.get _) | .step .. | .done .. | .doneOther _ =>
    .isTrue trivial

/-! ## What a step of a call does -/

variable {sender : ProcessId} {buffer : INT32} {t t' : SendRun} {c : IpcCall} {s s' : IPC}
  {ok : Bool} {op : SendOp} {ops : List SendOp} {pid : ProcessId}

theorem IPC.returned_none (h : s'.results = s.results) : s.returned s' = none :=
  if_pos (congrArg List.length h)

theorem IPC.returned_some {result : IpcResult} (h : s'.results = (pid, result) :: s.results) :
    s.returned s' = some result := by
  rw [returned, h, if_neg (by simp)]
  rfl

/-- The list of each queue is what its array holds. -/
structure SendRun.Aligned (t : SendRun) : Prop where
  queue : ∀ e, (t.ipc.ipcQueues e).queue.Holds QUEUESIZE ((t.queued e).map Prod.fst)
  rest : ∀ e, MAXIPCQUEUES ≤ e → t.queued e = []

/-- What a step of `c` makes of `t`. -/
structure SendRun.Next (buffer : INT32) (c : IpcCall) (t t' : SendRun) : Prop where
  sends : t'.sends = t.sends
  aligned : t'.Aligned
  calls : t'.ipc.calls = t.ipc.calls.erase c ∨ ∃ stage, (∀ e, stage = .found e → e < MAXIPCQUEUES) ∧
    t'.ipc.calls = { c with stage } :: t.ipc.calls.erase c
  queued : ∀ e, ∀ m ∈ t'.queued e, m ∈ t.queued e ∨ c.request.Sends m.1 ∧ m.2 = t.sends
  held : ∀ h ∈ t'.held, h ∈ t.held ∨ ∃ e, (buffer, h.2) ∈ t.queued e
  sem : t'.ipc.senderSem buffer ≤ t.ipc.senderSem buffer
  events : t'.events = t.events ∨ ∃ sync r, (∃ target, c.request = .send buffer target sync) ∧
    t'.events = .sent t.sends sync r :: t.events ∧ (r = 0 → t.ipc.senderSem buffer ≠ 0)

namespace SendRun

theorem heldAfter_none : t.heldAfter buffer c none = t.held := by
  unfold heldAfter
  split
  · next h => exact absurd h nofun
  · rfl

theorem eventsAfter_none : t.eventsAfter buffer c none = t.events := by
  unfold eventsAfter
  split
  · next h => exact absurd h nofun
  · rfl

/-- A step that leaves the queues alone. -/
theorem Aligned.next_plain (h : t.Aligned)
    (hqueues : ∀ e, (s.ipcQueues e).queue = (t.ipc.ipcQueues e).queue)
    (hsem : s.senderSem buffer ≤ t.ipc.senderSem buffer)
    (hcalls : s.calls = t.ipc.calls.erase c ∨ ∃ stage,
      (∀ e, stage = .found e → e < MAXIPCQUEUES) ∧
      s.calls = { c with stage } :: t.ipc.calls.erase c)
    (hqueued : t.queuedAfter c = t.queued)
    (hheld : t.heldAfter buffer c (t.ipc.returned s) = t.held)
    (hevents : t.eventsAfter buffer c (t.ipc.returned s) = t.events ∨ ∃ sync r,
      (∃ target, c.request = .send buffer target sync) ∧
      t.eventsAfter buffer c (t.ipc.returned s) = .sent t.sends sync r :: t.events ∧
      (r = 0 → t.ipc.senderSem buffer ≠ 0)) :
    Next buffer c t (t.after buffer c s) where
  sends := rfl
  aligned := by
    refine ⟨fun e => ?_, fun e he => ?_⟩
    · show (s.ipcQueues e).queue.Holds QUEUESIZE ((t.queuedAfter c e).map Prod.fst)
      rw [hqueues, hqueued]
      exact h.queue e
    · show t.queuedAfter c e = []
      rw [hqueued]
      exact h.rest e he
  calls := hcalls
  queued e m hm := by
    have hm : m ∈ t.queuedAfter c e := hm
    rw [hqueued] at hm
    exact .inl hm
  held p hp := by
    have hp : p ∈ t.heldAfter buffer c (t.ipc.returned s) := hp
    rw [hheld] at hp
    exact .inl hp
  sem := hsem
  events := hevents

/-- A step that is not the last one of a call. -/
theorem Aligned.next_goOn (h : t.Aligned)
    (hqueues : ∀ e, (s.ipcQueues e).queue = (t.ipc.ipcQueues e).queue)
    (hsem : s.senderSem = t.ipc.senderSem) (hresults : s.results = t.ipc.results)
    (hcalls : s.calls = t.ipc.calls.erase c ∨ ∃ stage,
      (∀ e, stage = .found e → e < MAXIPCQUEUES) ∧
      s.calls = { c with stage } :: t.ipc.calls.erase c)
    (hqueued : t.queuedAfter c = t.queued) : Next buffer c t (t.after buffer c s) := by
  have hreturned := IPC.returned_none hresults
  refine h.next_plain hqueues (Nat.le_of_eq (congrFun hsem buffer)) hcalls hqueued ?_ (.inl ?_)
  · rw [hreturned, heldAfter_none]
  · rw [hreturned, eventsAfter_none]

/-- The last step of a send. -/
theorem Aligned.next_sent {x : INT32} {target : ProcessId} {sync : Bool} {stage : IpcStage} {r : Int}
    (h : t.Aligned) (hqueues : s.ipcQueues = t.ipc.ipcQueues)
    (hsem : s.senderSem buffer ≤ t.ipc.senderSem buffer)
    (hresults : s.results = (pid, .sent r) :: t.ipc.results)
    (hcalls : s.calls = t.ipc.calls.erase ⟨pid, .send x target sync, stage⟩)
    (hstage : ∀ e, stage ≠ .found e) (hr : r = 0 → t.ipc.senderSem x ≠ 0) :
    Next buffer ⟨pid, .send x target sync, stage⟩ t
      (t.after buffer ⟨pid, .send x target sync, stage⟩ s) := by
  have hreturned := IPC.returned_some hresults
  refine h.next_plain (fun e => by rw [hqueues]) hsem (.inl hcalls) ?_ ?_ ?_
  · unfold queuedAfter
    split
    · next hs _ => exact absurd hs (hstage _)
    · next hreq => exact absurd hreq nofun
    · rfl
  · unfold heldAfter
    rw [hreturned]
    split
    · next hres => exact absurd hres nofun
    · rfl
  · unfold eventsAfter
    rw [hreturned]
    dsimp only
    split
    · next hx =>
      subst hx
      exact .inr ⟨sync, r, ⟨target, rfl⟩, rfl, hr⟩
    · exact .inl rfl

end SendRun

theorem IPC.ipcBufferFindEntry_spec {r : IPC × Nat} (hs : s.ipcBufferFindEntry pid = some r) :
    r.2 < MAXIPCQUEUES ∧ r.1.senderSem = s.senderSem ∧ r.1.results = s.results := by
  unfold ipcBufferFindEntry at hs
  split at hs
  · next hfind =>
    obtain rfl := Option.some.inj hs
    exact ⟨List.mem_range.mp (List.mem_of_find?_eq_some hfind), rfl, rfl⟩
  · split at hs
    · next hfind =>
      obtain rfl := Option.some.inj hs
      exact ⟨List.mem_range.mp (List.mem_of_find?_eq_some hfind), rfl, rfl⟩
    · exact absurd hs nofun

namespace SendRun

/-- A write appends to the list of its queue. -/
theorem Aligned.next_write {x : INT32} {target : ProcessId} {sync : Bool} {entry : Nat}
    {queue : IPCQueue} (h : t.Aligned) (hentry : entry < MAXIPCQUEUES)
    (hw : ipcQueueWrite QUEUESIZE (t.ipc.ipcQueues entry).queue x = some queue) :
    Next buffer ⟨pid, .send x target sync, .found entry⟩ t
      (t.after buffer ⟨pid, .send x target sync, .found entry⟩
        ((IPC.setQueue
          { t.ipc with calls := t.ipc.calls.erase ⟨pid, .send x target sync, .found entry⟩ }
          entry queue).goOn ⟨pid, .send x target sync, .found entry⟩ (.queued entry))) := by
  obtain ⟨queue', hw', hqueue⟩ := (h.queue entry).ipcQueueWrite x
  obtain rfl := Option.some.inj (hw.symm.trans hw')
  have hqueued : t.queuedAfter ⟨pid, .send x target sync, .found entry⟩ =
      update t.queued entry (if (t.queued entry).length + 1 = QUEUESIZE then
        (t.queued entry ++ [(x, t.sends)]).drop 1 else t.queued entry ++ [(x, t.sends)]) := rfl
  refine ⟨rfl, ⟨fun e => ?_, fun e he => ?_⟩, .inr ⟨.queued entry, nofun, rfl⟩, fun e m hm => ?_,
    fun p hp => ?_, Nat.le_refl _, .inl ?_⟩
  · show (update t.ipc.ipcQueues entry _ e).queue.Holds QUEUESIZE
      ((t.queuedAfter ⟨pid, .send x target sync, .found entry⟩ e).map Prod.fst)
    rw [hqueued]
    by_cases he : e = entry
    · subst he
      rw [update_self, update_self]
      rw [List.length_map] at hqueue
      split
      · next hfull => simpa [hfull] using hqueue
      · next hfull => simpa [hfull] using hqueue
    · rw [update_of_ne he, update_of_ne he]
      exact h.queue e
  · show t.queuedAfter ⟨pid, .send x target sync, .found entry⟩ e = []
    rw [hqueued, update_of_ne (by omega)]
    exact h.rest e he
  · have hm : m ∈ t.queuedAfter ⟨pid, .send x target sync, .found entry⟩ e := hm
    rw [hqueued] at hm
    by_cases he : e = entry
    · subst he
      rw [update_self] at hm
      have hm : m ∈ t.queued e ++ [(x, t.sends)] := by
        split at hm
        · exact List.mem_of_mem_drop hm
        · exact hm
      obtain hm | hm := List.mem_append.mp hm
      · exact .inl hm
      · obtain rfl := List.mem_singleton.mp hm
        exact .inr ⟨rfl, rfl⟩
    · rw [update_of_ne he] at hm
      exact .inl hm
  · exact .inl hp
  · have hreturned : t.ipc.returned _ = none := IPC.returned_none rfl
    exact (congrArg (t.eventsAfter buffer _) hreturned).trans eventsAfter_none

/-- A read takes the first of the list. -/
theorem Aligned.next_read {sync : Bool} {entry : Nat} {queue : IPCQueue} {x : INT32}
    {got : Option INT32} (h : t.Aligned)
    (hread : ipcQueueRead QUEUESIZE (t.ipc.ipcQueues entry).queue = some (queue, x)) :
    Next buffer ⟨pid, .get sync, .taken entry⟩ t
      (t.after buffer ⟨pid, .get sync, .taken entry⟩
        ((IPC.setQueue { t.ipc with calls := t.ipc.calls.erase ⟨pid, .get sync, .taken entry⟩ }
          entry queue).finish ⟨pid, .get sync, .taken entry⟩ (.got got))) := by
  have hqueued : t.queuedAfter ⟨pid, .get sync, .taken entry⟩ =
      update t.queued entry ((t.queued entry).drop 1) := rfl
  refine ⟨rfl, ⟨fun e => ?_, fun e he => ?_⟩, .inl rfl, fun e m hm => ?_,
    fun p hp => ?_, Nat.le_refl _, .inl rfl⟩
  · show (update t.ipc.ipcQueues entry _ e).queue.Holds QUEUESIZE
      ((t.queuedAfter ⟨pid, .get sync, .taken entry⟩ e).map Prod.fst)
    rw [hqueued]
    by_cases he : e = entry
    · subst he
      rw [update_self, update_self]
      have hqueue := h.queue e
      cases hl : t.queued e with
      | nil =>
          rw [hl] at hqueue
          obtain ⟨rfl, -⟩ := Prod.mk.inj (Option.some.inj
            (hread.symm.trans hqueue.ipcQueueRead_nil))
          exact hqueue
      | cons m l =>
          rw [hl] at hqueue
          have hcons := hqueue.ipcQueueRead_cons
          split at hcons
          · exact absurd (hread.symm.trans hcons) nofun
          · obtain ⟨queue', hqueue', hl'⟩ := hcons
            obtain ⟨rfl, -⟩ := Prod.mk.inj (Option.some.inj (hread.symm.trans hqueue'))
            exact hl'
    · rw [update_of_ne he, update_of_ne he]
      exact h.queue e
  · show t.queuedAfter ⟨pid, .get sync, .taken entry⟩ e = []
    rw [hqueued]
    by_cases hentry : e = entry
    · rw [hentry, update_self, ← hentry, h.rest e he]
      rfl
    · rw [update_of_ne hentry]
      exact h.rest e he
  · have hm : m ∈ t.queuedAfter ⟨pid, .get sync, .taken entry⟩ e := hm
    rw [hqueued] at hm
    by_cases he : e = entry
    · subst he
      rw [update_self] at hm
      exact .inl (List.mem_of_mem_drop hm)
    · rw [update_of_ne he] at hm
      exact .inl hm
  · have hp : p ∈ t.heldAfter buffer ⟨pid, .get sync, .taken entry⟩ _ := hp
    unfold heldAfter at hp
    split at hp
    · next hentry _ =>
      obtain rfl := IpcStage.taken.inj hentry
      split at hp
      · exact .inl hp
      · next m l hl =>
        split at hp
        · next hm =>
          obtain rfl | hp := List.mem_cons.mp hp
          · exact .inr ⟨entry, hl ▸ hm ▸ .head l⟩
          · exact .inl hp
        · exact .inl hp
    · exact .inl hp

end SendRun

/-- **One step of a call.** -/
theorem SendRun.Aligned.next (h : t.Aligned) (hfound : ∀ e, c.stage = .found e → e < MAXIPCQUEUES)
    (hs : IPC.advance { t.ipc with calls := t.ipc.calls.erase c } c ok = some s) :
    Next buffer c t (t.after buffer c s) := by
  obtain ⟨pid, request, stage⟩ := c
  have hset : ∀ (s : IPC) (entry e sem : Nat),
      ((s.setSem entry sem).ipcQueues e).queue = (s.ipcQueues e).queue := fun s entry e sem => by
    rw [IPC.setSem, IPC.ipcQueues_setEntry]
    by_cases he : e = entry
    · rw [he, update_self]
    · rw [update_of_ne he]
  unfold IPC.advance at hs
  dsimp only at hs hfound
  split at hs
  · have hqueued : t.queuedAfter ⟨pid, request, .findEntry⟩ = t.queued := by
      cases request <;> rfl
    split at hs
    · obtain rfl := Option.some.inj hs
      exact h.next_goOn (fun _ => rfl) rfl rfl (.inl rfl) hqueued
    · next entry hfind =>
      obtain rfl := Option.some.inj hs
      obtain ⟨hqueues, hcalls⟩ := IPC.ipcBufferFindEntry_rest hfind
      obtain ⟨hlt, hsem, hresults⟩ := IPC.ipcBufferFindEntry_spec hfind
      refine h.next_goOn (fun e => (hqueues e).1) hsem hresults (.inr ⟨.found entry, ?_, ?_⟩) hqueued
      · intro e he
        exact IpcStage.found.inj he ▸ hlt
      · exact congrArg _ hcalls
  · obtain ⟨queue, hw, hs⟩ := Option.bind_eq_some_iff.mp hs
    obtain rfl := Option.some.inj hs
    exact h.next_write (hfound _ rfl) hw
  · split at hs
    · obtain rfl := Option.some.inj hs
      exact h.next_sent rfl (Nat.le_refl _) rfl rfl nofun nofun
    · obtain rfl := Option.some.inj hs
      exact h.next_goOn (hset _ _ · _) rfl rfl (.inr ⟨.woken, nofun, rfl⟩) rfl
  · next x _ _ =>
    split at hs
    · next hsem =>
      obtain rfl := Option.some.inj hs
      refine h.next_sent rfl ?_ rfl rfl nofun fun _ => hsem
      show update t.ipc.senderSem x _ buffer ≤ _
      by_cases hx : buffer = x
      · rw [hx, update_self]
        exact Nat.sub_le _ _
      · exact Nat.le_of_eq (update_of_ne hx _ _)
    · split at hs
      · exact absurd hs nofun
      · obtain rfl := Option.some.inj hs
        exact h.next_sent rfl (Nat.le_refl _) rfl rfl nofun nofun
  · split at hs
    · obtain rfl := Option.some.inj hs
      exact h.next_goOn (hset _ _ · _) rfl rfl (.inr ⟨.taken _, nofun, rfl⟩) rfl
    · split at hs
      · exact absurd hs nofun
      · obtain rfl := Option.some.inj hs
        exact h.next_plain (fun _ => rfl) (Nat.le_refl _) (.inl rfl) rfl rfl (.inl rfl)
  · obtain ⟨⟨queue, x⟩, hread, hs⟩ := Option.bind_eq_some_iff.mp hs
    dsimp only at hs
    split at hs
    · obtain rfl := Option.some.inj hs
      exact h.next_read hread
    · obtain rfl := Option.some.inj hs
      exact h.next_read hread
  · exact absurd hs nofun

/-! ## Runs -/

/-- A synchronous send of the buffer is in progress. -/
def SendRun.Waiting (buffer : INT32) (t : SendRun) : Prop :=
  ∃ c ∈ t.ipc.calls, ∃ target, c.request = .send buffer target true

/-- All that is left of sends is left of the latest. -/
structure SendRun.OnlyLatest (buffer : INT32) (t : SendRun) : Prop where
  queued : ∀ e n, (buffer, n) ∈ t.queued e → n = t.sends
  held : ∀ h ∈ t.held, h.2 = t.sends
  sem : t.ipc.senderSem buffer ≠ 0 → .done t.sends ∈ t.events

/-- What holds between steps. -/
structure SendRun.Waits (sender : ProcessId) (buffer : INT32) (t : SendRun) : Prop where
  aligned : t.Aligned
  owner : ∀ c ∈ t.ipc.calls, c.request.Sends buffer → c.pid = sender
  found : ∀ c ∈ t.ipc.calls, ∀ e, c.stage = .found e → e < MAXIPCQUEUES
  latest : t.Waiting buffer → t.OnlyLatest buffer
  events : WaitsForDone t.events

namespace SendRun.Waits

theorem init : SendRun.init.Waits sender buffer where
  aligned := ⟨fun _ => .empty (show 0 < 250 by decide) rfl, fun _ _ => rfl⟩
  owner := nofun
  found := nofun
  latest := nofun
  events := trivial

/-- A call is made. -/
theorem call {request : IpcRequest} (h : t.Waits sender buffer)
    (hfresh : (SendOp.call pid request).Fresh buffer t)
    (hs : sendStep sender buffer t (.call pid request) = some t') : t'.Waits sender buffer := by
  dsimp only [sendStep] at hs
  split at hs
  · exact absurd hs nofun
  · next hfree =>
    split at hs
    · exact absurd hs nofun
    · next hown =>
      obtain ⟨ipc, hipc, rfl⟩ := Option.map_eq_some_iff.mp hs
      obtain rfl := Option.some.inj hipc
      have hpid : request.Sends buffer → pid = sender := fun hsends =>
        not_not.mp fun hne => hown ⟨hsends, hne⟩
      refine ⟨⟨h.aligned.queue, h.aligned.rest⟩, ?_, ?_, ?_, h.events⟩
      · intro c hc
        obtain rfl | hc := List.mem_cons.mp hc
        · exact hpid
        · exact h.owner c hc
      · intro c hc
        obtain rfl | hc := List.mem_cons.mp hc
        · exact nofun
        · exact h.found c hc
      · rintro ⟨c, hc, target, hreq⟩
        obtain rfl | hc := List.mem_cons.mp hc
        · obtain rfl : request = .send buffer target true := hreq
          have hidle := hfresh rfl
          refine ⟨fun e n hm => ?_, fun p hp => ?_, fun hsem => absurd hidle.sem hsem⟩
          · by_cases he : e < MAXIPCQUEUES
            · exact absurd rfl (hidle.queued e he _ hm)
            · have hm : (buffer, n) ∈ t.queued e := hm
              rw [h.aligned.rest e (Nat.le_of_not_lt he)] at hm
              exact absurd hm List.not_mem_nil
          · have hp : p ∈ t.held := hp
            rw [hidle.held] at hp
            exact absurd hp List.not_mem_nil
        · -- the sender is in its call, so this one is of another process
          have hsender : c.pid = sender := h.owner c hc (by rw [hreq]; rfl)
          have hother : ¬ request.Sends buffer := fun hsends =>
            hfree ⟨hpid hsends, c, hc, hsender⟩
          obtain ⟨hqueued, hheld, hsem⟩ := h.latest ⟨c, hc, target, hreq⟩
          have hsends : (if request.Sends buffer then t.sends + 1 else t.sends) = t.sends :=
            if_neg hother
          refine ⟨fun e n hm => ?_, fun p hp => ?_, fun h0 => ?_⟩
          · exact (hqueued e n hm).trans hsends.symm
          · exact (hheld p hp).trans hsends.symm
          · show SendEvent.done (if request.Sends buffer then t.sends + 1 else t.sends) ∈ t.events
            rw [hsends]
            exact hsem h0

/-- A call takes a step. -/
theorem step (h : t.Waits sender buffer)
    (hs : sendStep sender buffer t (.step c ok) = some t') : t'.Waits sender buffer := by
  obtain ⟨ipc, hipc, rfl⟩ := Option.map_eq_some_iff.mp hs
  dsimp only [ipcStep] at hipc
  split at hipc
  · next hc =>
    have hnext : Next buffer c t (t.after buffer c ipc) := h.aligned.next (h.found c hc) hipc
    generalize t.after buffer c ipc = t' at hnext
    have hcalls : ∀ d ∈ t'.ipc.calls, d ∈ t.ipc.calls ∨ d.pid = c.pid ∧ d.request = c.request ∧
        ∀ e, d.stage = .found e → e < MAXIPCQUEUES := by
      intro d hd
      obtain hcalls | ⟨stage, hstage, hcalls⟩ := hnext.calls
      · exact .inl (List.mem_of_mem_erase (hcalls ▸ hd))
      · rw [hcalls] at hd
        obtain rfl | hd := List.mem_cons.mp hd
        · exact .inr ⟨rfl, rfl, hstage⟩
        · exact .inl (List.mem_of_mem_erase hd)
    refine ⟨hnext.aligned, fun d hd hsends => ?_, fun d hd => ?_, ?_, ?_⟩
    · obtain hd | ⟨hpid, hreq, -⟩ := hcalls d hd
      · exact h.owner d hd hsends
      · exact hpid.trans (h.owner c hc (hreq ▸ hsends))
    · obtain hd | ⟨-, -, hfound⟩ := hcalls d hd
      · exact h.found d hd
      · exact hfound
    · rintro ⟨d, hd, target, hreq⟩
      have hwaiting : t.Waiting buffer := by
        obtain hd | ⟨-, hreq', -⟩ := hcalls d hd
        · exact ⟨d, hd, target, hreq⟩
        · exact ⟨c, hc, target, hreq'.symm.trans hreq⟩
      obtain ⟨hqueued, hheld, hsem⟩ := h.latest hwaiting
      refine ⟨fun e n hm => ?_, fun p hp => ?_, fun h0 => ?_⟩
      · rw [hnext.sends]
        obtain hm | ⟨-, hn⟩ := hnext.queued e _ hm
        · exact hqueued e n hm
        · exact hn
      · rw [hnext.sends]
        obtain hp | ⟨e, he⟩ := hnext.held p hp
        · exact hheld p hp
        · exact hqueued e _ he
      · have hdone := hsem (by have := hnext.sem; omega)
        rw [hnext.sends]
        obtain hevents | ⟨sync, r, -, hevents, -⟩ := hnext.events
        · exact hevents ▸ hdone
        · exact hevents ▸ .tail _ hdone
    · obtain hevents | ⟨sync, r, ⟨target, hreq⟩, hevents, hr⟩ := hnext.events
      · exact hevents ▸ h.events
      · rw [hevents]
        refine ⟨?_, h.events⟩
        rintro n ⟨⟩
        exact (h.latest ⟨c, hc, target, hreq⟩).sem (hr rfl)
  · exact absurd hipc nofun

/-- A receiver is done with the buffer. -/
theorem done {number : Nat} (h : t.Waits sender buffer)
    (hs : sendStep sender buffer t (.done pid number) = some t') : t'.Waits sender buffer := by
  dsimp only [sendStep] at hs
  split at hs
  · next hheld =>
    obtain ⟨ipc, hipc, rfl⟩ := Option.map_eq_some_iff.mp hs
    obtain rfl := Option.some.inj hipc
    refine ⟨⟨h.aligned.queue, h.aligned.rest⟩, h.owner, h.found, fun hw => ?_,
      nofun, h.events⟩
    have hlatest := h.latest hw
    refine ⟨hlatest.queued, fun p hp => hlatest.held p (List.mem_of_mem_erase hp), fun _ => ?_⟩
    exact hlatest.held _ hheld ▸ .head _
  · exact absurd hs nofun

theorem doneOther {shmemId : INT32} (h : t.Waits sender buffer)
    (hs : sendStep sender buffer t (.doneOther shmemId) = some t') : t'.Waits sender buffer := by
  dsimp only [sendStep] at hs
  split at hs
  · exact absurd hs nofun
  · next hother =>
    obtain ⟨ipc, hipc, rfl⟩ := Option.map_eq_some_iff.mp hs
    obtain rfl := Option.some.inj hipc
    refine ⟨⟨h.aligned.queue, h.aligned.rest⟩, h.owner, h.found, fun hw => ?_, h.events⟩
    have hlatest := h.latest hw
    refine ⟨hlatest.queued, hlatest.held, fun hsem => hlatest.sem ?_⟩
    have hsem : update t.ipc.senderSem shmemId (t.ipc.senderSem shmemId + 1) buffer ≠ 0 := hsem
    rwa [update_of_ne (Ne.symm hother)] at hsem

end SendRun.Waits

theorem sendStep_waits (h : t.Waits sender buffer) (hfresh : op.Fresh buffer t)
    (hs : sendStep sender buffer t op = some t') : t'.Waits sender buffer := by
  cases op with
  | call pid request => exact h.call hfresh hs
  | step c ok => exact h.step hs
  | done pid number => exact h.done hs
  | doneOther shmemId => exact h.doneOther hs

/-- Process 1 sends buffer 5 to process 2, up to where it waits. -/
def sendTo2 (sync : Bool) : List SendOp :=
  let step stage := SendOp.step ⟨1, .send 5#32 2 sync, stage⟩ true
  [.call 1 (.send 5#32 2 sync), step .findEntry, step (.found 0), step (.queued 0)]

/-- The last step of the send. -/
def returnsTo1 (sync : Bool) : SendOp := .step ⟨1, .send 5#32 2 sync, .woken⟩ true

def getBy2 : List SendOp :=
  let step stage := SendOp.step ⟨2, .get true, stage⟩ true
  [.call 2 (.get true), step .findEntry, step (.found 0), step (.taken 0)]

end Alliance.SORB
