import Alliance.CK.SchedMembership

/-!
# Reading the root of a heap

`CKgetNextEvent`, `CKgetNextTime` and `CKgetNextQuantum` read the first slot of a heap
whether or not it is in use. Here the operations of the scheduler are written once more with
the three as operations that fault on an empty heap, in the control flow of the source, so
that an operation reads no stale slot exactly if it does not end in that fault. Without the
fault they do what the operations themselves do.

The guards of the source cover every use but one: the flush that makes a realtime thread
timesharing again takes the time of the next timesharing event, if there is one or not.
-/

namespace Alliance.CK

open Function Lib

inductive Fault where
  /-- The root of an empty heap is read. -/
  | emptyHeap
  /-- An access outside a heap array. -/
  | outsideHeap
  deriving DecidableEq, Repr

abbrev Checked := Except Fault

/-- An operation that is undefined where it leaves a heap array. -/
def inHeap {α : Type} : Option α → Checked α
  | some x => .ok x
  | none => .error .outsideHeap

namespace Heaps

variable (m : Heaps) (ht : HeapType)

def nextEvent : Checked Addr :=
  if m.ckIsHeapEmpty ht then .error .emptyHeap else .ok (m.ckGetNextEvent ht)

def nextQuantum : Checked TIME :=
  if m.ckIsHeapEmpty ht then .error .emptyHeap else .ok (m.ckGetNextQuantum ht)

def nextTime : Checked TIME :=
  if m.ckIsHeapEmpty ht then .error .emptyHeap else .ok (m.ckGetNextTime ht)

def enterTimeChecked : Checked TIME := if m.ckIsHeapEmpty ht then .ok 0 else m.nextTime ht

end Heaps

def enterHeapChecked (m : Heaps) (ht : HeapType) (thread : Addr) : Checked Heaps := do
  let t ← m.enterTimeChecked ht
  inHeap (ckSiftup ((m.setTime thread t).setTs thread ht.ts) ht thread)

def ckUnblockThreadChecked (m : Heaps) (thread : Addr) : Checked Heaps :=
  if (m.ev thread).ts = .blocked then enterHeapChecked m .timesharing thread else .ok m

def ckIdleThreadChecked (m : Heaps) (thread : Addr) : Checked Heaps :=
  if (m.ev thread).ts = .blocked then enterHeapChecked m .idle thread else .ok m

def ckPrioritiseChecked (m : Heaps) (event : Addr) : Checked Heaps :=
  if (m.ev event).ts = .running then do
    let t ← m.nextTime .timesharing
    let m := m.setTime event t
    if (m.ev event).heap.heap = .timesharing then
      .ok (siftupFrom m .timesharing event (m.ev event).heap.idx)
    else
      .error .outsideHeap
  else
    .ok m

/-- Only one branch of `CKflushPrevTask` reads the root of a heap. -/
def ckFlushPrevTaskChecked (s : Sched) : Checked Sched :=
  let m := s.heaps
  let curr := s.currtask
  if s.ts curr = .realTime ∧ ¬ cless s.lasttime (m.time curr) then do
    let t ← m.nextTime .timesharing
    let m := (m.setTs curr .running).setTime curr t
    let m ← inHeap (ckRemoveEvent m .realtime (m.ev curr).heap)
    let m ← inHeap (ckSiftup m .timesharing curr)
    .ok { s with heaps := m, doingRealtime := 0 }
  else
    inHeap (ckFlushPrevTask s)

/-- From the label `idle` on. -/
def getIdleTaskChecked (s : Sched) : Checked (Addr × TIME) := do
  let m := s.heaps
  let preempted ←
    if m.ckIsHeapEmpty .realtime then .ok false
    else if m.ckIsHeapEmpty .idle then do
      let t ← m.nextTime .realtime
      .ok (decide (clse (t - s.fudge) ((m.ev idleLoop).quantum + s.realtime)))
    else do
      let t ← m.nextTime .realtime
      let q ← m.nextQuantum .idle
      .ok (decide (clse (t - s.fudge) (q + s.realtime)))
  let period ←
    if preempted then do
      let t ← m.nextTime .realtime
      .ok (t - s.realtime - s.fudge)
    else if m.ckIsHeapEmpty .idle then .ok (m.ev idleLoop).quantum
    else m.nextQuantum .idle
  let task ← if m.ckIsHeapEmpty .idle then .ok idleLoop else m.nextEvent .idle
  .ok (task, period)

/-- From the label `timesharing` on. -/
def getTimesharingTask (m : Heaps) : Checked (Addr × TIME) := do
  let q ← m.nextQuantum .timesharing
  let e ← m.nextEvent .timesharing
  .ok (e, q)

def ckGetNextTaskChecked (s : Sched) : Checked (Addr × TIME × BitVec 8) := do
  let m := s.heaps
  if m.ckIsHeapEmpty .realtime then
    let r ← if m.ckIsHeapEmpty .timesharing then getIdleTaskChecked s else getTimesharingTask m
    .ok (r.1, r.2, s.doingRealtime)
  else
    let t ← m.nextTime .realtime
    if clse (t - s.fudge) s.realtime then
      let q ← m.nextQuantum .realtime
      let e ← m.nextEvent .realtime
      .ok (e, q, s.doingRealtime + 1)
    else if m.ckIsHeapEmpty .timesharing then
      let r ← getIdleTaskChecked s
      .ok (r.1, r.2, s.doingRealtime)
    else
      let q ← m.nextQuantum .timesharing
      if clse (t - s.fudge) (q + s.realtime) then
        let e ← m.nextEvent .timesharing
        .ok (e, t - s.realtime - s.fudge, s.doingRealtime)
      else
        let r ← getTimesharingTask m
        .ok (r.1, r.2, s.doingRealtime)

/-! ## The operations -/

def ckScheduleChecked (s : Sched) (timer : TIME) : Checked Sched := do
  let s ← ckFlushPrevTaskChecked s.takeUserTime
  let s := ckUpdateRealtime s timer
  let r ← ckGetNextTaskChecked s
  .ok (contextSwitch
    { s with
      currtask := r.1, lasttime := s.heaps.time r.1, period := r.2.1, doingRealtime := r.2.2 })

def ckSetThreadStateChecked (s : Sched) (thread : Addr) (state : ThreadState) : Checked Sched :=
  let enter (ht : HeapType) : Checked Sched := do
    let m ← inHeap (leaveHeap s.heaps thread)
    let t ← m.enterTimeChecked ht
    let m' ← enterHeapChecked m ht thread
    .ok ({ s with heaps := m' }.setUserTime thread t)
  match state with
  | .running => if s.ts thread = .running then .ok s else enter .timesharing
  | .blocked => do
    let m ← inHeap (ckBlockThread s.heaps thread)
    .ok { s with heaps := m }
  | .idle => if s.ts thread = .idle then .ok s else enter .idle
  | .realTime => .ok s

def ckThreadTunnelChecked (s : Sched) (thread : Addr) : TunnelType → Checked Sched
  | .conservative => .ok s
  | .swapping => do
    let m ← inHeap (ckBlockThread s.heaps s.currtask)
    if (m.ev thread).ts = .running then
      .ok { s with heaps := m }
    else
      let m ← inHeap (leaveHeap m thread)
      let m ← enterHeapChecked m .timesharing thread
      .ok { s with heaps := m }
  | .unblocking => do
    let m ← ckUnblockThreadChecked s.heaps thread
    .ok { s with heaps := m }

def ckSendSignalToChecked (s : Sched) (thread addr : Addr) (signal extra priority : UDATA) :
    Checked Sched := do
  let x := s.heaps.ev thread
  let newsig := newSignal addr s.currtask signal extra priority
  let m := s.heaps.setEv thread { x with signals := ckSendSignal newsig x.signals }
  let m ← ckUnblockThreadChecked m thread
  .ok { s with heaps := m }

def ckCacheRunningChecked (s : Sched) (thread objectData : Addr) (interruptable : UDATA) :
    Checked Sched := do
  let s := ckLoadThread s thread objectData 0x1000 0x2000 interruptable
  let t ← s.heaps.enterTimeChecked .timesharing
  let m ← enterHeapChecked s.heaps .timesharing thread
  .ok ({ s with heaps := m }.setUserTime thread t)

def schedStepChecked (s : Sched) : SchedOp → Checked Sched
  | .loadThread thread objectData quantum defer interruptable =>
    .ok (ckLoadThread s thread objectData quantum defer interruptable)
  | .cacheRunning thread objectData interruptable =>
    ckCacheRunningChecked s thread objectData interruptable
  | .unloadThread thread => inHeap (ckUnloadThread s thread)
  | .blockThread thread => do
    let m ← inHeap (ckBlockThread s.heaps thread)
    .ok { s with heaps := m }
  | .unblockThread thread => do
    let m ← ckUnblockThreadChecked s.heaps thread
    .ok { s with heaps := m }
  | .idleThread thread => do
    let m ← ckIdleThreadChecked s.heaps thread
    .ok { s with heaps := m }
  | .setThreadState thread state => ckSetThreadStateChecked s thread state
  | .threadTunnel thread type => ckThreadTunnelChecked s thread type
  | .sendSignal thread addr signal extra priority =>
    ckSendSignalToChecked s thread addr signal extra priority
  | .prioritise thread => do
    let m ← ckPrioritiseChecked s.heaps thread
    .ok { s with heaps := m }
  | .schedule timer => ckScheduleChecked s timer
  | .store object value => .ok { s with user := update s.user object value }

/-- The flush takes the time of the next timesharing event only where there is one. -/
def SchedOp.Guarded (s : Sched) : SchedOp → Prop
  | .schedule _ => s.Demotes → ¬ s.heaps.ckIsHeapEmpty .timesharing
  | _ => True

/-! ## Task selection -/

section

variable {m : Heaps} {ht : HeapType} {s : Sched}

theorem nextEvent_eq (h : ¬ m.ckIsHeapEmpty ht) : m.nextEvent ht = .ok (m.ckGetNextEvent ht) :=
  if_neg h

theorem nextQuantum_eq (h : ¬ m.ckIsHeapEmpty ht) :
    m.nextQuantum ht = .ok (m.ckGetNextQuantum ht) :=
  if_neg h

theorem nextTime_eq (h : ¬ m.ckIsHeapEmpty ht) : m.nextTime ht = .ok (m.ckGetNextTime ht) :=
  if_neg h

theorem enterTimeChecked_eq (m : Heaps) (ht : HeapType) :
    m.enterTimeChecked ht = .ok (m.enterTime ht) := by
  unfold Heaps.enterTimeChecked Heaps.enterTime
  split
  · rfl
  · next h => exact nextTime_eq h

theorem getTimesharingTask_eq (h : ¬ m.ckIsHeapEmpty .timesharing) :
    getTimesharingTask m = .ok (m.ckGetNextEvent .timesharing, m.ckGetNextQuantum .timesharing) := by
  unfold getTimesharingTask
  rw [nextEvent_eq h, nextQuantum_eq h]
  rfl

/-- The idle part tests both heaps it reads. -/
theorem getIdleTaskChecked_eq (s : Sched) : getIdleTaskChecked s = .ok (getIdleTask s) := by
  unfold getIdleTaskChecked getIdleTask
  by_cases hr : s.heaps.ckIsHeapEmpty .realtime
  · by_cases hi : s.heaps.ckIsHeapEmpty .idle
    · simp [hr, hi, bind, Except.bind]
    · simp [hr, hi, bind, Except.bind, nextQuantum_eq hi, nextEvent_eq hi, Heaps.ckGetNextQuantum]
  · by_cases hi : s.heaps.ckIsHeapEmpty .idle
    · simp [hr, hi, bind, Except.bind, nextTime_eq hr]
      split <;> simp
    · simp [hr, hi, bind, Except.bind, nextTime_eq hr, nextQuantum_eq hi, nextEvent_eq hi,
        Heaps.ckGetNextQuantum]
      split <;> simp

/-- **`CKgetNextTask`** reads the roots of non-empty heaps only, in every state. -/
theorem ckGetNextTaskChecked_eq (s : Sched) : ckGetNextTaskChecked s = .ok (ckGetNextTask s) := by
  unfold ckGetNextTaskChecked ckGetNextTask
  by_cases hr : s.heaps.ckIsHeapEmpty .realtime
  · by_cases ht : s.heaps.ckIsHeapEmpty .timesharing
    · simp [hr, ht, getIdleTaskChecked_eq, bind, Except.bind]
    · simp [hr, ht, getTimesharingTask_eq ht, bind, Except.bind]
  by_cases hdue : clse (s.heaps.ckGetNextTime .realtime - s.fudge) s.realtime
  · simp [hr, hdue, nextTime_eq hr, nextQuantum_eq hr, nextEvent_eq hr, bind, Except.bind]
  by_cases ht : s.heaps.ckIsHeapEmpty .timesharing
  · simp [hr, ht, hdue, nextTime_eq hr, getIdleTaskChecked_eq, bind, Except.bind]
  · by_cases hsoon : clse (s.heaps.ckGetNextTime .realtime - s.fudge)
      (s.heaps.ckGetNextQuantum .timesharing + s.realtime)
    · simp [hr, ht, hdue, hsoon, nextTime_eq hr, nextQuantum_eq ht, nextEvent_eq ht, bind,
        Except.bind]
    · simp [hr, ht, hdue, hsoon, nextTime_eq hr, nextQuantum_eq ht, getTimesharingTask_eq ht, bind,
        Except.bind]

/-! ## The checked operations do what the operations do -/

theorem inHeap_map {α β : Type} (x : Option α) (f : α → β) :
    (inHeap x >>= fun y => .ok (f y)) = inHeap (x.map f) := by
  cases x <;> rfl

theorem inHeap_ne {α : Type} (x : Option α) : inHeap x ≠ .error .emptyHeap := by
  cases x <;> simp [inHeap]

theorem enterHeapChecked_eq (m : Heaps) (ht : HeapType) (thread : Addr) :
    enterHeapChecked m ht thread = inHeap (enterHeap m ht thread) := by
  unfold enterHeapChecked enterHeap
  rw [enterTimeChecked_eq]
  rfl

theorem ckUnblockThreadChecked_eq (m : Heaps) (thread : Addr) :
    ckUnblockThreadChecked m thread = inHeap (ckUnblockThread m thread) := by
  unfold ckUnblockThreadChecked ckUnblockThread
  rw [enterHeapChecked_eq]
  split <;> rfl

theorem ckIdleThreadChecked_eq (m : Heaps) (thread : Addr) :
    ckIdleThreadChecked m thread = inHeap (ckIdleThread m thread) := by
  unfold ckIdleThreadChecked ckIdleThread
  rw [enterHeapChecked_eq]
  split <;> rfl

theorem ckPrioritiseChecked_eq {event : Addr}
    (h : (m.ev event).ts = .running → ¬ m.ckIsHeapEmpty .timesharing) :
    ckPrioritiseChecked m event = inHeap (ckPrioritise m event) := by
  unfold ckPrioritiseChecked ckPrioritise
  split
  · next hts =>
    rw [nextTime_eq (h hts)]
    simp only [bind, Except.bind]
    split <;> rfl
  · rfl

/-- Entering a heap in `CKsetThreadState`. -/
theorem setState_enter_eq (s : Sched) (thread : Addr) (ht : HeapType) :
    (do
      let m ← inHeap (leaveHeap s.heaps thread)
      let t ← m.enterTimeChecked ht
      let m' ← enterHeapChecked m ht thread
      Except.ok ({ s with heaps := m' }.setUserTime thread t) : Checked Sched) =
    inHeap ((do
      let m ← leaveHeap s.heaps thread
      let m' ← enterHeap m ht thread
      some ({ s with heaps := m' }.setUserTime thread (m.enterTime ht), true) :
        Option (Sched × Bool)).map Prod.fst) := by
  simp only [enterTimeChecked_eq, enterHeapChecked_eq]
  cases leaveHeap s.heaps thread with
  | none => rfl
  | some m =>
    cases h : enterHeap m ht thread with
    | none => simp [inHeap, bind, Except.bind, h]
    | some m' => simp [inHeap, bind, Except.bind, h]

theorem ckSetThreadStateChecked_eq (s : Sched) (thread : Addr) (state : ThreadState) :
    ckSetThreadStateChecked s thread state =
      inHeap ((ckSetThreadState s thread state).map Prod.fst) := by
  unfold ckSetThreadStateChecked ckSetThreadState
  cases state with
  | running =>
    simp only
    split
    · rfl
    · exact setState_enter_eq s thread .timesharing
  | blocked =>
    simp only [Option.map_map]
    exact inHeap_map _ _
  | idle =>
    simp only
    split
    · rfl
    · exact setState_enter_eq s thread .idle
  | realTime => rfl

theorem ckThreadTunnelChecked_eq (s : Sched) (thread : Addr) (type : TunnelType) :
    ckThreadTunnelChecked s thread type = inHeap (ckThreadTunnel s thread type) := by
  cases type with
  | conservative => rfl
  | swapping =>
    simp only [ckThreadTunnelChecked, ckThreadTunnel, enterHeapChecked_eq]
    cases ckBlockThread s.heaps s.currtask with
    | none => rfl
    | some m =>
      simp only [inHeap, bind, Except.bind, Option.bind]
      split
      · rfl
      · cases leaveHeap m thread with
        | none => rfl
        | some m₁ => cases h : enterHeap m₁ .timesharing thread <;> simp [h]
  | unblocking =>
    simp only [ckThreadTunnelChecked, ckThreadTunnel, ckUnblockThreadChecked_eq]
    exact inHeap_map _ _

theorem ckCacheRunningChecked_eq (s : Sched) (thread objectData : Addr) (interruptable : UDATA) :
    ckCacheRunningChecked s thread objectData interruptable =
      inHeap (ckCacheRunning s thread objectData interruptable) := by
  unfold ckCacheRunningChecked ckCacheRunning
  simp only [enterTimeChecked_eq, enterHeapChecked_eq]
  exact inHeap_map _ _

theorem ckSendSignalToChecked_eq (s : Sched) (thread addr : Addr)
    (signal extra priority : UDATA) :
    ckSendSignalToChecked s thread addr signal extra priority =
      inHeap (ckSendSignalTo s thread addr signal extra priority) := by
  unfold ckSendSignalToChecked ckSendSignalTo
  simp only [ckUnblockThreadChecked_eq]
  exact inHeap_map _ _

theorem ckFlushPrevTaskChecked_eq
    (h : s.ts s.currtask = .realTime → ¬ cless s.lasttime (s.heaps.time s.currtask) →
      ¬ s.heaps.ckIsHeapEmpty .timesharing) :
    ckFlushPrevTaskChecked s = inHeap (ckFlushPrevTask s) := by
  unfold ckFlushPrevTaskChecked
  simp only
  split
  · next hd =>
    have hheap : (((s.heaps.setTs s.currtask .running).setTime s.currtask
        (s.heaps.ckGetNextTime .timesharing)).ev s.currtask).heap =
        (s.heaps.ev s.currtask).heap := by
      simp [Heaps.setTime, Heaps.setTs, Heaps.setEv]
    rw [flush_demote hd.1 hd.2, nextTime_eq (h hd.1 hd.2)]
    simp only [bind, Except.bind, hheap]
    cases ckRemoveEvent ((s.heaps.setTs s.currtask .running).setTime s.currtask
      (s.heaps.ckGetNextTime .timesharing)) .realtime (s.heaps.ev s.currtask).heap with
    | none => rfl
    | some m => cases h : ckSiftup m .timesharing s.currtask <;> simp [inHeap, h]
  · rfl

theorem ckFlushPrevTaskChecked_fault (hts : s.ts s.currtask = .realTime)
    (hd : ¬ cless s.lasttime (s.heaps.time s.currtask))
    (h : s.heaps.ckIsHeapEmpty .timesharing) :
    ckFlushPrevTaskChecked s = .error .emptyHeap := by
  unfold ckFlushPrevTaskChecked
  simp only
  rw [if_pos ⟨hts, hd⟩, Heaps.nextTime, if_pos h]
  rfl

/-- What the flush looks at is the state of the running thread and its user time. -/
theorem takeUserTime_demotes (s : Sched) :
    (s.takeUserTime.ts s.takeUserTime.currtask = .realTime ∧
      ¬ cless s.takeUserTime.lasttime (s.takeUserTime.heaps.time s.takeUserTime.currtask)) ↔
      s.Demotes := by
  rw [show s.takeUserTime.currtask = s.currtask from rfl, ts_takeUserTime, time_takeUserTime]
  exact Iff.rfl

theorem ckScheduleChecked_eq {timer : TIME} (h : (SchedOp.schedule timer).Guarded s) :
    ckScheduleChecked s timer = inHeap (ckSchedule s timer) := by
  unfold ckScheduleChecked ckSchedule
  rw [ckFlushPrevTaskChecked_eq (s := s.takeUserTime) fun hts hd =>
    h ((takeUserTime_demotes s).mp ⟨hts, hd⟩)]
  simp only [ckGetNextTaskChecked_eq]
  exact inHeap_map _ _

theorem ckScheduleChecked_fault {timer : TIME} (h : ¬ (SchedOp.schedule timer).Guarded s) :
    ckScheduleChecked s timer = .error .emptyHeap := by
  obtain ⟨hd, he⟩ := Classical.not_imp.mp h
  obtain ⟨hts, hd⟩ := (takeUserTime_demotes s).mpr hd
  unfold ckScheduleChecked
  rw [ckFlushPrevTaskChecked_fault hts hd (not_not.mp he)]
  rfl

/-- **One operation** reads roots of non-empty heaps exactly if it is guarded. -/
theorem schedStepChecked_eq {op : SchedOp} (h : op.Guarded s)
    (hp : ∀ thread, op = .prioritise thread → s.ts thread = .running →
      ¬ s.heaps.ckIsHeapEmpty .timesharing) :
    schedStepChecked s op = inHeap (schedStep s op) := by
  cases op with
  | loadThread => rfl
  | cacheRunning => exact ckCacheRunningChecked_eq ..
  | unloadThread => rfl
  | blockThread => exact inHeap_map _ _
  | unblockThread thread =>
    simp only [schedStepChecked, ckUnblockThreadChecked_eq]
    exact inHeap_map _ _
  | idleThread thread =>
    simp only [schedStepChecked, ckIdleThreadChecked_eq]
    exact inHeap_map _ _
  | setThreadState => exact ckSetThreadStateChecked_eq ..
  | threadTunnel => exact ckThreadTunnelChecked_eq ..
  | sendSignal => exact ckSendSignalToChecked_eq ..
  | prioritise thread =>
    simp only [schedStepChecked, ckPrioritiseChecked_eq (hp thread rfl)]
    exact inHeap_map _ _
  | schedule timer => exact ckScheduleChecked_eq h
  | store => rfl

theorem schedStepChecked_fault {op : SchedOp} (h : ¬ op.Guarded s) :
    schedStepChecked s op = .error .emptyHeap := by
  cases op with
  | schedule timer => exact ckScheduleChecked_fault h
  | _ => exact absurd trivial h

end

/-! ## Runs -/

/-- Threads are in the heaps of their states after any run. -/
theorem Sched.AtBoot.run_members {s s' : Sched} {ops : List SchedOp} (h0 : s.AtBoot)
    (hr : Run schedStep (fun s op => op.Legal s) s ops s') : s'.Members := by
  refine hr.invariant (I := Sched.Members) ?_ h0.members
  intro s₁ s₂ op hm hl hs
  by_cases hf : op.Fits s₁
  · obtain ⟨s₃, h, hm'⟩ := schedStep_members hm hl hf
    exact Option.some.inj (h.symm.trans hs) ▸ hm'
  · rw [schedStep_none hm hl hf] at hs
    exact absurd hs (by simp)

/-- **In every reachable state** an operation reads the root of an empty heap exactly if it is
a flush that makes the running realtime thread timesharing while no thread is; and one that
does not does what it does unchecked. -/
theorem heap_reads_run {s s' : Sched} {ops : List SchedOp} {op : SchedOp} (h0 : s.AtBoot)
    (hr : Run schedStep (fun s op => op.Legal s) s ops s') (hl : op.Legal s') :
    (schedStepChecked s' op ≠ .error .emptyHeap ↔ op.Guarded s') ∧
      (op.Guarded s' → schedStepChecked s' op = inHeap (schedStep s' op)) := by
  have hm := h0.run_members hr
  have hp : ∀ thread, op = .prioritise thread → s'.ts thread = .running →
      ¬ s'.heaps.ckIsHeapEmpty .timesharing := by
    rintro thread rfl hts
    exact Nat.pos_iff_ne_zero.mp (hm.used_pos .timesharing hl hts)
  refine ⟨⟨fun hne => ?_, fun hg => ?_⟩, fun hg => schedStepChecked_eq hg hp⟩
  · by_contra hg
    exact hne (schedStepChecked_fault hg)
  · rw [schedStepChecked_eq hg hp]
    exact inHeap_ne _

/-- Thread 16 alone: it runs, stores a time into its user object that makes it realtime, and
is dispatched again. -/
def lastRealtime : List SchedOp :=
  [.loadThread 16 20 1 1 0, .setThreadState 16 .running, .schedule 0,
    .store 20 { time := 1, realtime := 0, interruptable := 0 }, .schedule (-5)]

theorem heap_reads_run_one : ∃ s, Run schedStep (fun s op => op.Legal s) schedAtBoot
      (lastRealtime.take 4) s ∧
    (schedStepChecked s (.schedule (-5)) ≠ .error .emptyHeap ↔
      (SchedOp.schedule (-5)).Guarded s) ∧
    ((SchedOp.schedule (-5)).Guarded s →
      schedStepChecked s (.schedule (-5)) = inHeap (schedStep s (.schedule (-5)))) := by
  obtain ⟨s, hr, -⟩ := Run.of_exec_any
    (show (exec schedStep (fun s op => op.Legal s) schedAtBoot
      (lastRealtime.take 4)).any (fun _ => true) = true by decide +kernel)
  exact ⟨s, hr, heap_reads_run schedAtBoot_atBoot hr trivial⟩

/-- The flush of the last realtime thread takes its new time from the empty timesharing heap. -/
theorem demotion_reads_empty_heap : ∃ s, Run schedStep (fun s op => op.Legal s) schedAtBoot
      lastRealtime s ∧ schedStepChecked s (.schedule 0) = .error .emptyHeap := by
  obtain ⟨s, hr, hp⟩ := Run.of_exec_any
    (show (exec schedStep (fun s op => op.Legal s) schedAtBoot lastRealtime).any
      (fun s => match schedStepChecked s (.schedule 0) with
        | .error .emptyHeap => true
        | _ => false) = true by decide +kernel)
  refine ⟨s, hr, ?_⟩
  revert hp
  cases schedStepChecked s (.schedule 0) with
  | ok _ => simp
  | error f => cases f <;> simp

end Alliance.CK
