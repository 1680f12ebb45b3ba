import Alliance.CK.PriHeap
import Alliance.CK.Signal
import Alliance.Lib.Run

/-!
# The scheduler (`sched.c`)

`Sched` is the memory of the scheduler: the heaps with the thread objects, the user
objects they write back to, the running thread `currtask`, and the clock. Which
threads are loaded is the peer list of the object manager; `started` are the threads
that have been switched away from in `CKschedule` before, and so resume behind its
context switch. A thread that was never dispatched begins at its own entry point.

A system call is one step up to where it turns the interrupts back on. Tunnelling and
unloading the running thread end in a call of `CKschedule` (directly or through the
timer interrupt), which is the next step of a run.

A step is `none` where the source leaves a heap array.
-/

namespace Alliance.CK

open Function

/-- `EVENT idleLoop`. -/
def idleLoop : Addr := 4

/-- `EVENT zombietask`. -/
def zombietask : Addr := 8

/-- The heap that threads of a state are in. -/
def ThreadState.heap? : ThreadState → Option HeapType
  | .running => some .timesharing
  | .realTime => some .realtime
  | .idle => some .idle
  | .blocked => none

/-- The state of the threads in a heap. -/
def HeapType.ts : HeapType → ThreadState
  | .timesharing => .running
  | .realtime => .realTime
  | .idle => .idle

/-! ## Moving threads between heaps -/

/-- The switch over `thread->ts` that removes a thread from the heap it is in. -/
def leaveHeap (m : Heaps) (thread : Addr) : Option Heaps :=
  match (m.ev thread).ts.heap? with
  | some ht => ckRemoveEvent m ht (m.ev thread).heap
  | none => some m

/-- The time a thread enters a heap with: the root's, or 0 if the heap is empty. -/
def Heaps.enterTime (m : Heaps) (ht : HeapType) : TIME :=
  if m.ckIsHeapEmpty ht then 0 else m.ckGetNextTime ht

/-- `ts_siftup:` and `idle_siftup:`: give a thread its time and state and add it to a heap. -/
def enterHeap (m : Heaps) (ht : HeapType) (thread : Addr) : Option Heaps :=
  ckSiftup ((m.setTime thread (m.enterTime ht)).setTs thread ht.ts) ht thread

/-- `CKblockThread`. On a blocked thread the store changes nothing. -/
def ckBlockThread (m : Heaps) (thread : Addr) : Option Heaps :=
  (leaveHeap m thread).map fun m => m.setTs thread .blocked

/-- `CKunblockThread`. -/
def ckUnblockThread (m : Heaps) (thread : Addr) : Option Heaps :=
  if (m.ev thread).ts = .blocked then enterHeap m .timesharing thread else some m

/-- `CKidleThread`. -/
def ckIdleThread (m : Heaps) (thread : Addr) : Option Heaps :=
  if (m.ev thread).ts = .blocked then enterHeap m .idle thread else some m

/-! ## The scheduler's memory -/

structure Sched where
  heaps : Heaps
  /-- The user objects. -/
  user : Addr → ThreadObject
  currtask : Addr
  lasttime : TIME
  realtime : TIME
  fudge : TIME
  doingRealtime : BitVec 8
  /-- What `CKsetTimerPeriod` was last given. -/
  period : TIME
  loaded : Addr → Bool
  started : Addr → Bool

namespace Sched

variable (s : Sched)

/-- `(ThreadObject *) thread->head.objectData`. -/
def objectData (thread : Addr) : Addr := (s.heaps.ev thread).objectData

/-- `usertask->time`, for the user object of a thread. -/
def userTime (thread : Addr) : TIME := (s.user (s.objectData thread)).time

def ts (thread : Addr) : ThreadState := (s.heaps.ev thread).ts

/-- `uthread->time = t`. -/
def setUserTime (thread : Addr) (t : TIME) : Sched :=
  { s with user := update s.user (s.objectData thread) { s.user (s.objectData thread) with time := t } }

end Sched

/-! ## `CKschedule` -/

/-- `CKflushPrevTask`: put the task that was running back where its time belongs. -/
def ckFlushPrevTask (s : Sched) : Option Sched :=
  let m := s.heaps
  let curr := s.currtask
  match s.ts curr with
  | .running =>
    if ¬ cless s.lasttime (m.time curr) then
      some { s with
        heaps := ckSiftdown (m.setTime curr (m.time curr + (m.ev curr).defer)) .timesharing }
    else do
      let m ← ckRemoveEvent (m.setTs curr .realTime) .timesharing (m.ev curr).heap
      let m ← ckSiftup m .realtime curr
      some { s with heaps := m }
  | .realTime =>
    if cless s.lasttime (m.time curr) then
      some { s with heaps := ckSiftdown m .realtime, doingRealtime := 0 }
    else do
      let m := (m.setTs curr .running).setTime curr (m.ckGetNextTime .timesharing)
      let m ← ckRemoveEvent m .realtime (m.ev curr).heap
      let m ← ckSiftup m .timesharing curr
      some { s with heaps := m, doingRealtime := 0 }
  | .idle =>
    if curr ≠ idleLoop then
      some { s with
        heaps := ckSiftdown (m.setTime curr (m.time curr + (m.ev curr).defer)) .idle }
    else
      some s
  | .blocked => some s

section

variable {s : Sched}

/-- The running thread stays timesharing: its time advances and it sifts down. -/
theorem flush_timesharing (hts : s.ts s.currtask = .running)
    (h : ¬ cless s.lasttime (s.heaps.time s.currtask)) :
    ckFlushPrevTask s = some { s with
      heaps := ckSiftdown (s.heaps.setTime s.currtask
        (s.heaps.time s.currtask + (s.heaps.ev s.currtask).defer)) .timesharing } := by
  unfold ckFlushPrevTask
  simp only [hts, h, not_false_eq_true, if_true]

/-- The running thread becomes realtime. -/
theorem flush_promote (hts : s.ts s.currtask = .running)
    (h : cless s.lasttime (s.heaps.time s.currtask)) :
    ckFlushPrevTask s =
      (ckRemoveEvent (s.heaps.setTs s.currtask .realTime) .timesharing
        (s.heaps.ev s.currtask).heap).bind fun m =>
      (ckSiftup m .realtime s.currtask).bind fun m => some { s with heaps := m } := by
  unfold ckFlushPrevTask
  simp only [hts, h, not_true_eq_false, if_false]
  rfl

/-- The running thread stays realtime and sifts down. -/
theorem flush_realtime (hts : s.ts s.currtask = .realTime)
    (h : cless s.lasttime (s.heaps.time s.currtask)) :
    ckFlushPrevTask s =
      some { s with heaps := ckSiftdown s.heaps .realtime, doingRealtime := 0 } := by
  unfold ckFlushPrevTask
  simp only [hts, h, if_true]

/-- The running thread becomes timesharing again. -/
theorem flush_demote (hts : s.ts s.currtask = .realTime)
    (h : ¬ cless s.lasttime (s.heaps.time s.currtask)) :
    ckFlushPrevTask s =
      (ckRemoveEvent ((s.heaps.setTs s.currtask .running).setTime s.currtask
          (s.heaps.ckGetNextTime .timesharing)) .realtime (s.heaps.ev s.currtask).heap).bind fun m =>
      (ckSiftup m .timesharing s.currtask).bind fun m =>
        some { s with heaps := m, doingRealtime := 0 } := by
  unfold ckFlushPrevTask
  simp only [hts, h, if_false]
  have hheap : (((s.heaps.setTs s.currtask .running).setTime s.currtask
      (s.heaps.ckGetNextTime .timesharing)).ev s.currtask).heap = (s.heaps.ev s.currtask).heap := by
    simp [Heaps.setTime, Heaps.setTs, Heaps.setEv]
  rw [hheap]
  rfl

/-- An idle thread advances its time and sifts down. -/
theorem flush_idle (hts : s.ts s.currtask = .idle) (h : s.currtask ≠ idleLoop) :
    ckFlushPrevTask s = some { s with
      heaps := ckSiftdown (s.heaps.setTime s.currtask
        (s.heaps.time s.currtask + (s.heaps.ev s.currtask).defer)) .idle } := by
  unfold ckFlushPrevTask
  simp only [hts]
  rw [if_pos h]

/-- Nothing to do for the idle loop and for a blocked thread. -/
theorem flush_none (h : s.ts s.currtask = .blocked ∨ s.ts s.currtask = .idle ∧
    s.currtask = idleLoop) : ckFlushPrevTask s = some s := by
  unfold ckFlushPrevTask
  rcases h with hts | ⟨hts, hc⟩
  · simp only [hts]
  · simp only [hts]
    rw [if_neg (not_not.mpr hc)]

end

/-- `CKupdateRealtime`, for the value `CKgetTimerValue` returns. -/
def ckUpdateRealtime (s : Sched) (timer : TIME) : Sched :=
  { s with realtime := s.realtime + (-(timer + s.realtime) &&& 0xffff) }

/-- The idle part of `CKgetNextTask`: an idle thread or the idle loop, preempted where the
next realtime thread is due before its quantum is over. -/
def getIdleTask (s : Sched) : Addr × TIME :=
  let m := s.heaps
  let task := if m.ckIsHeapEmpty .idle then idleLoop else m.ckGetNextEvent .idle
  let quantum := (m.ev task).quantum
  if ¬ m.ckIsHeapEmpty .realtime ∧
      clse (m.ckGetNextTime .realtime - s.fudge) (quantum + s.realtime) then
    (task, m.ckGetNextTime .realtime - s.realtime - s.fudge)
  else
    (task, quantum)

/-- `CKgetNextTask`: the next task, its period, and the new `doingRealtime`. -/
def ckGetNextTask (s : Sched) : Addr × TIME × BitVec 8 :=
  let m := s.heaps
  if ¬ m.ckIsHeapEmpty .realtime ∧ clse (m.ckGetNextTime .realtime - s.fudge) s.realtime then
    (m.ckGetNextEvent .realtime, m.ckGetNextQuantum .realtime, s.doingRealtime + 1)
  else if m.ckIsHeapEmpty .timesharing then
    ((getIdleTask s).1, (getIdleTask s).2, s.doingRealtime)
  else if ¬ m.ckIsHeapEmpty .realtime ∧
      clse (m.ckGetNextTime .realtime - s.fudge) (m.ckGetNextQuantum .timesharing + s.realtime) then
    (m.ckGetNextEvent .timesharing, m.ckGetNextTime .realtime - s.realtime - s.fudge,
      s.doingRealtime)
  else
    (m.ckGetNextEvent .timesharing, m.ckGetNextQuantum .timesharing, s.doingRealtime)

/-- The next task is the root of a heap, or the idle loop. -/
theorem ckGetNextTask_cases (s : Sched) :
    (∃ ht, ¬ s.heaps.ckIsHeapEmpty ht ∧ (ckGetNextTask s).1 = s.heaps.ckGetNextEvent ht) ∨
      (ckGetNextTask s).1 = idleLoop := by
  unfold ckGetNextTask
  dsimp only
  split
  · rename_i h
    exact .inl ⟨.realtime, h.1, rfl⟩
  · split
    · have hidle : (getIdleTask s).1 =
          if s.heaps.ckIsHeapEmpty .idle then idleLoop else s.heaps.ckGetNextEvent .idle := by
        unfold getIdleTask
        dsimp only
        rw [apply_ite Prod.fst]
        exact ite_self _
      simp only [hidle]
      split
      · exact .inr rfl
      · rename_i h
        exact .inl ⟨.idle, h, rfl⟩
    · rename_i h
      split <;> exact .inl ⟨.timesharing, h, rfl⟩

/-- `CKschedule` behind the context switch, run by a thread that was switched away from
before: pass the clock to the user object and check for signals. -/
def resumeTask (s : Sched) : Sched :=
  let curr := s.currtask
  let usertask := s.user (s.objectData curr)
  let signals := (signalCheck usertask.interruptable (s.heaps.ev curr).signals).1
  { s with
    user := update s.user (s.objectData curr)
      { usertask with time := s.heaps.time curr, realtime := s.realtime }
    heaps := s.heaps.setEv curr { s.heaps.ev curr with signals := signals } }

/-- `CKcontextSwitch`: the task resumes in `CKschedule`, or starts. -/
def contextSwitch (s : Sched) : Sched :=
  if s.started s.currtask then
    resumeTask s
  else
    { s with started := update s.started s.currtask true }

/-- `CKschedule` from where the previous task is flushed up to the context switch. -/
def selectTask (s : Sched) (timer : TIME) : Sched :=
  let s := ckUpdateRealtime s timer
  let r := ckGetNextTask s
  { s with currtask := r.1, lasttime := s.heaps.time r.1, period := r.2.1, doingRealtime := r.2.2 }

/-- `currtask->time = usertask->time`. -/
def Sched.takeUserTime (s : Sched) : Sched :=
  { s with heaps := s.heaps.setTime s.currtask (s.userTime s.currtask) }

/-- `CKschedule`, at a value of the timer. -/
def ckSchedule (s : Sched) (timer : TIME) : Option Sched :=
  (ckFlushPrevTask s.takeUserTime).map fun s => contextSwitch (selectTask s timer)

/-! ## System calls -/

/-- `CKsetThreadState`, with the error code it returns: `RealTime` is no state to ask for. -/
def ckSetThreadState (s : Sched) (thread : Addr) (state : ThreadState) : Option (Sched × Bool) :=
  let enter (ht : HeapType) : Option (Sched × Bool) := do
    let m ← leaveHeap s.heaps thread
    let m' ← enterHeap m ht thread
    some ({ s with heaps := m' }.setUserTime thread (m.enterTime ht), true)
  match state with
  | .running => if s.ts thread = .running then some (s, true) else enter .timesharing
  | .blocked => (ckBlockThread s.heaps thread).map fun m => ({ s with heaps := m }, true)
  | .idle => if s.ts thread = .idle then some (s, true) else enter .idle
  | .realTime => some (s, false)

/-- `CKthreadTunnel`, up to the call of `CKschedule` or `quantumDone` it ends in. -/
def ckThreadTunnel (s : Sched) (thread : Addr) : TunnelType → Option Sched
  | .conservative => some s
  | .swapping => do
    let m ← ckBlockThread s.heaps s.currtask
    if (m.ev thread).ts = .running then
      some { s with heaps := m }
    else
      let m ← leaveHeap m thread
      let m ← enterHeap m .timesharing thread
      some { s with heaps := m }
  | .unblocking => (ckUnblockThread s.heaps thread).map fun m => { s with heaps := m }

/-- `CKsendSignal`, where the entry was allocated at `addr`. -/
def ckSendSignalTo (s : Sched) (thread addr : Addr) (signal extra priority : UDATA) :
    Option Sched :=
  let x := s.heaps.ev thread
  let newsig := newSignal addr s.currtask signal extra priority
  let m := s.heaps.setEv thread { x with signals := ckSendSignal newsig x.signals }
  (ckUnblockThread m thread).map fun m => { s with heaps := m }

/-! ## Caching threads -/

/-- The scheduling part of `CKloadThreadObject`: a new thread is blocked. Its user object is
not interruptable (0) if it has a parent kernel. -/
def ckLoadThread (s : Sched) (thread objectData : Addr) (quantum defer : TIME)
    (interruptable : UDATA) : Sched :=
  { s with
    heaps := s.heaps.setEv thread
      { s.heaps.ev thread with
        objectData, quantum, defer, ts := .blocked, signals := [] }
    user := update s.user objectData { s.user objectData with interruptable }
    loaded := update s.loaded thread true
    started := update s.started thread false }

/-- `CKcacheUserThread` and `CKcacheKernelThread`: load a thread and make it running. -/
def ckCacheRunning (s : Sched) (thread objectData : Addr) (interruptable : UDATA) :
    Option Sched :=
  let s := ckLoadThread s thread objectData 0x1000 0x2000 interruptable
  (enterHeap s.heaps .timesharing thread).map fun m =>
    { s with heaps := m }.setUserTime thread (s.heaps.enterTime .timesharing)

/-- The scheduling part of `CKunloadThreadObject`, up to its `quantumDone`. -/
def ckUnloadThread (s : Sched) (thread : Addr) : Option Sched :=
  (ckBlockThread s.heaps thread).map fun m =>
    { s with
      heaps := m
      loaded := update s.loaded thread false
      currtask := if s.currtask = thread then zombietask else s.currtask }

/-! ## Steps -/

inductive SchedOp where
  | loadThread (thread objectData : Addr) (quantum defer : TIME) (interruptable : UDATA)
  | cacheRunning (thread objectData : Addr) (interruptable : UDATA)
  | unloadThread (thread : Addr)
  | blockThread (thread : Addr)
  | unblockThread (thread : Addr)
  | idleThread (thread : Addr)
  | setThreadState (thread : Addr) (state : ThreadState)
  | threadTunnel (thread : Addr) (type : TunnelType)
  | sendSignal (thread addr : Addr) (signal extra priority : UDATA)
  | prioritise (thread : Addr)
  /-- The timer interrupt, or a call of `CKschedule`. -/
  | schedule (timer : TIME)
  /-- A store of user code into a user object. -/
  | store (object : Addr) (value : ThreadObject)

def schedStep (s : Sched) : SchedOp → Option Sched
  | .loadThread thread objectData quantum defer interruptable =>
    some (ckLoadThread s thread objectData quantum defer interruptable)
  | .cacheRunning thread objectData interruptable =>
    ckCacheRunning s thread objectData interruptable
  | .unloadThread thread => ckUnloadThread s thread
  | .blockThread thread => (ckBlockThread s.heaps thread).map fun m => { s with heaps := m }
  | .unblockThread thread => (ckUnblockThread s.heaps thread).map fun m => { s with heaps := m }
  | .idleThread thread => (ckIdleThread s.heaps thread).map fun m => { s with heaps := m }
  | .setThreadState thread state => (ckSetThreadState s thread state).map Prod.fst
  | .threadTunnel thread type => ckThreadTunnel s thread type
  | .sendSignal thread addr signal extra priority =>
    ckSendSignalTo s thread addr signal extra priority
  | .prioritise thread => (ckPrioritise s.heaps thread).map fun m => { s with heaps := m }
  | .schedule timer => ckSchedule s timer
  | .store object value => some { s with user := update s.user object value }

/-- How the operations are called: on loaded threads, and loading at an address where no
thread is. A thread that tunnels is the running one, which the idle loop never does. -/
def SchedOp.Legal (s : Sched) : SchedOp → Prop
  | .loadThread thread _ _ _ _ => ¬ s.loaded thread ∧ thread ≠ idleLoop ∧ thread ≠ zombietask
  | .cacheRunning thread _ _ => ¬ s.loaded thread ∧ thread ≠ idleLoop ∧ thread ≠ zombietask
  | .unloadThread thread => s.loaded thread
  | .blockThread thread => s.loaded thread
  | .unblockThread thread => s.loaded thread
  | .idleThread thread => s.loaded thread
  | .setThreadState thread _ => s.loaded thread
  | .threadTunnel thread _ => s.loaded thread ∧ s.loaded s.currtask
  | .sendSignal thread _ _ _ _ => s.loaded thread
  | .prioritise thread => s.loaded thread
  | .schedule _ => True
  | .store _ _ => True

instance SchedOp.decidableLegal (s : Sched) : (op : SchedOp) → Decidable (op.Legal s)
  | .loadThread _ _ _ _ _ => inferInstanceAs (Decidable (_ ∧ _))
  | .cacheRunning _ _ _ => inferInstanceAs (Decidable (_ ∧ _))
  | .unloadThread thread => inferInstanceAs (Decidable (s.loaded thread = true))
  | .blockThread thread => inferInstanceAs (Decidable (s.loaded thread = true))
  | .unblockThread thread => inferInstanceAs (Decidable (s.loaded thread = true))
  | .idleThread thread => inferInstanceAs (Decidable (s.loaded thread = true))
  | .setThreadState thread _ => inferInstanceAs (Decidable (s.loaded thread = true))
  | .threadTunnel _ _ => inferInstanceAs (Decidable (_ ∧ _))
  | .sendSignal thread _ _ _ _ => inferInstanceAs (Decidable (s.loaded thread = true))
  | .prioritise thread => inferInstanceAs (Decidable (s.loaded thread = true))
  | .schedule _ => isTrue trivial
  | .store _ _ => isTrue trivial

/-- The next flush changes the running thread to realtime. -/
def Sched.Promotes (s : Sched) : Prop :=
  s.ts s.currtask = .running ∧ cless s.lasttime (s.userTime s.currtask)

/-- The next flush changes the running thread back to timesharing. -/
def Sched.Demotes (s : Sched) : Prop :=
  s.ts s.currtask = .realTime ∧ ¬ cless s.lasttime (s.userTime s.currtask)

instance (s : Sched) : Decidable s.Promotes := inferInstanceAs (Decidable (_ ∧ _))

instance (s : Sched) : Decidable s.Demotes := inferInstanceAs (Decidable (_ ∧ _))

/-- `CKinitSched`: empty heaps, and the idle loop is the running task. -/
structure Sched.AtBoot (s : Sched) : Prop where
  empty : ∀ ht, s.heaps.used ht = 0
  currtask : s.currtask = idleLoop
  idleLoop : s.ts CK.idleLoop = .idle
  zombietask : s.ts CK.zombietask = .blocked
  loaded : ∀ a, s.loaded a = false
  started : s.started CK.idleLoop = true

end Alliance.CK
