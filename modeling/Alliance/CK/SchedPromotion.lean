import Alliance.CK.SchedFlush

/-!
# Realtime promotion

A thread asks to be realtime by storing a deadline into the time field of its user
object: the flush compares it with the time the thread was dispatched with, and a later
one moves the thread to the realtime heap. `CKschedule` puts the dispatch time into the
field before the quantum starts, so what it finds at the end is what was stored since.

User code is not the only one to store there. `CKsetThreadState` stores the time the
thread enters its new heap with, which may be later than the dispatch time, and a thread
that is dispatched for the first time starts at its entry point with whatever the field
held before. `SchedOp.KeepsEpoch` excludes the two.
-/

namespace Alliance.CK

open Function Lib Lib.BinHeap

variable {m m' : Heaps} {ht ht' : HeapType} {a x : Addr} {s s' s'' s₁ : Sched} {op : SchedOp}

/-! ## What the flush leaves alone -/

/-- The flush touches the heaps and the running thread's time, state and place. -/
structure FlushFrame (s s₁ : Sched) : Prop where
  user : s₁.user = s.user
  loaded : s₁.loaded = s.loaded
  started : s₁.started = s.started
  objectData : ∀ x, s₁.objectData x = s.objectData x
  defer : ∀ x, (s₁.heaps.ev x).defer = (s.heaps.ev x).defer
  other : ∀ x, x ≠ s.currtask → s₁.heaps.time x = s.heaps.time x ∧ s₁.ts x = s.ts x

theorem FlushFrame.ofHeaps {v : EVENT} (hd : v.objectData = s.objectData s.currtask)
    (hdefer : v.defer = (s.heaps.ev s.currtask).defer)
    (hs : (s.heaps.setEv s.currtask v).SameEvents m) : FlushFrame s { s with heaps := m } := by
  refine ⟨rfl, rfl, rfl, fun x => ?_, fun x => ?_, fun x hx => ⟨?_, ?_⟩⟩
  · show (m.ev x).objectData = (s.heaps.ev x).objectData
    rw [hs x]
    by_cases hx : x = s.currtask
    · rw [hx, Heaps.ev_setEv_self]
      exact hd
    · rw [Heaps.ev_setEv_ne hx]
  · show (m.ev x).defer = (s.heaps.ev x).defer
    rw [hs x]
    by_cases hx : x = s.currtask
    · rw [hx, Heaps.ev_setEv_self]
      exact hdefer
    · rw [Heaps.ev_setEv_ne hx]
  · show m.time x = s.heaps.time x
    rw [hs.time, Heaps.time, Heaps.ev_setEv_ne hx]
    rfl
  · show (m.ev x).ts = (s.heaps.ev x).ts
    rw [hs.ts, Heaps.ev_setEv_ne hx]

theorem FlushFrame.ofSame (hs : s.heaps.SameEvents m) : FlushFrame s { s with heaps := m } := by
  refine FlushFrame.ofHeaps (v := s.heaps.ev s.currtask) rfl rfl ?_
  have he : s.heaps.setEv s.currtask (s.heaps.ev s.currtask) = s.heaps := by
    simp [Heaps.setEv]
  rwa [he]

theorem FlushFrame.doingRealtime {d : BitVec 8} (h : FlushFrame s s₁) :
    FlushFrame s { s₁ with doingRealtime := d } :=
  ⟨h.user, h.loaded, h.started, h.objectData, h.defer, h.other⟩

/-- What the flush leaves alone, and which state it gives the running thread. -/
theorem flush_frame (h : ckFlushPrevTask s = some s₁) :
    FlushFrame s s₁ ∧ (s₁.ts s.currtask = .realTime →
      s.ts s.currtask = .realTime ∨
        s.ts s.currtask = .running ∧ cless s.lasttime (s.heaps.time s.currtask)) := by
  cases hts : s.ts s.currtask with
  | running =>
      by_cases hlt : cless s.lasttime (s.heaps.time s.currtask)
      · rw [flush_promote hts hlt] at h
        obtain ⟨m₁, h₁, h⟩ := Option.bind_eq_some_iff.mp h
        obtain ⟨m₂, h₂, h⟩ := Option.bind_eq_some_iff.mp h
        obtain rfl := Option.some.inj h
        exact ⟨.ofHeaps (v := { s.heaps.ev s.currtask with ts := .realTime }) rfl rfl
          ((ckRemoveEvent_frame h₁).2.same.trans (ckSiftup_frame h₂).same),
          fun _ => .inr ⟨rfl, hlt⟩⟩
      · obtain rfl := Option.some.inj ((flush_timesharing hts hlt).symm.trans h)
        have hs := (ckSiftdown_frame (s.heaps.setTime s.currtask
          (s.heaps.time s.currtask + (s.heaps.ev s.currtask).defer)) .timesharing).same
        refine ⟨.ofHeaps (v := { s.heaps.ev s.currtask with
          time := s.heaps.time s.currtask + (s.heaps.ev s.currtask).defer }) rfl rfl hs,
          fun hrt => ?_⟩
        rw [Sched.ts, hs.ts, Heaps.setTime, Heaps.ev_setEv_self] at hrt
        exact absurd (hts.symm.trans hrt) (by simp)
  | realTime =>
      refine ⟨?_, fun _ => .inl rfl⟩
      by_cases hlt : cless s.lasttime (s.heaps.time s.currtask)
      · obtain rfl := Option.some.inj ((flush_realtime hts hlt).symm.trans h)
        exact (FlushFrame.ofSame (ckSiftdown_frame s.heaps .realtime).same).doingRealtime
      · rw [flush_demote hts hlt] at h
        obtain ⟨m₁, h₁, h⟩ := Option.bind_eq_some_iff.mp h
        obtain ⟨m₂, h₂, h⟩ := Option.bind_eq_some_iff.mp h
        obtain rfl := Option.some.inj h
        rw [Heaps.setTime, Heaps.setTs, Heaps.ev_setEv_self, Heaps.setEv_setEv] at h₁
        exact (FlushFrame.ofHeaps (v := { s.heaps.ev s.currtask with
          ts := .running, time := s.heaps.ckGetNextTime .timesharing }) rfl rfl
          ((ckRemoveEvent_frame h₁).2.same.trans (ckSiftup_frame h₂).same)).doingRealtime
  | idle =>
      by_cases hi : s.currtask = idleLoop
      · obtain rfl := Option.some.inj ((flush_none (.inr ⟨hts, hi⟩)).symm.trans h)
        exact ⟨.ofSame (.refl _), fun hrt => absurd (hts.symm.trans hrt) (by simp)⟩
      · obtain rfl := Option.some.inj ((flush_idle hts hi).symm.trans h)
        have hs := (ckSiftdown_frame (s.heaps.setTime s.currtask
          (s.heaps.time s.currtask + (s.heaps.ev s.currtask).defer)) .idle).same
        refine ⟨.ofHeaps (v := { s.heaps.ev s.currtask with
          time := s.heaps.time s.currtask + (s.heaps.ev s.currtask).defer }) rfl rfl hs,
          fun hrt => ?_⟩
        rw [Sched.ts, hs.ts, Heaps.setTime, Heaps.ev_setEv_self] at hrt
        exact absurd (hts.symm.trans hrt) (by simp)
  | blocked =>
      obtain rfl := Option.some.inj ((flush_none (.inl hts)).symm.trans h)
      exact ⟨.ofSame (.refl _), fun hrt => absurd (hts.symm.trans hrt) (by simp)⟩

/-! ## The dispatch -/

@[simp] theorem lasttime_contextSwitch : (contextSwitch s).lasttime = s.lasttime := by
  unfold contextSwitch
  split <;> rfl

@[simp] theorem loaded_contextSwitch : (contextSwitch s).loaded = s.loaded := by
  unfold contextSwitch
  split <;> rfl

@[simp] theorem ts_contextSwitch : (contextSwitch s).ts x = s.ts x := by
  obtain ⟨signals, he⟩ := ev_contextSwitch (s := s) (x := x)
  unfold Sched.ts
  rw [he]

@[simp] theorem time_contextSwitch : (contextSwitch s).heaps.time x = s.heaps.time x := by
  obtain ⟨signals, he⟩ := ev_contextSwitch (s := s) (x := x)
  unfold Heaps.time
  rw [he]

@[simp] theorem objectData_contextSwitch : (contextSwitch s).objectData x = s.objectData x := by
  obtain ⟨signals, he⟩ := ev_contextSwitch (s := s) (x := x)
  unfold Sched.objectData
  rw [he]

/-- A task that was switched away from before finds its event's time in its user object. -/
theorem userTime_resume (h : s.started s.currtask = true) :
    (contextSwitch s).userTime s.currtask = s.heaps.time s.currtask := by
  unfold Sched.userTime
  rw [objectData_contextSwitch, contextSwitch, if_pos h]
  simp [resumeTask]

theorem user_start (h : s.started s.currtask = false) : (contextSwitch s).user = s.user := by
  unfold contextSwitch
  rw [if_neg (by rw [h]; simp)]

theorem started_contextSwitch : (contextSwitch s).started s.currtask = true ∧
    ∀ x, s.started x = true → (contextSwitch s).started x = true := by
  unfold contextSwitch
  split
  · rename_i h
    exact ⟨h, fun _ hx => hx⟩
  · refine ⟨update_self .., fun x hx => ?_⟩
    show update s.started s.currtask true x = true
    by_cases he : x = s.currtask
    · rw [he, update_self]
    · rw [update_of_ne he]
      exact hx

/-- Where the running thread came from: it was switched away from before, and so was the idle
loop. Nothing runs behind the back of an unloaded thread. -/
structure Sched.Begun (s : Sched) : Prop where
  idle : s.started idleLoop = true
  curr : s.started s.currtask = true ∨ s.currtask = zombietask

/-- **What a dispatched task finds in its user object**: the time it is dispatched with, or,
if it was never dispatched before, what was there. -/
theorem schedule_dispatch {timer : TIME} (hm : s.Members) (hm' : s'.Members) (hb : s.Begun)
    (h : ckSchedule s timer = some s') :
    s'.Begun ∧ (s'.userTime s'.currtask = s'.lasttime ∨
      s.loaded s'.currtask = true ∧ s.started s'.currtask = false ∧
        s.ts s'.currtask ≠ .blocked ∧ s'.lasttime = s.heaps.time s'.currtask ∧
        s'.userTime s'.currtask = s.userTime s'.currtask) := by
  obtain ⟨s₁, h₁, rfl⟩ := ckSchedule_eq h
  obtain ⟨hf, -⟩ := flush_frame h₁
  have hstarted : (selectTask s₁ timer).started = s.started := hf.started
  obtain ⟨hcurr, hmono⟩ := started_contextSwitch (s := selectTask s₁ timer)
  refine ⟨⟨hmono _ (by rw [hstarted]; exact hb.idle), .inl ?_⟩, ?_⟩
  · rw [currtask_contextSwitch]
    exact hcurr
  · rw [currtask_contextSwitch, lasttime_contextSwitch]
    cases hst : s.started (selectTask s₁ timer).currtask with
    | true =>
        left
        rw [userTime_resume (by rw [hstarted, hst])]
        rfl
    | false =>
        right
        -- it is the root of a heap, for the idle loop was dispatched before
        have hnext : s.loaded (selectTask s₁ timer).currtask = true ∧
            s₁.ts (selectTask s₁ timer).currtask ≠ .blocked := by
          rcases ckGetNextTask_cases (ckUpdateRealtime s₁ timer) with ⟨k, hne, he⟩ | he
          · have hk : (contextSwitch (selectTask s₁ timer)).heaps.Contains k
                (selectTask s₁ timer).currtask :=
              ⟨0, by
                rw [used_congr_sel (congrFun sel_contextSwitch k)]
                exact Nat.pos_of_ne_zero hne,
                (slot_congr_sel (congrFun sel_contextSwitch k)).trans he.symm⟩
            obtain ⟨hl, -⟩ := (hm'.placed.mem k _).mp hk
            rw [loaded_contextSwitch] at hl
            refine ⟨(congrFun hf.loaded _).symm.trans hl, fun hb => ?_⟩
            refine hm'.placed.consistent.not_contains ?_ hk
            exact (ts_contextSwitch (s := selectTask s₁ timer)).trans hb
          · rw [show (selectTask s₁ timer).currtask = idleLoop from he, hb.idle] at hst
            exact absurd hst (by simp)
        have hne : (selectTask s₁ timer).currtask ≠ s.currtask := by
          intro he
          rw [he] at hst hnext
          rcases hb.curr with hs | hz
          · rw [hs] at hst
            exact absurd hst (by simp)
          · rw [hz, hm.zombieOut] at hnext
            exact absurd hnext.1 (by simp)
        obtain ⟨htime, hts⟩ := hf.other _ hne
        refine ⟨hnext.1, rfl, ?_, ?_, ?_⟩
        · rw [hts, ts_takeUserTime] at hnext
          exact hnext.2
        · show s₁.heaps.time (selectTask s₁ timer).currtask = _
          rw [htime, Sched.takeUserTime, Heaps.time, Heaps.setTime, Heaps.ev_setEv_ne hne]
          rfl
        · unfold Sched.userTime
          rw [objectData_contextSwitch, user_start (by rw [hstarted, hst])]
          show (s₁.user (s₁.objectData _)).time = _
          rw [hf.user, hf.objectData, Sched.takeUserTime, Sched.objectData, Heaps.setTime,
            Heaps.ev_setEv_ne hne]
          rfl

/-- **One step** keeps what the running thread came from. -/
theorem schedStep_begun (hm : s.Members) (hm' : s'.Members) (hb : s.Begun) (hl : op.Legal s)
    (h : schedStep s op = some s') : s'.Begun := by
  by_cases hop : ∃ timer, op = .schedule timer
  · obtain ⟨timer, rfl⟩ := hop
    exact (schedule_dispatch hm hm' hb h).1
  · have hrest := schedStep_rest h fun timer he => hop ⟨timer, he⟩
    refine ⟨(hrest.started hl _ (.inr rfl)).trans hb.idle, ?_⟩
    by_cases hz : s'.currtask = zombietask
    · exact .inr hz
    · have hcurr := hrest.currtask.resolve_right hz
      rw [hcurr] at hz ⊢
      have hown : s.loaded s.currtask = true ∨ s.currtask = idleLoop := by
        rcases hm.curr with h | h | h
        · exact .inl h
        · exact .inr h
        · exact absurd h hz
      exact .inl ((hrest.started hl _ hown).trans (hb.curr.resolve_right hz))

/-! ## Runs -/

/-- User code stored a time later than the one the running thread was dispatched with into
that thread's user object, and `CKschedule` was not called since. -/
def AskedIn (C : Sched → SchedOp → Prop) (s₀ : Sched) (ops : List SchedOp) (s : Sched) : Prop :=
  ∃ ops₁ s₁ value ops₂, ops = ops₁ ++ .store (s₁.objectData s₁.currtask) value :: ops₂ ∧
    Run schedStep C s₀ ops₁ s₁ ∧ s₁.currtask = s.currtask ∧ s₁.lasttime = s.lasttime ∧
    cless s₁.lasttime value.time ∧ ∀ timer, .schedule timer ∉ ops₂

/-- No system call stores a time later than the dispatch time into the running thread's user
object, and no thread that is about to be dispatched for the first time has one there. -/
def SchedOp.KeepsEpoch (s : Sched) : SchedOp → Prop
  | .schedule _ => ∀ a, s.loaded a = true → s.started a = false → s.ts a ≠ .blocked →
    ¬ cless (s.heaps.time a) (s.userTime a)
  | .store _ _ => True
  | op => ∀ t, op.timeStored s = some (s.objectData s.currtask, t) → ¬ cless s.lasttime t

variable {C : Sched → SchedOp → Prop} {s₀ : Sched} {ops : List SchedOp}

/-- Asking lasts until the quantum is over. -/
theorem AskedIn.snoc (h : AskedIn C s₀ ops s) (hop : ∀ timer, op ≠ .schedule timer)
    (hc : s'.currtask = s.currtask) (hl : s'.lasttime = s.lasttime) :
    AskedIn C s₀ (ops ++ [op]) s' := by
  obtain ⟨ops₁, s₁, value, ops₂, rfl, hr, hcurr, hlast, hlt, hno⟩ := h
  refine ⟨ops₁, s₁, value, ops₂ ++ [op], by simp, hr, hcurr.trans hc.symm, hlast.trans hl.symm,
    hlt, fun timer hmem => ?_⟩
  rcases List.mem_append.mp hmem with hmem | hmem
  · exact hno timer hmem
  · exact hop timer (List.mem_singleton.mp hmem).symm

/-- The invariant: a user time later than the dispatch time was asked for. -/
structure Sched.Honest (s : Sched) (asked : Prop) : Prop where
  members : s.Members
  begun : s.Begun
  asked : s.loaded s.currtask = true → cless s.lasttime (s.userTime s.currtask) → asked

/-- The running thread's user time after a system call. -/
theorem userTime_curr (hl : op.Legal s) (hload : s.loaded s.currtask = true)
    (h : schedStep s op = some s') (hop : ∀ timer, op ≠ .schedule timer)
    (hcurr : s'.currtask = s.currtask) : s'.userTime s'.currtask =
      storeTime s.user (op.timeStored s) (s.objectData s.currtask) := by
  have hobj : s'.objectData s.currtask = s.objectData s.currtask :=
    (schedStep_kept hl (.inl hload) h hop).objectData
  unfold Sched.userTime
  rw [hcurr, hobj, (schedStep_rest h hop).time]

/-- **One step** of a run keeps the invariant. -/
theorem schedStep_honest (hs : s.Honest (AskedIn C s₀ ops s)) (hr : Run schedStep C s₀ ops s)
    (hl : op.Legal s) (hf : op.Fits s) (hk : op.KeepsEpoch s) (h : schedStep s op = some s') :
    s'.Honest (AskedIn C s₀ (ops ++ [op]) s') := by
  have hm' : s'.Members := by
    obtain ⟨s₁, h₁, hm₁⟩ := schedStep_members hs.members hl hf
    exact Option.some.inj (h₁.symm.trans h) ▸ hm₁
  refine ⟨hm', schedStep_begun hs.members hm' hs.begun hl h, fun hload hlt => ?_⟩
  by_cases hop : ∃ timer, op = .schedule timer
  · obtain ⟨timer, rfl⟩ := hop
    -- the new quantum starts with nothing asked for
    rcases (schedule_dispatch hs.members hm' hs.begun h).2 with he | ⟨hload, hst, hts, hlast, huser⟩
    · rw [he] at hlt
      exact absurd hlt (cless_irrefl _)
    · rw [hlast, huser] at hlt
      exact absurd hlt (hk _ hload hst hts)
  · have hop : ∀ timer, op ≠ .schedule timer := fun timer he => hop ⟨timer, he⟩
    have hrest := schedStep_rest h hop
    have hcurr : s'.currtask = s.currtask := by
      refine hrest.currtask.resolve_right fun hz => ?_
      rw [hz, hm'.zombieOut] at hload
      exact absurd hload (by simp)
    have hload : s.loaded s.currtask = true := by
      rw [hcurr] at hload
      rcases hs.members.curr with h | h | h
      · exact h
      · rw [h, hm'.idleOut] at hload
        exact absurd hload (by simp)
      · rw [h, hm'.zombieOut] at hload
        exact absurd hload (by simp)
    rw [hrest.lasttime, userTime_curr hl hload h hop hcurr] at hlt
    cases hstore : op.timeStored s with
    | none =>
        rw [hstore] at hlt
        exact (hs.asked hload hlt).snoc hop hcurr hrest.lasttime
    | some r =>
        obtain ⟨o, t⟩ := r
        rw [hstore] at hlt
        by_cases ho : s.objectData s.currtask = o
        · subst ho
          have hlt : cless s.lasttime t := by rwa [storeTime, if_pos rfl] at hlt
          cases op with
          | store object value =>
              -- user code has asked
              obtain ⟨rfl, rfl⟩ := Prod.mk.inj (Option.some.inj hstore)
              exact ⟨ops, s, value, [], rfl, hr, hcurr.symm, hrest.lasttime.symm, hlt,
                fun _ hmem => absurd hmem (by simp)⟩
          | schedule timer => exact absurd rfl (hop timer)
          | _ => exact absurd hlt (hk t hstore)
        · rw [storeTime, if_neg ho] at hlt
          exact (hs.asked hload hlt).snoc hop hcurr hrest.lasttime

/-- How the operations of a run are done: legal, finding room, and keeping the epoch. -/
def SchedOp.InEpoch (s : Sched) (op : SchedOp) : Prop :=
  (op.Legal s ∧ op.Fits s) ∧ op.KeepsEpoch s

/-- **Realtime promotion over runs.** From boot, in every run whose steps keep the epoch, the
only step that makes a thread realtime is the flush of the running thread, and only if user
code stored a time later than the dispatch time into its user object during the quantum. -/
theorem realtime_promotion_run (h0 : s₀.AtBoot)
    (hr : Run schedStep SchedOp.InEpoch s₀ ops s)
    (hs : schedStep s op = some s') (hbefore : s.ts a ≠ .realTime)
    (hafter : s'.ts a = .realTime) :
    (∃ timer, op = .schedule timer) ∧ a = s.currtask ∧
      AskedIn SchedOp.InEpoch s₀ ops s := by
  have hhonest : s.Honest (AskedIn SchedOp.InEpoch s₀ ops s) := by
    refine hr.history (I := fun ops s => s.Honest (AskedIn SchedOp.InEpoch s₀ ops s)) ?_ ?_
    · refine ⟨h0.members, ⟨h0.started, .inl ?_⟩, fun hload => ?_⟩
      · rw [h0.currtask, h0.started]
      · rw [h0.loaded] at hload
        exact absurd hload (by simp)
    · intro bs s₁ s₂ op hrun hi hC hstep
      exact schedStep_honest hi hrun hC.1.1 hC.1.2 hC.2 hstep
  by_cases hop : ∃ timer, op = .schedule timer
  · obtain ⟨timer, rfl⟩ := hop
    obtain ⟨s₁, h₁, rfl⟩ := ckSchedule_eq hs
    obtain ⟨hf, hcase⟩ := flush_frame h₁
    have hafter : s₁.ts a = .realTime :=
      (ts_contextSwitch (s := selectTask s₁ timer)).symm.trans hafter
    have ha : a = s.currtask := by
      by_contra hne
      rw [(hf.other a hne).2, ts_takeUserTime] at hafter
      exact hbefore hafter
    subst ha
    refine ⟨⟨timer, rfl⟩, rfl, ?_⟩
    rcases hcase hafter with hrt | ⟨hts, hlt⟩
    · exact absurd ((ts_takeUserTime).symm.trans hrt) hbefore
    · have hts : s.ts s.currtask = .running := ts_takeUserTime.symm.trans hts
      have hlt : cless s.lasttime (s.userTime s.currtask) := time_takeUserTime ▸ hlt
      exact hhonest.asked
        (hhonest.members.curr_loaded (by rw [hts]; simp) (by rw [hts]; simp)) hlt
  · exact absurd (schedStep_realTime hs (fun timer he => hop ⟨timer, he⟩) hafter) hbefore

/-! ## A promotion nobody asked for -/

theorem not_askedIn (h : ∀ object value, .store object value ∉ ops) : ¬ AskedIn C s₀ ops s := by
  rintro ⟨ops₁, s₁, value, ops₂, rfl, -⟩
  exact h _ value (List.mem_append_right _ (.head _))

/-- Thread 16 was dispatched with time 5; it blocks itself and becomes running again with the
time of the root, 9, and the next flush makes it realtime. -/
theorem setThreadState_promotes : ∃ ops s s', Run schedStep (fun s op => op.Legal s ∧ op.Fits s)
      schedAtBoot ops s ∧ schedStep s (.schedule 0) = some s' ∧
    s.ts 16 = .running ∧ s'.ts 16 = .realTime ∧
    ¬ AskedIn (fun s op => op.Legal s ∧ op.Fits s) schedAtBoot ops s := by
  have hexec : (exec schedStep (fun s op => op.Legal s ∧ op.Fits s) schedAtBoot
      [.loadThread 16 32 1 5 0, .loadThread 17 33 1 9 0, .unblockThread 16, .unblockThread 17,
        .schedule 0, .schedule 0, .schedule 0, .setThreadState 16 .blocked,
        .setThreadState 16 .running]).any (fun s => decide (s.ts 16 = .running) &&
      (schedStep s (.schedule 0)).any fun s' => decide (s'.ts 16 = .realTime)) = true := by
    decide +kernel
  obtain ⟨s, hr, hp⟩ := Run.of_exec_any hexec
  obtain ⟨hrun, hany⟩ := (Bool.and_eq_true ..).mp hp
  obtain ⟨s', hs', hrt⟩ := (Option.any_eq_true _ _).mp hany
  exact ⟨_, s, s', hr, hs', of_decide_eq_true hrun, of_decide_eq_true hrt,
    not_askedIn fun object value => by simp⟩

/-- The run theorem where thread 16 asks for time 7 and is made realtime. -/
theorem realtime_promotion_run_one : ∃ s s', Run schedStep SchedOp.InEpoch schedAtBoot
      [.loadThread 16 32 1 5 0, .unblockThread 16, .schedule 0, .store 32 ⟨7, 0, 0⟩] s ∧
    schedStep s (.schedule 0) = some s' ∧ s'.ts 16 = .realTime ∧
    AskedIn SchedOp.InEpoch schedAtBoot
      [.loadThread 16 32 1 5 0, .unblockThread 16, .schedule 0, .store 32 ⟨7, 0, 0⟩] s := by
  have hexec : (exec schedStep (fun s op => op.Legal s ∧ op.Fits s) schedAtBoot
      [.loadThread 16 32 1 5 0, .unblockThread 16, .schedule 0, .store 32 ⟨7, 0, 0⟩]).any
      (fun s => decide (s.ts 16 ≠ .realTime) &&
        (schedStep s (.schedule 0)).any fun s' => decide (s'.ts 16 = .realTime)) = true := by
    decide +kernel
  obtain ⟨s, hr, hp⟩ := Run.of_exec_any hexec
  obtain ⟨hrun, hany⟩ := (Bool.and_eq_true ..).mp hp
  obtain ⟨s', hs', hrt⟩ := (Option.any_eq_true _ _).mp hany
  have hepoch : Along schedStep SchedOp.KeepsEpoch schedAtBoot
      [.loadThread 16 32 1 5 0, .unblockThread 16, .schedule 0, .store 32 ⟨7, 0, 0⟩] := by
    refine ⟨fun t h => absurd h (by simp [SchedOp.timeStored]), fun s₁ h₁ =>
      ⟨fun t h => absurd h (by simp [SchedOp.timeStored]), fun s₂ h₂ =>
        ⟨fun a ha _ _ => ?_, fun s₃ _ => ⟨trivial, fun _ _ => trivial⟩⟩⟩⟩
    obtain rfl := Option.some.inj h₁
    obtain rfl := Option.some.inj h₂
    -- only thread 16 is loaded, and its user object has the time of its event
    have h16 : a = 16 := by
      by_contra hne
      exact absurd ((update_of_ne hne _ _).symm.trans ha) (by simp [schedAtBoot])
    subst h16
    decide +kernel
  exact ⟨s, s', hr.along hepoch, hs', of_decide_eq_true hrt,
    (realtime_promotion_run schedAtBoot_atBoot (hr.along hepoch) hs' (of_decide_eq_true hrun)
      (of_decide_eq_true hrt)).2.2⟩

end Alliance.CK
