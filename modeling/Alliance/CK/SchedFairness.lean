import Alliance.CK.SchedPromotion

/-!
# Timesharing fairness

Among timesharing threads the heap is a race on the circle: the root runs, and the flush
puts it back by its `defer`. Measured from the root, every thread lies at most the largest
`defer` ahead; `lag` is that distance. One step moves the root forward by some amount, the
same for all threads, and a thread moves forward by its `defer` if it was flushed: so

  lag before + defer, if flushed = advance of the root + lag after.

Adding this up over a stretch of a run, the quanta of a thread times its `defer` are the
advance of the root up to one `lag`, and two threads differ by two of them at most.

The race is fair only if nothing else writes times. A removal that leaves the heap out of
order hides an event from the root, and a thread that is dispatched for the first time is
flushed with the time its user object happens to hold: `SchedOp.Settled` excludes both.
-/

namespace Alliance.CK

open Function Lib Lib.BinHeap Lib.Circular

variable {m m' : Heaps} {ht ht' : HeapType} {a x t : Addr} {s s' s₁ : Sched} {op : SchedOp}
  {D : Nat} {b : TIME}

/-! ## Distance from the root -/

/-- How far an event's time is ahead of that of the root. -/
def Heaps.lag (m : Heaps) (x : Addr) : Nat := offset (m.ckGetNextTime .timesharing) (m.time x)

/-- All events of the timesharing heap are within `D` after `b`. -/
def Heaps.AheadOf (m : Heaps) (b : TIME) (D : Nat) : Prop :=
  ∀ x, m.Contains .timesharing x → offset b (m.time x) ≤ D

theorem within_of_le (hD : D < 2 ^ 30) {y : TIME} (h : offset b y ≤ D) : Within b y := by
  unfold Within
  omega

/-- The root of a heap in order is the first event after `b`, so that measuring from the
root takes its distance off all others. -/
theorem lag_add (hD : D < 2 ^ 30) (hs : m.Sound .timesharing) (hb : m.AheadOf b D)
    (hx : m.Contains .timesharing x) :
    offset b (m.ckGetNextTime .timesharing) + m.lag x = offset b (m.time x) := by
  obtain ⟨i, hi, rfl⟩ := id hx
  have h0 : m.Contains .timesharing (m.slot .timesharing 0) := ⟨0, by omega, rfl⟩
  have hfirst := hs.root_first i hi
  unfold Heaps.earlier at hfirst
  rw [cless_iff (within_of_le hD (hb _ hx)) (within_of_le hD (hb _ h0))] at hfirst
  have hle : offset b (m.ckGetNextTime .timesharing) ≤ offset b (m.time (m.slot .timesharing i)) :=
    Nat.not_lt.mp hfirst
  unfold Heaps.lag
  rw [offset_rebase hle]
  omega

theorem lag_le (hD : D < 2 ^ 30) (hs : m.Sound .timesharing) (hb : m.AheadOf b D) :
    ∀ x, m.Contains .timesharing x → m.lag x ≤ D := by
  intro x hx
  have h1 := lag_add hD hs hb hx
  have h2 := hb x hx
  omega

/-- Events within `D` of the root lie on half the circle. -/
theorem windowed_of_lag (hD : D < 2 ^ 30) (h : ∀ x, m.Contains .timesharing x → m.lag x ≤ D) :
    m.Windowed .timesharing :=
  ⟨_, fun i hi => within_of_le hD (h _ ⟨i, hi, rfl⟩)⟩

/-! ## The operations of a timesharing run -/

/-- Threads are loaded with a `defer` up to `D`, blocked, unblocked, prioritised and
scheduled; user code leaves the time fields alone, and a thread that blocked itself is not
unblocked before its quantum is over. -/
def SchedOp.Timeshares (D : Nat) (s : Sched) : SchedOp → Prop
  | .loadThread _ _ _ defer _ => 0 < defer.toNat ∧ defer.toNat ≤ D
  | .unblockThread thread => thread = s.currtask → s.ts thread ≠ .blocked
  | .blockThread _ => True
  | .prioritise _ => True
  | .schedule _ => True
  | .store object value => value.time = (s.user object).time
  | _ => False

instance (D : Nat) (s : Sched) : (op : SchedOp) → Decidable (op.Timeshares D s)
  | .loadThread _ _ _ _ _ => inferInstanceAs (Decidable (_ ∧ _))
  | .unblockThread _ => inferInstanceAs (Decidable (_ = _ → _))
  | .blockThread _ => isTrue trivial
  | .prioritise _ => isTrue trivial
  | .schedule _ => isTrue trivial
  | .store _ _ => inferInstanceAs (Decidable (_ = _))
  | .cacheRunning _ _ _ => isFalse id
  | .unloadThread _ => isFalse id
  | .idleThread _ => isFalse id
  | .setThreadState _ _ => isFalse id
  | .threadTunnel _ _ => isFalse id
  | .sendSignal _ _ _ _ _ => isFalse id

/-- Removals find last events that fit, and threads that are about to be dispatched for the
first time have their event's time in their user object. -/
def SchedOp.Settled (s : Sched) : SchedOp → Prop
  | .blockThread thread => HeapCall.RemovalFits s.heaps (.block thread)
  | .schedule _ => ∀ a, s.loaded a = true → s.started a = false → s.ts a = .running →
    s.userTime a = s.heaps.time a
  | _ => True

/-- The invariant of a timesharing run. -/
structure Sched.Fair (D : Nat) (s : Sched) : Prop where
  members : s.Members
  begun : s.Begun
  rooted : s.heaps.Rooted s.currtask
  sound : ∀ ht, s.heaps.Sound ht
  states : ∀ a, s.loaded a = true → s.ts a = .running ∨ s.ts a = .blocked
  defer : ∀ a, s.loaded a = true →
    0 < (s.heaps.ev a).defer.toNat ∧ (s.heaps.ev a).defer.toNat ≤ D
  lag : ∀ x, s.heaps.Contains .timesharing x → s.heaps.lag x ≤ D
  curr : s.ts s.currtask = .running →
    s.heaps.time s.currtask = s.lasttime ∧ s.userTime s.currtask = s.lasttime

/-- By how much an operation moves a thread forward. -/
def SchedOp.served (s : Sched) (x : Addr) : SchedOp → TIME
  | .schedule _ => if x = s.currtask then (s.heaps.ev x).defer else 0#32
  | _ => 0#32

/-- A thread that the flush of a timesharing run finds running stays timesharing. -/
theorem Sched.Fair.stays (hf : s.Fair D) (hts : s.ts s.currtask = .running) :
    s.Stays .timesharing := by
  refine ⟨hts, ?_⟩
  rw [(hf.curr hts).2]
  exact cless_irrefl _

/-- Otherwise the running task is blocked or the idle loop, and the flush does nothing. -/
theorem Sched.Fair.flush_none (hf : s.Fair D) (hts : s.ts s.currtask ≠ .running) :
    ckFlushPrevTask s.takeUserTime = some s.takeUserTime ∧
      ¬ s.heaps.Contains .timesharing s.currtask := by
  refine ⟨CK.flush_none ?_, fun hc => hts (hf.members.placed.consistent.ts _ _ hc)⟩
  rw [ts_takeUserTime]
  rcases hf.members.curr with hl | hl | hl
  · exact .inl ((hf.states _ hl).resolve_left hts)
  · exact .inr ⟨by rw [show s.takeUserTime.currtask = s.currtask from rfl, hl]
                   exact hf.members.idleTs, hl⟩
  · exact .inl (by rw [show s.takeUserTime.currtask = s.currtask from rfl, hl]
                   exact hf.members.zombieTs)

/-- The flush of a running thread: its time grows by its `defer`, and nothing else moves. -/
theorem Sched.Fair.flush_running (hf : s.Fair D) (hts : s.ts s.currtask = .running)
    (h : ckFlushPrevTask s.takeUserTime = some s₁) :
    s.heaps.Contains .timesharing s.currtask ∧
      (∀ x, s₁.heaps.Contains .timesharing x ↔ s.heaps.Contains .timesharing x) ∧
      (∀ x, s₁.ts x = s.ts x) ∧
      ∀ x, s₁.heaps.time x =
        s.heaps.time x + if x = s.currtask then (s.heaps.ev x).defer else 0#32 := by
  have hc := hf.members.contains_stays (hf.stays hts)
  obtain ⟨i, hi, -⟩ := id hc
  obtain ⟨s₂, h₂, he⟩ := flush_stays (hf.stays hts)
  obtain rfl := Option.some.inj (h₂.symm.trans h)
  have hb : (s.heaps.setTime s.currtask (s.stayTime .timesharing)).BackPtrs .timesharing :=
    (hf.members.placed.back _).setEv rfl
  obtain ⟨-, hcont⟩ := ckSiftdown_spec
    (m := s.heaps.setTime s.currtask (s.stayTime .timesharing)) (Nat.zero_lt_of_lt hi) hb
  have hsame := (ckSiftdown_frame (s.heaps.setTime s.currtask (s.stayTime .timesharing))
    .timesharing).same
  refine ⟨hc, fun x => ?_, fun x => ?_, fun x => ?_⟩
  · rw [he, ← Heaps.mem_contents, hcont, Heaps.mem_contents]
    rfl
  · rw [Sched.ts, he, hsame.ts]
    by_cases hx : x = s.currtask
    · rw [hx, Heaps.setTime, Heaps.ev_setEv_self]
      rfl
    · rw [Heaps.setTime, Heaps.ev_setEv_ne hx]
      rfl
  · rw [he, hsame.time]
    by_cases hx : x = s.currtask
    · rw [hx, time_setTime_self, if_pos rfl, (hf.curr hts).1, ← (hf.curr hts).2]
      rfl
    · rw [if_neg hx, BitVec.add_zero, Heaps.time, Heaps.setTime, Heaps.ev_setEv_ne hx]
      rfl

/-! ## One step -/

/-- What an operation does to a thread that is in the timesharing heap afterwards: it moves it
forward by what it is served, or it puts it level with the root. -/
def SchedOp.Moved (s : Sched) (op : SchedOp) (s' : Sched) (x : Addr) : Prop :=
  (s.heaps.Contains .timesharing x ∧ op ≠ .prioritise x ∧
      s'.heaps.time x = s.heaps.time x + op.served s x) ∨
    (op = .unblockThread x ∧ s.ts x = .blocked ∨
        op = .prioritise x ∧ s.heaps.Contains .timesharing x) ∧
      (0 < s.heaps.used .timesharing → s'.heaps.time x = s.heaps.ckGetNextTime .timesharing) ∧
      (s.heaps.used .timesharing = 0 → s'.heaps.slot .timesharing 0 = x)

/-- A thread an operation does not concern is moved by nothing. -/
theorem moved_same (hx : s.heaps.Contains .timesharing x) (hop : op ≠ .prioritise x)
    (hserved : op.served s x = 0#32) (ht : s'.heaps.time x = s.heaps.time x) :
    op.Moved s s' x :=
  .inl ⟨hx, hop, by rw [ht, hserved, BitVec.add_zero]⟩

/-- **One step**, thread by thread. -/
theorem schedStep_moved (hf : s.Fair D) (hl : op.Legal s) (ht : op.Timeshares D s)
    (h : schedStep s op = some s') : ∀ x, s'.heaps.Contains .timesharing x → op.Moved s s' x := by
  have hcon := hf.members.placed.consistent
  intro x hx
  cases op with
  | loadThread a objectData quantum defer interruptable =>
      obtain rfl := Option.some.inj h
      exact moved_same hx (by simp) rfl (Heaps.time_setEv rfl)
  | unblockThread a =>
      obtain ⟨m, hm, rfl⟩ := Option.map_eq_some_iff.mp h
      by_cases hts : (s.heaps.ev a).ts = .blocked
      · have hm : enterHeap s.heaps .timesharing a = some m := (if_pos hts).symm.trans hm
        obtain ⟨-, hcont⟩ := enterHeap_consistent hcon hts hm
        have hs := (ckSiftup_frame (m := s.heaps.entered .timesharing a) hm).same
        by_cases hxa : x = a
        · subst hxa
          refine .inr ⟨.inl ⟨rfl, hts⟩, fun hpos => ?_, fun h0 => ?_⟩
          · show m.time x = _
            rw [hs.time, Heaps.time, Heaps.ev_entered_self]
            exact enterTime_of_pos hpos
          · exact root_ckSiftup_empty (m := s.heaps.entered .timesharing x) hm h0
        · refine moved_same (((hcont _ x).mp hx).resolve_right fun h => hxa h.1) (by simp) rfl ?_
          show m.time x = _
          rw [hs.time, Heaps.time, Heaps.ev_entered_ne hxa]
          rfl
      · obtain rfl := Option.some.inj ((if_neg hts).symm.trans hm)
        exact moved_same hx (by simp) rfl rfl
  | blockThread a =>
      obtain ⟨m, hm, rfl⟩ := Option.map_eq_some_iff.mp h
      obtain ⟨-, hcont⟩ := ckBlockThread_consistent hcon (hf.members.placed.sits hl) hm
      obtain ⟨m₁, h₁, rfl⟩ := ckBlockThread_eq hm
      refine moved_same ((hcont _ x).mp hx).1 (by simp) rfl ?_
      show (m₁.setTs a .blocked).time x = _
      rw [Heaps.setTs, Heaps.time_setEv (v := { m₁.ev a with ts := .blocked }) rfl,
        (leaveHeap_same h₁).time]
  | prioritise a =>
      obtain ⟨m, hm, rfl⟩ := Option.map_eq_some_iff.mp h
      obtain ⟨-, hcont⟩ := ckPrioritise_consistent hcon (hf.members.placed.sits hl) hm
      have hx' := (hcont _ x).mp hx
      rcases ckPrioritise_eq hm with ⟨hts, rfl⟩ | ⟨hts, -, rfl⟩
      · refine moved_same hx' ?_ rfl rfl
        rintro he
        obtain rfl := SchedOp.prioritise.inj he
        exact hts (hcon.ts _ _ hx')
      · have hs := siftupFrom_same (s.heaps.setTime a (s.heaps.ckGetNextTime .timesharing))
          .timesharing a (s.heaps.ev a).heap.idx
        by_cases hxa : x = a
        · subst hxa
          refine .inr ⟨.inr ⟨rfl, hx'⟩, fun _ => ?_, fun h0 => ?_⟩
          · show (siftupFrom _ _ _ _).time x = _
            rw [hs.time, time_setTime_self]
          · obtain ⟨i, hi, -⟩ := hx'
            omega
        · refine moved_same hx' (fun he => hxa (SchedOp.prioritise.inj he).symm) rfl ?_
          show (siftupFrom _ _ _ _).time x = _
          rw [hs.time, Heaps.time, Heaps.setTime, Heaps.ev_setEv_ne hxa]
          rfl
  | schedule timer =>
      obtain ⟨s₁, h₁, rfl⟩ := ckSchedule_eq h
      have hx₁ : s₁.heaps.Contains .timesharing x :=
        (contains_congr_sel (congrFun (sel_contextSwitch (s := selectTask s₁ timer)) _)).mp hx
      have htime : (contextSwitch (selectTask s₁ timer)).heaps.time x = s₁.heaps.time x :=
        time_contextSwitch
      by_cases hts : s.ts s.currtask = .running
      · obtain ⟨-, hcont, -, hadv⟩ := hf.flush_running hts h₁
        exact .inl ⟨(hcont x).mp hx₁, by simp, htime.trans (hadv x)⟩
      · obtain ⟨hnone, hout⟩ := hf.flush_none hts
        obtain rfl := Option.some.inj (hnone.symm.trans h₁)
        have hx' : s.heaps.Contains .timesharing x := hx₁
        have hne : x ≠ s.currtask := fun he => hout (he ▸ hx')
        refine moved_same hx' (by simp) (if_neg hne) (htime.trans ?_)
        rw [Sched.takeUserTime, Heaps.time, Heaps.setTime, Heaps.ev_setEv_ne hne]
        rfl
  | store object value =>
      obtain rfl := Option.some.inj h
      exact moved_same hx (by simp) rfl rfl
  | cacheRunning => exact ht.elim
  | unloadThread => exact ht.elim
  | idleThread => exact ht.elim
  | setThreadState => exact ht.elim
  | threadTunnel => exact ht.elim
  | sendSignal => exact ht.elim

/-- A thread that was not loaded before has just been loaded, and is blocked. -/
theorem loaded_or (ht : op.Timeshares D s) (h : schedStep s op = some s')
    (ha : s'.loaded a = true) :
    s.loaded a = true ∨
      s'.ts a = .blocked ∧ 0 < (s'.heaps.ev a).defer.toNat ∧ (s'.heaps.ev a).defer.toNat ≤ D := by
  cases op with
  | loadThread b objectData quantum defer interruptable =>
      obtain rfl := Option.some.inj h
      by_cases hab : a = b
      · subst hab
        have he : (ckLoadThread s a objectData quantum defer interruptable).heaps.ev a =
            { s.heaps.ev a with
              objectData, quantum, defer, ts := .blocked, signals := [] } := Heaps.ev_setEv_self
        rw [Sched.ts, he]
        exact .inr ⟨rfl, ht⟩
      · exact .inl ((update_of_ne hab _ _).symm.trans ha)
  | unblockThread b =>
      obtain ⟨m, -, rfl⟩ := Option.map_eq_some_iff.mp h
      exact .inl ha
  | blockThread b =>
      obtain ⟨m, -, rfl⟩ := Option.map_eq_some_iff.mp h
      exact .inl ha
  | prioritise b =>
      obtain ⟨m, -, rfl⟩ := Option.map_eq_some_iff.mp h
      exact .inl ha
  | schedule timer =>
      obtain ⟨s₁, h₁, rfl⟩ := ckSchedule_eq h
      rw [loaded_contextSwitch] at ha
      exact .inl ((congrFun (flush_frame h₁).1.loaded a).symm.trans ha)
  | store object value =>
      obtain rfl := Option.some.inj h
      exact .inl ha
  | cacheRunning => exact ht.elim
  | unloadThread => exact ht.elim
  | idleThread => exact ht.elim
  | setThreadState => exact ht.elim
  | threadTunnel => exact ht.elim
  | sendSignal => exact ht.elim

/-- **One step** leaves a thread the state it had, or blocks or unblocks it. -/
theorem schedStep_ts (hf : s.Fair D) (ht : op.Timeshares D s) (h : schedStep s op = some s')
    (a : Addr) : s'.ts a = s.ts a ∨ s'.ts a = .running ∨ s'.ts a = .blocked := by
  cases op with
  | loadThread b objectData quantum defer interruptable =>
      obtain rfl := Option.some.inj h
      by_cases hab : a = b
      · subst hab
        exact .inr (.inr (congrArg CKThreadObject.ts Heaps.ev_setEv_self))
      · exact .inl (congrArg CKThreadObject.ts (Heaps.ev_setEv_ne hab))
  | unblockThread b =>
      obtain ⟨m, hm, rfl⟩ := Option.map_eq_some_iff.mp h
      by_cases hts : (s.heaps.ev b).ts = .blocked
      · have hm : enterHeap s.heaps .timesharing b = some m := (if_pos hts).symm.trans hm
        have hs := (ckSiftup_frame (m := s.heaps.entered .timesharing b) hm).same
        by_cases hab : a = b
        · subst hab
          refine .inr (.inl ?_)
          show (m.ev a).ts = _
          rw [hs.ts, Heaps.ev_entered_self]
          rfl
        · left
          show (m.ev a).ts = _
          rw [hs.ts, Heaps.ev_entered_ne hab]
          rfl
      · obtain rfl := Option.some.inj ((if_neg hts).symm.trans hm)
        exact .inl rfl
  | blockThread b =>
      obtain ⟨m, hm, rfl⟩ := Option.map_eq_some_iff.mp h
      have hts := ts_ckBlockThread (x := a) hm
      by_cases hab : a = b
      · exact .inr (.inr (hts.trans (if_pos hab)))
      · exact .inl (hts.trans (if_neg hab))
  | prioritise b =>
      obtain ⟨m, hm, rfl⟩ := Option.map_eq_some_iff.mp h
      rcases ckPrioritise_eq hm with ⟨-, rfl⟩ | ⟨-, -, rfl⟩
      · exact .inl rfl
      · left
        show ((siftupFrom _ _ _ _).ev a).ts = _
        rw [(siftupFrom_same _ _ _ _).ts]
        by_cases hab : a = b
        · rw [hab, Heaps.setTime, Heaps.ev_setEv_self]
          rfl
        · rw [Heaps.setTime, Heaps.ev_setEv_ne hab]
          rfl
  | schedule timer =>
      obtain ⟨s₁, h₁, rfl⟩ := ckSchedule_eq h
      rw [ts_contextSwitch]
      by_cases hts : s.ts s.currtask = .running
      · exact .inl ((hf.flush_running hts h₁).2.2.1 a)
      · obtain rfl := Option.some.inj ((hf.flush_none hts).1.symm.trans h₁)
        exact .inl ts_takeUserTime
  | store object value =>
      obtain rfl := Option.some.inj h
      exact .inl rfl
  | cacheRunning => exact ht.elim
  | unloadThread => exact ht.elim
  | idleThread => exact ht.elim
  | setThreadState => exact ht.elim
  | threadTunnel => exact ht.elim
  | sendSignal => exact ht.elim

/-- The `defer` of a loaded thread does not change. -/
theorem schedStep_defer (hl : op.Legal s) (ha : s.loaded a = true) (h : schedStep s op = some s') :
    (s'.heaps.ev a).defer = (s.heaps.ev a).defer := by
  by_cases hop : ∃ timer, op = .schedule timer
  · obtain ⟨timer, rfl⟩ := hop
    obtain ⟨s₁, h₁, rfl⟩ := ckSchedule_eq h
    obtain ⟨signals, he⟩ := ev_contextSwitch (s := selectTask s₁ timer) (x := a)
    rw [he]
    refine ((flush_frame h₁).1.defer a).trans ?_
    by_cases hx : a = s.currtask
    · rw [hx, Sched.takeUserTime, Heaps.setTime, Heaps.ev_setEv_self]
    · rw [Sched.takeUserTime, Heaps.setTime, Heaps.ev_setEv_ne hx]
  · exact (schedStep_kept hl (.inl ha) h fun timer he => hop ⟨timer, he⟩).defer

/-- The calls of a timesharing run wake no running thread. -/
theorem rootKept_of_timeshares (ht : op.Timeshares D s) : op.RootKept s := by
  cases op with
  | loadThread => exact ⟨trivial, fun _ _ => trivial⟩
  | unblockThread a =>
      refine ⟨fun he hb => ?_, fun _ _ => trivial⟩
      exact absurd hb (ht he)
  | blockThread => exact ⟨trivial, fun _ _ => trivial⟩
  | prioritise => exact ⟨trivial, fun _ _ => trivial⟩
  | schedule => trivial
  | store => trivial
  | cacheRunning => exact ht.elim
  | unloadThread => exact ht.elim
  | idleThread => exact ht.elim
  | setThreadState => exact ht.elim
  | threadTunnel => exact ht.elim
  | sendSignal => exact ht.elim

/-- With the running thread at the root, the root's time is the dispatch time. -/
theorem Sched.Fair.root_time (hf : s.Fair D) (hts : s.ts s.currtask = .running) :
    s.heaps.Contains .timesharing s.currtask ∧
      s.heaps.ckGetNextTime .timesharing = s.lasttime := by
  have hc := hf.members.contains_stays (hf.stays hts)
  refine ⟨hc, ?_⟩
  rw [← (hf.curr hts).1, Heaps.ckGetNextTime, Heaps.ckGetNextEvent, hf.rooted _ hc]

theorem offset_served {d : TIME} : offset b (b + d) = d.toNat := by
  rw [offset_add (by rw [offset_self, Nat.zero_add]; exact d.isLt), offset_self, Nat.zero_add]

/-- The flush of a timesharing run stays in the window. -/
theorem Sched.Fair.flushWindow (hD : D < 2 ^ 30) (hf : s.Fair D) : s.FlushWindow := by
  refine ⟨fun ht hst => ?_, fun hp => ?_⟩
  · have hc := hf.members.contains_stays hst
    have hts := hf.members.placed.consistent.ts _ _ hc
    have hrun : s.ts s.currtask = .running := by
      have hl := ((hf.members.placed.mem ht _).mp hc).1
      refine (hf.states _ hl).resolve_right fun hb => ?_
      exact hf.members.placed.consistent.not_contains hb hc
    obtain rfl : ht = .timesharing := by
      have := hts.symm.trans hrun
      revert this
      cases ht <;> decide
    obtain ⟨-, hroot⟩ := hf.root_time hrun
    have hl := ((hf.members.placed.mem _ _).mp hc).1
    refine ⟨s.heaps.ckGetNextTime .timesharing, within_of_le hD ?_, fun x hx _ =>
      within_of_le hD (hf.lag x hx)⟩
    show offset _ (s.userTime s.currtask + (s.heaps.ev s.currtask).defer) ≤ D
    rw [(hf.curr hrun).2, hroot, offset_served]
    exact (hf.defer _ hl).2
  · have := hp.2
    rw [(hf.curr hp.1).2] at this
    exact absurd this (cless_irrefl _)

theorem orderKept_of_settled (hD : D < 2 ^ 30) (hf : s.Fair D) (ht : op.Timeshares D s)
    (hset : op.Settled s) : op.OrderKept s := by
  cases op with
  | loadThread => exact ⟨trivial, fun _ _ => trivial⟩
  | unblockThread a => exact ⟨trivial, fun _ _ => trivial⟩
  | blockThread => exact ⟨hset, fun _ _ => trivial⟩
  | prioritise => exact ⟨trivial, fun _ _ => trivial⟩
  | schedule => exact hf.flushWindow hD
  | store => trivial
  | cacheRunning => exact ht.elim
  | unloadThread => exact ht.elim
  | idleThread => exact ht.elim
  | setThreadState => exact ht.elim
  | threadTunnel => exact ht.elim
  | sendSignal => exact ht.elim

/-- What a thread is served, measured from the root. -/
theorem offset_moved (op : SchedOp) (hf : s.Fair D) (hx : s.heaps.Contains .timesharing x) :
    offset (s.heaps.ckGetNextTime .timesharing) (s.heaps.time x + op.served s x) =
      s.heaps.lag x + (op.served s x).toNat ∧
    s.heaps.lag x + (op.served s x).toNat ≤ D := by
  have hlag := hf.lag x hx
  by_cases h0 : op.served s x = 0#32
  · rw [h0, BitVec.add_zero]
    exact ⟨rfl, hlag⟩
  · -- only the root is served
    obtain ⟨rfl, hd⟩ : x = s.currtask ∧ op.served s x = (s.heaps.ev x).defer := by
      cases op with
      | schedule timer =>
          by_cases hxc : x = s.currtask
          · exact ⟨hxc, if_pos hxc⟩
          · exact absurd (if_neg hxc) h0
      | _ => exact absurd rfl h0
    have hrun := hf.members.placed.consistent.ts _ _ hx
    obtain ⟨-, hroot⟩ := hf.root_time hrun
    have hl := ((hf.members.placed.mem _ _).mp hx).1
    have hlag0 : s.heaps.lag s.currtask = 0 := by
      rw [Heaps.lag, hroot, (hf.curr hrun).1, offset_self]
    rw [hd, hlag0, hroot, (hf.curr hrun).1, offset_served]
    exact ⟨(Nat.zero_add _).symm, by rw [Nat.zero_add]; exact (hf.defer _ hl).2⟩

/-- After a step all events are still within `D` after the old root. -/
theorem aheadOf_step (hf : s.Fair D) (hpos : 0 < s.heaps.used .timesharing)
    (hmv : ∀ x, s'.heaps.Contains .timesharing x → op.Moved s s' x) :
    s'.heaps.AheadOf (s.heaps.ckGetNextTime .timesharing) D := by
  intro x hx
  rcases hmv x hx with ⟨hx, -, htime⟩ | ⟨-, htime, -⟩
  · obtain ⟨h1, h2⟩ := offset_moved op hf hx
    rw [htime, h1]
    exact h2
  · rw [htime hpos, offset_self]
    exact Nat.zero_le _

/-- User times do not change but by the dispatch. -/
theorem storeTime_of_timeshares (ht : op.Timeshares D s) (o : Addr) :
    storeTime s.user (op.timeStored s) o = (s.user o).time := by
  cases op with
  | store object value =>
      show (if o = object then value.time else (s.user o).time) = _
      by_cases ho : o = object
      · rw [if_pos ho, ho]
        exact ht
      · rw [if_neg ho]
  | cacheRunning => exact ht.elim
  | setThreadState => exact ht.elim
  | _ => rfl

/-- A running thread has the time it was dispatched with, in its event and for its user. -/
theorem schedStep_curr (hf : s.Fair D) (hm' : s'.Members) (hl : op.Legal s)
    (ht : op.Timeshares D s) (hset : op.Settled s) (h : schedStep s op = some s')
    (hts : s'.ts s'.currtask = .running) :
    s'.heaps.time s'.currtask = s'.lasttime ∧ s'.userTime s'.currtask = s'.lasttime := by
  by_cases hop : ∃ timer, op = .schedule timer
  · obtain ⟨timer, rfl⟩ := hop
    have hdisp := (schedule_dispatch hf.members hm' hf.begun h).2
    refine ⟨?_, ?_⟩
    · obtain ⟨s₁, -, rfl⟩ := ckSchedule_eq h
      rw [time_contextSwitch, lasttime_contextSwitch, currtask_contextSwitch]
      rfl
    · rcases hdisp with he | ⟨hload, hst, hb, hlast, huser⟩
      · exact he
      · rw [huser, hlast]
        exact hset _ hload hst ((hf.states _ hload).resolve_right hb)
  · have hop : ∀ timer, op ≠ .schedule timer := fun timer he => hop ⟨timer, he⟩
    have hrest := schedStep_rest h hop
    have hcurr : s'.currtask = s.currtask := by
      refine hrest.currtask.resolve_right fun hz => ?_
      rw [hz, hm'.zombieTs] at hts
      exact absurd hts (by simp)
    have hload := hm'.curr_loaded (by rw [hts]; simp) (by rw [hts]; simp)
    have hserved : op.served s s.currtask = 0#32 := by
      cases op with
      | schedule timer => exact absurd rfl (hop timer)
      | _ => rfl
    rw [hcurr] at hts hload
    -- it was running before, for it is not unblocked within its quantum
    have hold : s.heaps.Contains .timesharing s.currtask ∧
        s'.heaps.time s.currtask = s.lasttime := by
      rcases schedStep_moved hf hl ht h _ (hm'.placed.sits hload .timesharing hts) with
        ⟨hc, -, htime⟩ | ⟨⟨rfl, hb⟩ | ⟨rfl, hc⟩, htime, -⟩
      · refine ⟨hc, ?_⟩
        rw [htime, hserved, BitVec.add_zero]
        exact (hf.curr (hf.members.placed.consistent.ts _ _ hc)).1
      · exact absurd hb (ht rfl)
      · obtain ⟨i, hi, -⟩ := id hc
        refine ⟨hc, ?_⟩
        rw [htime (Nat.zero_lt_of_lt hi)]
        exact (hf.root_time (hf.members.placed.consistent.ts _ _ hc)).2
    have hrun := hf.members.placed.consistent.ts _ _ hold.1
    have hload₀ : s.loaded s.currtask = true := ((hf.members.placed.mem _ _).mp hold.1).1
    refine ⟨by rw [hcurr, hold.2, hrest.lasttime], ?_⟩
    rw [userTime_curr hl hload₀ h hop hcurr, storeTime_of_timeshares ht, hrest.lasttime]
    exact (hf.curr hrun).2

/-- **One step** of a timesharing run keeps the invariant. -/
theorem schedStep_fair (hD : D < 2 ^ 30) (hf : s.Fair D) (hl : op.Legal s) (hfit : op.Fits s)
    (ht : op.Timeshares D s) (hset : op.Settled s) (h : schedStep s op = some s') :
    s'.Fair D := by
  have hm' : s'.Members := by
    obtain ⟨s₁, h₁, hm₁⟩ := schedStep_members hf.members hl hfit
    exact Option.some.inj (h₁.symm.trans h) ▸ hm₁
  have hmv := schedStep_moved hf hl ht h
  have hrooted := schedStep_rooted hf.members hl hfit (rootKept_of_timeshares ht) h hf.rooted
  have hsound := schedStep_sound hf.members hl hf.rooted (orderKept_of_settled hD hf ht hset) h
    hf.sound
  have hstates : ∀ a, s'.loaded a = true → s'.ts a = .running ∨ s'.ts a = .blocked := by
    intro a ha
    rcases loaded_or ht h ha with hold | ⟨hb, -⟩
    · rcases schedStep_ts hf ht h a with he | hnew
      · rw [he]
        exact hf.states a hold
      · exact hnew
    · exact .inr hb
  refine ⟨hm', schedStep_begun hf.members hm' hf.begun hl h, hrooted, hsound, hstates, ?_, ?_, ?_⟩
  · intro a ha
    rcases loaded_or ht h ha with hold | ⟨-, hd⟩
    · rw [schedStep_defer hl hold h]
      exact hf.defer a hold
    · exact hd
  · rcases Nat.eq_zero_or_pos (s.heaps.used .timesharing) with h0 | hpos
    · -- a thread in a heap that was empty is the root
      intro x hx
      rcases hmv x hx with ⟨⟨i, hi, -⟩, -⟩ | ⟨-, -, hroot⟩
      · omega
      · rw [Heaps.lag, Heaps.ckGetNextTime, Heaps.ckGetNextEvent, hroot h0, offset_self]
        exact Nat.zero_le _
    · exact lag_le hD (hsound _) (aheadOf_step hf hpos hmv)
  · exact schedStep_curr hf hm' hl ht hset h

/-- **The root advances the same for all threads.** A thread that is in the heap before and
after a step, and is not prioritised by it, gains on the root what it is served. -/
theorem schedStep_advance (hD : D < 2 ^ 30) (hf : s.Fair D) (hf' : s'.Fair D) (hl : op.Legal s)
    (ht : op.Timeshares D s) (h : schedStep s op = some s') :
    ∃ advance, ∀ t, s.heaps.Contains .timesharing t → s'.heaps.Contains .timesharing t →
      op ≠ .prioritise t →
      s.heaps.lag t + (op.served s t).toNat = advance + s'.heaps.lag t := by
  rcases Nat.eq_zero_or_pos (s.heaps.used .timesharing) with h0 | hpos
  · refine ⟨0, ?_⟩
    rintro t ⟨i, hi, -⟩
    omega
  · have hmv := schedStep_moved hf hl ht h
    have hahead := aheadOf_step hf hpos hmv
    refine ⟨offset (s.heaps.ckGetNextTime .timesharing) (s'.heaps.ckGetNextTime .timesharing),
      fun t hc hc' hop => ?_⟩
    have hadd := lag_add hD (hf'.sound _) hahead hc'
    rcases hmv t hc' with ⟨-, -, htime⟩ | ⟨⟨-, hb⟩ | ⟨he, -⟩, -⟩
    · rw [htime, (offset_moved op hf hc).1] at hadd
      exact hadd.symm
    · exact absurd hc (hf.members.placed.consistent.not_contains hb)
    · exact absurd he hop

/-! ## Runs -/

/-- The steps of a timesharing run. -/
def SchedOp.Races (D : Nat) (s : Sched) (op : SchedOp) : Prop :=
  (op.Legal s ∧ op.Fits s) ∧ op.Timeshares D s

instance (D : Nat) (s : Sched) (op : SchedOp) : Decidable (op.Races D s) :=
  inferInstanceAs (Decidable ((_ ∧ _) ∧ _))

/-- Whether an operation ends a quantum of a thread. -/
def SchedOp.quantum (s : Sched) (t : Addr) : SchedOp → Nat
  | .schedule _ => if t = s.currtask then 1 else 0
  | _ => 0

/-- The quanta a thread receives over the operations of a run. -/
def quanta (t : Addr) : Sched → List SchedOp → Nat
  | _, [] => 0
  | s, op :: ops => op.quantum s t + match schedStep s op with
    | some s' => quanta t s' ops
    | none => 0

/-- The thread is timesharing and not blocked. -/
def Sched.Runnable (s : Sched) (t : Addr) : Prop := s.loaded t = true ∧ s.ts t = .running

instance (s : Sched) (t : Addr) : Decidable (s.Runnable t) := inferInstanceAs (Decidable (_ ∧ _))

/-- The thread is runnable, and the operation does not prioritise it. -/
def SchedOp.Undisturbed (t : Addr) (s : Sched) (op : SchedOp) : Prop :=
  s.Runnable t ∧ op ≠ .prioritise t

theorem served_toNat : (op.served s t).toNat = op.quantum s t * (s.heaps.ev t).defer.toNat := by
  cases op with
  | schedule timer =>
      show (if t = s.currtask then _ else _ : TIME).toNat = (if t = s.currtask then 1 else 0) * _
      split
      · rw [Nat.one_mul]
      · rw [Nat.zero_mul]
        rfl
  | _ => exact (Nat.zero_mul _).symm

/-- **A stretch of a run**: two threads that stay runnable and are not prioritised each gain
their quanta times their `defer`, less the same advance of the root. -/
theorem run_advance {t₁ t₂ : Addr} {ops : List SchedOp} (hD : D < 2 ^ 30)
    (hr : Run schedStep (fun s op => (op.Races D s ∧ op.Settled s) ∧
      op.Undisturbed t₁ s ∧ op.Undisturbed t₂ s) s ops s')
    (hf : s.Fair D) (h₁ : s'.Runnable t₁) (h₂ : s'.Runnable t₂) :
    s'.Fair D ∧ ∃ advance, ∀ t, t = t₁ ∨ t = t₂ → s.Runnable t ∧
      s.heaps.lag t + quanta t s ops * (s.heaps.ev t).defer.toNat = advance + s'.heaps.lag t := by
  induction hr with
  | nil s =>
      refine ⟨hf, 0, fun t ht => ⟨?_, by simp [quanta]⟩⟩
      rcases ht with rfl | rfl
      · exact h₁
      · exact h₂
  | @cons s s₁ s' op ops hC hs _ ih =>
      obtain ⟨⟨⟨⟨hl, hfit⟩, ht⟩, hset⟩, hu₁, hu₂⟩ := hC
      have hf₁ := schedStep_fair hD hf hl hfit ht hset hs
      obtain ⟨hf', rest, hrest⟩ := ih hf₁ h₁ h₂
      obtain ⟨advance, hadv⟩ := schedStep_advance hD hf hf₁ hl ht hs
      refine ⟨hf', advance + rest, fun t hor => ?_⟩
      have hu : op.Undisturbed t s := by
        rcases hor with rfl | rfl
        · exact hu₁
        · exact hu₂
      obtain ⟨⟨hload, hts⟩, hop⟩ := hu
      obtain ⟨⟨hload₁, hts₁⟩, hsum⟩ := hrest t hor
      have hone := hadv t (hf.members.placed.sits hload .timesharing hts)
        (hf₁.members.placed.sits hload₁ .timesharing hts₁) hop
      rw [served_toNat] at hone
      rw [schedStep_defer hl hload hs] at hsum
      refine ⟨⟨hload, hts⟩, ?_⟩
      simp only [quanta, hs, Nat.add_mul]
      omega

theorem Sched.AtBoot.fair (h : s.AtBoot) : s.Fair D where
  members := h.members
  begun := ⟨h.started, .inl (by rw [h.currtask, h.started])⟩
  rooted ht := by
    rintro ⟨i, hi, -⟩
    rw [h.empty] at hi
    omega
  sound ht := sound_empty (h.empty ht)
  states a ha := by
    rw [h.loaded] at ha
    exact absurd ha (by simp)
  defer a ha := by
    rw [h.loaded] at ha
    exact absurd ha (by simp)
  lag x := by
    rintro ⟨i, hi, -⟩
    rw [h.empty] at hi
    omega
  curr hts := by
    rw [h.currtask, h.idleLoop] at hts
    exact absurd hts (by simp)

end Alliance.CK
