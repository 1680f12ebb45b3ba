import Alliance.CK.SchedMembership

/-!
# System calls as sequences of heap calls

Between two flushes the heaps change in four ways only: a thread is blocked, a
blocked thread is woken into a heap (`CKunblockThread`, `CKidleThread`), a thread is
prioritised, or a thread object is stored into where its place does not depend on it.
`SchedOp.calls` lists what each system call does, and `schedStep_calls` says that this
is all it does. An invariant of the heaps is then proved of the four calls, and holds
after every system call.
-/

namespace Alliance.CK

open Function Lib Lib.BinHeap

variable {m m' : Heaps} {ht ht' : HeapType} {a x : Addr} {s s' : Sched} {op : SchedOp}

/-- What the system calls do to the heaps. -/
inductive HeapCall where
  | block (thread : Addr)
  | wake (ht : HeapType) (thread : Addr)
  | prioritise (thread : Addr)
  | store (thread : Addr) (e : EVENT)

def heapCall (m : Heaps) : HeapCall → Option Heaps
  | .block thread => ckBlockThread m thread
  | .wake ht thread => if (m.ev thread).ts = .blocked then enterHeap m ht thread else some m
  | .prioritise thread => ckPrioritise m thread
  | .store thread e => some (m.setEv thread e)

/-- The heap calls a system call makes in a state. -/
def SchedOp.calls (s : Sched) : SchedOp → List HeapCall
  | .loadThread thread objectData quantum defer _ =>
    [.store thread { s.heaps.ev thread with
      objectData, quantum, defer, ts := .blocked, signals := [] }]
  | .cacheRunning thread objectData _ =>
    [.store thread { s.heaps.ev thread with
      objectData, quantum := 0x1000, defer := 0x2000, ts := .blocked, signals := [] },
      .wake .timesharing thread]
  | .unloadThread thread => [.block thread]
  | .blockThread thread => [.block thread]
  | .unblockThread thread => [.wake .timesharing thread]
  | .idleThread thread => [.wake .idle thread]
  | .setThreadState thread .running =>
    if s.ts thread = .running then [] else [.block thread, .wake .timesharing thread]
  | .setThreadState thread .idle =>
    if s.ts thread = .idle then [] else [.block thread, .wake .idle thread]
  | .setThreadState thread .blocked => [.block thread]
  | .setThreadState _ .realTime => []
  | .threadTunnel _ .conservative => []
  | .threadTunnel thread .swapping =>
    .block s.currtask :: if thread ≠ s.currtask ∧ s.ts thread = .running then []
      else [.block thread, .wake .timesharing thread]
  | .threadTunnel thread .unblocking => [.wake .timesharing thread]
  | .sendSignal thread addr signal extra priority =>
    [.store thread { s.heaps.ev thread with
      signals := ckSendSignal (newSignal addr s.currtask signal extra priority)
        (s.heaps.ev thread).signals }, .wake .timesharing thread]
  | .prioritise thread => [.prioritise thread]
  | .schedule _ => []
  | .store _ _ => []

/-! ## The calls and their threads -/

theorem Heaps.time_setEv {v : EVENT} (hv : v.time = (m.ev a).time) :
    (m.setEv a v).time x = m.time x := by
  unfold Heaps.time
  by_cases h : x = a
  · rw [h, Heaps.ev_setEv_self, hv]
  · rw [Heaps.ev_setEv_ne h]

theorem Heaps.enterTime_setEv {v : EVENT} (hv : v.time = (m.ev a).time) :
    (m.setEv a v).enterTime ht = m.enterTime ht := by
  unfold Heaps.enterTime Heaps.ckGetNextTime
  rw [time_setEv hv]
  rfl

/-- The state a thread is given when it enters a heap overwrites the one it had. -/
theorem enterHeap_setTs {t : ThreadState} : enterHeap (m.setTs a t) ht a = enterHeap m ht a := by
  have ht' : (m.setTs a t).enterTime ht = m.enterTime ht := Heaps.enterTime_setEv rfl
  have he : (m.setTs a t).entered ht a = m.entered ht a := by
    unfold Heaps.entered
    rw [ht']
    simp [Heaps.setTs, Heaps.setTime, Heaps.setEv]
  rw [Heaps.enterHeap_eq, he, ← Heaps.enterHeap_eq]

theorem leaveHeap_cases (h : leaveHeap m a = some m') :
    ((m.ev a).ts = .blocked ∧ m' = m) ∨
      ∃ ht, (m.ev a).ts = ht.ts ∧ ckRemoveEvent m ht (m.ev a).heap = some m' := by
  unfold leaveHeap at h
  cases hts : (m.ev a).ts with
  | blocked =>
      rw [hts] at h
      exact .inl ⟨rfl, (Option.some.inj h).symm⟩
  | running =>
      rw [hts] at h
      exact .inr ⟨.timesharing, rfl, h⟩
  | realTime =>
      rw [hts] at h
      exact .inr ⟨.realtime, rfl, h⟩
  | idle =>
      rw [hts] at h
      exact .inr ⟨.idle, rfl, h⟩

theorem leaveHeap_same (h : leaveHeap m a = some m') : m.SameEvents m' := by
  rcases leaveHeap_cases h with ⟨-, rfl⟩ | ⟨ht, -, h⟩
  · exact Heaps.SameEvents.refl _
  · exact (ckRemoveEvent_frame h).2.same

/-- `CKblockThread` takes the thread out of its heap and blocks it. -/
theorem ckBlockThread_eq (h : ckBlockThread m a = some m') :
    ∃ m₁, leaveHeap m a = some m₁ ∧ m' = m₁.setTs a .blocked := by
  obtain ⟨m₁, h₁, rfl⟩ := Option.map_eq_some_iff.mp h
  exact ⟨m₁, h₁, rfl⟩

/-- Moving a thread to a heap is blocking it and waking it again. -/
theorem moveHeap_calls {m₁ : Heaps} (h₁ : leaveHeap m a = some m₁)
    (h : enterHeap m₁ ht a = some m') :
    Run heapCall (fun _ _ => True) m [.block a, .wake ht a] m' := by
  have hblock : heapCall m (.block a) = some (m₁.setTs a .blocked) :=
    congrArg (Option.map _) h₁
  refine .cons trivial hblock (.cons trivial ?_ (.nil m'))
  show (if _ then _ else _) = _
  rw [if_pos (by simp [Heaps.setTs]), enterHeap_setTs, h]

theorem ckSetThreadState_enter
    (h : ((leaveHeap s.heaps a).bind fun m => (enterHeap m ht a).bind fun m' =>
      some ({ s with heaps := m' }.setUserTime a (m.enterTime ht), true)).map Prod.fst = some s') :
    ∃ m₁ m', leaveHeap s.heaps a = some m₁ ∧ enterHeap m₁ ht a = some m' ∧
      s' = { s with heaps := m' }.setUserTime a (m₁.enterTime ht) := by
  obtain ⟨r, hr, rfl⟩ := Option.map_eq_some_iff.mp h
  obtain ⟨m₁, h₁, hr⟩ := Option.bind_eq_some_iff.mp hr
  obtain ⟨m', h₂, hr⟩ := Option.bind_eq_some_iff.mp hr
  exact ⟨m₁, m', h₁, h₂, (congrArg Prod.fst (Option.some.inj hr)).symm⟩

/-- The swapping tunnel: the running thread leaves its heap, the other one is moved unless it
is running. -/
theorem ckThreadTunnel_swap (h : ckThreadTunnel s a .swapping = some s') :
    ∃ m₁, ckBlockThread s.heaps s.currtask = some m₁ ∧
      (((m₁.ev a).ts = .running ∧ s' = { s with heaps := m₁ }) ∨
        ∃ m₂ m₃, (m₁.ev a).ts ≠ .running ∧ leaveHeap m₁ a = some m₂ ∧
          enterHeap m₂ .timesharing a = some m₃ ∧ s' = { s with heaps := m₃ }) := by
  obtain ⟨m₁, h₁, h⟩ := Option.bind_eq_some_iff.mp h
  refine ⟨m₁, h₁, ?_⟩
  split at h
  · rename_i hts
    exact .inl ⟨hts, (Option.some.inj h).symm⟩
  · rename_i hts
    obtain ⟨m₂, h₂, h⟩ := Option.bind_eq_some_iff.mp h
    obtain ⟨m₃, h₃, h⟩ := Option.bind_eq_some_iff.mp h
    exact .inr ⟨m₂, m₃, hts, h₂, h₃, (Option.some.inj h).symm⟩

theorem ts_ckBlockThread (h : ckBlockThread m a = some m') :
    (m'.ev x).ts = if x = a then .blocked else (m.ev x).ts := by
  obtain ⟨m₁, h₁, rfl⟩ := ckBlockThread_eq h
  by_cases hx : x = a
  · rw [if_pos hx, hx, Heaps.setTs, Heaps.ev_setEv_self]
  · rw [if_neg hx, Heaps.setTs, Heaps.ev_setEv_ne hx, (leaveHeap_same h₁).ts]

/-- **Every system call is a sequence of heap calls.** -/
theorem schedStep_calls (h : schedStep s op = some s') (hop : ∀ timer, op ≠ .schedule timer) :
    Run heapCall (fun _ _ => True) s.heaps (op.calls s) s'.heaps := by
  -- one call, and a call after a store into the thread object
  have hone {c : HeapCall} {m : Heaps} (hc : heapCall s.heaps c = some m) :
      Run heapCall (fun _ _ => True) s.heaps [c] m := .cons trivial hc (.nil _)
  have hstored {a : Addr} {v : EVENT} {c : HeapCall} {m : Heaps}
      (hc : heapCall (s.heaps.setEv a v) c = some m) :
      Run heapCall (fun _ _ => True) s.heaps [.store a v, c] m :=
    .cons trivial rfl (.cons trivial hc (.nil _))
  cases op with
  | loadThread a objectData quantum defer interruptable =>
      obtain rfl := Option.some.inj h
      exact hone rfl
  | cacheRunning a objectData interruptable =>
      obtain ⟨m, hm, rfl⟩ := Option.map_eq_some_iff.mp h
      refine hstored ?_
      show (if _ then _ else _) = _
      rw [if_pos (by rw [Heaps.ev_setEv_self])]
      exact hm
  | unloadThread a =>
      obtain ⟨m, hm, rfl⟩ := Option.map_eq_some_iff.mp h
      exact hone hm
  | blockThread a =>
      obtain ⟨m, hm, rfl⟩ := Option.map_eq_some_iff.mp h
      exact hone hm
  | unblockThread a =>
      obtain ⟨m, hm, rfl⟩ := Option.map_eq_some_iff.mp h
      exact hone hm
  | idleThread a =>
      obtain ⟨m, hm, rfl⟩ := Option.map_eq_some_iff.mp h
      exact hone hm
  | setThreadState a state =>
      cases state with
      | running =>
          by_cases hts : s.ts a = .running
          · simp only [schedStep, ckSetThreadState, hts, if_true] at h
            obtain rfl := Option.some.inj h
            simp only [SchedOp.calls, hts, if_true]
            exact .nil _
          · simp only [schedStep, ckSetThreadState, hts, if_false] at h
            obtain ⟨m₁, m', h₁, h₂, rfl⟩ := ckSetThreadState_enter h
            simp only [SchedOp.calls, hts, if_false]
            exact moveHeap_calls h₁ h₂
      | realTime =>
          obtain rfl := Option.some.inj h
          exact .nil _
      | idle =>
          by_cases hts : s.ts a = .idle
          · simp only [schedStep, ckSetThreadState, hts, if_true] at h
            obtain rfl := Option.some.inj h
            simp only [SchedOp.calls, hts, if_true]
            exact .nil _
          · simp only [schedStep, ckSetThreadState, hts, if_false] at h
            obtain ⟨m₁, m', h₁, h₂, rfl⟩ := ckSetThreadState_enter h
            simp only [SchedOp.calls, hts, if_false]
            exact moveHeap_calls h₁ h₂
      | blocked =>
          obtain ⟨r, hr, rfl⟩ := Option.map_eq_some_iff.mp h
          obtain ⟨m, hm, rfl⟩ := Option.map_eq_some_iff.mp hr
          exact hone hm
  | threadTunnel a type =>
      cases type with
      | conservative =>
          obtain rfl := Option.some.inj h
          exact .nil _
      | swapping =>
          obtain ⟨m₁, h₁, hrest⟩ := ckThreadTunnel_swap h
          have hts : (m₁.ev a).ts = .running ↔ a ≠ s.currtask ∧ s.ts a = .running := by
            rw [ts_ckBlockThread h₁]
            by_cases hc : a = s.currtask
            · simp [hc]
            · simp [hc, Sched.ts]
          refine .cons trivial h₁ ?_
          rcases hrest with ⟨hrun, rfl⟩ | ⟨m₂, m₃, hrun, h₂, h₃, rfl⟩
          · rw [if_pos (hts.mp hrun)]
            exact .nil _
          · rw [if_neg (mt hts.mpr hrun)]
            exact moveHeap_calls h₂ h₃
      | unblocking =>
          obtain ⟨m, hm, rfl⟩ := Option.map_eq_some_iff.mp h
          exact hone hm
  | sendSignal a addr signal extra priority =>
      obtain ⟨m, hm, rfl⟩ := Option.map_eq_some_iff.mp h
      exact hstored hm
  | prioritise a =>
      obtain ⟨m, hm, rfl⟩ := Option.map_eq_some_iff.mp h
      exact hone hm
  | schedule timer => exact absurd rfl (hop timer)
  | store object value =>
      obtain rfl := Option.some.inj h
      exact .nil _

/-! ## Threads a system call does not load -/

/-- What a system call stores into a thread object: a new blocked thread, or signals. -/
theorem store_mem_calls {v : EVENT} (hc : .store a v ∈ op.calls s) :
    v.ts = .blocked ∧ (op.Legal s → ¬ s.loaded a = true ∧ a ≠ idleLoop) ∨
      ∃ signals, v = { s.heaps.ev a with signals := signals } := by
  cases op with
  | loadThread b objectData quantum defer interruptable =>
      obtain ⟨rfl, rfl⟩ := HeapCall.store.inj (List.mem_singleton.mp hc)
      exact .inl ⟨rfl, fun hl => ⟨hl.1, hl.2.1⟩⟩
  | cacheRunning b objectData interruptable =>
      simp only [SchedOp.calls, List.mem_cons, HeapCall.store.injEq, reduceCtorEq,
        List.not_mem_nil, or_false] at hc
      obtain ⟨rfl, rfl⟩ := hc
      exact .inl ⟨rfl, fun hl => ⟨hl.1, hl.2.1⟩⟩
  | sendSignal b addr signal extra priority =>
      simp only [SchedOp.calls, List.mem_cons, HeapCall.store.injEq, reduceCtorEq,
        List.not_mem_nil, or_false] at hc
      obtain ⟨rfl, rfl⟩ := hc
      exact .inr ⟨_, rfl⟩
  | setThreadState b state =>
      cases state <;> simp only [SchedOp.calls] at hc <;> try split at hc
      all_goals simp at hc
  | threadTunnel b type =>
      cases type <;> simp only [SchedOp.calls] at hc <;> try split at hc
      all_goals simp at hc
  | _ => simp [SchedOp.calls] at hc

/-- A thread as it may be after a call: it has its user object, quantum and defer, and is
realtime only if it was. -/
structure Kept (e e' : EVENT) : Prop where
  objectData : e'.objectData = e.objectData
  quantum : e'.quantum = e.quantum
  defer : e'.defer = e.defer
  realTime : e'.ts = .realTime → e.ts = .realTime

theorem Kept.refl (e : EVENT) : Kept e e := ⟨rfl, rfl, rfl, id⟩

theorem Kept.trans {e e' e'' : EVENT} (h : Kept e e') (h' : Kept e' e'') : Kept e e'' :=
  ⟨h'.objectData.trans h.objectData, h'.quantum.trans h.quantum, h'.defer.trans h.defer,
    fun ht => h.realTime (h'.realTime ht)⟩

theorem Heaps.SameEvents.kept (h : m.SameEvents m') : Kept (m.ev x) (m'.ev x) := by
  rw [h x]
  exact ⟨rfl, rfl, rfl, id⟩

theorem kept_setEv {v : EVENT} (hv : Kept (m.ev a) v) : Kept (m.ev x) ((m.setEv a v).ev x) := by
  by_cases hx : x = a
  · rw [hx, Heaps.ev_setEv_self]
    exact hv
  · rw [Heaps.ev_setEv_ne hx]
    exact .refl _

theorem kept_enterHeap (h : enterHeap m ht a = some m') (hne : ht ≠ .realtime) :
    Kept (m.ev x) (m'.ev x) := by
  rw [Heaps.enterHeap_eq] at h
  refine Kept.trans ?_ (ckSiftup_frame h).same.kept
  by_cases hx : x = a
  · rw [hx, Heaps.ev_entered_self]
    refine ⟨rfl, rfl, rfl, fun ht' => ?_⟩
    cases ht with
    | realtime => exact absurd rfl hne
    | timesharing => exact absurd ht' (by simp [HeapType.ts])
    | idle => exact absurd ht' (by simp [HeapType.ts])
  · rw [Heaps.ev_entered_ne hx]
    exact .refl _

theorem siftupFrom_same (m : Heaps) (ht : HeapType) (e : Addr) (next : Nat) :
    m.SameEvents (siftupFrom m ht e next) := by
  induction m, next using siftupFrom.induct ht e with
  | case1 m next h ih =>
      rw [siftupFrom, dif_pos h]
      exact Heaps.sameEvents_place.trans ih
  | case2 m next h =>
      rw [siftupFrom, dif_neg h]
      exact Heaps.sameEvents_place

/-- No call but a store touches more of a thread than its time, state and place, and none
wakes a thread into the realtime heap. -/
theorem heapCall_kept {c : HeapCall} (h : heapCall m c = some m')
    (hstore : ∀ v, c = .store x v → Kept (m.ev x) v) (hwake : ∀ a, c ≠ .wake .realtime a) :
    Kept (m.ev x) (m'.ev x) := by
  cases c with
  | block a =>
      obtain ⟨m₁, h₁, rfl⟩ := ckBlockThread_eq h
      exact (leaveHeap_same h₁).kept.trans
        (kept_setEv ⟨rfl, rfl, rfl, fun ht => absurd ht (by simp)⟩)
  | wake ht a =>
      by_cases hts : (m.ev a).ts = .blocked
      · exact kept_enterHeap ((if_pos hts).symm.trans h) fun he => hwake a (he ▸ rfl)
      · obtain rfl := Option.some.inj ((if_neg hts).symm.trans h)
        exact .refl _
  | prioritise a =>
      rcases ckPrioritise_eq h with ⟨-, rfl⟩ | ⟨hts, hheap, rfl⟩
      · exact .refl _
      · have hset : Kept (m.ev x) ((m.setTime a (m.ckGetNextTime .timesharing)).ev x) :=
          kept_setEv ⟨rfl, rfl, rfl, id⟩
        exact hset.trans (siftupFrom_same _ .timesharing a _).kept
  | store a v =>
      obtain rfl := Option.some.inj h
      by_cases hx : x = a
      · subst hx
        rw [Heaps.ev_setEv_self]
        exact hstore v rfl
      · rw [Heaps.ev_setEv_ne hx]
        exact .refl _

/-- No system call wakes a thread into the realtime heap. -/
theorem wake_mem_calls {c : HeapCall} (hc : c ∈ op.calls s) : c ≠ .wake .realtime a := by
  rintro rfl
  cases op with
  | setThreadState b state =>
      cases state <;> simp only [SchedOp.calls] at hc <;> try split at hc
      all_goals simp at hc
  | threadTunnel b type =>
      cases type <;> simp only [SchedOp.calls] at hc <;> try split at hc
      all_goals simp at hc
  | _ => simp [SchedOp.calls] at hc

/-- **A system call makes no thread realtime.** -/
theorem schedStep_realTime (h : schedStep s op = some s') (hop : ∀ timer, op ≠ .schedule timer)
    (hts : s'.ts a = .realTime) : s.ts a = .realTime := by
  have hr := (schedStep_calls h hop).along
    (Along.of_forall (C := fun _ c => c ∈ op.calls s) fun c hc _ => hc)
  refine hr.invariant (I := fun m => (m.ev a).ts = .realTime → s.ts a = .realTime) ?_ id hts
  rintro m m' c hi ⟨-, hc⟩ hs hts
  by_cases hst : ∃ v, c = .store a v
  · obtain ⟨v, rfl⟩ := hst
    obtain rfl := Option.some.inj hs
    rw [Heaps.ev_setEv_self] at hts
    rcases store_mem_calls hc with ⟨hb, -⟩ | ⟨signals, rfl⟩
    · rw [hb] at hts
      exact absurd hts (by simp)
    · exact hts
  · exact hi ((heapCall_kept hs (fun v he => absurd ⟨v, he⟩ hst) fun b => wake_mem_calls hc).realTime
      hts)

/-- **A system call keeps the user object, the quantum and the defer** of a loaded thread and
of the idle loop. -/
theorem schedStep_kept (hl : op.Legal s) (ha : s.loaded a = true ∨ a = idleLoop)
    (h : schedStep s op = some s') (hop : ∀ timer, op ≠ .schedule timer) :
    Kept (s.heaps.ev a) (s'.heaps.ev a) := by
  have hr := (schedStep_calls h hop).along
    (Along.of_forall (C := fun _ c => c ∈ op.calls s) fun c hc _ => hc)
  refine hr.invariant (I := fun m => Kept (s.heaps.ev a) (m.ev a)) ?_ (Kept.refl _)
  rintro m m' c hi ⟨-, hc⟩ hs
  by_cases hst : ∃ v, c = .store a v
  · obtain ⟨v, rfl⟩ := hst
    obtain rfl := Option.some.inj hs
    rw [Heaps.ev_setEv_self]
    rcases store_mem_calls hc with ⟨-, hfresh⟩ | ⟨signals, rfl⟩
    · exact absurd ha (not_or.mpr (hfresh hl))
    · exact ⟨rfl, rfl, rfl, id⟩
  · exact hi.trans (heapCall_kept hs (fun v he => absurd ⟨v, he⟩ hst) fun b => wake_mem_calls hc)

/-! ## What is left of the state -/

/-- The time that user code or a system call stores into a user object, and where. -/
def SchedOp.timeStored (s : Sched) : SchedOp → Option (Addr × TIME)
  | .cacheRunning _ objectData _ => some (objectData, s.heaps.enterTime .timesharing)
  | .setThreadState thread .running =>
    if s.ts thread = .running then none
    else (leaveHeap s.heaps thread).map fun m => (s.objectData thread, m.enterTime .timesharing)
  | .setThreadState thread .idle =>
    if s.ts thread = .idle then none
    else (leaveHeap s.heaps thread).map fun m => (s.objectData thread, m.enterTime .idle)
  | .store object value => some (object, value.time)
  | _ => none

/-- The times of the user objects after a store. -/
def storeTime (user : Addr → ThreadObject) : Option (Addr × TIME) → Addr → TIME
  | some (object, t), o => if o = object then t else (user o).time
  | none, o => (user o).time

/-- What a system call leaves alone: the running thread, unless it is unloaded, the time it
was dispatched with, which threads have begun, and the times of user objects but the one
stored. -/
structure Sched.Rest (s : Sched) (op : SchedOp) (s' : Sched) : Prop where
  started : op.Legal s → ∀ x, s.loaded x = true ∨ x = idleLoop → s'.started x = s.started x
  currtask : s'.currtask = s.currtask ∨ s'.currtask = zombietask
  lasttime : s'.lasttime = s.lasttime
  time : ∀ o, (s'.user o).time = storeTime s.user (op.timeStored s) o

theorem Sched.Rest.ofHeaps (h : op.timeStored s = none) : s.Rest op { s with heaps := m } :=
  ⟨fun _ _ _ => rfl, .inl rfl, rfl, fun o => by rw [h]; rfl⟩

theorem Sched.Rest.ofSet {t : TIME} {o : Addr} (h : op.timeStored s = some (o, t))
    (ho : (m.ev a).objectData = o) : s.Rest op ({ s with heaps := m }.setUserTime a t) where
  started _ _ _ := rfl
  currtask := .inl rfl
  lasttime := rfl
  time x := by
    rw [h]
    show (update s.user (m.ev a).objectData _ x).time = if x = o then t else (s.user x).time
    rw [ho]
    by_cases hx : x = o
    · rw [if_pos hx, hx, update_self]
    · rw [if_neg hx, update_of_ne hx]

theorem objectData_same (h : m.SameEvents m') : (m'.ev x).objectData = (m.ev x).objectData := by
  rw [h x]

theorem objectData_enterHeap (h : enterHeap m ht a = some m') :
    (m'.ev x).objectData = (m.ev x).objectData := by
  rw [Heaps.enterHeap_eq] at h
  rw [objectData_same (ckSiftup_frame h).same]
  by_cases hx : x = a
  · rw [hx, Heaps.ev_entered_self]
  · rw [Heaps.ev_entered_ne hx]

/-- A thread that is loaded was not, so it is neither a loaded one nor the idle loop. -/
theorem started_load (hl : ¬ s.loaded a = true ∧ a ≠ idleLoop ∧ a ≠ zombietask)
    (hx : s.loaded x = true ∨ x = idleLoop) : update s.started a false x = s.started x := by
  refine update_of_ne ?_ _ _
  rintro rfl
  exact hx.elim hl.1 hl.2.1

/-- **What a system call leaves alone.** -/
theorem schedStep_rest (h : schedStep s op = some s') (hop : ∀ timer, op ≠ .schedule timer) :
    s.Rest op s' := by
  cases op with
  | loadThread a objectData quantum defer interruptable =>
      obtain rfl := Option.some.inj h
      refine ⟨fun hl x hx => started_load hl hx, .inl rfl, rfl, fun o => ?_⟩
      show (update s.user objectData { s.user objectData with interruptable } o).time = _
      by_cases ho : o = objectData
      · rw [ho, update_self]
        rfl
      · rw [update_of_ne ho]
        rfl
  | cacheRunning a objectData interruptable =>
      obtain ⟨m, hm, rfl⟩ := Option.map_eq_some_iff.mp h
      refine ⟨fun hl x hx => started_load hl hx, .inl rfl, rfl, fun o => ?_⟩
      have hd : (m.ev a).objectData = objectData := by
        rw [objectData_enterHeap hm]
        simp [ckLoadThread]
      have he : (ckLoadThread s a objectData 0x1000 0x2000 interruptable).heaps.enterTime
          .timesharing = s.heaps.enterTime .timesharing := Heaps.enterTime_setEv rfl
      simp only [Sched.setUserTime, Sched.objectData, hd, he, storeTime, SchedOp.timeStored]
      by_cases ho : o = objectData
      · rw [if_pos ho, ho, update_self]
      · rw [if_neg ho, update_of_ne ho]
        exact congrArg ThreadObject.time (update_of_ne ho _ _)
  | unloadThread a =>
      obtain ⟨m, hm, rfl⟩ := Option.map_eq_some_iff.mp h
      refine ⟨fun _ _ _ => rfl, ?_, rfl, fun o => rfl⟩
      by_cases hc : s.currtask = a
      · exact .inr (if_pos hc)
      · exact .inl (if_neg hc)
  | blockThread a =>
      obtain ⟨m, -, rfl⟩ := Option.map_eq_some_iff.mp h
      exact .ofHeaps rfl
  | unblockThread a =>
      obtain ⟨m, -, rfl⟩ := Option.map_eq_some_iff.mp h
      exact .ofHeaps rfl
  | idleThread a =>
      obtain ⟨m, -, rfl⟩ := Option.map_eq_some_iff.mp h
      exact .ofHeaps rfl
  | setThreadState a state =>
      cases state with
      | running =>
          by_cases hts : s.ts a = .running
          · simp only [schedStep, ckSetThreadState, hts, if_true] at h
            obtain rfl := Option.some.inj h
            exact .ofHeaps (m := s.heaps) (if_pos hts)
          · simp only [schedStep, ckSetThreadState, hts, if_false] at h
            obtain ⟨m₁, m', h₁, h₂, rfl⟩ := ckSetThreadState_enter h
            refine .ofSet ((if_neg hts).trans (congrArg (Option.map _) h₁)) ?_
            rw [objectData_enterHeap h₂, objectData_same (leaveHeap_same h₁)]
            rfl
      | realTime =>
          obtain rfl := Option.some.inj h
          exact .ofHeaps (m := s.heaps) rfl
      | idle =>
          by_cases hts : s.ts a = .idle
          · simp only [schedStep, ckSetThreadState, hts, if_true] at h
            obtain rfl := Option.some.inj h
            exact .ofHeaps (m := s.heaps) (if_pos hts)
          · simp only [schedStep, ckSetThreadState, hts, if_false] at h
            obtain ⟨m₁, m', h₁, h₂, rfl⟩ := ckSetThreadState_enter h
            refine .ofSet ((if_neg hts).trans (congrArg (Option.map _) h₁)) ?_
            rw [objectData_enterHeap h₂, objectData_same (leaveHeap_same h₁)]
            rfl
      | blocked =>
          obtain ⟨r, hr, rfl⟩ := Option.map_eq_some_iff.mp h
          obtain ⟨m, -, rfl⟩ := Option.map_eq_some_iff.mp hr
          exact .ofHeaps rfl
  | threadTunnel a type =>
      cases type with
      | conservative =>
          obtain rfl := Option.some.inj h
          exact .ofHeaps (m := s.heaps) rfl
      | swapping =>
          obtain ⟨m₁, -, ⟨-, rfl⟩ | ⟨m₂, m₃, -, -, -, rfl⟩⟩ := ckThreadTunnel_swap h
          · exact .ofHeaps rfl
          · exact .ofHeaps rfl
      | unblocking =>
          obtain ⟨m, -, rfl⟩ := Option.map_eq_some_iff.mp h
          exact .ofHeaps rfl
  | sendSignal a addr signal extra priority =>
      obtain ⟨m, -, rfl⟩ := Option.map_eq_some_iff.mp h
      exact .ofHeaps rfl
  | prioritise a =>
      obtain ⟨m, -, rfl⟩ := Option.map_eq_some_iff.mp h
      exact .ofHeaps rfl
  | schedule timer => exact absurd rfl (hop timer)
  | store object value =>
      obtain rfl := Option.some.inj h
      refine ⟨fun _ _ _ => rfl, .inl rfl, rfl, fun o => ?_⟩
      show (update s.user object value o).time = if o = object then value.time else (s.user o).time
      by_cases ho : o = object
      · rw [if_pos ho, ho, update_self]
      · rw [if_neg ho, update_of_ne ho]

/-! ## Consistent heaps -/

theorem heap?_eq_iff {t : ThreadState} : t.heap? = some ht ↔ t = ht.ts := by
  cases t <;> cases ht <;> decide

namespace Heaps

/-- Used slots are pointed back to and hold threads in the state of their heap. -/
structure Consistent (m : Heaps) : Prop where
  back : ∀ ht, m.BackPtrs ht
  ts : ∀ ht a, m.Contains ht a → (m.ev a).ts = ht.ts

/-- The thread is in the heap of its state, if its state has one. -/
def Sits (m : Heaps) (a : Addr) : Prop := ∀ ht, (m.ev a).ts = ht.ts → m.Contains ht a

variable {L : Addr → Prop}

theorem Placed.consistent (h : m.Placed L) : m.Consistent :=
  ⟨h.back, fun ht a ha => heap?_eq_iff.mp ((h.mem ht a).mp ha).2⟩

theorem Placed.sits (h : m.Placed L) (ha : L a) : m.Sits a :=
  fun ht hts => (h.mem ht a).mpr ⟨ha, heap?_eq_iff.mpr hts⟩

/-- Consistent heaps place the threads in them, and a thread that sits where it should. -/
theorem Consistent.placed (h : m.Consistent) (ha : m.Sits a) :
    m.Placed (fun x => (∃ ht, m.Contains ht x) ∨ x = a) where
  back := h.back
  mem ht x := by
    constructor
    · exact fun hx => ⟨.inl ⟨ht, hx⟩, heap?_eq_iff.mpr (h.ts ht x hx)⟩
    · rintro ⟨⟨ht', hx⟩ | rfl, hts⟩
      · have he := h.ts ht' x hx
        rw [he] at hts
        have hh : ht'.ts.heap? = some ht' := heap?_eq_iff.mpr rfl
        rw [hh] at hts
        exact Option.some.inj hts ▸ hx
      · exact ha ht (heap?_eq_iff.mp hts)

theorem sits_blocked (h : (m.ev a).ts = .blocked) : m.Sits a := by
  intro ht hts
  rw [h] at hts
  cases ht <;> exact absurd hts (by decide)

/-- A blocked thread is in no heap. -/
theorem Consistent.not_contains (h : m.Consistent) (ha : (m.ev a).ts = .blocked) :
    ¬ m.Contains ht a := by
  intro hc
  have := h.ts ht a hc
  rw [ha] at this
  cases ht <;> exact absurd this (by decide)

theorem Consistent.contains_unique (h : m.Consistent) (h₁ : m.Contains ht a)
    (h₂ : m.Contains ht' a) : ht = ht' := by
  have := (h.ts ht a h₁).symm.trans (h.ts ht' a h₂)
  revert this
  cases ht <;> cases ht' <;> decide

end Heaps

/-- The thread of a call is where its state says; a store leaves it there. -/
def HeapCall.InPlace (m : Heaps) : HeapCall → Prop
  | .block a => m.Sits a
  | .wake _ _ => True
  | .prioritise a => m.Sits a
  | .store a v => v.heap = (m.ev a).heap ∧ v.time = (m.ev a).time ∧
    (v.ts = (m.ev a).ts ∨ ∀ ht, ¬ m.Contains ht a)

/-- Blocking takes a thread out of its heap. -/
theorem ckBlockThread_consistent (hm : m.Consistent) (ha : m.Sits a)
    (h : ckBlockThread m a = some m') :
    m'.Consistent ∧ ∀ ht x, m'.Contains ht x ↔ m.Contains ht x ∧ x ≠ a := by
  obtain ⟨m₂, -, -, h₂, -, -, -, hp⟩ := (hm.placed ha).ckBlockThread (a := a) (.inr rfl)
  obtain rfl := Option.some.inj (h₂.symm.trans h)
  refine ⟨hp.consistent, fun ht x => ?_⟩
  rw [hp.mem, heap?_eq_iff, ts_ckBlockThread h]
  by_cases hx : x = a
  · rw [if_pos hx]
    simp only [hx, ne_eq, not_true_eq_false, and_false, iff_false, not_and]
    intro _
    cases ht <;> decide
  · rw [if_neg hx]
    simp only [ne_eq, hx, not_false_eq_true, and_true, or_false]
    refine ⟨?_, fun hc => ⟨⟨ht, hc⟩, hm.ts ht x hc⟩⟩
    rintro ⟨⟨ht', hc⟩, hts⟩
    have hx' : m.Placed _ := hm.placed ha
    exact (hx'.mem ht x).mpr ⟨.inl ⟨ht', hc⟩, heap?_eq_iff.mpr hts⟩

/-- Waking puts a blocked thread into a heap. -/
theorem enterHeap_consistent (hm : m.Consistent) (hts : (m.ev a).ts = .blocked)
    (h : enterHeap m ht a = some m') :
    m'.Consistent ∧ ∀ ht' x, m'.Contains ht' x ↔ m.Contains ht' x ∨ x = a ∧ ht' = ht := by
  have hroom : m.used ht < MAXEVENTS := by
    by_contra hn
    rw [Heaps.enterHeap_none hn] at h
    exact absurd h (by simp)
  have hp₀ := hm.placed (Heaps.sits_blocked hts)
  obtain ⟨m₂, h₂, hs, -, hp⟩ := hp₀.enterHeap_blocked (a := a) (.inr rfl) hts hroom
  obtain rfl := Option.some.inj (h₂.symm.trans h)
  refine ⟨hp.consistent, fun ht' x => ?_⟩
  rw [hp.mem, heap?_eq_iff, hs.ts]
  by_cases hx : x = a
  · subst hx
    rw [Heaps.ev_entered_self]
    have : ht.ts = ht'.ts ↔ ht' = ht := by cases ht <;> cases ht' <;> decide
    simp [this, hm.not_contains hts]
  · rw [Heaps.ev_entered_ne hx, ← heap?_eq_iff, ← hp₀.mem]
    simp [hx]

theorem ckPrioritise_consistent (hm : m.Consistent) (ha : m.Sits a)
    (h : ckPrioritise m a = some m') :
    m'.Consistent ∧ ∀ ht x, m'.Contains ht x ↔ m.Contains ht x := by
  have hp₀ := hm.placed ha
  obtain ⟨m₂, h₂, -, hp, hcases⟩ := hp₀.ckPrioritise (a := a) (.inr rfl)
  obtain rfl := Option.some.inj (h₂.symm.trans h)
  refine ⟨hp.consistent, fun ht x => ?_⟩
  rw [hp.mem, hp₀.mem]
  rcases hcases with ⟨-, rfl⟩ | ⟨-, hs⟩
  · rfl
  · rw [hs.ts, Heaps.setTime]
    by_cases hx : x = a
    · rw [hx, Heaps.ev_setEv_self]
    · rw [Heaps.ev_setEv_ne hx]

/-- **Every call keeps the heaps consistent.** -/
theorem heapCall_consistent {c : HeapCall} (hm : m.Consistent) (hc : c.InPlace m)
    (h : heapCall m c = some m') : m'.Consistent := by
  cases c with
  | block a => exact (ckBlockThread_consistent hm hc h).1
  | wake ht a =>
      by_cases hts : (m.ev a).ts = .blocked
      · exact (enterHeap_consistent hm hts ((if_pos hts).symm.trans h)).1
      · obtain rfl := Option.some.inj ((if_neg hts).symm.trans h)
        exact hm
  | prioritise a => exact (ckPrioritise_consistent hm hc h).1
  | store a v =>
      obtain rfl := Option.some.inj h
      obtain ⟨hheap, -, hv⟩ := hc
      refine ⟨fun ht => (hm.back ht).setEv hheap, fun ht x hx => ?_⟩
      have hx' : m.Contains ht x := hx
      by_cases hxa : x = a
      · subst hxa
        rw [Heaps.ev_setEv_self]
        rcases hv with hts | hout
        · exact hts.trans (hm.ts ht x hx')
        · exact absurd hx' (hout ht)
      · rw [Heaps.ev_setEv_ne hxa]
        exact hm.ts ht x hx'

/-- **The calls of a system call find their threads in place.** -/
theorem calls_inPlace (hm : s.Members) (hl : op.Legal s) :
    Along heapCall HeapCall.InPlace s.heaps (op.calls s) := by
  have hsits {a : Addr} (ha : s.loaded a = true) : s.heaps.Sits a := hm.placed.sits ha
  have hfresh {a : Addr} (ha : ¬ s.loaded a = true) (ht : HeapType) : ¬ s.heaps.Contains ht a :=
    fun hc => ha ((hm.placed.mem ht a).mp hc).1
  have hmove {a : Addr} {ht : HeapType} {m : Heaps} (ha : m.Sits a) :
      Along heapCall HeapCall.InPlace m [.block a, .wake ht a] :=
    ⟨ha, fun _ _ => ⟨trivial, fun _ _ => trivial⟩⟩
  cases op with
  | loadThread a objectData quantum defer interruptable =>
      exact ⟨⟨rfl, rfl, .inr (hfresh hl.1)⟩, fun _ _ => trivial⟩
  | cacheRunning a objectData interruptable =>
      exact ⟨⟨rfl, rfl, .inr (hfresh hl.1)⟩, fun _ _ => ⟨trivial, fun _ _ => trivial⟩⟩
  | unloadThread a => exact ⟨hsits hl, fun _ _ => trivial⟩
  | blockThread a => exact ⟨hsits hl, fun _ _ => trivial⟩
  | unblockThread a => exact ⟨trivial, fun _ _ => trivial⟩
  | idleThread a => exact ⟨trivial, fun _ _ => trivial⟩
  | setThreadState a state =>
      cases state with
      | running =>
          show Along heapCall _ _ (if s.ts a = .running then [] else [.block a, .wake .timesharing a])
          split
          · trivial
          · exact hmove (hsits hl)
      | realTime => trivial
      | idle =>
          show Along heapCall _ _ (if s.ts a = .idle then [] else [.block a, .wake .idle a])
          split
          · trivial
          · exact hmove (hsits hl)
      | blocked => exact ⟨hsits hl, fun _ _ => trivial⟩
  | threadTunnel a type =>
      cases type with
      | conservative => trivial
      | swapping =>
          refine ⟨hsits hl.2, fun m h => ?_⟩
          split
          · trivial
          · -- the other thread still sits where it was, or is the one that was blocked
            refine hmove fun ht hts => ?_
            obtain ⟨-, hcont⟩ := ckBlockThread_consistent hm.placed.consistent (hsits hl.2) h
            rw [ts_ckBlockThread h] at hts
            by_cases hx : a = s.currtask
            · rw [if_pos hx] at hts
              cases ht <;> exact absurd hts (by decide)
            · rw [if_neg hx] at hts
              exact (hcont ht a).mpr ⟨hsits hl.1 ht hts, hx⟩
      | unblocking => exact ⟨trivial, fun _ _ => trivial⟩
  | sendSignal a addr signal extra priority =>
      exact ⟨⟨rfl, rfl, .inl rfl⟩, fun _ _ => ⟨trivial, fun _ _ => trivial⟩⟩
  | prioritise a => exact ⟨hsits hl, fun _ _ => trivial⟩
  | schedule timer => trivial
  | store object value => trivial

/-- **The rule for system calls.** What each heap call keeps, a system call keeps, provided
its calls meet the side condition. -/
theorem schedStep_keeps {C : Heaps → HeapCall → Prop} {I : Heaps → Prop}
    (hstep : ∀ {m m' : Heaps} {c : HeapCall}, m.Consistent → c.InPlace m → C m c →
      heapCall m c = some m' → I m → I m')
    (hm : s.Members) (hl : op.Legal s) (hC : Along heapCall C s.heaps (op.calls s))
    (h : schedStep s op = some s') (hop : ∀ timer, op ≠ .schedule timer) (hI : I s.heaps) :
    I s'.heaps := by
  have hr := ((schedStep_calls h hop).along (calls_inPlace hm hl)).along hC
  refine (hr.invariant (I := fun m => m.Consistent ∧ I m) ?_ ⟨hm.placed.consistent, hI⟩).2
  rintro m m' c ⟨hcon, hi⟩ ⟨⟨-, hin⟩, hc⟩ hs
  exact ⟨heapCall_consistent hcon hin hs, hstep hcon hin hc hs hi⟩

end Alliance.CK
