import Alliance.CK.SchedPlaced

/-!
# Scheduler membership

The invariant of the scheduler: every loaded thread is in the heap of its state and
in no other, and nothing else is in a heap. All operations keep it, those of
`CKschedule` included, as long as they find room: `CKsiftup` does not look whether
the heap array is full. `SchedOp.Fits` says of each operation when it does, and an
operation that does not leaves the array.
-/

namespace Alliance.CK

open Function Lib Lib.BinHeap

variable {m m' : Heaps} {ht ht' : HeapType} {a x : Addr} {s s' : Sched}

/-! ## The invariant -/

/-- Loaded threads are in the heaps their states say, nothing else is, and the running task
is a loaded thread or one of the two tasks that are never loaded. -/
structure Sched.Members (s : Sched) : Prop where
  placed : s.heaps.Placed (fun a => s.loaded a = true)
  room : ∀ ht, s.heaps.used ht ≤ MAXEVENTS
  idleTs : s.ts idleLoop = .idle
  idleOut : s.loaded idleLoop = false
  zombieTs : s.ts zombietask = .blocked
  zombieOut : s.loaded zombietask = false
  curr : s.loaded s.currtask = true ∨ s.currtask = idleLoop ∨ s.currtask = zombietask

/-- Where an operation inserts a thread, its heap has a free slot. -/
def SchedOp.Fits (s : Sched) : SchedOp → Prop
  | .cacheRunning _ _ _ => s.heaps.used .timesharing < MAXEVENTS
  | .unblockThread thread => s.ts thread = .blocked → s.heaps.used .timesharing < MAXEVENTS
  | .sendSignal thread _ _ _ _ => s.ts thread = .blocked → s.heaps.used .timesharing < MAXEVENTS
  | .idleThread thread => s.ts thread = .blocked → s.heaps.used .idle < MAXEVENTS
  | .setThreadState thread .running =>
    s.ts thread ≠ .running → s.heaps.used .timesharing < MAXEVENTS
  | .setThreadState thread .idle => s.ts thread ≠ .idle → s.heaps.used .idle < MAXEVENTS
  | .threadTunnel thread .swapping => thread = s.currtask ∨ s.ts thread ≠ .running →
    s.ts s.currtask = .running ∨ s.heaps.used .timesharing < MAXEVENTS
  | .threadTunnel thread .unblocking =>
    s.ts thread = .blocked → s.heaps.used .timesharing < MAXEVENTS
  | .schedule _ => (s.Promotes → s.heaps.used .realtime < MAXEVENTS) ∧
    (s.Demotes → s.heaps.used .timesharing < MAXEVENTS)
  | _ => True

instance SchedOp.decidableFits (s : Sched) : (op : SchedOp) → Decidable (op.Fits s)
  | .cacheRunning _ _ _ => inferInstanceAs (Decidable (_ < _))
  | .unblockThread _ => inferInstanceAs (Decidable (_ → _))
  | .sendSignal _ _ _ _ _ => inferInstanceAs (Decidable (_ → _))
  | .idleThread _ => inferInstanceAs (Decidable (_ → _))
  | .setThreadState _ .running => inferInstanceAs (Decidable (_ → _))
  | .setThreadState _ .idle => inferInstanceAs (Decidable (_ → _))
  | .setThreadState _ .blocked => isTrue trivial
  | .setThreadState _ .realTime => isTrue trivial
  | .threadTunnel _ .swapping => inferInstanceAs (Decidable (_ ∨ _ → _))
  | .threadTunnel _ .unblocking => inferInstanceAs (Decidable (_ → _))
  | .threadTunnel _ .conservative => isTrue trivial
  | .schedule _ => inferInstanceAs (Decidable (_ ∧ _))
  | .loadThread _ _ _ _ _ => isTrue trivial
  | .unloadThread _ => isTrue trivial
  | .blockThread _ => isTrue trivial
  | .prioritise _ => isTrue trivial
  | .store _ _ => isTrue trivial

/-- A state that differs in the heaps only keeps the invariant if its threads are placed and
the two special tasks keep their states. -/
theorem Sched.Members.setHeaps (hm : s.Members)
    (hp : m.Placed (fun a => s.loaded a = true)) (hr : ∀ ht, m.used ht ≤ MAXEVENTS)
    (hts : ∀ x, s.loaded x = false → (m.ev x).ts = s.ts x) :
    Sched.Members { s with heaps := m } where
  placed := hp
  room := hr
  idleTs := (hts _ hm.idleOut).trans hm.idleTs
  idleOut := hm.idleOut
  zombieTs := (hts _ hm.zombieOut).trans hm.zombieTs
  zombieOut := hm.zombieOut
  curr := hm.curr

theorem Sched.Members.setUser {u : Addr → ThreadObject} (hm : s.Members) :
    Sched.Members { s with user := u } :=
  ⟨hm.placed, hm.room, hm.idleTs, hm.idleOut, hm.zombieTs, hm.zombieOut, hm.curr⟩

theorem Sched.Members.setUserTime {t : TIME} (hm : s.Members) : (s.setUserTime a t).Members :=
  hm.setUser

theorem Sched.Members.ne_of_loaded (hm : s.Members) (ha : s.loaded a = true) :
    a ≠ idleLoop ∧ a ≠ zombietask := by
  refine ⟨?_, ?_⟩ <;> rintro rfl
  · rw [hm.idleOut] at ha
    exact absurd ha (by simp)
  · rw [hm.zombieOut] at ha
    exact absurd ha (by simp)

theorem Sched.AtBoot.members (h : s.AtBoot) : s.Members where
  placed :=
    { back := fun ht i hi => by
        rw [h.empty] at hi
        omega
      mem := fun ht a => by
        constructor
        · rintro ⟨i, hi, -⟩
          rw [h.empty] at hi
          omega
        · rintro ⟨ha, -⟩
          rw [h.loaded] at ha
          exact absurd ha (by simp) }
  room ht := by rw [h.empty]; exact Nat.zero_le _
  idleTs := h.idleLoop
  idleOut := h.loaded _
  zombieTs := h.zombietask
  zombieOut := h.loaded _
  curr := .inr (.inl h.currtask)

/-! ## Moving one thread -/

/-- Taking a loaded thread out of its heap and blocking it. -/
theorem Sched.Members.blockThread (hm : s.Members) (ha : s.loaded a = true) :
    ∃ m, ckBlockThread s.heaps a = some m ∧ Sched.Members { s with heaps := m } ∧
      (m.ev a).ts = .blocked := by
  obtain ⟨m', m₁, -, hm', heq, hs, hu, hp⟩ := hm.placed.ckBlockThread ha
  refine ⟨m', hm', hm.setHeaps hp (fun ht => ?_) (fun x hx => ?_), ?_⟩
  · have := hu ht
    have := hm.room ht
    omega
  · have hne : x ≠ a := by
      rintro rfl
      rw [ha] at hx
      exact absurd hx (by simp)
    rw [heq, Heaps.setTs, Heaps.ev_setEv_ne hne, hs.ts]
    rfl
  · rw [heq, Heaps.setTs, Heaps.ev_setEv_self]

/-- Making a blocked thread enter a heap that has room. -/
theorem Sched.Members.enterHeap (hm : s.Members) (ht : HeapType) (ha : s.loaded a = true)
    (hts : s.ts a = .blocked) (hroom : s.heaps.used ht < MAXEVENTS) :
    ∃ m, enterHeap s.heaps ht a = some m ∧ Sched.Members { s with heaps := m } := by
  obtain ⟨m', hm', hs, ⟨hu, hu'⟩, hp⟩ := hm.placed.enterHeap_blocked ha hts hroom
  refine ⟨m', hm', hm.setHeaps hp (fun ht' => ?_) (fun x hx => ?_)⟩
  · by_cases hne : ht' = ht
    · subst hne
      omega
    · rw [hu' ht' hne]
      exact hm.room ht'
  · have hne : x ≠ a := by
      rintro rfl
      rw [ha] at hx
      exact absurd hx (by simp)
    rw [hs.ts, Heaps.ev_entered_ne hne]
    rfl

/-- What is left of a heap's room when a thread has left the heap it was in. -/
theorem Sched.Members.leaveHeap_room (hm : s.Members)
    (hu : ∀ ht, m.used ht + (if (s.ts a).heap? = some ht then 1 else 0) = s.heaps.used ht) :
    m.used ht < MAXEVENTS ↔ s.ts a = ht.ts ∨ s.heaps.used ht < MAXEVENTS := by
  have h1 := hu ht
  have h2 := hm.room ht
  have hiff : (s.ts a).heap? = some ht ↔ s.ts a = ht.ts := by
    cases s.ts a <;> cases ht <;> decide
  by_cases hts : s.ts a = ht.ts
  · rw [if_pos (hiff.mpr hts)] at h1
    simp only [hts, true_or, iff_true]
    omega
  · rw [if_neg fun h => hts (hiff.mp h)] at h1
    simp only [hts, false_or]
    omega

/-- Moving a loaded thread from the heap it is in, if any, to one that has room. -/
theorem Sched.Members.moveHeap (hm : s.Members) (ht : HeapType) (ha : s.loaded a = true)
    (hroom : s.ts a = ht.ts ∨ s.heaps.used ht < MAXEVENTS) :
    ∃ m₁ m, leaveHeap s.heaps a = some m₁ ∧ CK.enterHeap m₁ ht a = some m ∧
      m.used ht = m₁.used ht + 1 ∧ Sched.Members { s with heaps := m } := by
  obtain ⟨m₁, hm₁, hs₁, hu₁, hp₁⟩ := hm.placed.leaveHeap ha
  obtain ⟨m', hm', hs, ⟨hu, hu'⟩, hp⟩ :=
    hp₁.enterHeap (a := a) (fun hl => hl.2 rfl) ((hm.leaveHeap_room hu₁).mpr hroom)
  refine ⟨m₁, m', hm₁, hm', hu, hm.setHeaps (hp.congr fun x => ?_) (fun ht' => ?_)
    (fun x hx => ?_)⟩
  · by_cases hx : x = a
    · simp [hx, ha]
    · simp [hx]
  · have h1 := hu₁ ht'
    have h2 := hm.room ht'
    have h3 := (hm.leaveHeap_room (a := a) hu₁).mpr hroom
    by_cases hne : ht' = ht
    · subst hne
      omega
    · rw [hu' ht' hne]
      omega
  · have hne : x ≠ a := by
      rintro rfl
      rw [ha] at hx
      exact absurd hx (by simp)
    rw [hs.ts, Heaps.ev_entered_ne hne, hs₁.ts]
    rfl

/-- Where that heap has no room, the thread cannot be moved. -/
theorem Sched.Members.moveHeap_none (hm : s.Members) (ht : HeapType)
    (ha : s.loaded a = true)
    (hroom : ¬ (s.ts a = ht.ts ∨ s.heaps.used ht < MAXEVENTS)) :
    ((leaveHeap s.heaps a).bind fun m => CK.enterHeap m ht a) = none := by
  obtain ⟨m₁, hm₁, -, hu₁, -⟩ := hm.placed.leaveHeap ha
  rw [hm₁]
  exact Heaps.enterHeap_none fun h => hroom ((hm.leaveHeap_room hu₁).mp h)

/-! ## `CKschedule` -/

/-- Storing into the fields of an event that its place does not depend on. -/
theorem Sched.Members.setEv {v : EVENT} (hm : s.Members) (hts : v.ts = s.ts a)
    (hheap : v.heap = (s.heaps.ev a).heap) :
    Sched.Members { s with heaps := s.heaps.setEv a v } := by
  refine hm.setHeaps (hm.placed.setEv (.inr ⟨hts, hheap⟩)) hm.room fun x _ => ?_
  by_cases hx : x = a
  · subst hx
    rw [Heaps.ev_setEv_self, hts]
  · rw [Heaps.ev_setEv_ne hx]
    rfl

/-- The running task is loaded if it is in any state but that of the two special tasks. -/
theorem Sched.Members.curr_loaded (hm : s.Members) (hb : s.ts s.currtask ≠ .blocked)
    (hi : s.ts s.currtask = .idle → s.currtask ≠ idleLoop) : s.loaded s.currtask = true := by
  rcases hm.curr with h | h | h
  · exact h
  · exact absurd h (hi (by rw [h]; exact hm.idleTs))
  · exact absurd (by rw [h]; exact hm.zombieTs) hb

/-- A loaded thread in the state of a heap: the heap is not empty. -/
theorem Sched.Members.used_pos (hm : s.Members) (ht : HeapType) (ha : s.loaded a = true)
    (hts : s.ts a = ht.ts) : 0 < s.heaps.used ht := by
  obtain ⟨i, hi, -⟩ := (hm.placed.mem ht a).mpr ⟨ha, by
    rw [show (s.heaps.ev a).ts = ht.ts from hts]
    cases ht <;> rfl⟩
  omega

/-- The flush where the running thread stays in its heap. -/
theorem Sched.Members.siftdown (hm : s.Members) (hpos : 0 < s.heaps.used ht) :
    Sched.Members { s with heaps := ckSiftdown s.heaps ht } := by
  obtain ⟨hs, hu, hp⟩ := hm.placed.ckSiftdown hpos
  exact hm.setHeaps hp (fun ht' => by rw [hu]; exact hm.room ht') fun x _ => hs.ts x

/-- The flush where the running thread changes from one heap to another. -/
theorem Sched.Members.changeHeap (hm : s.Members) (ht ht' : HeapType) (ha : s.loaded a = true)
    (hts : s.ts a = ht.ts) (hne : ht' ≠ ht) (hroom : s.heaps.used ht' < MAXEVENTS) {v : EVENT}
    (hv : v.ts = ht'.ts) (hheap : v.heap = (s.heaps.ev a).heap) :
    ∃ m₁ m, ckRemoveEvent (s.heaps.setEv a v) ht (s.heaps.ev a).heap = some m₁ ∧
      ckSiftup m₁ ht' a = some m ∧ Sched.Members { s with heaps := m } := by
  have hbut : (s.heaps.setEv a v).PlacedBut (fun x => s.loaded x = true) ht a :=
    (hm.placed.but ha (by
      rw [show (s.heaps.ev a).ts = ht.ts from hts]
      cases ht <;> rfl)).setEv hheap
  obtain ⟨m₁, hm₁, hs₁, ⟨hu₁, hu₁'⟩, hp₁⟩ := hbut.ckRemoveEvent
  rw [Heaps.ev_setEv_self, hheap] at hm₁
  have hev : (m₁.ev a).ts = ht'.ts := by rw [hs₁.ts, Heaps.ev_setEv_self, hv]
  obtain ⟨m, hm', hs, ⟨hu, hu'⟩, hp⟩ := hp₁.ckSiftup (fun hl => hl.2 rfl) hev (by
    rw [hu₁' ht' hne]
    exact hroom)
  refine ⟨m₁, m, hm₁, hm', hm.setHeaps (hp.congr fun x => ?_) (fun k => ?_) (fun x hx => ?_)⟩
  · by_cases hx : x = a
    · simp [hx, ha]
    · simp [hx]
  · have h1 : m₁.used k ≤ s.heaps.used k := by
      by_cases hk : k = ht
      · subst hk
        exact Nat.le_of_succ_le (Nat.le_of_eq hu₁)
      · exact Nat.le_of_eq (hu₁' k hk)
    have h2 := hm.room k
    by_cases hk : k = ht'
    · subst hk
      have h3 : m₁.used k = s.heaps.used k := hu₁' k hne
      omega
    · rw [hu' k hk]
      omega
  · have hxa : x ≠ a := by
      rintro rfl
      rw [ha] at hx
      exact absurd hx (by simp)
    rw [hs.ts, hs₁.ts, Heaps.ev_setEv_ne hxa]
    rfl

theorem Heaps.setEv_setEv {v w : EVENT} : (m.setEv a v).setEv a w = m.setEv a w := by
  simp [Heaps.setEv]

/-- What `CKflushPrevTask` needs: room in the heap it moves the running thread to. -/
def Sched.FlushFits (s : Sched) : Prop :=
  (s.ts s.currtask = .running → cless s.lasttime (s.heaps.time s.currtask) →
      s.heaps.used .realtime < MAXEVENTS) ∧
    (s.ts s.currtask = .realTime → ¬ cless s.lasttime (s.heaps.time s.currtask) →
      s.heaps.used .timesharing < MAXEVENTS)

/-- **The flush** keeps every thread in the heap of its state. -/
theorem Sched.Members.flush (hm : s.Members) (hf : s.FlushFits) :
    ∃ s', ckFlushPrevTask s = some s' ∧ s'.Members := by
  have hm₁ : Sched.Members { s with doingRealtime := 0 } :=
    ⟨hm.placed, hm.room, hm.idleTs, hm.idleOut, hm.zombieTs, hm.zombieOut, hm.curr⟩
  have hadv (ht : HeapType) (ha : s.loaded s.currtask = true) (hts : s.ts s.currtask = ht.ts) :
      Sched.Members { s with
        heaps := ckSiftdown (s.heaps.setTime s.currtask
          (s.heaps.time s.currtask + (s.heaps.ev s.currtask).defer)) ht } :=
    (hm.setEv (v := { s.heaps.ev s.currtask with
      time := s.heaps.time s.currtask + (s.heaps.ev s.currtask).defer }) rfl rfl).siftdown
      (hm.used_pos ht ha hts)
  cases hts : s.ts s.currtask with
  | running =>
      have ha := hm.curr_loaded (by rw [hts]; simp) (by rw [hts]; simp)
      by_cases hlt : cless s.lasttime (s.heaps.time s.currtask)
      · obtain ⟨m₁, m, h₁, h₂, hm'⟩ := hm.changeHeap .timesharing .realtime
          (v := { s.heaps.ev s.currtask with ts := .realTime }) ha hts (by decide)
          (hf.1 hts hlt) rfl rfl
        refine ⟨_, ?_, hm'⟩
        rw [flush_promote hts hlt, Heaps.setTs, h₁, Option.bind_some, h₂, Option.bind_some]
      · exact ⟨_, flush_timesharing hts hlt, hadv .timesharing ha hts⟩
  | realTime =>
      have ha := hm.curr_loaded (by rw [hts]; simp) (by rw [hts]; simp)
      by_cases hlt : cless s.lasttime (s.heaps.time s.currtask)
      · exact ⟨_, flush_realtime hts hlt, hm₁.siftdown (hm.used_pos .realtime ha hts)⟩
      · obtain ⟨m₁, m, h₁, h₂, hm'⟩ := hm₁.changeHeap .realtime .timesharing
          (v := { s.heaps.ev s.currtask with
            ts := .running, time := s.heaps.ckGetNextTime .timesharing }) ha hts (by decide)
          (hf.2 hts hlt) rfl rfl
        refine ⟨_, ?_, hm'⟩
        rw [flush_demote hts hlt, Heaps.setTime, Heaps.setTs, Heaps.ev_setEv_self,
          Heaps.setEv_setEv, h₁, Option.bind_some, h₂, Option.bind_some]
  | idle =>
      by_cases hne : s.currtask = idleLoop
      · exact ⟨s, CK.flush_none (.inr ⟨hts, hne⟩), hm⟩
      · have ha := hm.curr_loaded (by rw [hts]; simp) fun _ => hne
        exact ⟨_, flush_idle hts hne, hadv .idle ha hts⟩
  | blocked => exact ⟨s, CK.flush_none (.inl hts), hm⟩

/-- Without room for the running thread there is no flush. -/
theorem flush_eq_none (hf : ¬ s.FlushFits) : ckFlushPrevTask s = none := by
  have hfull : ∀ {o : Option Heaps} {ht : HeapType} {f : Heaps → Option Sched},
      ¬ s.heaps.used ht < MAXEVENTS →
      (∀ m, o = some m → m.used ht = s.heaps.used ht) →
      (o.bind fun m => (ckSiftup m ht s.currtask).bind f) = none := by
    intro o ht f hroom hu
    cases ho : o with
    | none => rfl
    | some m =>
        rw [Option.bind_some, ckSiftup, if_neg (by rw [hu m ho]; exact hroom)]
        rfl
  unfold Sched.FlushFits at hf
  by_cases hts : s.ts s.currtask = .running
  · by_cases hlt : cless s.lasttime (s.heaps.time s.currtask)
    · rw [flush_promote hts hlt]
      refine hfull (fun hroom => hf ⟨fun _ _ => hroom, fun h => ?_⟩) ?_
      · rw [hts] at h
        exact absurd h (by simp)
      · intro m h
        exact used_congr_sel ((ckRemoveEvent_frame h).2.sel _ (by decide))
    · refine absurd ⟨fun _ h => absurd h hlt, fun h => ?_⟩ hf
      rw [hts] at h
      exact absurd h (by simp)
  · by_cases hrt : s.ts s.currtask = .realTime ∧ ¬ cless s.lasttime (s.heaps.time s.currtask)
    · rw [flush_demote hrt.1 hrt.2]
      refine hfull (fun hroom => hf ⟨fun h => absurd h hts, fun _ _ => hroom⟩) ?_
      intro m h
      exact used_congr_sel ((ckRemoveEvent_frame h).2.sel _ (by decide))
    · exact absurd ⟨fun h => absurd h hts, fun h h' => absurd ⟨h, h'⟩ hrt⟩ hf

/-- The next task is a loaded thread or the idle loop. -/
theorem Sched.Members.select (hm : s.Members) (timer : TIME) : (selectTask s timer).Members := by
  refine ⟨hm.placed, hm.room, hm.idleTs, hm.idleOut, hm.zombieTs, hm.zombieOut, ?_⟩
  rcases ckGetNextTask_cases (ckUpdateRealtime s timer) with ⟨ht, hne, he⟩ | he
  · left
    show s.loaded (ckGetNextTask (ckUpdateRealtime s timer)).1 = true
    rw [he]
    exact ((hm.placed.mem ht _).mp ⟨0, Nat.pos_of_ne_zero hne, rfl⟩).1
  · exact .inr (.inl he)

/-- **The context switch** moves no thread. -/
theorem Sched.Members.contextSwitch (hm : s.Members) : (CK.contextSwitch s).Members := by
  unfold CK.contextSwitch
  split
  · exact (hm.setEv (v := { s.heaps.ev s.currtask with
      signals := (signalCheck (s.user (s.objectData s.currtask)).interruptable
        (s.heaps.ev s.currtask).signals).1 }) rfl rfl).setUser
  · exact ⟨hm.placed, hm.room, hm.idleTs, hm.idleOut, hm.zombieTs, hm.zombieOut, hm.curr⟩

/-! ## One step -/

/-- Taking the user's time is a store that moves no thread, and makes the flush's test the
test on the user's time. -/
theorem Sched.Members.takeUserTime (hm : s.Members) : s.takeUserTime.Members := hm.setEv rfl rfl

@[simp] theorem ts_takeUserTime : s.takeUserTime.ts x = s.ts x := by
  unfold Sched.takeUserTime Sched.ts Heaps.setTime
  by_cases hx : x = s.currtask
  · rw [hx, Heaps.ev_setEv_self]
  · rw [Heaps.ev_setEv_ne hx]

@[simp] theorem time_takeUserTime :
    s.takeUserTime.heaps.time s.currtask = s.userTime s.currtask := by
  simp [Sched.takeUserTime, Heaps.time, Heaps.setTime]

theorem flushFits_iff (timer : TIME) :
    s.takeUserTime.FlushFits ↔ SchedOp.Fits s (.schedule timer) := by
  unfold Sched.FlushFits SchedOp.Fits Sched.Promotes Sched.Demotes
  rw [show s.takeUserTime.currtask = s.currtask from rfl, ts_takeUserTime, time_takeUserTime]
  constructor
  · rintro ⟨h1, h2⟩
    exact ⟨fun h => h1 h.1 h.2, fun h => h2 h.1 h.2⟩
  · rintro ⟨h1, h2⟩
    exact ⟨fun h h' => h1 ⟨h, h'⟩, fun h h' => h2 ⟨h, h'⟩⟩

theorem Sched.Members.schedule (hm : s.Members) {timer : TIME}
    (hf : SchedOp.Fits s (.schedule timer)) : ∃ s', ckSchedule s timer = some s' ∧ s'.Members := by
  obtain ⟨s₁, h₁, hm₁⟩ := hm.takeUserTime.flush ((flushFits_iff timer).mpr hf)
  unfold ckSchedule
  rw [h₁]
  exact ⟨_, rfl, (hm₁.select timer).contextSwitch⟩

/-- A thread at a fresh address. -/
theorem Sched.Members.loadThread (hm : s.Members) {objectData : Addr} {quantum defer : TIME}
    {interruptable : UDATA} (ha : s.loaded a = false) (hi : a ≠ idleLoop) (hz : a ≠ zombietask) :
    (ckLoadThread s a objectData quantum defer interruptable).Members := by
  have hne : ∀ x, x ≠ a → update s.loaded a true x = s.loaded x := fun x hx => update_of_ne hx _ _
  have hp : (ckLoadThread s a objectData quantum defer interruptable).heaps.Placed
      (fun x => s.loaded x = true ∧ x ≠ a) := by
    refine Heaps.Placed.setEv (hm.placed.congr fun x => ?_) (.inl fun h => h.2 rfl)
    refine ⟨fun h => ⟨h, ?_⟩, fun h => h.1⟩
    rintro rfl
    rw [ha] at h
    exact absurd h (by simp)
  refine ⟨?_, hm.room, ?_, ?_, ?_, ?_, ?_⟩
  · refine Heaps.Placed.insert_blocked (a := a) (hp.congr fun x => ?_) ?_ ?_
    · by_cases hx : x = a
      · simp [hx]
      · show _ ↔ update s.loaded a true x = true ∧ _
        rw [hne x hx]
    · exact update_self ..
    · simp [ckLoadThread]
  · show (((s.heaps.setEv a _).ev idleLoop)).ts = _
    rw [Heaps.ev_setEv_ne hi.symm]
    exact hm.idleTs
  · exact (hne _ hi.symm).trans hm.idleOut
  · show (((s.heaps.setEv a _).ev zombietask)).ts = _
    rw [Heaps.ev_setEv_ne hz.symm]
    exact hm.zombieTs
  · exact (hne _ hz.symm).trans hm.zombieOut
  · by_cases hx : s.currtask = a
    · left
      show update s.loaded a true s.currtask = true
      rw [hx, update_self]
    · show update s.loaded a true s.currtask = true ∨ _
      rw [hne _ hx]
      exact hm.curr

/-- A blocked thread enters heap `ht`, another one stays where it is. -/
theorem Sched.Members.wake (hm : s.Members) (ht : HeapType) (ha : s.loaded a = true)
    (hf : s.ts a = .blocked → s.heaps.used ht < MAXEVENTS) :
    ∃ m, (if (s.heaps.ev a).ts = .blocked then CK.enterHeap s.heaps ht a else some s.heaps) =
        some m ∧
      Sched.Members { s with heaps := m } := by
  by_cases hts : (s.heaps.ev a).ts = .blocked
  · rw [if_pos hts]
    exact hm.enterHeap ht ha hts (hf hts)
  · rw [if_neg hts]
    exact ⟨_, rfl, hm⟩

theorem wake_none (hf : ¬ ((m.ev a).ts = .blocked → m.used ht < MAXEVENTS)) :
    (if (m.ev a).ts = .blocked then enterHeap m ht a else some m) = none := by
  rw [Classical.not_imp] at hf
  exact (if_pos hf.1).trans (Heaps.enterHeap_none hf.2)

/-- Unloading: a blocked thread is in no heap, so nothing refers to it. -/
theorem Sched.Members.unloadThread (hm : s.Members) (ha : s.loaded a = true) :
    ∃ s', ckUnloadThread s a = some s' ∧ s'.Members := by
  obtain ⟨m, h, hm', hb⟩ := hm.blockThread ha
  obtain ⟨hi, hz⟩ := hm.ne_of_loaded ha
  have hne : ∀ x, x ≠ a → update s.loaded a false x = s.loaded x := fun x hx => update_of_ne hx _ _
  unfold ckUnloadThread
  rw [h]
  refine ⟨_, rfl, ⟨⟨hm'.placed.back, fun ht x => ?_⟩, hm'.room, hm'.idleTs, ?_, hm'.zombieTs, ?_, ?_⟩⟩
  · rw [show (_ ↔ _) = (m.Contains ht x ↔ update s.loaded a false x = true ∧
      (m.ev x).ts.heap? = some ht) from rfl, hm'.placed.mem]
    by_cases hx : x = a
    · subst hx
      simp [hb, ThreadState.heap?]
    · rw [hne x hx]
  · exact (hne _ hi.symm).trans hm.idleOut
  · exact (hne _ hz.symm).trans hm.zombieOut
  · by_cases hc : s.currtask = a
    · exact .inr (.inr (if_pos hc))
    · dsimp only
      rw [if_neg hc, hne _ hc]
      exact hm.curr

/-- `CKsetThreadState` into a heap the thread is not in. -/
theorem Sched.Members.setThreadState (hm : s.Members) (ha : s.loaded a = true)
    (hroom : s.heaps.used ht < MAXEVENTS) :
    ∃ s' : Sched × Bool, ((leaveHeap s.heaps a).bind fun m => (CK.enterHeap m ht a).bind fun m' =>
      some ({ s with heaps := m' }.setUserTime a (m.enterTime ht), true)) = some s' ∧
      s'.1.Members := by
  obtain ⟨m₁, m, h₁, h₂, -, hm'⟩ := hm.moveHeap ht ha (.inr hroom)
  rw [h₁, Option.bind_some, h₂, Option.bind_some]
  exact ⟨_, rfl, hm'.setUser⟩

/-- The swapping tunnel blocks the running thread and makes the other one running. -/
theorem Sched.Members.swap (hm : s.Members) (ha : s.loaded a = true)
    (hc : s.loaded s.currtask = true) :
    (SchedOp.Fits s (.threadTunnel a .swapping) →
      ∃ s', ckThreadTunnel s a .swapping = some s' ∧ s'.Members) ∧
    (¬ SchedOp.Fits s (.threadTunnel a .swapping) → ckThreadTunnel s a .swapping = none) := by
  obtain ⟨m', m₁, -, hm', heq, hs, hu, hp⟩ := hm.placed.ckBlockThread hc
  obtain ⟨m, h, hm₁, -⟩ := hm.blockThread hc
  obtain rfl : m' = m := Option.some.inj (hm'.symm.trans h)
  -- the other thread is moved unless it is running already
  have hts : (m'.ev a).ts = .running ↔ ¬ (a = s.currtask ∨ s.ts a ≠ .running) := by
    rw [heq, Heaps.setTs]
    by_cases hac : a = s.currtask
    · rw [hac, Heaps.ev_setEv_self]
      simp
    · rw [Heaps.ev_setEv_ne hac, hs.ts]
      simp [hac, Sched.ts]
  have hroom : (m'.ev a).ts ≠ .running →
      ((Sched.ts { s with heaps := m' } a = HeapType.timesharing.ts ∨
        m'.used .timesharing < MAXEVENTS) ↔
        s.ts s.currtask = .running ∨ s.heaps.used .timesharing < MAXEVENTS) := by
    intro hne
    exact (or_iff_right hne).trans (hm.leaveHeap_room hu)
  unfold ckThreadTunnel
  rw [h]
  by_cases hrun : (m'.ev a).ts = .running
  · refine ⟨fun _ => ⟨{ s with heaps := m' }, ?_, hm₁⟩, fun hf => ?_⟩
    · simp [hrun]
    · exact absurd (fun h => absurd h (hts.mp hrun)) hf
  · have hmv := not_not.mp (mt hts.mpr hrun)
    constructor
    · intro hf
      obtain ⟨m₂, m₃, h₂, h₃, -, hm₃⟩ := hm₁.moveHeap .timesharing ha
        ((hroom hrun).mpr (hf hmv))
      refine ⟨_, ?_, hm₃⟩
      dsimp only at h₂
      simp [hrun, h₂, h₃]
    · intro hf
      have hnone := hm₁.moveHeap_none .timesharing ha fun h =>
        hf fun _ => (hroom hrun).mp h
      dsimp only at hnone
      simp only [Option.bind_eq_bind, Option.bind_some, hrun, if_false]
      cases hl : leaveHeap m' a with
      | none => rfl
      | some m₂ =>
          rw [hl, Option.bind_some] at hnone
          rw [Option.bind_some, hnone]
          rfl

/-- **One operation** that finds room keeps the invariant. -/
theorem schedStep_members {op : SchedOp} (hm : s.Members) (hl : op.Legal s) (hf : op.Fits s) :
    ∃ s', schedStep s op = some s' ∧ s'.Members := by
  cases op with
  | loadThread a objectData quantum defer interruptable =>
      exact ⟨_, rfl, hm.loadThread (Bool.eq_false_iff.mpr hl.1) hl.2.1 hl.2.2⟩
  | cacheRunning a objectData interruptable =>
      have hm₁ : (ckLoadThread s a objectData 0x1000 0x2000 interruptable).Members :=
        hm.loadThread (Bool.eq_false_iff.mpr hl.1) hl.2.1 hl.2.2
      obtain ⟨m, h, hm'⟩ := hm₁.enterHeap .timesharing (a := a) (update_self ..)
        (by simp [Sched.ts, ckLoadThread]) hf
      exact ⟨_, congrArg (Option.map _) h, hm'.setUserTime⟩
  | unloadThread a => exact hm.unloadThread hl
  | blockThread a =>
      obtain ⟨m, h, hm', -⟩ := hm.blockThread hl
      exact ⟨_, congrArg (Option.map _) h, hm'⟩
  | unblockThread a =>
      obtain ⟨m, h, hm'⟩ := hm.wake _ hl hf
      exact ⟨_, congrArg (Option.map _) h, hm'⟩
  | idleThread a =>
      obtain ⟨m, h, hm'⟩ := hm.wake _ hl hf
      exact ⟨_, congrArg (Option.map _) h, hm'⟩
  | setThreadState a state =>
      cases state with
      | running =>
          by_cases hts : s.ts a = .running
          · exact ⟨s, by simp [schedStep, ckSetThreadState, hts], hm⟩
          · obtain ⟨s', h, hm'⟩ := hm.setThreadState hl (hf hts)
            refine ⟨s'.1, ?_, hm'⟩
            simp only [schedStep, ckSetThreadState, if_neg hts]
            exact congrArg (Option.map Prod.fst) h
      | realTime => exact ⟨s, rfl, hm⟩
      | idle =>
          by_cases hts : s.ts a = .idle
          · exact ⟨s, by simp [schedStep, ckSetThreadState, hts], hm⟩
          · obtain ⟨s', h, hm'⟩ := hm.setThreadState hl (hf hts)
            refine ⟨s'.1, ?_, hm'⟩
            simp only [schedStep, ckSetThreadState, if_neg hts]
            exact congrArg (Option.map Prod.fst) h
      | blocked =>
          obtain ⟨m, h, hm', -⟩ := hm.blockThread hl
          refine ⟨_, ?_, hm'⟩
          simp only [schedStep, ckSetThreadState, h]
          rfl
  | threadTunnel a type =>
      cases type with
      | conservative => exact ⟨s, rfl, hm⟩
      | swapping => exact (hm.swap hl.1 hl.2).1 hf
      | unblocking =>
          obtain ⟨m, h, hm'⟩ := hm.wake _ hl.1 hf
          exact ⟨_, congrArg (Option.map _) h, hm'⟩
  | sendSignal a addr signal extra priority =>
      have hm₁ : Sched.Members { s with
          heaps := s.heaps.setEv a { s.heaps.ev a with
            signals := ckSendSignal (newSignal addr s.currtask signal extra priority)
              (s.heaps.ev a).signals } } := hm.setEv rfl rfl
      obtain ⟨m, h, hm'⟩ := hm₁.wake .timesharing (a := a) hl fun hb => hf (by
        rw [Sched.ts, Heaps.ev_setEv_self] at hb
        exact hb)
      exact ⟨_, congrArg (Option.map _) h, hm'⟩
  | prioritise a =>
      obtain ⟨m, h, hu, hp, hcases⟩ := hm.placed.ckPrioritise hl
      refine ⟨_, congrArg (Option.map _) h, hm.setHeaps hp (fun ht => by rw [hu]; exact hm.room ht) ?_⟩
      intro x hx
      rcases hcases with ⟨-, rfl⟩ | ⟨-, hs⟩
      · rfl
      · have hne : x ≠ a := by
          rintro rfl
          rw [show s.loaded x = true from hl] at hx
          exact absurd hx (by simp)
        rw [hs.ts, Heaps.setTime, Heaps.ev_setEv_ne hne]
        rfl
  | schedule timer => exact hm.schedule hf
  | store object value => exact ⟨_, rfl, hm.setUser⟩

/-- An operation that does not find room leaves the heap array. -/
theorem schedStep_none {op : SchedOp} (hm : s.Members) (hl : op.Legal s) (hf : ¬ op.Fits s) :
    schedStep s op = none := by
  cases op with
  | loadThread => exact absurd trivial hf
  | cacheRunning a objectData interruptable =>
      exact congrArg (Option.map _) (Heaps.enterHeap_none
        (m := (ckLoadThread s a objectData 0x1000 0x2000 interruptable).heaps) hf)
  | unloadThread => exact absurd trivial hf
  | blockThread => exact absurd trivial hf
  | unblockThread a => exact congrArg (Option.map _) (wake_none hf)
  | idleThread a => exact congrArg (Option.map _) (wake_none hf)
  | setThreadState a state =>
      have hmove : ∀ ht : HeapType, s.ts a ≠ ht.ts → ¬ s.heaps.used ht < MAXEVENTS →
          ((leaveHeap s.heaps a).bind fun m => (enterHeap m ht a).bind fun m' =>
            some ({ s with heaps := m' }.setUserTime a (m.enterTime ht), true)) = none := by
        intro ht hts hroom
        have hnone := hm.moveHeap_none ht hl fun h => h.elim hts hroom
        cases hl : leaveHeap s.heaps a with
        | none => rfl
        | some m =>
            rw [hl, Option.bind_some] at hnone
            rw [Option.bind_some, hnone]
            rfl
      cases state with
      | running =>
          have hf' := Classical.not_imp.mp hf
          simp only [schedStep, ckSetThreadState, if_neg hf'.1]
          exact congrArg (Option.map Prod.fst) (hmove .timesharing hf'.1 hf'.2)
      | realTime => exact absurd trivial hf
      | idle =>
          have hf' := Classical.not_imp.mp hf
          simp only [schedStep, ckSetThreadState, if_neg hf'.1]
          exact congrArg (Option.map Prod.fst) (hmove .idle hf'.1 hf'.2)
      | blocked => exact absurd trivial hf
  | threadTunnel a type =>
      cases type with
      | conservative => exact absurd trivial hf
      | swapping => exact (hm.swap hl.1 hl.2).2 hf
      | unblocking => exact congrArg (Option.map _) (wake_none hf)
  | sendSignal a addr signal extra priority =>
      refine congrArg (Option.map _) (wake_none (m := s.heaps.setEv a { s.heaps.ev a with
        signals := ckSendSignal (newSignal addr s.currtask signal extra priority)
          (s.heaps.ev a).signals }) fun h => hf fun hb => h ?_)
      rw [Heaps.ev_setEv_self]
      exact hb
  | prioritise => exact absurd trivial hf
  | schedule timer =>
      show ckSchedule s timer = none
      unfold ckSchedule
      rw [flush_eq_none (mt (flushFits_iff timer).mp hf)]
      rfl
  | store => exact absurd trivial hf

/-! ## Runs -/

/-- In which heaps a thread is, and how often. -/
theorem Sched.Members.count (hm : s.Members) (ha : s.loaded a = true) (ht : HeapType) :
    (s.heaps.contents ht).count a = if (s.ts a).heap? = some ht then 1 else 0 := by
  rw [Multiset.count_eq_of_nodup (hm.placed.back ht).nodup]
  refine if_congr ?_ rfl rfl
  rw [Heaps.mem_contents, hm.placed.mem]
  exact ⟨fun h => h.2, fun h => ⟨ha, h⟩⟩

/-- The scheduler at boot. -/
def schedAtBoot : Sched where
  heaps :=
    { sel := fun _ => ⟨fun _ => NIL, 0⟩
      ev := fun a =>
        ⟨NIL, 0x1000, 0, 0, ⟨.timesharing, 0⟩, if a = idleLoop then .idle else .blocked, []⟩ }
  user _ := ⟨0, 0, 0⟩
  currtask := idleLoop
  lasttime := 0
  realtime := 0
  fudge := 0
  doingRealtime := 0
  period := 0
  loaded _ := false
  started a := a = idleLoop

theorem schedAtBoot_atBoot : schedAtBoot.AtBoot :=
  ⟨fun _ => rfl, rfl, by decide, by decide, fun _ => rfl, by decide⟩

@[simp] theorem loaded_loadThread {objectData : Addr} {quantum defer : TIME}
    {interruptable : UDATA} :
    (ckLoadThread s a objectData quantum defer interruptable).loaded a = true := by
  simp [ckLoadThread]

/-- Setting a blocked thread's state to running. -/
theorem run_step (hm : s.Members) (ha : s.loaded a = true) (hts : s.ts a = .blocked)
    (hroom : s.heaps.used .timesharing < MAXEVENTS) :
    ∃ s', schedStep s (.setThreadState a .running) = some s' ∧ s'.Members ∧
      s'.heaps.used .timesharing = s.heaps.used .timesharing + 1 ∧ s'.loaded = s.loaded := by
  have hleave : leaveHeap s.heaps a = some s.heaps := by
    unfold leaveHeap
    rw [show (s.heaps.ev a).ts = .blocked from hts]
    rfl
  obtain ⟨m₁, m, h₁, h₂, hu, hm'⟩ := hm.moveHeap .timesharing ha (.inr hroom)
  obtain rfl := Option.some.inj (hleave.symm.trans h₁)
  refine ⟨{ s with heaps := m }.setUserTime a (s.heaps.enterTime .timesharing), ?_,
    hm'.setUserTime, hu, rfl⟩
  simp only [schedStep, ckSetThreadState, hts, hleave]
  simp [h₂]

/-- The address of the `n`-th thread that is loaded. -/
def nthThread (n : Nat) : Addr := 16 + n

theorem nthThread_ne (n : Nat) : nthThread n ≠ idleLoop ∧ nthThread n ≠ zombietask := by
  constructor
  · exact Nat.ne_of_gt (show 4 < 16 + n by omega)
  · exact Nat.ne_of_gt (show 8 < 16 + n by omega)

/-- As many threads as the heap has slots can be made running. -/
theorem running_threads (n : Nat) : n ≤ MAXEVENTS → ∃ ops s,
    Run schedStep (fun s op => op.Legal s) schedAtBoot ops s ∧ s.Members ∧
      s.heaps.used .timesharing = n ∧ ∀ k, n ≤ k → s.loaded (nthThread k) = false := by
  induction n with
  | zero =>
      intro _
      exact ⟨[], _, .nil _, schedAtBoot_atBoot.members, rfl, fun _ _ => rfl⟩
  | succ n ih =>
      intro hn
      obtain ⟨ops, s, hr, hm, hu, hfree⟩ := ih (by omega)
      obtain ⟨hi, hz⟩ := nthThread_ne n
      have hm₁ : (ckLoadThread s (nthThread n) NIL 1 1 0).Members :=
        hm.loadThread (hfree n le_rfl) hi hz
      obtain ⟨s', hs', hm', hu', hl'⟩ := run_step hm₁ (a := nthThread n) (update_self ..)
        (by simp [Sched.ts, ckLoadThread]) (show s.heaps.used .timesharing < _ by omega)
      have hload : SchedOp.Legal s (.loadThread (nthThread n) NIL 1 1 0) :=
        ⟨by rw [hfree n le_rfl]; simp, hi, hz⟩
      have hrun : SchedOp.Legal (ckLoadThread s (nthThread n) NIL 1 1 0)
        (.setThreadState (nthThread n) .running) := loaded_loadThread
      refine ⟨_, s', (hr.snoc hload rfl).snoc hrun hs', hm',
        hu'.trans (congrArg _ hu), fun k hk => ?_⟩
      have hne : nthThread k ≠ nthThread n := fun he => by
        have : 16 + k = 16 + n := he
        omega
      rw [hl']
      exact (update_of_ne hne _ _).trans (hfree k (by omega))

end Alliance.CK
