import Alliance.CK.Sched

/-!
# The FPU context (`math.c`, `tasks.h`, `tasks.c`)

The processor sets `TS` on every task switch and raises int 7 on the first FPU
instruction after that. Its handler `CKi387SetupContext` saves the live context for the
thread that used the FPU last and sets up the one of the running thread. Int 7 is an
interrupt gate, and `CKcontextSwitch` resumes with the interrupts off, so each of the
two is one step.

`LazyFPU` is that machine. `EagerFPU` is one that saves and restores at every switch.
Both keep a log of the FPU instructions executed, with the state before and after
each. `lazy_switching_eager` says that the logs are the same, and that each
instruction finds what the thread's own last one left (`stateLeft`).

`LazyFPU.Sound` carries it: the last user's state is live, the other users' states are
saved, and `TS` is clear only while the last user runs.
-/

namespace Alliance.CK

open Function Lib

variable {F : Type}

/-- What the FPU instructions of the Cache Kernel do to a coprocessor with states `F`. -/
structure FPU (F : Type) where
  fninit : F
  fnclex : F → F

/-- `struct i387` of a thread's TSS. -/
structure I387 (F : Type) where
  context : F
  used : UDATA

/-- What the log records, newest first. -/
inductive FPUEvent (F : Type) where
  | created (thread : Addr)
  | executed (thread : Addr) (before after : F)
  deriving DecidableEq

/-- What a thread's own last FPU instruction left, or the initial state if it has not
executed one since it was created. -/
def stateLeft (u : FPU F) (thread : Addr) : List (FPUEvent F) → F
  | [] => u.fninit
  | .created t :: past => if t = thread then u.fninit else stateLeft u thread past
  | .executed t _ after :: past => if t = thread then after else stateLeft u thread past

/-- The operations: a task switch, an FPU instruction of the running thread, and the caching
and uncaching of a thread. `context` and `used` of a thread that is cached are the user's. -/
inductive FPUOp (F : Type) where
  | switch (event : Addr)
  | instr (f : F → F)
  | cache (thread : Addr) (userState : I387 F)
  | uncache (thread : Addr)

/-! ## The machine -/

structure LazyFPU (F : Type) where
  /-- `TS` in `%cr0`. -/
  ts : Bool
  /-- The coprocessor's state. -/
  live : F
  currtask : Addr
  lastFPUUser : Addr
  i387 : Addr → I387 F
  cached : Addr → Bool
  /-- The tasks that were switched away from in `CKcontextSwitch`, and so resume in it. -/
  suspended : Addr → Bool
  log : List (FPUEvent F)

namespace LazyFPU

/-- `fnsave`, which initialises the coprocessor after storing its state. -/
def fnsave (u : FPU F) (m : LazyFPU F) (thread : Addr) : LazyFPU F :=
  { m with
    i387 := update m.i387 thread { m.i387 thread with context := m.live }
    live := u.fninit }

/-- The first half of `CKi387SetupContext`: save the FPU context of the last user, if any. -/
def saveLast (u : FPU F) (m : LazyFPU F) : LazyFPU F :=
  if m.lastFPUUser ≠ NIL then m.fnsave u m.lastFPUUser else { m with live := u.fnclex m.live }

/-- The second half of `CKi387SetupContext`: the current thread becomes the last user, and
its context is loaded, or the coprocessor initialised if it has none. -/
def loadCurrent (u : FPU F) (m : LazyFPU F) : LazyFPU F :=
  let i387 := m.i387 m.currtask
  if i387.used ≠ 0 then
    { m with lastFPUUser := m.currtask, live := i387.context }
  else
    { m with
      lastFPUUser := m.currtask
      live := u.fninit
      i387 := update m.i387 m.currtask { i387 with used := i387.used + 1 } }

/-- `CKi387SetupContext`. -/
def ckI387SetupContext (u : FPU F) (m : LazyFPU F) : LazyFPU F :=
  loadCurrent u (saveLast u { m with ts := false })

/-- What int 7 makes of the state before an FPU instruction. -/
def trap (u : FPU F) (m : LazyFPU F) : LazyFPU F :=
  if m.ts then ckI387SetupContext u m else m

/-- `currtask = event; CKcontextSwitch(event)`. The jump sets `TS`; the check behind it is
executed by a task that is resumed. One that runs for the first time begins at its own entry
point. -/
def ckContextSwitch (m : LazyFPU F) (event : Addr) : LazyFPU F :=
  let suspended := update m.suspended m.currtask true
  { m with
    currtask := event
    suspended := suspended
    ts := if suspended event ∧ event = m.lastFPUUser then false else true }

/-- What `CKpreProcessTaskState` does to the TSS of a new thread. -/
def ckPreProcessTaskState (m : LazyFPU F) (thread : Addr) (userState : I387 F) : LazyFPU F :=
  { m with
    i387 := update m.i387 thread { userState with used := 0 }
    cached := update m.cached thread true
    suspended := update m.suspended thread false
    log := .created thread :: m.log }

/-- `CKunloadThreadObject` with `CKpostProcessTaskState`. A thread that unloads itself leaves
`zombietask` as the current task. -/
def ckUnloadThreadObject (m : LazyFPU F) (thread : Addr) : LazyFPU F :=
  { m with
    lastFPUUser := if thread = m.lastFPUUser then NIL else m.lastFPUUser
    cached := update m.cached thread false
    currtask := if m.currtask = thread then zombietask else m.currtask }

/-- An FPU instruction, once `TS` is clear. -/
def execute (m : LazyFPU F) (f : F → F) : LazyFPU F :=
  { m with live := f m.live, log := .executed m.currtask m.live (f m.live) :: m.log }

end LazyFPU

def lazyStep (u : FPU F) (m : LazyFPU F) : FPUOp F → Option (LazyFPU F)
  | .switch event => some (m.ckContextSwitch event)
  | .instr f => some ((m.trap u).execute f)
  | .cache thread userState => some (m.ckPreProcessTaskState thread userState)
  | .uncache thread => some (m.ckUnloadThreadObject thread)

/-- A switch goes to a cached thread or to the idle loop; only threads execute FPU
instructions; a thread is cached in memory that no cached thread has. -/
def FPUOp.Legal (m : LazyFPU F) : FPUOp F → Prop
  | .switch event => m.cached event ∨ event = idleLoop
  | .instr _ => m.cached m.currtask
  | .cache thread _ => ¬ m.cached thread ∧ thread ≠ NIL ∧ thread ≠ idleLoop ∧ thread ≠ zombietask
  | .uncache thread => m.cached thread

instance FPUOp.decidableLegal (m : LazyFPU F) (op : FPUOp F) : Decidable (op.Legal m) := by
  cases op <;> unfold FPUOp.Legal <;> infer_instance

/-- The machine when the scheduler is initialised, before the first thread is cached. -/
structure LazyFPU.Boot (m : LazyFPU F) : Prop where
  current : m.currtask = idleLoop
  last : m.lastFPUUser = NIL
  cached : ∀ t, ¬ m.cached t
  log : m.log = []

/-! ## Eager switching -/

/-- A machine that saves and restores the coprocessor's state at every switch. -/
structure EagerFPU (F : Type) where
  live : F
  currtask : Addr
  saved : Addr → F
  log : List (FPUEvent F)

def eagerStep (u : FPU F) (e : EagerFPU F) : FPUOp F → Option (EagerFPU F)
  | .switch event =>
    let saved := update e.saved e.currtask e.live
    some { e with saved := saved, live := saved event, currtask := event }
  | .instr f =>
    some { e with live := f e.live, log := .executed e.currtask e.live (f e.live) :: e.log }
  | .cache thread _ =>
    some { e with saved := update e.saved thread u.fninit, log := .created thread :: e.log }
  | .uncache thread =>
    some { e with currtask := if e.currtask = thread then zombietask else e.currtask }

/-- Every instruction of the log found what the thread's last one before it left. -/
def OwnState (u : FPU F) (log : List (FPUEvent F)) : Prop :=
  ∀ later past thread before after, log = later ++ .executed thread before after :: past →
    before = stateLeft u thread past

/-! ## The invariant -/

/-- Where the state of each thread is. -/
structure LazyFPU.Sound (u : FPU F) (m : LazyFPU F) : Prop where
  nil : ¬ m.cached NIL
  idle : ¬ m.cached idleLoop
  zombie : ¬ m.cached zombietask
  current : m.cached m.currtask ∨ m.currtask = idleLoop ∨ m.currtask = zombietask
  /-- `TS` is clear only for the last user. -/
  clear : m.ts = false → m.cached m.currtask → m.lastFPUUser = m.currtask
  last : m.lastFPUUser ≠ NIL → m.cached m.lastFPUUser ∧ (m.i387 m.lastFPUUser).used ≠ 0
  live : m.lastFPUUser ≠ NIL → m.live = stateLeft u m.lastFPUUser m.log
  saved : ∀ t, m.cached t → (m.i387 t).used ≠ 0 → t ≠ m.lastFPUUser →
    (m.i387 t).context = stateLeft u t m.log
  unused : ∀ t, m.cached t → (m.i387 t).used = 0 → stateLeft u t m.log = u.fninit
  own : OwnState u m.log

variable {u : FPU F} {m m' : LazyFPU F} {op : FPUOp F} {s : I387 F}

theorem LazyFPU.Boot.sound (h : m.Boot) : m.Sound u where
  nil := h.cached NIL
  idle := h.cached idleLoop
  zombie := h.cached zombietask
  current := .inr (.inl h.current)
  clear _ hc := absurd hc (h.cached _)
  last hl := absurd h.last hl
  live hl := absurd h.last hl
  saved t ht := absurd ht (h.cached t)
  unused t ht := absurd ht (h.cached t)
  own later past thread before after hl := by simp [h.log] at hl

/-- A log that grows by an instruction on the thread's own state. -/
theorem OwnState.executed {log : List (FPUEvent F)} (h : OwnState u log) {thread : Addr}
    {before after : F} (hb : before = stateLeft u thread log) :
    OwnState u (.executed thread before after :: log) := by
  intro later past t b a hl
  cases later with
  | nil =>
      obtain ⟨h1, rfl⟩ := List.cons.inj hl
      cases h1
      exact hb
  | cons e later => exact h later past t b a (List.cons.inj hl).2

theorem OwnState.created {log : List (FPUEvent F)} (h : OwnState u log) (thread : Addr) :
    OwnState u (.created thread :: log) := by
  intro later past t b a hl
  cases later with
  | nil => exact absurd (List.cons.inj hl).1 (by simp)
  | cons e later => exact h later past t b a (List.cons.inj hl).2

/-! ## The trap -/

namespace LazyFPU

@[simp] theorem saveLast_currtask : (m.saveLast u).currtask = m.currtask := by
  unfold saveLast; split <;> rfl

@[simp] theorem saveLast_cached : (m.saveLast u).cached = m.cached := by
  unfold saveLast; split <;> rfl

@[simp] theorem saveLast_log : (m.saveLast u).log = m.log := by
  unfold saveLast; split <;> rfl

theorem saveLast_clts : saveLast u { m with ts := false } = { m.saveLast u with ts := false } := by
  unfold saveLast; split <;> rfl

@[simp] theorem saveLast_used (t : Addr) : ((m.saveLast u).i387 t).used = (m.i387 t).used := by
  unfold saveLast fnsave
  split
  · by_cases ht : t = m.lastFPUUser
    · subst ht
      simp
    · simp [update_of_ne ht]
  · rfl

@[simp] theorem loadCurrent_currtask : (m.loadCurrent u).currtask = m.currtask := by
  unfold loadCurrent; dsimp only; split <;> rfl

@[simp] theorem loadCurrent_cached : (m.loadCurrent u).cached = m.cached := by
  unfold loadCurrent; dsimp only; split <;> rfl

@[simp] theorem loadCurrent_log : (m.loadCurrent u).log = m.log := by
  unfold loadCurrent; dsimp only; split <;> rfl

@[simp] theorem loadCurrent_ts : (m.loadCurrent u).ts = m.ts := by
  unfold loadCurrent; dsimp only; split <;> rfl

@[simp] theorem loadCurrent_last : (m.loadCurrent u).lastFPUUser = m.currtask := by
  unfold loadCurrent; dsimp only; split <;> rfl

theorem loadCurrent_other {t : Addr} (ht : t ≠ m.currtask) :
    (m.loadCurrent u).i387 t = m.i387 t := by
  unfold loadCurrent
  dsimp only
  split
  · rfl
  · exact update_of_ne ht ..

/-- The current thread has used the FPU after its context is set up. -/
theorem loadCurrent_used : ((m.loadCurrent u).i387 m.currtask).used ≠ 0 := by
  unfold loadCurrent
  dsimp only
  split
  · assumption
  · rename_i h
    simp [not_not.mp h]

/-- Once the last user's state is stored, every user's state is in its TSS. -/
theorem Sound.parked (h : m.Sound u) {t : Addr} (ht : m.cached t) (hu : (m.i387 t).used ≠ 0) :
    ((m.saveLast u).i387 t).context = stateLeft u t m.log := by
  unfold saveLast fnsave
  split
  · rename_i hl
    by_cases htl : t = m.lastFPUUser
    · subst htl
      simpa using h.live hl
    · simpa [update_of_ne htl] using h.saved t ht hu htl
  · rename_i hl
    -- there is no last user, and no cached thread has the address `NIL`
    exact h.saved t ht hu fun e => h.nil (not_not.mp hl ▸ e ▸ ht)

/-- What is loaded is the state of the current thread, on its first use the initial one. -/
theorem loadCurrent_live (hsaved : (m.i387 m.currtask).used ≠ 0 →
      (m.i387 m.currtask).context = stateLeft u m.currtask m.log)
    (hunused : (m.i387 m.currtask).used = 0 → stateLeft u m.currtask m.log = u.fninit) :
    (m.loadCurrent u).live = stateLeft u m.currtask m.log := by
  unfold loadCurrent
  dsimp only
  split
  · rename_i hu
    exact hsaved hu
  · rename_i hu
    exact (hunused (not_not.mp hu)).symm

/-- `CKi387SetupContext` keeps the invariant and makes the running thread the last user. -/
theorem Sound.setupContext (h : m.Sound u) (hc : m.cached m.currtask) :
    (m.ckI387SetupContext u).Sound u := by
  unfold ckI387SetupContext
  rw [saveLast_clts]
  generalize hm' : ({ m.saveLast u with ts := false } : LazyFPU F) = m'
  have hcur : m'.currtask = m.currtask := by rw [← hm']; exact saveLast_currtask
  have hcached : m'.cached = m.cached := by rw [← hm']; exact saveLast_cached
  have hlog : m'.log = m.log := by rw [← hm']; exact saveLast_log
  have hused : ∀ t, (m'.i387 t).used = (m.i387 t).used := by
    intro t
    rw [← hm']
    exact saveLast_used t
  have hparked : ∀ t, m.cached t → (m'.i387 t).used ≠ 0 →
      (m'.i387 t).context = stateLeft u t m.log := by
    intro t ht hu
    rw [hused] at hu
    rw [← hm']
    exact h.parked ht hu
  have hunused : ∀ t, m.cached t → (m'.i387 t).used = 0 → stateLeft u t m.log = u.fninit := by
    intro t ht hu
    rw [hused] at hu
    exact h.unused t ht hu
  rw [← hcached, ← hcur] at hc
  rw [← hcached] at hparked hunused
  rw [← hlog] at hparked hunused
  exact {
    nil := by rw [loadCurrent_cached, hcached]; exact h.nil
    idle := by rw [loadCurrent_cached, hcached]; exact h.idle
    zombie := by rw [loadCurrent_cached, hcached]; exact h.zombie
    current := .inl (by rwa [loadCurrent_cached, loadCurrent_currtask])
    clear := fun _ _ => by rw [loadCurrent_last, loadCurrent_currtask]
    last := fun _ => by
      rw [loadCurrent_last, loadCurrent_cached]
      exact ⟨hc, loadCurrent_used⟩
    live := fun _ => by
      rw [loadCurrent_last, loadCurrent_log]
      exact loadCurrent_live (hparked _ hc) (hunused _ hc)
    saved := by
      intro t ht hu hne
      rw [loadCurrent_last] at hne
      rw [loadCurrent_cached] at ht
      rw [loadCurrent_other hne] at hu ⊢
      rw [loadCurrent_log]
      exact hparked t ht hu
    unused := by
      intro t ht hu
      rw [loadCurrent_cached] at ht
      have hne : t ≠ m'.currtask := fun e => loadCurrent_used (u := u) (e ▸ hu)
      rw [loadCurrent_other hne] at hu
      rw [loadCurrent_log]
      exact hunused t ht hu
    own := by rw [loadCurrent_log, hlog]; exact h.own }

@[simp] theorem trap_currtask : (m.trap u).currtask = m.currtask := by
  unfold trap ckI387SetupContext
  split <;> simp

@[simp] theorem trap_log : (m.trap u).log = m.log := by
  unfold trap ckI387SetupContext
  split <;> simp

@[simp] theorem trap_cached : (m.trap u).cached = m.cached := by
  unfold trap ckI387SetupContext
  split <;> simp

theorem Sound.trap (h : m.Sound u) (hc : m.cached m.currtask) : (m.trap u).Sound u := by
  unfold LazyFPU.trap
  split
  · exact h.setupContext hc
  · exact h

/-- **Before an FPU instruction** the running thread is the last user, whether or not the
processor trapped. -/
theorem Sound.trap_last (h : m.Sound u) (hc : m.cached m.currtask) :
    (m.trap u).lastFPUUser = m.currtask := by
  unfold LazyFPU.trap
  split
  · unfold ckI387SetupContext
    rw [loadCurrent_last, saveLast_currtask]
  · rename_i hts
    exact h.clear (by simpa using hts) hc

/-- So the instruction finds the thread's own state. -/
theorem Sound.trap_live (h : m.Sound u) (hc : m.cached m.currtask) :
    (m.trap u).live = stateLeft u m.currtask m.log := by
  have hnil : m.currtask ≠ NIL := fun e => h.nil (e ▸ hc)
  have hl := (h.trap hc).live (by rwa [h.trap_last hc])
  rwa [h.trap_last hc, trap_log] at hl

/-! ## One step -/

/-- An instruction of the last user. -/
theorem Sound.execute (h : m.Sound u) (hc : m.cached m.currtask)
    (hlast : m.lastFPUUser = m.currtask) (f : F → F) : (m.execute f).Sound u := by
  have hnil : m.currtask ≠ NIL := fun e => h.nil (e ▸ hc)
  have hused := (h.last (by rwa [hlast])).2
  rw [hlast] at hused
  have hlive : m.live = stateLeft u m.currtask m.log := by
    have := h.live (by rwa [hlast])
    rwa [hlast] at this
  exact { h with
    live := fun _ => by simp [LazyFPU.execute, hlast, stateLeft]
    saved := by
      intro t ht hu hne
      have htc : m.currtask ≠ t := fun e => hne (by rw [← e]; exact hlast.symm)
      simpa [LazyFPU.execute, stateLeft, htc] using h.saved t ht hu hne
    unused := by
      intro t ht hu
      have htc : m.currtask ≠ t := fun e => hused (e ▸ hu)
      simpa [LazyFPU.execute, stateLeft, htc] using h.unused t ht hu
    own := h.own.executed hlive }

theorem Sound.contextSwitch (h : m.Sound u) {event : Addr}
    (he : m.cached event ∨ event = idleLoop) : (m.ckContextSwitch event).Sound u where
  nil := h.nil
  idle := h.idle
  zombie := h.zombie
  current := he.imp_right .inl
  clear hts _ := by
    -- only the check behind the jump clears `TS`
    unfold ckContextSwitch at hts
    dsimp only at hts
    split at hts
    · rename_i hs
      exact hs.2.symm
    · simp at hts
  last := h.last
  live := h.live
  saved := h.saved
  unused := h.unused
  own := h.own

theorem Sound.preProcess (h : m.Sound u) {thread : Addr} (hl : (FPUOp.cache thread s).Legal m) :
    (m.ckPreProcessTaskState thread s).Sound u := by
  obtain ⟨hfree, hnil, hidle, hzombie⟩ := hl
  have hcached : ∀ t, t ≠ thread →
      ((m.ckPreProcessTaskState thread s).cached t ↔ m.cached t) := by
    intro t ht
    simp [ckPreProcessTaskState, update_of_ne ht]
  have hcur : m.currtask ≠ thread := by
    intro e
    obtain hc | hi | hz := h.current
    · exact hfree (e ▸ hc)
    · exact hidle (e ▸ hi)
    · exact hzombie (e ▸ hz)
  have hlastne : m.lastFPUUser ≠ NIL → m.lastFPUUser ≠ thread :=
    fun hl e => hfree (e ▸ (h.last hl).1)
  have hi387 : ∀ t, t ≠ thread → (m.ckPreProcessTaskState thread s).i387 t = m.i387 t :=
    fun t ht => update_of_ne ht ..
  have hleft : ∀ t, t ≠ thread →
      stateLeft u t (m.ckPreProcessTaskState thread s).log = stateLeft u t m.log := by
    intro t ht
    simp [ckPreProcessTaskState, stateLeft, ht.symm]
  exact {
    nil := by rw [hcached _ hnil.symm]; exact h.nil
    idle := by rw [hcached _ hidle.symm]; exact h.idle
    zombie := by rw [hcached _ hzombie.symm]; exact h.zombie
    current := h.current.imp_left (hcached _ hcur).mpr
    clear := fun hts hc => h.clear hts ((hcached _ hcur).mp hc)
    last := fun hl => by
      have hne := hlastne hl
      exact ⟨(hcached _ hne).mpr (h.last hl).1,
        (congrArg I387.used (hi387 _ hne)).trans_ne (h.last hl).2⟩
    live := fun hl => (h.live hl).trans (hleft _ (hlastne hl)).symm
    saved := by
      intro t ht hu hne
      by_cases htt : t = thread
      · subst htt
        simp [ckPreProcessTaskState] at hu
      · rw [hi387 t htt] at hu ⊢
        rw [hleft t htt]
        exact h.saved t ((hcached t htt).mp ht) hu hne
    unused := by
      intro t ht hu
      by_cases htt : t = thread
      · subst htt
        simp [ckPreProcessTaskState, stateLeft]
      · rw [hi387 t htt] at hu
        rw [hleft t htt]
        exact h.unused t ((hcached t htt).mp ht) hu
    own := h.own.created thread }

theorem Sound.unload (h : m.Sound u) {thread : Addr} :
    (m.ckUnloadThreadObject thread).Sound u := by
  have hcached : ∀ t, (m.ckUnloadThreadObject thread).cached t → t ≠ thread ∧ m.cached t := by
    intro t ht
    by_cases htt : t = thread
    · subst htt
      simp [ckUnloadThreadObject] at ht
    · exact ⟨htt, by simpa [ckUnloadThreadObject, update_of_ne htt] using ht⟩
  have hlast : (m.ckUnloadThreadObject thread).lastFPUUser ≠ NIL →
      m.lastFPUUser ≠ thread ∧ m.lastFPUUser ≠ NIL ∧
        (m.ckUnloadThreadObject thread).lastFPUUser = m.lastFPUUser := by
    intro hl
    unfold ckUnloadThreadObject at hl ⊢
    dsimp only at hl ⊢
    split at hl
    · exact absurd rfl hl
    · rename_i hne
      exact ⟨fun e => hne e.symm, hl, if_neg hne⟩
  exact {
    nil := fun hc => h.nil (hcached _ hc).2
    idle := fun hc => h.idle (hcached _ hc).2
    zombie := fun hc => h.zombie (hcached _ hc).2
    current := by
      unfold ckUnloadThreadObject
      dsimp only
      split
      · exact .inr (.inr rfl)
      · rename_i hne
        exact h.current.imp_left fun hc => by rwa [update_of_ne hne]
    clear := by
      intro hts hc
      obtain ⟨hne, hc⟩ := hcached _ hc
      have hcur : (m.ckUnloadThreadObject thread).currtask = m.currtask := by
        unfold ckUnloadThreadObject at hne hc ⊢
        dsimp only at hne hc ⊢
        split
        · rename_i he
          rw [if_pos he] at hc
          exact absurd hc h.zombie
        · rfl
      rw [hcur] at hne hc ⊢
      have hl := h.clear hts hc
      unfold ckUnloadThreadObject
      dsimp only
      rw [hl, if_neg hne.symm]
    last := by
      intro hl
      obtain ⟨hne, hnil, he⟩ := hlast hl
      rw [he]
      refine ⟨?_, (h.last hnil).2⟩
      unfold ckUnloadThreadObject
      dsimp only
      rw [update_of_ne hne]
      exact (h.last hnil).1
    live := by
      intro hl
      obtain ⟨_, hnil, he⟩ := hlast hl
      rw [he]
      exact h.live hnil
    saved := by
      intro t ht hu hne
      obtain ⟨htt, ht⟩ := hcached t ht
      refine h.saved t ht hu fun e => hne ?_
      unfold ckUnloadThreadObject
      dsimp only
      rw [← e, if_neg (Ne.symm htt)]
    unused := fun t ht hu => h.unused t (hcached t ht).2 hu
    own := h.own }

end LazyFPU

/-- **One operation keeps the invariant.** -/
theorem lazyStep_sound (h : m.Sound u) (hl : op.Legal m) (hs : lazyStep u m op = some m') :
    m'.Sound u := by
  cases op with
  | switch event =>
      obtain rfl := Option.some.inj hs
      exact h.contextSwitch hl
  | instr f =>
      obtain rfl := Option.some.inj hs
      refine (h.trap hl).execute (f := f) ?_ ?_
      · rw [LazyFPU.trap_cached, LazyFPU.trap_currtask]
        exact hl
      · rw [h.trap_last hl, LazyFPU.trap_currtask]
  | cache thread userState =>
      obtain rfl := Option.some.inj hs
      exact h.preProcess hl
  | uncache thread =>
      obtain rfl := Option.some.inj hs
      exact h.unload

theorem Run.lazy_sound {ops : List (FPUOp F)} (h : m.Sound u)
    (hr : Run (lazyStep u) FPUOp.Legal m ops m') : m'.Sound u :=
  hr.invariant (fun h hl hs => lazyStep_sound h hl hs) h

/-! ## Against eager switching -/

/-- The two machines after the same operations: the eager one has the state of the running
thread live and all others saved. -/
structure EagerFPU.Matches (u : FPU F) (m : LazyFPU F) (e : EagerFPU F) : Prop where
  sound : m.Sound u
  currtask : e.currtask = m.currtask
  log : e.log = m.log
  live : m.cached m.currtask → e.live = stateLeft u m.currtask m.log
  saved : ∀ t, m.cached t → t ≠ m.currtask → e.saved t = stateLeft u t m.log

open LazyFPU in
/-- **One operation on both machines.** -/
theorem EagerFPU.Matches.step {e : EagerFPU F} (h : e.Matches u m) (hl : op.Legal m)
    (hs : lazyStep u m op = some m') :
    ∃ e', True ∧ eagerStep u e op = some e' ∧ e'.Matches u m' := by
  have hsound := lazyStep_sound h.sound hl hs
  cases op with
  | switch event =>
      obtain rfl := Option.some.inj hs
      -- what the eager machine has saved, or has just saved, for a cached thread
      have hsaved : ∀ t, m.cached t →
          update e.saved e.currtask e.live t = stateLeft u t m.log := by
        intro t ht
        by_cases htc : t = m.currtask
        · subst htc
          rw [h.currtask, update_self]
          exact h.live ht
        · rw [h.currtask, update_of_ne htc]
          exact h.saved t ht htc
      exact ⟨_, trivial, rfl,
        { sound := hsound
          currtask := rfl
          log := h.log
          live := hsaved event
          saved := fun t ht _ => hsaved t ht }⟩
  | instr f =>
      obtain rfl := Option.some.inj hs
      have hlive : (m.trap u).live = e.live := by rw [h.sound.trap_live hl, h.live hl]
      exact ⟨_, trivial, rfl,
        { sound := hsound
          currtask := by simp [execute, h.currtask]
          log := by simp [execute, h.currtask, h.log, hlive]
          live := fun _ => by simp [execute, stateLeft, hlive]
          saved := by
            intro t ht htc
            simp only [execute, trap_cached, trap_currtask] at ht htc
            simpa [execute, stateLeft, Ne.symm htc] using h.saved t ht htc }⟩
  | cache thread userState =>
      obtain rfl := Option.some.inj hs
      -- the running task is not the one that is cached
      have hcur : thread ≠ m.currtask := by
        intro he
        obtain ⟨hfree, _, hidle, hzombie⟩ := hl
        obtain hc | hi | hz := h.sound.current
        · exact hfree (he ▸ hc)
        · exact hidle (he.trans hi)
        · exact hzombie (he.trans hz)
      exact ⟨_, trivial, rfl,
        { sound := hsound
          currtask := h.currtask
          log := congrArg _ h.log
          live := by
            intro hc
            simp only [ckPreProcessTaskState, update_of_ne hcur.symm] at hc
            simpa [ckPreProcessTaskState, stateLeft, hcur] using h.live hc
          saved := by
            intro t ht htc
            by_cases htt : t = thread
            · subst htt
              simp [ckPreProcessTaskState, stateLeft]
            · simp only [ckPreProcessTaskState, update_of_ne htt] at ht
              simpa [ckPreProcessTaskState, stateLeft, update_of_ne htt, Ne.symm htt] using
                h.saved t ht htc }⟩
  | uncache thread =>
      obtain rfl := Option.some.inj hs
      refine ⟨_, trivial, rfl,
        { sound := hsound
          currtask := by simp [ckUnloadThreadObject, h.currtask]
          log := h.log
          live := ?_
          saved := ?_ }⟩
      · intro hc
        unfold ckUnloadThreadObject at hc ⊢
        dsimp only at hc ⊢
        split at hc
        · rename_i he
          by_cases hz : zombietask = thread
          · simp [hz] at hc
          · rw [update_of_ne hz] at hc
            exact absurd hc h.sound.zombie
        · rename_i hne
          rw [update_of_ne hne] at hc
          rw [if_neg hne]
          exact h.live hc
      · intro t ht htc
        by_cases htt : t = thread
        · subst htt
          simp [ckUnloadThreadObject] at ht
        · simp only [ckUnloadThreadObject, update_of_ne htt] at ht htc ⊢
          refine h.saved t ht fun e => htc ?_
          rw [if_neg (fun e' => htt (e.trans e')), e]

/-- **Lazy FPU switching is eager switching.** After any task switches, FPU instructions,
thread creations and exits since the scheduler was initialised, the FPU instructions have
been executed on the states that saving and restoring at every switch gives them, and each of
them on the state the thread's own last one left, or on the initial one. -/
theorem lazy_switching_eager {m₀ : LazyFPU F} {e₀ : EagerFPU F} {ops : List (FPUOp F)}
    (hboot : m₀.Boot) (hcur : e₀.currtask = idleLoop) (hlog : e₀.log = [])
    (hr : Run (lazyStep u) FPUOp.Legal m₀ ops m) :
    ∃ e, Run (eagerStep u) (fun _ _ => True) e₀ ops e ∧ m.log = e.log ∧ OwnState u m.log := by
  have hmatch : e₀.Matches u m₀ :=
    { sound := hboot.sound
      currtask := hcur.trans hboot.current.symm
      log := hlog.trans hboot.log.symm
      live := fun hc => absurd hc (hboot.cached _)
      saved := fun t ht => absurd ht (hboot.cached t) }
  obtain ⟨e, hrun, h⟩ := hr.simulates (fun h hl hs => h.step hl hs) hmatch
  exact ⟨e, hrun, h.log.symm, h.sound.own⟩

/-! ## A freed record that is used again -/

def lazyAtBoot (live : F) : LazyFPU F where
  ts := false
  live := live
  currtask := idleLoop
  lastFPUUser := NIL
  i387 _ := ⟨live, 0⟩
  cached _ := false
  suspended _ := false
  log := []

theorem lazyAtBoot_boot (live : F) : (lazyAtBoot live).Boot :=
  ⟨rfl, rfl, fun _ => Bool.false_ne_true, rfl⟩

/-- Thread 128 uses the FPU, unloads itself and is replaced by a thread at its address, whose
user claims a context. The new thread starts from the initial state, and thread 64 finds its
own again. -/
def reusedRecord : List (FPUOp Nat) :=
  [.cache 64 ⟨0, 0⟩, .cache 128 ⟨0, 0⟩, .switch 64, .instr (· + 5), .switch 128, .instr (· + 7),
    .uncache 128, .switch 64, .cache 128 ⟨99, 1⟩, .switch 128, .instr (· + 3), .switch 64,
    .instr (· * 2)]

theorem lazy_switching_eager_reusedRecord :
    ∃ (m : LazyFPU Nat) (e : EagerFPU Nat),
      Run (eagerStep ⟨0, id⟩) (fun _ _ => True) ⟨9, idleLoop, fun _ => 9, []⟩ reusedRecord e ∧
        m.log = e.log ∧ OwnState ⟨0, id⟩ m.log ∧
        m.log.take 2 = [.executed 64 5 10, .executed 128 0 3] := by
  obtain ⟨m, hr, hlog⟩ := Run.of_exec_any
    (show (exec (lazyStep ⟨0, id⟩) FPUOp.Legal (lazyAtBoot 9) reusedRecord).any
      (fun m => decide (m.log.take 2 = [.executed 64 5 10, .executed 128 0 3])) = true by decide)
  have heager : ∃ e, Run (eagerStep ⟨0, id⟩) (fun _ _ => True) ⟨9, idleLoop, fun _ => 9, []⟩
      reusedRecord e ∧ m.log = e.log ∧ OwnState ⟨0, id⟩ m.log :=
    lazy_switching_eager (lazyAtBoot_boot 9) rfl rfl hr
  obtain ⟨e, hrun, hsame, hown⟩ := heager
  exact ⟨m, e, hrun, hsame, hown, of_decide_eq_true hlog⟩

end Alliance.CK
