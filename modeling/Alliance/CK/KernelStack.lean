import Alliance.CK.Objects
import Alliance.Lib.Run
import Mathlib.Logic.Function.Basic

/-!
# Kernel stacks (`tasks.c`, `kernel.c`)

A thread's `esp0` is both the top of its Cache Kernel stack and the only record of the
block that `CKpreProcessTaskState` allocated for it. A signal that interrupts the thread
inside the Cache Kernel moves `esp0` below the interrupted code and keeps the old one in
the signal frame; the end of that signal, which knows the frame by the `KDATA` in place of
`ds`, restores it.

Of a frame on the emulation kernel stack only the two words that this needs are kept. The
frames of a thread, innermost first, unwind to the original top (`Unwinds`), so `esp0` is
that top exactly when no frame interrupted the Cache Kernel. `CKpostProcessTaskState` does
not ask; `kernel_stack_run` says what it frees.
-/

namespace Alliance.CK

open Function Lib

def KCODE : BitVec 16 := 0x8#16

def EKCODE : BitVec 16 := 0x19#16

def KDATA : UADDR := 0x10#32

def EKDATA : UADDR := 0x21#32

def KSTACKSIZE : UADDR := 8192#32

/-- A frame that `CKsignal` builds on the emulation kernel stack. -/
structure EKFrame where
  /-- `kernelsp[14]`: the old `esp0` in a frame that returns to the Cache Kernel; otherwise
  what was there before. -/
  esp0 : UADDR
  /-- `kernelsp[16]`. -/
  ds : UADDR
  deriving DecidableEq

/-- The frame returns to the Cache Kernel. -/
abbrev EKFrame.InCK (f : EKFrame) : Prop := f.ds = KDATA

structure KThread where
  esp0 : UADDR
  frames : List EKFrame
  /-- The block that was allocated for the stack, which the source does not remember. -/
  stack : UADDR
  deriving DecidableEq

namespace KThread

/-- The stack part of `CKpreProcessTaskState`, given the block that `CKmemAlloc` returned. -/
def ckPreProcessTaskState (block : UADDR) : Option KThread :=
  if block ≠ 0 then some { esp0 := block + KSTACKSIZE, frames := [], stack := block } else none

/-- The block that `CKpostProcessTaskState` gives to `CKmemFree`. -/
def ckPostProcessTaskState (t : KThread) : UADDR := t.esp0 - KSTACKSIZE

/-- The frame of `CKsignal`. `ds` is the word pushed by the stub, at the address `dsAddr` on
the kernel stack. Code of the emulation kernel and user code get the same words, on different
places of the stack. -/
def ckSignal (t : KThread) (cs : BitVec 16) (dsAddr ds kernelsp14 : UADDR) : KThread :=
  if cs = KCODE then
    { t with frames := ⟨t.esp0, KDATA⟩ :: t.frames, esp0 := dsAddr }
  else
    { t with frames := ⟨kernelsp14, ds⟩ :: t.frames }

/-- `CKendOfSignal`, which either leaves the frame for what it interrupted or, if a signal
is `pending`, has `CKsignal` build the next one on top of it. -/
def ckEndOfSignal (t : KThread) (pending : Bool) : KThread :=
  if pending then t
  else
    match t.frames with
    | [] => t
    | f :: frames =>
      if f.ds = KDATA then { t with esp0 := f.esp0, frames } else { t with frames }

/-- How far above the bottom of the stack an address is. -/
def offset (t : KThread) (a : UADDR) : Nat := (a - t.stack).toNat

end KThread

/-- What `CKpostProcessTaskState` freed for a thread, and what had been allocated. -/
structure FreedStack where
  thread : Addr
  stack : UADDR
  freed : UADDR
  deriving DecidableEq

structure StackMem where
  threads : Addr → Option KThread
  freed : List FreedStack

inductive StackOp where
  /-- `block` is what `CKmemAlloc(KSTACKSIZE)` returns. -/
  | cache (thread : Addr) (block : UADDR)
  | signal (thread : Addr) (cs : BitVec 16) (dsAddr ds kernelsp14 : UADDR)
  | endOfSignal (thread : Addr) (pending : Bool)
  | uncache (thread : Addr)

/-- A thread that has no stack is not cached (`ENOMEM`). -/
def stackStep (m : StackMem) : StackOp → Option StackMem
  | .cache thread block =>
    match KThread.ckPreProcessTaskState block with
    | some t => some { m with threads := update m.threads thread (some t) }
    | none => some m
  | .signal thread cs dsAddr ds kernelsp14 => do
    let t ← m.threads thread
    some { m with threads := update m.threads thread (some (t.ckSignal cs dsAddr ds kernelsp14)) }
  | .endOfSignal thread pending => do
    let t ← m.threads thread
    some { m with threads := update m.threads thread (some (t.ckEndOfSignal pending)) }
  | .uncache thread => do
    let t ← m.threads thread
    some {
      threads := update m.threads thread none
      freed := ⟨thread, t.stack, t.ckPostProcessTaskState⟩ :: m.freed }

/-- What the processor sees to: code that is interrupted in the Cache Kernel runs on the stack
below `esp0`, and no other code can have `KDATA` in `ds`. -/
def KThread.Interrupted (cs : BitVec 16) (dsAddr ds : UADDR) (t : KThread) : Prop :=
  if cs = KCODE then t.offset dsAddr < t.offset t.esp0 else ds ≠ KDATA

instance KThread.decidableInterrupted (cs : BitVec 16) (dsAddr ds : UADDR)
    (t : KThread) : Decidable (t.Interrupted cs dsAddr ds) := by
  unfold KThread.Interrupted; infer_instance

/-- Threads are cached once, and an end of signal is executed in a frame. -/
def StackOp.Legal (m : StackMem) : StackOp → Prop
  | .cache thread _ => m.threads thread = none
  | .signal thread cs dsAddr ds _ => ∃ t ∈ m.threads thread, t.Interrupted cs dsAddr ds
  | .endOfSignal thread _ => ∃ t ∈ m.threads thread, t.frames ≠ []
  | .uncache thread => (m.threads thread).isSome

instance StackOp.decidableLegal (m : StackMem) (op : StackOp) : Decidable (op.Legal m) := by
  cases op <;> unfold StackOp.Legal <;> infer_instance

/-- No thread is uncached while a signal that interrupted it in the Cache Kernel is handled. -/
def StackOp.OutsideCK (m : StackMem) : StackOp → Prop
  | .uncache thread => ∀ t ∈ m.threads thread, ∀ f ∈ t.frames, ¬ f.InCK
  | _ => True

instance StackOp.decidableOutsideCK (m : StackMem) (op : StackOp) : Decidable (op.OutsideCK m) := by
  cases op <;> unfold StackOp.OutsideCK <;> infer_instance

/-! ## Unwinding -/

/-- The saved tops lead from `esp0` upwards to the top of the block. -/
def KThread.Unwinds (stack : UADDR) : UADDR → List EKFrame → Prop
  | esp0, [] => esp0 = stack + KSTACKSIZE
  | esp0, f :: frames =>
    if f.InCK then
      (esp0 - stack).toNat < (f.esp0 - stack).toNat ∧ Unwinds stack f.esp0 frames
    else
      Unwinds stack esp0 frames

/-- The frames lead back to the top of the block that was allocated. -/
def KThread.Sound (t : KThread) : Prop := KThread.Unwinds t.stack t.esp0 t.frames

namespace KThread

variable {t : KThread} {stack esp0 block : UADDR} {frames : List EKFrame}

theorem Unwinds.le (h : Unwinds stack esp0 frames) :
    (esp0 - stack).toNat ≤ KSTACKSIZE.toNat := by
  induction frames generalizing esp0 with
  | nil =>
      have htop : esp0 - stack = KSTACKSIZE := by
        rw [show esp0 = stack + KSTACKSIZE from h, BitVec.add_comm, BitVec.add_sub_cancel]
      exact Nat.le_of_eq (congrArg BitVec.toNat htop)
  | cons f frames ih =>
      unfold Unwinds at h
      split at h
      · exact Nat.le_trans (Nat.le_of_lt h.1) (ih h.2)
      · exact ih h

/-- Below a frame that returns to the Cache Kernel, `esp0` is not the top. -/
theorem Unwinds.lt (h : Unwinds stack esp0 frames) (hck : ∃ f ∈ frames, f.InCK) :
    (esp0 - stack).toNat < KSTACKSIZE.toNat := by
  induction frames generalizing esp0 with
  | nil => simp at hck
  | cons f frames ih =>
      unfold Unwinds at h
      split at h
      · exact Nat.lt_of_lt_of_le h.1 h.2.le
      · rename_i hf
        obtain ⟨g, hg, hgck⟩ := hck
        obtain rfl | hg := List.mem_cons.mp hg
        · exact absurd hgck hf
        · exact ih h ⟨g, hg, hgck⟩

theorem Unwinds.top (h : Unwinds stack esp0 frames) (hck : ∀ f ∈ frames, ¬ f.InCK) :
    esp0 = stack + KSTACKSIZE := by
  induction frames with
  | nil => exact h
  | cons f frames ih =>
      unfold Unwinds at h
      rw [if_neg (hck f (.head _))] at h
      exact ih h fun g hg => hck g (.tail _ hg)

/-- **What is freed** is the thread's own block just when no frame returns to the Cache
Kernel. -/
theorem Sound.freed_iff (h : t.Sound) :
    t.ckPostProcessTaskState = t.stack ↔ ∀ f ∈ t.frames, ¬ f.InCK := by
  constructor
  · intro hfree f hf hck
    have hlt := Unwinds.lt h ⟨f, hf, hck⟩
    have htop : t.esp0 = t.stack + KSTACKSIZE := by
      rw [← hfree, ckPostProcessTaskState, BitVec.sub_add_cancel]
    rw [htop, BitVec.add_comm, BitVec.add_sub_cancel] at hlt
    exact Nat.lt_irrefl _ hlt
  · intro hck
    rw [ckPostProcessTaskState, Unwinds.top h hck, BitVec.add_sub_cancel]

theorem ckPreProcessTaskState_sound (h : ckPreProcessTaskState block = some t) :
    t.Sound ∧ t.stack = block := by
  unfold ckPreProcessTaskState at h
  split at h
  · obtain rfl := Option.some.inj h
    exact ⟨rfl, rfl⟩
  · exact absurd h (by simp)

theorem Sound.signal (h : t.Sound) {cs : BitVec 16} {dsAddr ds : UADDR}
    (hi : t.Interrupted cs dsAddr ds) (kernelsp14 : UADDR) :
    (t.ckSignal cs dsAddr ds kernelsp14).Sound := by
  unfold Interrupted at hi
  unfold ckSignal
  split
  · rename_i hcs
    rw [if_pos hcs] at hi
    unfold Sound Unwinds
    rw [if_pos rfl]
    exact ⟨hi, h⟩
  · rename_i hcs
    rw [if_neg hcs] at hi
    unfold Sound Unwinds
    rwa [if_neg hi]

/-- Only a frame that returns to the Cache Kernel has a top to restore. -/
theorem Sound.endOfSignal (h : t.Sound) (pending : Bool) : (t.ckEndOfSignal pending).Sound := by
  unfold ckEndOfSignal
  split
  · exact h
  · split
    · exact h
    · rename_i f frames hf
      unfold Sound at h
      rw [hf, Unwinds] at h
      split
      · rename_i hck
        rw [if_pos hck] at h
        exact h.2
      · rename_i hck
        rwa [if_neg hck] at h

end KThread

/-! ## Runs -/

/-- The stacks of all cached threads unwind. -/
def StackMem.Sound (m : StackMem) : Prop := ∀ thread, ∀ t ∈ m.threads thread, t.Sound

variable {m m' : StackMem} {op : StackOp}

theorem StackMem.Sound.update (h : m.Sound) {thread : Addr} {t : KThread} (ht : t.Sound) :
    StackMem.Sound { m with threads := update m.threads thread (some t) } := by
  intro u t' ht'
  by_cases hu : u = thread
  · subst hu
    dsimp only at ht'
    rw [Function.update_self] at ht'
    obtain rfl := Option.some.inj ht'
    exact ht
  · dsimp only at ht'
    rw [Function.update_of_ne hu] at ht'
    exact h u t' ht'

theorem stackStep_sound (h : m.Sound) (hl : op.Legal m) (hs : stackStep m op = some m') :
    m'.Sound := by
  cases op with
  | cache thread block =>
      unfold stackStep at hs
      dsimp only at hs
      split at hs
      · rename_i t ht
        obtain rfl := Option.some.inj hs
        exact h.update (KThread.ckPreProcessTaskState_sound ht).1
      · obtain rfl := Option.some.inj hs
        exact h
  | signal thread cs dsAddr ds kernelsp14 =>
      obtain ⟨t, ht, hs⟩ := Option.bind_eq_some_iff.mp hs
      obtain rfl := Option.some.inj hs
      obtain ⟨t', ht', hi⟩ := hl
      obtain rfl : t' = t := Option.some.inj (ht'.symm.trans ht)
      exact h.update ((h thread t' ht).signal hi kernelsp14)
  | endOfSignal thread pending =>
      obtain ⟨t, ht, hs⟩ := Option.bind_eq_some_iff.mp hs
      obtain rfl := Option.some.inj hs
      exact h.update ((h thread t ht).endOfSignal pending)
  | uncache thread =>
      obtain ⟨t, ht, hs⟩ := Option.bind_eq_some_iff.mp hs
      obtain rfl := Option.some.inj hs
      intro u t' ht'
      by_cases hu : u = thread
      · subst hu
        simp at ht'
      · dsimp only at ht'
        rw [Function.update_of_ne hu] at ht'
        exact h u t' ht'

/-- Every block that was freed is the one that had been allocated. -/
def StackMem.FreesOwn (m : StackMem) : Prop := ∀ b ∈ m.freed, b.freed = b.stack

/-- Only uncaching frees a stack, and outside the Cache Kernel it frees the right one. -/
theorem stackStep_freesOwn (h : m.Sound) (hf : m.FreesOwn) (ho : op.OutsideCK m)
    (hs : stackStep m op = some m') : m'.FreesOwn := by
  cases op with
  | cache thread block =>
      unfold stackStep at hs
      dsimp only at hs
      split at hs <;> obtain rfl := Option.some.inj hs <;> exact hf
  | signal thread cs dsAddr ds kernelsp14 =>
      obtain ⟨t, _, hs⟩ := Option.bind_eq_some_iff.mp hs
      obtain rfl := Option.some.inj hs
      exact hf
  | endOfSignal thread pending =>
      obtain ⟨t, _, hs⟩ := Option.bind_eq_some_iff.mp hs
      obtain rfl := Option.some.inj hs
      exact hf
  | uncache thread =>
      obtain ⟨t, ht, hs⟩ := Option.bind_eq_some_iff.mp hs
      obtain rfl := Option.some.inj hs
      intro b hb
      obtain rfl | hb := List.mem_cons.mp hb
      · exact (h thread t ht).freed_iff.mpr (ho t ht)
      · exact hf b hb

def stacksAtBoot : StackMem where
  threads _ := none
  freed := []

/-- **Kernel stacks.** In a run that uncaches no thread while a signal that interrupted it in
the Cache Kernel is handled, every block freed is the one that was allocated for the thread,
and a thread without signal frames has `esp0` at the top of its block. Uncaching a thread next
frees its own block if and only if none of its frames returns to the Cache Kernel. -/
theorem kernel_stack_run {ops : List StackOp}
    (hr : Run stackStep (fun m op => op.Legal m ∧ op.OutsideCK m) stacksAtBoot ops m) :
    m.FreesOwn ∧ ∀ thread, ∀ t ∈ m.threads thread,
      (t.frames = [] → t.esp0 = t.stack + KSTACKSIZE) ∧
        (t.ckPostProcessTaskState = t.stack ↔ (StackOp.uncache thread).OutsideCK m) := by
  have h0 : stacksAtBoot.Sound ∧ stacksAtBoot.FreesOwn :=
    ⟨fun _ _ ht => by simp [stacksAtBoot] at ht, fun _ hb => by simp [stacksAtBoot] at hb⟩
  obtain ⟨hsound, hfrees⟩ := hr.invariant (I := fun m => m.Sound ∧ m.FreesOwn)
    (fun h hC hs => ⟨stackStep_sound h.1 hC.1 hs, stackStep_freesOwn h.1 h.2 hC.2 hs⟩) h0
  refine ⟨hfrees, fun thread t ht => ⟨fun hnil => ?_, ?_⟩⟩
  · exact KThread.Unwinds.top (hsound thread t ht) (by simp [hnil])
  · rw [(hsound thread t ht).freed_iff]
    constructor
    · intro hck t' ht'
      obtain rfl : t' = t := Option.some.inj (ht'.symm.trans ht)
      exact hck
    · exact fun ho => ho t ht

/-- Nested signals, the inner one inside the Cache Kernel again; the thread goes after all of
them have ended. -/
def nestedSignals : List StackOp :=
  [.cache 64 0x10000#32, .signal 64 KCODE 0x11f00#32 EKDATA 0, .signal 64 EKCODE 0 EKDATA 7,
    .signal 64 KCODE 0x11c00#32 EKDATA 0, .endOfSignal 64 true, .endOfSignal 64 false,
    .endOfSignal 64 false, .endOfSignal 64 false, .uncache 64]

theorem kernel_stack_run_nested :
    ∃ m, Run stackStep (fun m op => op.Legal m ∧ op.OutsideCK m) stacksAtBoot nestedSignals m ∧
      m.freed = [⟨64, 0x10000#32, 0x10000#32⟩] ∧ m.FreesOwn := by
  obtain ⟨m, hr, hm⟩ := Run.of_exec_any
    (show (exec stackStep (fun m op => op.Legal m ∧ op.OutsideCK m) stacksAtBoot nestedSignals).any
      (fun m => decide (m.freed = [⟨64, 0x10000#32, 0x10000#32⟩])) = true by decide)
  exact ⟨m, hr, of_decide_eq_true hm, (kernel_stack_run hr).1⟩

/-- A thread that is uncached while it handles a signal that interrupted it in the Cache
Kernel. -/
def uncachedInside : List StackOp :=
  [.cache 64 0x10000#32, .signal 64 KCODE 0x11f00#32 EKDATA 0, .uncache 64]

/-- What is freed then begins below the thread's block. -/
theorem kernel_stack_freed_inside :
    ∃ m, Run stackStep (fun m op => op.Legal m) stacksAtBoot uncachedInside m ∧
      m.freed = [⟨64, 0x10000#32, 0xff00#32⟩] ∧ ¬ m.FreesOwn := by
  obtain ⟨m, hr, hm⟩ := Run.of_exec_any
    (show (exec stackStep (fun m op => op.Legal m) stacksAtBoot uncachedInside).any
      (fun m => decide (m.freed = [⟨64, 0x10000#32, 0xff00#32⟩])) = true by decide)
  have hfreed := of_decide_eq_true hm
  refine ⟨m, hr, hfreed, fun hown => ?_⟩
  exact absurd (hown ⟨64, 0x10000#32, 0xff00#32⟩ (by rw [hfreed]; exact .head _)) (by decide)

end Alliance.CK
