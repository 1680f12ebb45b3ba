import Alliance.CK.Objects

/-!
# Signals (`signal.c`, `kernel.c`, `exceptions.S`)

A thread's pending signals are a queue, most urgent first (priority 0 is the
highest). A signal whose handler is to be started is marked `SFBUSY`, by the
scheduler when it resumes the thread or by `CKendOfSignal`; both stubs then turn the
interrupts back on and call `CKsignal`, which reads the head of the queue and builds
the handler's frame. When the handler returns it executes the end-of-signal code
`1: int $0x6a; jmp 1b` in that frame.

`frames` is what lies on the thread's kernel stack, innermost first. A frame records
the queue entry it was built for and how far its handler is. What the handler is
given (`kernelsp[0..2]`) is part of the stage it is in.
-/

namespace Alliance.CK

/-- The entry without `SFBUSY`, as `CKsendSignal` fills it in. -/
def newSignal (addr sender : Addr) (signal extra priority : UDATA) : SIGNAL :=
  { addr, signal := signal &&& ~~~SFBUSY, extra, priority, sender }

/-- `signals->signal |= SFBUSY`. -/
def SIGNAL.mark (s : SIGNAL) : SIGNAL := { s with signal := s.signal ||| SFBUSY }

/-! ## The queue -/

/-- The walk of `CKsendSignal`: past all entries that are at least as urgent. -/
def insertBehind (newsig : SIGNAL) : List SIGNAL → List SIGNAL
  | [] => [newsig]
  | next :: rest =>
    if next.priority ≤ newsig.priority then
      next :: insertBehind newsig rest
    else
      newsig :: next :: rest

/-- `CKsendSignal`: only a strictly more urgent signal goes before the head. -/
def ckSendSignal (newsig : SIGNAL) : List SIGNAL → List SIGNAL
  | [] => [newsig]
  | head :: rest =>
    if newsig.priority < head.priority then
      newsig :: head :: rest
    else
      head :: insertBehind newsig rest

/-- The signal check of `CKschedule`, which returns whether a handler is to be started. -/
def signalCheck (interruptable : UDATA) : List SIGNAL → List SIGNAL × Bool
  | [] => ([], false)
  | head :: rest =>
    if head.busy ∨ interruptable ≠ 0 then (head :: rest, false) else (head.mark :: rest, true)

/-- `CKendOfSignal` first drops the head if it is being handled. -/
def dropFinished : List SIGNAL → List SIGNAL
  | [] => []
  | head :: rest => if head.busy then rest else head :: rest

/-- `CKendOfSignal`: then it marks the next signal, unless that one is being handled. It
returns whether a new frame is needed. -/
def ckEndOfSignal (signals : List SIGNAL) : List SIGNAL × Bool :=
  signalCheck 0 (dropFinished signals)

/-! ## The frames -/

/-- How far a frame's handler is. -/
inductive Stage where
  /-- Marked, and `CKsignal` not yet done reading the queue. -/
  | starting
  /-- Started with these arguments. -/
  | handling (signal extra : UDATA) (sender : Addr)
  /-- Its end of signal has removed its entry. -/
  | finished
  deriving DecidableEq

structure Frame where
  sig : Addr
  stage : Stage
  deriving DecidableEq

/-- A thread's pending signals and its signal frames. -/
structure SigThread where
  signals : List SIGNAL
  frames : List Frame

/-- The start of a frame for the head of the queue. -/
def pushFrame (r : List SIGNAL × Bool) (frames : List Frame) : SigThread where
  signals := r.1
  frames :=
    match r with
    | (head :: _, true) => ⟨head.addr, .starting⟩ :: frames
    | _ => frames

/-- `CKsignal`: give the handler of the innermost frame the head of the queue. -/
def ckSignal (s : SigThread) : Option SigThread :=
  match s.frames, s.signals with
  | ⟨_, .starting⟩ :: frames, head :: _ =>
    some { s with
      frames := ⟨head.addr, .handling (head.signal &&& ~~~SFBUSY) head.extra head.sender⟩ :: frames }
  | _, _ => none

/-- What the end of signal makes of the frame it is executed in. A frame is done with when
the entry of its handler is removed; before that its end of signal is executed again. -/
def Frame.ended (f : Frame) (signals : List SIGNAL) : Frame :=
  match signals with
  | head :: _ => if head.busy then { f with stage := .finished } else f
  | [] => f

/-- The end-of-signal interrupt in the innermost frame: start the next handler on top of
it, or return to what the frame interrupted. -/
def finishSignal (s : SigThread) : Option SigThread :=
  match s.frames with
  | [] => none
  | ⟨_, .starting⟩ :: _ => none
  | f :: frames =>
    match ckEndOfSignal s.signals with
    | (signals, true) => some (pushFrame (signals, true) (f.ended s.signals :: frames))
    | (signals, false) => some { signals, frames }

/-! ## Steps -/

/-- What happens to a thread: a signal is sent to it, the scheduler resumes it, `CKsignal`
builds a frame, the end-of-signal code of the innermost frame is executed. -/
inductive SigOp where
  | send (addr sender : Addr) (signal extra priority : UDATA)
  | resume (interruptable : UDATA)
  | signal
  | endOfSignal

def sigStep (s : SigThread) : SigOp → Option SigThread
  | .send addr sender signal extra priority =>
    some { s with signals := ckSendSignal (newSignal addr sender signal extra priority) s.signals }
  | .resume interruptable => some (pushFrame (signalCheck interruptable s.signals) s.frames)
  | .signal => ckSignal s
  | .endOfSignal => finishSignal s

/-- An entry is allocated at an address that no pending signal has; `CKsignal` and the end
of signal run where there is a frame for them. -/
def SigOp.Legal (s : SigThread) : SigOp → Prop
  | .send addr _ _ _ _ => addr ∉ s.signals.map SIGNAL.addr
  | .resume _ => True
  | .signal => ∃ sig frames, s.frames = ⟨sig, .starting⟩ :: frames
  | .endOfSignal => ∃ f frames, s.frames = f :: frames ∧ f.stage ≠ .starting

/-! ## The busy bit -/

@[simp] theorem newSignal_busy (addr sender : Addr) (signal extra priority : UDATA) :
    (newSignal addr sender signal extra priority).busy = false := by
  have h : signal &&& ~~~SFBUSY &&& SFBUSY = 0#32 := by
    rw [BitVec.and_assoc, BitVec.and_comm (~~~SFBUSY)]
    simp
  simp [newSignal, SIGNAL.busy, h]

@[simp] theorem mark_busy (s : SIGNAL) : s.mark.busy = true := by
  have h : (s.signal ||| SFBUSY) &&& SFBUSY = SFBUSY := by
    ext i hi
    simp only [BitVec.getElem_and, BitVec.getElem_or]
    cases SFBUSY[i] <;> simp
  simp only [SIGNAL.mark, SIGNAL.busy, h]
  decide

@[simp] theorem mark_addr (s : SIGNAL) : s.mark.addr = s.addr := rfl

end Alliance.CK
