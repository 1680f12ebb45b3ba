import Alliance.SORB.LibIPC

/-!
# The end of a buffer (`ipcBufferDone`)

One process allocates a buffer and sends it, another gets it, and both call `ipcBufferDone` when
they need it no more. The one that comes second destroys the shared memory. Which of the two a
caller is, `ipcBufferDone` learns from the `owner` in the caller's identifier, and a get does not
write it: the receiver has there what was on its stack.

So the buffer is destroyed as it should be, whoever comes first, exactly if the receiver did not
find its own process number on the stack (`ipcBufferDone_iff`).
-/

namespace Alliance.SORB

open Lib

/-- `HEADERSIZE`: two `BOOLEAN`s and the identifier of a semaphore. -/
def HEADERSIZE : Nat := 12

/-- `IPCBufferId`. -/
structure IPCBufferId where
  shmemId : INT32
  addr : Nat
  owner : ProcessId
  deriving DecidableEq, Repr

/-- `MsgHeader`. -/
structure MsgHeader where
  senderDone : Bool
  receiverDone : Bool
  senderSem : INT32
  deriving DecidableEq, Repr

/-- A buffer, for all processes: its header, the value of the semaphore in `semId` until that is
removed, and whether it is queued for the receiver. Other semaphores are not part of the
model. -/
structure SharedBuffer where
  header : MsgHeader
  semId : INT32
  sem : Option Nat
  queued : Bool
  deriving DecidableEq, Repr

/-- The two who use a buffer. -/
inductive Party where
  | sender
  | receiver
  deriving DecidableEq, Repr

def Party.other : Party → Party
  | .sender => .receiver
  | .receiver => .sender

/-- A call of `ipcBufferDone`: who made it, whose part it did, and whether it destroyed the shared
memory. -/
structure DoneCall where
  caller : Party
  branch : Party
  destroys : Bool
  result : Int
  deriving DecidableEq, Repr

namespace SharedBuffer

variable (s : SharedBuffer)

/-- Add 1 to a semaphore. -/
def post (semId : INT32) : SharedBuffer × Int :=
  match s.sem with
  | some n => if semId = s.semId then ({ s with sem := some (n + 1) }, 0) else (s, -1)
  | none => (s, -1)

/-- The receiver's part of `ipcBufferDone`. -/
def receiverDone : SharedBuffer × Bool × Int :=
  let s := { s with header := { s.header with receiverDone := true } }
  let r := if s.header.senderSem ≠ 0#32 then s.post s.header.senderSem else (s, 0)
  (r.1, s.header.senderDone && s.header.receiverDone, r.2)

/-- The sender's part, which removes the semaphore. -/
def senderDone : SharedBuffer × Bool × Int :=
  let s := { s with header := { s.header with senderDone := true } }
  let destroy := s.header.senderDone && s.header.receiverDone
  if s.sem.isSome ∧ s.header.senderSem = s.semId then
    ({ s with sem := none, header := { s.header with senderSem := 0#32 } }, destroy, 0)
  else (s, destroy, -1)

/-- `ipcBufferDone`. Detaching and destroying succeed. -/
def ipcBufferDone (buffer : IPCBufferId) (pid : ProcessId) (caller : Party) :
    SharedBuffer × DoneCall :=
  if buffer.owner ≠ pid then
    let r := s.receiverDone
    (r.1, ⟨caller, .receiver, r.2.1, r.2.2⟩)
  else
    let r := s.senderDone
    (r.1, ⟨caller, .sender, r.2.1, r.2.2⟩)

end SharedBuffer

/-- `ipcBufferAllocate`: the identifier and the buffer, attached at `shm`. The kernel clears new
shared memory. -/
def ipcBufferAllocate (pid : ProcessId) (shmemId semId : INT32) (shm : Nat) :
    IPCBufferId × SharedBuffer :=
  (⟨shmemId, shm + HEADERSIZE, pid⟩, ⟨⟨false, false, semId⟩, semId, some 0, false⟩)

/-- A get of the buffer, attached at `shm`: the `owner` is what the stack has. -/
def ipcBufferGet (stack : IPCBufferId) (shmemId : INT32) (shm : Nat) : IPCBufferId :=
  { stack with shmemId, addr := shm + HEADERSIZE }

/-! ## Two processes -/

/-- Who uses the buffer, and what is on the receiver's stack when it gets it. -/
structure BufferUse where
  sender : ProcessId
  receiver : ProcessId
  ne : sender ≠ receiver
  shmemId : INT32
  semId : INT32
  sync : Bool
  stack : IPCBufferId

/-- How far the sender is. -/
inductive SenderStage where
  | start
  | allocated (buffer : IPCBufferId)
  /-- The message is queued, and the send waits for it to be processed, or looks if it is. -/
  | sending (buffer : IPCBufferId)
  | sent (buffer : IPCBufferId)
  | finished
  deriving DecidableEq, Repr

inductive ReceiverStage where
  | start
  | got (buffer : IPCBufferId)
  | finished
  deriving DecidableEq, Repr

structure BufferLife where
  shared : SharedBuffer
  sender : SenderStage
  receiver : ReceiverStage
  dones : List DoneCall

inductive BufferOp where
  /-- The sender's next call, or the second half of its send. -/
  | sender (shm : Nat)
  | receiver (shm : Nat)
  deriving DecidableEq, Repr

def BufferLife.init : BufferLife where
  shared := ⟨⟨false, false, 0#32⟩, 0#32, none, false⟩
  sender := .start
  receiver := .start
  dones := []

/-- The sender allocates, sends and is done; the receiver gets and is done. A synchronous send
waits at the semaphore as long as it is there. -/
def bufferStep (use : BufferUse) (s : BufferLife) : BufferOp → Option BufferLife
  | .sender shm =>
    match s.sender with
    | .start =>
      let (buffer, shared) := ipcBufferAllocate use.sender use.shmemId use.semId shm
      some { s with shared, sender := .allocated buffer }
    | .allocated buffer =>
      let header := { s.shared.header with senderDone := false, receiverDone := false }
      some { s with shared := { s.shared with header, queued := true }, sender := .sending buffer }
    | .sending buffer =>
      match s.shared.sem with
      | some (n + 1) =>
        some { s with shared := { s.shared with sem := some n }, sender := .sent buffer }
      | some 0 => if use.sync then none else some { s with sender := .sent buffer }
      | none => some { s with sender := .sent buffer }
    | .sent buffer =>
      let (shared, done) := s.shared.ipcBufferDone buffer use.sender .sender
      some { s with shared, sender := .finished, dones := s.dones ++ [done] }
    | .finished => none
  | .receiver shm =>
    match s.receiver with
    | .start =>
      if s.shared.queued then
        some { s with shared := { s.shared with queued := false },
                      receiver := .got (ipcBufferGet use.stack use.shmemId shm) }
      else none
    | .got buffer =>
      let (shared, done) := s.shared.ipcBufferDone buffer use.receiver .receiver
      some { s with shared, receiver := .finished, dones := s.dones ++ [done] }
    | .finished => none

/-- Each party did its own part, and the second of them destroyed the shared memory. -/
def Orderly (dones : List DoneCall) : Prop :=
  ∃ p result result', dones = [⟨p, p, false, result⟩, ⟨p.other, p.other, true, result'⟩]

/-! ## What the two calls do -/

/-- The calls so far, by who has made one. -/
def Tally : Bool → Bool → List DoneCall → Prop
  | false, false, dones => dones = []
  | true, false, dones => ∃ result, dones = [⟨.sender, .sender, false, result⟩]
  | false, true, dones => ∃ result, dones = [⟨.receiver, .receiver, false, result⟩]
  | true, true, dones => Orderly dones

/-- The identifier that the sender holds. -/
def SenderStage.buffer : SenderStage → Option IPCBufferId
  | .start | .finished => none
  | .allocated buffer | .sending buffer | .sent buffer => some buffer

/-- The buffer is not sent yet. -/
def SenderStage.early : SenderStage → Bool
  | .start | .allocated _ => true
  | .sending _ | .sent _ | .finished => false

/-- The flags of the header say who is finished, and so do the calls so far. -/
structure BufferLife.Fair (use : BufferUse) (s : BufferLife) : Prop where
  sender : ∀ buffer, s.sender.buffer = some buffer → buffer.owner = use.sender
  receiver : ∀ buffer, s.receiver = .got buffer → buffer.owner = use.stack.owner
  early : s.sender.early = true →
    s.receiver = .start ∧ s.shared.queued = false ∧ s.dones = []
  senderDone : s.sender.early = false →
    s.shared.header.senderDone = decide (s.sender = .finished)
  receiverDone : s.sender.early = false →
    s.shared.header.receiverDone = decide (s.receiver = .finished)
  tally : Tally (decide (s.sender = .finished)) (decide (s.receiver = .finished)) s.dones

variable {use : BufferUse} {s s' : BufferLife} {shared : SharedBuffer} {buffer : IPCBufferId}
  {pid : ProcessId} {caller : Party} {op : BufferOp} {ops : List BufferOp} {dones : List DoneCall}
  {sender receiver : Bool}

/-- The sender destroys the shared memory exactly if it is the second. -/
theorem tally_sender (h : Tally false receiver dones) (result : Int) :
    Tally true receiver (dones ++ [⟨.sender, .sender, receiver, result⟩]) := by
  cases receiver with
  | false =>
      obtain rfl : dones = [] := h
      exact ⟨result, rfl⟩
  | true =>
      obtain ⟨result', rfl⟩ := h
      exact ⟨.receiver, result', result, rfl⟩

theorem tally_receiver (h : Tally sender false dones) (result : Int) :
    Tally sender true (dones ++ [⟨.receiver, .receiver, sender, result⟩]) := by
  cases sender with
  | false =>
      obtain rfl : dones = [] := h
      exact ⟨result, rfl⟩
  | true =>
      obtain ⟨result', rfl⟩ := h
      exact ⟨.sender, result', result, rfl⟩

/-- The sender's part: its flag, and the shared memory if the receiver is done. -/
theorem SharedBuffer.senderDone_spec (shared : SharedBuffer) (caller : Party)
    (howner : buffer.owner = pid) :
    (shared.ipcBufferDone buffer pid caller).1.header.senderDone = true ∧
    (shared.ipcBufferDone buffer pid caller).1.header.receiverDone = shared.header.receiverDone ∧
    ∃ result, (shared.ipcBufferDone buffer pid caller).2 =
      ⟨caller, .sender, shared.header.receiverDone, result⟩ := by
  rw [ipcBufferDone, if_neg (not_not_intro howner), SharedBuffer.senderDone]
  dsimp only
  split
  · exact ⟨rfl, rfl, _, rfl⟩
  · exact ⟨rfl, rfl, _, rfl⟩

theorem SharedBuffer.header_post (semId : INT32) : (shared.post semId).1.header = shared.header := by
  unfold post
  split
  · split <;> rfl
  · rfl

/-- The receiver's part: its flag, and the shared memory if the sender is done. -/
theorem SharedBuffer.receiverDone_spec (shared : SharedBuffer) (caller : Party)
    (howner : buffer.owner ≠ pid) :
    (shared.ipcBufferDone buffer pid caller).1.header.receiverDone = true ∧
    (shared.ipcBufferDone buffer pid caller).1.header.senderDone = shared.header.senderDone ∧
    ∃ result, (shared.ipcBufferDone buffer pid caller).2 =
      ⟨caller, .receiver, shared.header.senderDone, result⟩ := by
  rw [ipcBufferDone, if_pos howner, SharedBuffer.receiverDone]
  dsimp only
  rw [Bool.and_true]
  split
  · rw [header_post]
    exact ⟨rfl, rfl, _, rfl⟩
  · exact ⟨rfl, rfl, _, rfl⟩

theorem BufferLife.fair_init : BufferLife.init.Fair use where
  sender := nofun
  receiver := nofun
  early _ := ⟨rfl, rfl, rfl⟩
  senderDone := nofun
  receiverDone := nofun
  tally := rfl

/-- A step of the sender. -/
theorem BufferLife.Fair.stepSender {shm : Nat} (h : s.Fair use)
    (hs : bufferStep use s (.sender shm) = some s') : s'.Fair use := by
  obtain ⟨hsender, hreceiver, hearly, hsenderDone, hreceiverDone, htally⟩ := h
  dsimp only [bufferStep] at hs
  cases hstage : s.sender with
  | start =>
      rw [hstage] at hs hearly htally
      obtain rfl := Option.some.inj hs
      obtain ⟨hstart, -, hdones⟩ := hearly rfl
      refine ⟨?_, hreceiver, fun _ => ⟨hstart, rfl, hdones⟩, nofun, nofun, htally⟩
      rintro _ ⟨⟩
      rfl
  | allocated buffer =>
      rw [hstage] at hs hearly htally hsender
      obtain rfl := Option.some.inj hs
      obtain ⟨hstart, -, hdones⟩ := hearly rfl
      refine ⟨hsender, hreceiver, nofun, fun _ => rfl, fun _ => ?_, htally⟩
      exact (decide_eq_false (hstart ▸ nofun)).symm
  | sending buffer =>
      rw [hstage] at hs htally hsender hsenderDone hreceiverDone
      -- whatever becomes of the semaphore
      have hnext : ∀ sem, BufferLife.Fair use
          { s with
            shared := { s.shared with sem }
            sender := .sent buffer } := fun sem =>
        ⟨hsender, hreceiver, nofun, fun _ => hsenderDone rfl, fun _ => hreceiverDone rfl, htally⟩
      dsimp only at hs
      split at hs
      · obtain rfl := Option.some.inj hs
        exact hnext _
      · split at hs
        · exact absurd hs nofun
        · obtain rfl := Option.some.inj hs
          exact hnext s.shared.sem
      · obtain rfl := Option.some.inj hs
        exact hnext s.shared.sem
  | sent buffer =>
      rw [hstage] at hs htally hsender hreceiverDone
      obtain rfl := Option.some.inj hs
      obtain ⟨hflag, hrest, result, hdone⟩ := SharedBuffer.senderDone_spec s.shared .sender
        (hsender buffer rfl)
      refine ⟨nofun, hreceiver, nofun, fun _ => hflag, fun _ => hrest.trans (hreceiverDone rfl), ?_⟩
      rw [hdone, hreceiverDone rfl]
      exact tally_sender htally result
  | finished =>
      rw [hstage] at hs
      exact absurd hs nofun

/-- A step of the receiver, which has not found its own number. -/
theorem BufferLife.Fair.stepReceiver {shm : Nat} (howner : use.stack.owner ≠ use.receiver)
    (h : s.Fair use) (hs : bufferStep use s (.receiver shm) = some s') : s'.Fair use := by
  obtain ⟨hsender, hreceiver, hearly, hsenderDone, hreceiverDone, htally⟩ := h
  dsimp only [bufferStep] at hs
  cases hstage : s.receiver with
  | start =>
      rw [hstage] at hs htally hreceiverDone
      dsimp only at hs
      split at hs
      · next hqueued =>
        obtain rfl := Option.some.inj hs
        have hlate : s.sender.early = true → False := fun he => by
          rw [(hearly he).2.1] at hqueued
          exact absurd hqueued nofun
        refine ⟨hsender, ?_, fun he => (hlate he).elim, hsenderDone, hreceiverDone, htally⟩
        rintro _ ⟨⟩
        rfl
      · exact absurd hs nofun
  | got buffer =>
      rw [hstage] at hs htally
      obtain rfl := Option.some.inj hs
      have hlate : s.sender.early = false := by
        rw [← Bool.not_eq_true]
        intro he
        exact absurd (hstage.symm.trans (hearly he).1) nofun
      obtain ⟨hflag, hrest, result, hdone⟩ := SharedBuffer.receiverDone_spec s.shared .receiver
        ((hreceiver buffer hstage).trans_ne howner)
      refine ⟨hsender, nofun, fun he => absurd (hlate.symm.trans he) nofun,
        fun _ => hrest.trans (hsenderDone hlate), fun _ => hflag, ?_⟩
      rw [hdone, hsenderDone hlate]
      exact tally_receiver htally result
  | finished =>
      rw [hstage] at hs
      exact absurd hs nofun

theorem bufferStep_fair (howner : use.stack.owner ≠ use.receiver) (h : s.Fair use)
    (hs : bufferStep use s op = some s') : s'.Fair use := by
  cases op with
  | sender shm => exact h.stepSender hs
  | receiver shm => exact h.stepReceiver howner hs

/-- Where the receiver has its own number, it does the sender's part. -/
structure BufferLife.Mistaken (use : BufferUse) (s : BufferLife) : Prop where
  owner : ∀ buffer, s.receiver = .got buffer → buffer.owner = use.receiver
  done : s.receiver = .finished → ∃ d ∈ s.dones, d.caller = .receiver ∧ d.branch = .sender

theorem BufferLife.mistaken_init : BufferLife.init.Mistaken use where
  owner := nofun
  done := nofun

theorem bufferStep_mistaken (howner : use.stack.owner = use.receiver) (h : s.Mistaken use)
    (hs : bufferStep use s op = some s') : s'.Mistaken use := by
  cases op with
  | sender shm =>
      obtain ⟨hreceiver, hdones⟩ : s'.receiver = s.receiver ∧ ∃ l, s'.dones = s.dones ++ l := by
        dsimp only [bufferStep] at hs
        split at hs
        · obtain rfl := Option.some.inj hs
          exact ⟨rfl, [], (List.append_nil _).symm⟩
        · obtain rfl := Option.some.inj hs
          exact ⟨rfl, [], (List.append_nil _).symm⟩
        · split at hs
          · obtain rfl := Option.some.inj hs
            exact ⟨rfl, [], (List.append_nil _).symm⟩
          · split at hs
            · exact absurd hs nofun
            · obtain rfl := Option.some.inj hs
              exact ⟨rfl, [], (List.append_nil _).symm⟩
          · obtain rfl := Option.some.inj hs
            exact ⟨rfl, [], (List.append_nil _).symm⟩
        · obtain rfl := Option.some.inj hs
          exact ⟨rfl, _, rfl⟩
        · exact absurd hs nofun
      obtain ⟨l, hl⟩ := hdones
      refine ⟨fun buffer hb => h.owner buffer (hreceiver.symm.trans hb), fun hfin => ?_⟩
      obtain ⟨d, hd, hrest⟩ := h.done (hreceiver.symm.trans hfin)
      exact ⟨d, hl ▸ List.mem_append_left l hd, hrest⟩
  | receiver shm =>
      dsimp only [bufferStep] at hs
      split at hs
      · split at hs
        · obtain rfl := Option.some.inj hs
          refine ⟨?_, nofun⟩
          rintro _ ⟨⟩
          exact howner
        · exact absurd hs nofun
      · next buffer hstage =>
        obtain rfl := Option.some.inj hs
        obtain ⟨-, -, result, hdone⟩ := SharedBuffer.senderDone_spec s.shared .receiver
          (h.owner buffer hstage)
        refine ⟨nofun, fun _ => ⟨_, List.mem_append_right _ (.head _), ?_⟩⟩
        rw [hdone]
        exact ⟨rfl, rfl⟩
      · exact absurd hs nofun

/-- **Destroyed once, and by the second**, exactly if the receiver does not find its own process
number on the stack. -/
theorem ipcBufferDone_iff (hr : Run (bufferStep use) (fun _ _ => True) .init ops s)
    (hsender : s.sender = .finished) (hreceiver : s.receiver = .finished) :
    Orderly s.dones ↔ use.stack.owner ≠ use.receiver := by
  constructor
  · rintro ⟨p, result, result', hdones⟩ howner
    have h : s.Mistaken use :=
      hr.invariant (fun h _ hs => bufferStep_mistaken howner h hs) BufferLife.mistaken_init
    obtain ⟨d, hd, hcaller, hbranch⟩ := h.done hreceiver
    have hown : ∀ d ∈ s.dones, d.branch = d.caller := by
      rw [hdones]
      simp
    exact absurd (hbranch.symm.trans ((hown d hd).trans hcaller)) nofun
  · intro howner
    have h : s.Fair use :=
      hr.invariant (fun h _ hs => bufferStep_fair howner h hs) BufferLife.fair_init
    have htally := h.tally
    rw [hsender, hreceiver] at htally
    exact htally

/-- Process 1 sends buffer 5 to process 2, which has `owner` on its stack. -/
def useOf (sync : Bool) (owner : ProcessId) : BufferUse :=
  ⟨1, 2, by decide, 5#32, 7#32, sync, ⟨0#32, 0, owner⟩⟩

def BufferLife.destroyed (s : BufferLife) : Nat := s.dones.countP DoneCall.destroys

/-- The sender is done while the receiver has the buffer. -/
theorem ipcBufferDone_senderFirst : ∃ s, Run (bufferStep (useOf false 1)) (fun _ _ => True) .init
    [.sender 0, .sender 0, .receiver 4096, .sender 0, .sender 0, .receiver 0] s ∧
    Orderly s.dones ∧ s.destroyed = 1 := by
  obtain ⟨s, hr, hs⟩ := Run.of_exec_any
    (show (exec (bufferStep (useOf false 1)) (fun _ _ => True) .init
      [.sender 0, .sender 0, .receiver 4096, .sender 0, .sender 0, .receiver 0]).any
        (fun s => decide (s.sender = .finished ∧ s.receiver = .finished ∧ s.destroyed = 1)) = true
      by decide)
  obtain ⟨hsender, hreceiver, hdestroyed⟩ := of_decide_eq_true hs
  exact ⟨s, hr, (ipcBufferDone_iff hr hsender hreceiver).mpr (by decide), hdestroyed⟩

/-- The receiver finds its own number, does the sender's part, and nobody destroys the shared
memory. -/
theorem ipcBufferDone_leak : ∃ s, Run (bufferStep (useOf true 2)) (fun _ _ => True) .init
    [.sender 0, .sender 0, .receiver 4096, .receiver 0, .sender 0, .sender 0] s ∧
    s.sender = .finished ∧ s.receiver = .finished ∧ s.destroyed = 0 ∧ ¬ Orderly s.dones := by
  obtain ⟨s, hr, hs⟩ := Run.of_exec_any
    (show (exec (bufferStep (useOf true 2)) (fun _ _ => True) .init
      [.sender 0, .sender 0, .receiver 4096, .receiver 0, .sender 0, .sender 0]).any
        (fun s => decide (s.sender = .finished ∧ s.receiver = .finished ∧ s.destroyed = 0)) = true
      by decide)
  obtain ⟨hsender, hreceiver, hdestroyed⟩ := of_decide_eq_true hs
  refine ⟨s, hr, hsender, hreceiver, hdestroyed, ?_⟩
  rintro ⟨p, result, result', hdones⟩
  rw [BufferLife.destroyed, hdones] at hdestroyed
  exact absurd hdestroyed (by simp)

end Alliance.SORB
