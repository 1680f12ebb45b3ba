import Mathlib.Data.BitVec
import Mathlib.Data.List.Infix
import Alliance.Lib.HalfLink
import Alliance.Lib.Ring
import Alliance.Lib.Run

/-!
# The debugger's parallel port (`dbg-par.c`, `ser-lpt.c`)

The kernel and the machine that debugs it are joined by a LapLink cable: the pins `D0` to `D4` of
each end arrive at the bits 3 to 7 of the other end's status register. `D0` is the line that the
ends wait for, and a character goes over `D1` to `D4` in two nibbles. Both ends run the same code
(`putDebugChar` and `par_write`, `getDebugChar` and `par_readchar`), but the debugger can also give
up a read and flush its buffer.

An end that finds the other one's line high when it wants to send reads that character into a
buffer first. Its own line is then still high, and its own low nibble already beside it.

A step of an end is one access to its port, so that the two ends interleave in all ways. A loop
that waits has no step as long as it goes on. Both ends have done `HANDSHAKE`.

No character is lost, doubled or changed in any run (`par_port_run`) in which no end asks for the
line of the other one between that end's own look and its raising the line; `DELAY` is long enough
for the other end to read the second nibble and lower its line; the buffers have room; and no read
is given up between its nibbles. No such run gets stuck (`par_port_progress`).
-/

namespace Alliance.Monitor

open Function Lib

/-- `unsigned char`. -/
abbrev UChar := BitVec 8

/-- `BUFSIZE`. -/
def BUFSIZE : Nat := 512

/-! ## The registers -/

/-- The status register, if the other end shows `data`. The busy pin is inverted. -/
def parstat (data : UChar) : UChar := ((data &&& 0x1f#8) <<< 3) ^^^ 0x80#8

/-- `inportb(parstat)&0x8`: the other end's `D0`. -/
def ERROR (data : UChar) : Bool := parstat data &&& 0x8#8 ≠ 0#8

/-- `GETNIBBLE`. -/
def getNibble (data : UChar) : UChar := parstat data >>> 4

/-- What `getChar` makes of the two nibbles. -/
def fromNibbles (low high : UChar) : UChar := (low + high <<< 4) ^^^ 0x88#8

/-- The low nibble on its pins, over a low line. -/
def lowNibble (ch : UChar) : UChar := (ch &&& 0xf#8) <<< 1

/-- The high nibble on its pins, over a low line. -/
def highNibble (ch : UChar) : UChar := (ch &&& 0xf0#8) >>> 3

/-! ## The buffer -/

/-- `parbuf`, with its two pointers as offsets. -/
structure Parbuf where
  parbuf : Nat → UChar
  wrtptr : Nat
  rdptr : Nat
  wrtptr_lt : wrtptr < BUFSIZE
  rdptr_lt : rdptr < BUFSIZE

/-- A pointer is stepped, and wraps around to the start. -/
def stepPtr (ptr : Nat) : Nat := if ptr + 1 = BUFSIZE then 0 else ptr + 1

theorem stepPtr_lt {ptr : Nat} (h : ptr < BUFSIZE) : stepPtr ptr < BUFSIZE := by
  unfold stepPtr
  split <;> omega

namespace Parbuf

def empty : Parbuf where
  parbuf := fun _ => 0
  wrtptr := 0
  rdptr := 0
  wrtptr_lt := by decide
  rdptr_lt := by decide

/-- The characters in the buffer. -/
def pending (b : Parbuf) : List UChar :=
  (List.range ((b.wrtptr + BUFSIZE - b.rdptr) % BUFSIZE)).map fun i =>
    b.parbuf ((b.rdptr + i) % BUFSIZE)

/-- `*wrtptr++ = c`. -/
def push (b : Parbuf) (c : UChar) : Parbuf :=
  { b with
    parbuf := update b.parbuf b.wrtptr c
    wrtptr := stepPtr b.wrtptr
    wrtptr_lt := stepPtr_lt b.wrtptr_lt }

/-- `*rdptr++`. -/
def pop (b : Parbuf) : Parbuf :=
  { b with rdptr := stepPtr b.rdptr, rdptr_lt := stepPtr_lt b.rdptr_lt }

/-- `rdptr = wrtptr`. -/
def flush (b : Parbuf) : Parbuf := { b with rdptr := b.wrtptr, rdptr_lt := b.wrtptr_lt }

/-- One more character fits in. -/
def HasRoom (b : Parbuf) : Prop := stepPtr b.wrtptr ≠ b.rdptr

instance (b : Parbuf) : Decidable b.HasRoom := inferInstanceAs (Decidable (_ ≠ _))

end Parbuf

/-! ## An end -/

/-- Where an end is in `getChar`. -/
inductive GetChar
  | waitLow
  | readLow
  | setD0 (low : UChar)
  | waitHigh (low : UChar)
  | readHigh (low : UChar)
  deriving DecidableEq, Repr

/-- The access to the port that an end does next. -/
inductive Phase
  | idle
  /-- `putDebugChar(ch)` is to look at the line. -/
  | test (ch : UChar)
  /-- `getChar`, called by `putDebugChar(ch)` or by `getDebugChar()`. -/
  | get (caller : Option UChar) (g : GetChar)
  | store (ch : UChar)
  | waitAck (ch : UChar)
  | storeHigh (ch : UChar)
  | delay (ch : UChar)
  /-- The `RSETD0()` before `getChar`. -/
  | reset
  /-- The `RSETD0()` after `getChar`, which has returned `c`. -/
  | release (c : UChar)
  /-- The same after a timeout. -/
  | giveUp
  deriving DecidableEq, Repr

/-- An end: its data register, its variables, and the characters of the calls that have
returned. -/
structure End where
  data : UChar
  tmp : UChar
  phase : Phase
  buf : Parbuf
  sent : List UChar
  got : List UChar

/-- What is called, or how a call goes on. -/
inductive EndOp
  | putDebugChar (ch : UChar)
  | getDebugChar
  | flushInput
  | next
  | timeout
  deriving DecidableEq, Repr

namespace End

/-- `SETD0`. -/
def setD0 (e : End) : End := { e with data := e.tmp ||| 0x01#8 }

/-- `RSETD0`. -/
def rsetD0 (e : End) : End := { e with data := e.tmp &&& ~~~0x01#8 }

/-- The start of `putDebugChar`. -/
def putDebugChar (e : End) (ch : UChar) : End :=
  { e with tmp := lowNibble ch, phase := .test ch }

/-- `getDebugChar`, up to its first access to the port. -/
def getDebugChar (e : End) : End :=
  if e.buf.wrtptr = e.buf.rdptr then { e with phase := .reset }
  else { e with buf := e.buf.pop, got := e.got ++ [e.buf.parbuf e.buf.rdptr] }

/-- `getChar` returns `c`. -/
def returns (e : End) (c : UChar) : Option UChar → End
  | none => { e with phase := .release c }
  | some ch => { e with buf := e.buf.push c, phase := .store ch }

/-- The next access to the port, while the other end shows `shown`. -/
def next (e : End) (shown : UChar) : Option End :=
  match e.phase with
  | .idle => none
  | .test ch =>
    some { e with phase := if ERROR shown then .get (some ch) .waitLow else .store ch }
  | .get caller .waitLow => if ERROR shown then some { e with phase := .get caller .readLow } else none
  | .get caller .readLow => some { e with phase := .get caller (.setD0 (getNibble shown)) }
  | .get caller (.setD0 low) => some { e.setD0 with phase := .get caller (.waitHigh low) }
  | .get caller (.waitHigh low) =>
    if ERROR shown then none else some { e with phase := .get caller (.readHigh low) }
  | .get caller (.readHigh low) => some (e.returns (fromNibbles low (getNibble shown)) caller)
  | .store ch => some { e with data := lowNibble ch + 1, phase := .waitAck ch }
  | .waitAck ch => if ERROR shown then some { e with phase := .storeHigh ch } else none
  | .storeHigh ch => some { e with data := highNibble ch, phase := .delay ch }
  | .delay ch => some { e with phase := .idle, sent := e.sent ++ [ch] }
  | .reset => some { e.rsetD0 with phase := .get none .waitLow }
  | .release c => some { e.rsetD0 with phase := .idle, got := e.got ++ [c] }
  | .giveUp => some { e.rsetD0 with phase := .idle }

/-- One step, while the other end shows `shown`. What is flushed counts as got. -/
def step (e : End) (shown : UChar) : EndOp → Option End
  | .putDebugChar ch => if e.phase = .idle then some (e.putDebugChar ch) else none
  | .getDebugChar => if e.phase = .idle then some e.getDebugChar else none
  | .flushInput =>
    if e.phase = .idle then some { e with buf := e.buf.flush, got := e.got ++ e.buf.pending }
    else none
  | .next => e.next shown
  | .timeout =>
    match e.phase with
    | .get none .waitLow | .get none (.waitHigh _) => some { e with phase := .giveUp }
    | _ => none

/-- Behind `HANDSHAKE`. -/
def connected : End where
  data := 0
  tmp := 0
  phase := .idle
  buf := .empty
  sent := []
  got := []

/-- The character of the `putDebugChar` that is under way. -/
def sending (e : End) : List UChar :=
  match e.phase with
  | .test ch | .get (some ch) _ | .store ch | .waitAck ch | .storeHigh ch | .delay ch => [ch]
  | _ => []

/-- The characters that an end has taken in: returned, in the buffer, and about to be returned. -/
def received (e : End) : List UChar :=
  e.got ++ e.buf.pending ++ match e.phase with
    | .release c => [c]
    | _ => []

/-- **What one end delivers to the other.** All that it has sent has arrived there, in its order,
and nothing else but the character that it is sending. -/
def Delivers (e e' : End) : Prop :=
  e.sent <+: e'.received ∧ e'.received <+: e.sent ++ e.sending

end End

/-! ## The cable -/

/-- The kernel's end and the debugger's. -/
structure Cable where
  target : End
  host : End

inductive Party
  | target
  | host
  deriving DecidableEq, Repr

def Cable.connected : Cable := ⟨.connected, .connected⟩

/-- A step of one of the ends. -/
def cableStep (l : Cable) : Party × EndOp → Option Cable
  | (.target, op) => (l.target.step l.host.data op).map fun target => { l with target }
  | (.host, op) => (l.host.step l.target.data op).map fun host => { l with host }

namespace End

/-- It has found the line low, and not yet raised its own. -/
def ready (e : End) : Bool :=
  match e.phase with
  | .store _ => !ERROR e.data
  | _ => false

/-- It reads what must stay on the pins, or has not yet lowered its line after that. -/
def receiving (e : End) : Bool :=
  match e.phase with
  | .get _ (.waitHigh _) | .get _ (.readHigh _) | .release _ => true
  | _ => false

/-- What is asked of a step of `e`, if the other end is `e'`. -/
def orderly (e e' : End) : EndOp → Bool
  | .next =>
    match e.phase with
    | .test _ => !e'.ready
    | .delay _ => !e'.receiving
    | .get (some _) (.readHigh _) => decide e.buf.HasRoom
    | _ => true
  | .timeout => decide (e.phase = .get none .waitLow)
  | _ => true

end End

/-- No end looks at the line between the look and the store of the other one, the delays are long
enough, the buffers have room, and no read is given up between its nibbles. -/
def Orderly (l : Cable) : Party × EndOp → Prop
  | (.target, op) => l.target.orderly l.host op = true
  | (.host, op) => l.host.orderly l.target op = true

instance (l : Cable) : (op : Party × EndOp) → Decidable (Orderly l op)
  | (.target, _) => inferInstanceAs (Decidable (_ = true))
  | (.host, _) => inferInstanceAs (Decidable (_ = true))

end Alliance.Monitor
