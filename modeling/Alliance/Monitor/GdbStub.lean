import Alliance.Monitor.GdbPacket

/-!
# The commands of the debugger (`gdb_serial_converse`)

A packet that has been received is in `inbuf`. Its first character says what is wanted: the
registers or memory are read or written, or the program goes on. The answer is a packet, of which
some go out as hexadecimal digits.

Memory is what the stub does not use itself. An access to it can fault; then the copy stops, and
what was copied before stays. An access outside `inbuf` or the registers has no meaning, and neither
has an array on the stack that is larger than `inbuf`.
-/

namespace Alliance.Monitor

open Function Lib

/-- `sizeof(struct gdb_state)`. -/
def REGSIZE : Nat := 64

/-- The offset of `eip` in the registers. -/
def EIP : Nat := 32

/-- The offset of `eflags` in the registers. -/
def EFLAGS : Nat := 36

/-- What the commands work on. The registers are kept byte by byte. -/
structure Stub where
  regs : Nat → Byte
  regs_changed : Bool
  signo : Byte
  mem : CInt → Byte
  connected : Bool
  gdb_serial_debug : Bool

/-- The addresses that can be accessed, and where `inbuf` is. -/
structure Machine where
  readable : CInt → Bool
  writable : CInt → Bool
  inbuf : CInt
  inbuf_le : inbuf.toNat + BUFMAX < 2 ^ 32

/-- `gdb_action`. -/
inductive Action
  | more
  | cont
  | run
  | kill
  | detach
  deriving DecidableEq, Repr

/-! ## Numbers and bytes -/

/-- The 32-bit word at an offset. -/
def long (a : Nat → Byte) (o : Nat) : CInt := a (o + 3) ++ a (o + 2) ++ a (o + 1) ++ a o

def setLong (a : Nat → Byte) (o : Nat) (v : CInt) : Nat → Byte :=
  update (update (update (update a o (v.setWidth 8)) (o + 1) ((v >>> 8).setWidth 8)) (o + 2)
    ((v >>> 16).setWidth 8)) (o + 3) ((v >>> 24).setWidth 8)

/-- `hex2int`: the number, and where it ends. -/
def hex2intFrom (str : Nat → Byte) : Nat → Nat → CInt → CInt × Nat
  | 0, p, intValue => (intValue, p)
  | n + 1, p, intValue =>
    if str p = 0#8 then (intValue, p)
    else if (hex (str p)).msb = false then
      hex2intFrom str n (p + 1) ((intValue <<< 4) ||| hex (str p))
    else (intValue, p)

def hex2int (str : Nat → Byte) (p : Nat) : CInt × Nat := hex2intFrom str (BUFMAX + 1) p 0#32

/-- `hex2bin`, from `p` in `str` to `o` in `out`: what is in `out` then, and whether it has not
failed. -/
def hex2bin (str : Nat → Byte) : Nat → (Nat → Byte) → Nat → Nat → (Nat → Byte) × Bool
  | _, out, _, 0 => (out, true)
  | p, out, o, len + 1 =>
    let ch := (hex (str p) <<< 4) ||| hex (str (p + 1))
    if ch.msb then (out, false)
    else hex2bin str (p + 2) (update out o (ch.setWidth 8)) (o + 1) len

/-! ## Copies that can fault -/

/-- What is copied at a time: words first, then the bytes that are left. -/
def units (size : Nat) : List (Nat × Nat) :=
  (List.range (size / 4)).map (fun k => (4 * k, 4)) ++
    (List.range (size % 4)).map fun k => (size / 4 * 4 + k, 1)

/-- The copy of some units, until one of them faults. -/
def copyUnits {σ : Type} (ok : Nat → Bool) (copy : σ → Nat → σ) :
    List (Nat × Nat) → σ → σ × Bool
  | [], s => (s, true)
  | (o, n) :: us, s =>
    if (List.range n).all fun i => ok (o + i) then
      copyUnits ok copy us ((List.range n).foldl (fun s i => copy s (o + i)) s)
    else (s, false)

/-- `gdb_copyin`, and whether it has not failed. -/
def gdbCopyin (m : Machine) (mem : CInt → Byte) (src : CInt) (dest : Nat → Byte) (size : Nat) :
    (Nat → Byte) × Bool :=
  copyUnits (fun i => m.readable (src + .ofNat 32 i))
    (fun dest i => update dest i (mem (src + .ofNat 32 i))) (units size) dest

/-- `gdb_copyout`, and whether it has not failed. -/
def gdbCopyout (m : Machine) (src : Nat → Byte) (mem : CInt → Byte) (dest : CInt) (size : Nat) :
    (CInt → Byte) × Bool :=
  copyUnits (fun i => m.writable (dest + .ofNat 32 i))
    (fun mem i => update mem (dest + .ofNat 32 i) (src i)) (units size) mem

/-! ## Answers -/

/-- The bytes of an array of `BUFMAX+1`, and none behind it. -/
def inArray (a : Nat → Byte) (i : Nat) : Byte := if i ≤ BUFMAX then a i else 0#8

theorem stringLength_stop (a : Nat → Byte) (n i : Nat) (h : a (i + n) = 0#8) :
    a (stringLength a n i) = 0#8 ∧ ∀ k, i ≤ k → k < stringLength a n i → a k ≠ 0#8 := by
  induction n generalizing i with
  | zero => exact ⟨h, fun k h₁ h₂ => absurd h₂ (Nat.not_lt.mpr h₁)⟩
  | succ n ih =>
      rw [stringLength]
      split
      · next h0 => exact ⟨h0, fun k h₁ h₂ => absurd h₂ (Nat.not_lt.mpr h₁)⟩
      · next hne =>
        obtain ⟨hstop, hbefore⟩ := ih (i + 1) (by rwa [Nat.add_assoc, Nat.add_comm 1])
        refine ⟨hstop, fun k h₁ h₂ => ?_⟩
        rcases Nat.eq_or_lt_of_le h₁ with rfl | hlt
        · exact hne
        · exact hbefore k hlt h₂

/-- `{a, len, hexify}`, for an array of at most `BUFMAX+1` characters. -/
def OutFrag.array (a : Nat → Byte) (len : Nat) (hexify : Bool) : OutFrag where
  data := inArray a
  len := len
  hexify := hexify
  size := if len = 0 then stringLength (inArray a) (BUFMAX + 1) 0 else len
  size_eq := by
    split
    · obtain ⟨hstop, hbefore⟩ := stringLength_stop (inArray a) (BUFMAX + 1) 0 rfl
      exact ⟨hstop, fun i hi => hbefore i (Nat.zero_le i) hi⟩
    · rfl

/-- `{s}`, for a string constant. -/
def OutFrag.constant (s : String) : OutFrag := .array (fun i => (chars s).getD i 0#8) 0 false

/-- `{&c,1,1}`. -/
def OutFrag.byte (c : Byte) : OutFrag := .array (fun _ => c) 1 true

/-- What a command leaves, what it answers, and what the caller is to do. -/
structure Outcome where
  stub : Stub
  inbuf : Nat → Byte
  reply : Option (List OutFrag)
  action : Action

namespace Stub

variable (s : Stub)

/-- `goto ok`. -/
def ok (inbuf : Nat → Byte) : Outcome := ⟨s, inbuf, some [.constant "OK"], .more⟩

/-- `PUTERR(code)`. -/
def puterr (inbuf : Nat → Byte) (code : Byte) : Outcome :=
  ⟨s, inbuf, some [.constant "E", .byte code], .more⟩

/-- `gdb_set_trace_flag`. -/
def setTraceFlag (trace_enable : Bool) : Stub :=
  { s with
    regs := setLong s.regs EFLAGS
      (if trace_enable then long s.regs EFLAGS ||| 0x100#32
      else long s.regs EFLAGS &&& ~~~0x100#32) }

/-- `eip` is changed if there is an address at `start` and it is another one. -/
def setEip (inbuf : Nat → Byte) (start : Nat) : Stub :=
  let (new_eip, ptr) := hex2int inbuf start
  if start < ptr ∧ new_eip ≠ long s.regs EIP then
    { s with regs := setLong s.regs EIP new_eip, regs_changed := true }
  else s

/-! ## The commands -/

def readRegs (inbuf : Nat → Byte) : Outcome :=
  ⟨s, inbuf, some [.array s.regs REGSIZE true], .more⟩

def writeRegs (inbuf : Nat → Byte) : Outcome :=
  let (regs, ok) := hex2bin inbuf 1 s.regs 0 REGSIZE
  if ok then { s with regs, regs_changed := true }.ok inbuf
  else { s with regs }.puterr inbuf 4#8

/-- A number so large that its product with 4 is small again goes beyond the registers. -/
def writeReg (inbuf : Nat → Byte) : Option Outcome :=
  let (reg, eqp) := hex2int inbuf 1
  if eqp = 1 ∨ inbuf eqp ≠ ord '=' then some (s.puterr inbuf 4#8)
  else if 64#32 < (reg + 1#32) * 4#32 then some (s.puterr inbuf 4#8)
  else if REGSIZE / 4 ≤ reg.toNat then none
  else
    let (regs, ok) := hex2bin inbuf (eqp + 1) s.regs (4 * reg.toNat) 4
    some (if ok then { s with regs, regs_changed := true }.ok inbuf
      else { s with regs }.puterr inbuf 4#8)

def readMem (m : Machine) (inbuf : Nat → Byte) : Option Outcome :=
  let (addr, ptr) := hex2int inbuf 1
  if ptr = 1 ∨ inbuf ptr ≠ ord ',' then some (s.puterr inbuf 2#8)
  else
    let (len, ptr2) := hex2int inbuf (ptr + 1)
    if ptr2 = ptr + 1 ∨ .ofNat 32 BUFMAX < len * 2#32 then some (s.puterr inbuf 2#8)
    else if BUFMAX < len.toNat then none
    else
      let (inbuf, ok) := gdbCopyin m s.mem addr inbuf len.toNat
      some (if ok then ⟨s, inbuf, some [.array inbuf len.toNat true], .more⟩
        else s.puterr inbuf 3#8)

def writeMem (m : Machine) (inbuf : Nat → Byte) : Option Outcome :=
  let (addr, ptr) := hex2int inbuf 1
  if ptr = 1 ∨ inbuf ptr ≠ ord ',' then some (s.puterr inbuf 2#8)
  else
    let (len, ptr2) := hex2int inbuf (ptr + 1)
    if ptr2 = ptr + 1 ∨ inbuf ptr2 ≠ ord ':' then some (s.puterr inbuf 2#8)
    else if m.inbuf + .ofNat 32 BUFMAX < m.inbuf + .ofNat 32 (ptr2 + 1) + len * 2#32 then
      some (s.puterr inbuf 2#8)
    else if BUFMAX < len.toNat then none
    else
      let (outbuf, ok) := hex2bin inbuf (ptr2 + 1) (fun _ => 0#8) 0 len.toNat
      if !ok then some (s.puterr inbuf 2#8)
      else
        let (mem, ok) := gdbCopyout m outbuf s.mem addr len.toNat
        some (if ok then { s with mem }.ok inbuf else { s with mem }.puterr inbuf 3#8)

/-- `c` and `s`. -/
def goOn (step : Bool) (inbuf : Nat → Byte) : Outcome :=
  ⟨{ (s.setEip inbuf 1).setTraceFlag step with signo := 0#8 }, inbuf, none, .cont⟩

/-- `C` and `S`. -/
def goOnWith (step : Bool) (inbuf : Nat → Byte) : Outcome :=
  let nsig := (hex (inbuf 1) <<< 4) ||| hex (inbuf 2)
  if nsig.msb ∨ nsig = 0#32 ∨ 32#32 ≤ nsig then s.puterr inbuf 5#8
  else
    ⟨{ (s.setEip inbuf 3).setTraceFlag step with signo := nsig.setWidth 8 }, inbuf, none, .cont⟩

/-- `report`. -/
def report (inbuf : Nat → Byte) : Outcome :=
  ⟨s, inbuf, some [.constant "S", .byte s.signo], .more⟩

end Stub

/-- The cases of the `switch`. -/
inductive Cmd
  | readRegs
  | writeRegs
  | writeReg
  | readMem
  | writeMem
  | goOn (step : Bool)
  | goOnWith (step : Bool)
  | report
  | detach
  | restart
  | kill
  | toggle
  | extended
  | unknown
  deriving DecidableEq, Repr

/-- `H` and `T` go to `unknown` too. -/
def cmdOf (c : Byte) : Cmd :=
  if c = ord 'g' then .readRegs
  else if c = ord 'G' then .writeRegs
  else if c = ord 'P' then .writeReg
  else if c = ord 'm' then .readMem
  else if c = ord 'M' then .writeMem
  else if c = ord 'c' then .goOn false
  else if c = ord 's' then .goOn true
  else if c = ord 'C' then .goOnWith false
  else if c = ord 'S' then .goOnWith true
  else if c = ord '?' then .report
  else if c = ord 'D' then .detach
  else if c = ord 'R' then .restart
  else if c = ord 'k' then .kill
  else if c = ord 'd' then .toggle
  else if c = ord '!' then .extended
  else .unknown

/-- What is done about a packet that `getpacket` has left in `inbuf`. -/
def command (m : Machine) (s : Stub) (inbuf : Nat → Byte) : Option Outcome :=
  let s := { s with connected := true }
  match cmdOf (inbuf 0) with
  | .readRegs => some (s.readRegs inbuf)
  | .writeRegs => some (s.writeRegs inbuf)
  | .writeReg => s.writeReg inbuf
  | .readMem => s.readMem m inbuf
  | .writeMem => s.writeMem m inbuf
  | .goOn step => some (s.goOn step inbuf)
  | .goOnWith step => some (s.goOnWith step inbuf)
  | .report => some (s.report inbuf)
  | .detach =>
    some { ({ s with connected := false }.ok inbuf) with action := .detach }
  | .restart => some ⟨{ s with connected := false }, inbuf, none, .run⟩
  | .kill => some ⟨{ s with connected := false }, inbuf, none, .kill⟩
  | .toggle => some ({ s with gdb_serial_debug := !s.gdb_serial_debug }.ok inbuf)
  | .extended => some (s.ok inbuf)
  | .unknown => some ⟨s, inbuf, some [.constant ""], .more⟩

/-! ## The conversation -/

/-- What a conversation has left: the stub, all that it sent, what is left of the input, and what
its caller is to do. -/
structure Conversation where
  stub : Stub
  sent : List Byte
  rest : List Byte
  action : Action

/-- `putpacket`, if there is an answer. -/
def putReply (reply : Option (List OutFrag)) (cs : List Byte) : Option (List Byte × List Byte) :=
  match reply with
  | none => some ([], cs)
  | some frags => putfrags frags cs

/-- The loop of `gdb_serial_converse`. Each round takes a packet from the input. -/
def converseRounds (m : Machine) : Nat → Stub → (Nat → Byte) → List Byte → Option Conversation
  | 0, _, _, _ => none
  | n + 1, s, inbuf, cs => do
    let r ← getpacket inbuf cs
    let o ← command m s r.buffer
    let (sent, cs) ← putReply o.reply r.rest
    if o.action = .more then
      (converseRounds m n o.stub o.inbuf cs).map fun c => { c with sent := r.sent ++ sent ++ c.sent }
    else some ⟨o.stub, r.sent ++ sent, cs, o.action⟩

/-- `gdb_serial_converse`. It starts with a report if the debugger is connected. -/
def gdbSerialConverse (m : Machine) (s : Stub) (inbuf : Nat → Byte) (cs : List Byte) :
    Option Conversation := do
  let s := { s with regs_changed := false }
  if s.connected then
    let (sent, cs) ← putReply (s.report inbuf).reply cs
    (converseRounds m (cs.length + 1) s inbuf cs).map fun c => { c with sent := sent ++ c.sent }
  else converseRounds m (cs.length + 1) s inbuf cs

end Alliance.Monitor
