import Alliance.Lib.CString
import Mathlib.Data.BitVec
import Mathlib.Data.List.Infix
import Mathlib.Logic.Function.Basic

/-!
# Packets of the debugger's protocol (`gdb-stub.c`)

A packet is `$`, its text, `#` and two hexadecimal digits of a checksum. `putfrags` sends one, and
again until the other side answers `+`; a character that is repeated is sent once, with `*` and a
count behind it. `getpacket` reads one, and answers `-` to those whose checksum is wrong.

What `putDebugChar` and `getDebugChar` do is the subject of another module. Here they are a list of
the characters that are sent, and a list of those that come in. A call that waits for more of them
has no result.
-/

namespace Alliance.Monitor

open Function Lib

/-- `unsigned char`, and the bits of a `char`. -/
abbrev Byte := BitVec 8

/-- `int`. -/
abbrev CInt := BitVec 32

/-- A character constant. -/
def ord (c : Char) : Byte := .ofNat 8 c.toNat

/-- `BUFMAX`. -/
def BUFMAX : Nat := 400

/-- `ch & 0x7f`. -/
def sevenBits (ch : Byte) : Byte := ch &&& 0x7f#8

/-! ## Hexadecimal digits -/

/-- `hexchars[i]`. -/
def hexchars (i : Byte) : Byte := (chars "0123456789abcdef").getD i.toNat 0#8

/-- `hex`. -/
def hex (ch : Byte) : CInt :=
  if ord '0' ≤ ch ∧ ch ≤ ord '9' then (ch - ord '0').setWidth 32
  else if ord 'a' ≤ ch ∧ ch ≤ ord 'f' then (ch - ord 'a' + 10#8).setWidth 32
  else if ord 'A' ≤ ch ∧ ch ≤ ord 'F' then (ch - ord 'A' + 10#8).setWidth 32
  else -1#32

/-! ## Sending -/

/-- `outfrag`: a fragment of a packet, `len` bytes or a string. -/
structure OutFrag where
  data : Nat → Byte
  len : Nat
  hexify : Bool
  /-- How many bytes it has. -/
  size : Nat
  size_eq : if len = 0 then data size = 0#8 ∧ ∀ i < size, data i ≠ 0#8 else size = len

namespace OutFrag

variable (f : OutFrag)

/-- The condition of the loop over the fragment. -/
def More (p : Nat) : Prop := if f.len ≠ 0 then p < f.len else f.data p ≠ 0#8

instance (p : Nat) : Decidable (f.More p) :=
  inferInstanceAs (Decidable (if f.len ≠ 0 then p < f.len else f.data p ≠ 0#8))

/-- From `p` on, the same character goes out at least four times. -/
def Repeats (p : Nat) : Prop :=
  (f.len = 0 ∨ p + (if f.hexify then 1 else 3) < f.len) ∧ f.data (p + 1) = f.data p ∧
    if f.hexify then f.data p >>> 4 = f.data p &&& 0xf#8
    else f.data (p + 2) = f.data p ∧ f.data (p + 3) = f.data p

instance (p : Nat) : Decidable (f.Repeats p) :=
  inferInstanceAs (Decidable (_ ∧ _ ∧ if f.hexify then f.data p >>> 4 = f.data p &&& 0xf#8
    else f.data (p + 2) = f.data p ∧ f.data (p + 3) = f.data p))

/-- `while (q < limit && *q == *p) ++q`, where `limit` is `n` behind `q`. -/
def scan (p : Nat) : Nat → Nat → Nat
  | 0, q => q
  | n + 1, q => if f.data q = f.data p then scan p n (q + 1) else q

/-- Where the search for the end of a run starts. -/
def runStart (p : Nat) : Nat := if f.hexify then p + 2 else p + 4

/-- `limit`. -/
def limit (p : Nat) : Nat :=
  let limit := if f.hexify then p + 98 / 2 else p + 98
  if f.len ≠ 0 ∧ f.len < limit then f.len else limit

/-- The end of the run that starts at `p`. -/
def runEnd (p : Nat) : Nat := f.scan p (f.limit p - f.runStart p) (f.runStart p)

/-- One round of the loop: what is sent, and where `p` is then. -/
def sendAt (p : Nat) : List Byte × Nat :=
  if f.Repeats p then
    let q := f.runEnd p
    if f.hexify then
      ([hexchars (f.data p &&& 0xf#8), ord '*', .ofNat 8 (29 + (q - p) * 2 - 1)], q)
    else ([f.data p, ord '*', .ofNat 8 (29 + (q - p) - 1)], q)
  else if f.hexify then ([hexchars (f.data p >>> 4), hexchars (f.data p &&& 0xf#8)], p + 1)
  else ([f.data p], p + 1)

/-- The loop over the fragment. Each round goes on by at least one byte. -/
def sendFrom : Nat → Nat → List Byte
  | 0, _ => []
  | n + 1, p => if f.More p then (f.sendAt p).1 ++ sendFrom n (f.sendAt p).2 else []

/-- What is sent for the fragment. -/
def send : List Byte := f.sendFrom (f.size + 1) 0

end OutFrag

/-- What is sent between `$` and `#`. -/
def body (frags : List OutFrag) : List Byte := frags.flatMap OutFrag.send

/-- The checksum of a text. -/
def checksum (cs : List Byte) : Byte := cs.foldl (· + ·) 0#8

/-- What `putfrags` sends each time. -/
def frame (frags : List OutFrag) : List Byte :=
  ord '$' :: body frags ++
    [ord '#', hexchars (checksum (body frags) >>> 4), hexchars (checksum (body frags) % 16#8)]

/-- `putfrags`: all that is sent, and what is left of the input. -/
def putfrags (frags : List OutFrag) : List Byte → Option (List Byte × List Byte)
  | [] => none
  | c :: cs =>
    if sevenBits c ≠ ord '+' then
      (putfrags frags cs).map fun r => (frame frags ++ r.1, r.2)
    else some (frame frags, cs)

/-! ## Receiving -/

/-- Behind the next `$`. -/
def skipToStart : List Byte → Option (List Byte)
  | [] => none
  | c :: cs => if sevenBits c ≠ ord '$' then skipToStart cs else some cs

/-- The variables of `getpacket` while it reads a text. -/
structure Reading where
  buffer : Nat → Byte
  count : Nat
  checksum : Byte
  ch : Byte

/-- Read until a `#` or the end of the buffer is found. -/
def readText (r : Reading) : List Byte → Option (Reading × List Byte)
  | [] => if r.count < BUFMAX then none else some (r, [])
  | c :: cs =>
    if r.count < BUFMAX then
      let ch := sevenBits c
      if ch = ord '#' then some ({ r with ch }, cs)
      else
        readText
          { buffer := update r.buffer r.count ch
            count := r.count + 1
            checksum := r.checksum + ch
            ch } cs
    else some (r, c :: cs)

/-- `KLstringLength(buffer)`, if there is a 0 among the next `n` bytes. -/
def stringLength (buffer : Nat → Byte) : Nat → Nat → Nat
  | 0, i => i
  | n + 1, i => if buffer i = 0#8 then i else stringLength buffer n (i + 1)

/-- A sequence character and the `:` behind it are removed from the buffer. -/
def removeSequence (buffer : Nat → Byte) : Nat → Byte :=
  let count := stringLength buffer (BUFMAX + 1) 0
  fun i => if i + 3 ≤ count then buffer (i + 3) else buffer i

/-- What `getpacket` has done: the buffer, what it sent, and what is left of the input. -/
structure Received where
  buffer : Nat → Byte
  sent : List Byte
  rest : List Byte

/-- One round of `getpacket`, with whether it is the last one. -/
def getFrame (buffer : Nat → Byte) (cs : List Byte) : Option (Received × Bool) := do
  let cs ← skipToStart cs
  let (r, cs) ← readText ⟨buffer, 0, 0#8, ord '$'⟩ cs
  let buffer := update r.buffer r.count 0#8
  if r.ch = ord '#' then
    match cs with
    | c :: d :: cs =>
      let xmitcsum := (hex (sevenBits c) <<< 4).setWidth 8 + (hex (sevenBits d)).setWidth 8
      if r.checksum ≠ xmitcsum then some (⟨buffer, [ord '-'], cs⟩, false)
      else if buffer 2 = ord ':' then
        some (⟨removeSequence buffer, [ord '+', buffer 0, buffer 1], cs⟩, true)
      else some (⟨buffer, [ord '+'], cs⟩, true)
    | _ => none
  else some (⟨buffer, [], cs⟩, decide (r.checksum = 0xff#8))

/-- The rounds of `getpacket`. Each takes a character at least. -/
def getpacketRounds : Nat → (Nat → Byte) → List Byte → Option Received
  | 0, _, _ => none
  | n + 1, buffer, cs => do
    let (r, last) ← getFrame buffer cs
    if last then some r
    else (getpacketRounds n r.buffer r.rest).map fun r' => { r' with sent := r.sent ++ r'.sent }

/-- `getpacket`. -/
def getpacket (buffer : Nat → Byte) (cs : List Byte) : Option Received :=
  getpacketRounds (cs.length + 1) buffer cs

end Alliance.Monitor
