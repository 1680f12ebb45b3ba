import Alliance.Lib.Chains
import Alliance.Lib.Run
import Mathlib.Data.BitVec

/-!
# The profiler (`profiler.c`)

Every function that is called tells `_mcount` about it, and the clock tells `CKprofilSampler` where
the program is. `_mcount` keeps the calls in a hash table: `froms` has the first arc for each place
that is called from, and an arc is an entry of `tos`, linked to the next one. An arc that is found
is moved to the front of its chain. `CKprofilerCleanup` writes out what was found.

An access outside `froms`, `tos` or `kcount` has no meaning. What is written to the clock's
registers and how the data gets to the serial port is left out.
-/

namespace Alliance.Monitor

open Function Lib

/-- `unsigned long`. -/
abbrev UADDR := BitVec 32

/-- `unsigned short`. -/
abbrev UHALF := BitVec 16

/-- `tostruct`. -/
structure ToStruct where
  selfpc : UADDR
  count : BitVec 32
  link : UHALF

/-- The states of profiling. -/
inductive GmonState
  | profOn
  | profBusy
  | profError
  | profOff
  deriving DecidableEq, Repr

/-- `gmonparam`. -/
structure GmonParam where
  state : GmonState
  kcount : Nat → UHALF
  kcountsize : UADDR
  froms : Nat → UHALF
  fromssize : UADDR
  tos : Nat → ToStruct
  tolimit : Nat
  lowpc : UADDR
  highpc : UADDR
  textsize : UADDR
  hashfraction : UADDR

def HISTFRACTION : UADDR := 2#32

def HASHFRACTION : UADDR := 2#32

def ARCDENSITY : UADDR := 2#32

def MINARCS : Nat := 50

def MAXARCS : Nat := 65534

/-- `sizeof(HISTCOUNTER)`, and `sizeof(*p->froms)`. -/
def sizeofUHALF : UADDR := 2#32

/-- `ROUNDDOWN`. -/
def rounddown (x y : UADDR) : UADDR := x / y * y

/-- `ROUNDUP`. -/
def roundup (x y : UADDR) : UADDR := (x + y - 1#32) / y * y

/-! ## Starting -/

/-- The memory for the tables, with what is in it. -/
structure GmonMemory where
  tos : Nat → ToStruct
  kcount : Nat → UHALF
  froms : Nat → UHALF

/-- The number of arcs that there is room for. -/
def arcLimit (arcs : Nat) : Nat :=
  if arcs < MINARCS then MINARCS else if MAXARCS < arcs then MAXARCS else arcs

/-- `CKprofilerStartup`, where `start` and `etext` are the ends of the program, and `mem` is what
`CKmemAlloc` has returned. -/
def ckProfilerStartup (start etext : UADDR) (p : GmonParam) (lowpc highpc : UADDR)
    (mem : Option GmonMemory) : GmonParam :=
  let lowpc' := if lowpc = 0#32 ∧ highpc = 0#32 then start else lowpc
  let highpc' := if lowpc = 0#32 ∧ highpc = 0#32 then etext else highpc
  let low := rounddown lowpc' (HISTFRACTION * sizeofUHALF)
  let high := roundup highpc' (HISTFRACTION * sizeofUHALF)
  let textsize := high - low
  let p := { p with
    lowpc := low
    highpc := high
    textsize
    kcountsize := textsize / HISTFRACTION
    hashfraction := HASHFRACTION
    fromssize := textsize / HASHFRACTION
    tolimit := arcLimit (textsize * ARCDENSITY / 100#32).toNat }
  match mem with
  | none => p
  | some m =>
    { p with
      tos := update m.tos 0 { m.tos 0 with link := 0#16 }
      kcount := m.kcount
      froms := m.froms
      state := .profOn }

/-- `CKprofilerControl`. -/
def ckProfilerControl (p : GmonParam) (mode : Bool) : GmonParam :=
  { p with state := if mode then .profOn else .profOff }

/-! ## The histogram -/

/-- `CKprofilSampler`, where `eip` is where the program was interrupted. -/
def ckProfilSampler (p : GmonParam) (eip : UADDR) : Option GmonParam :=
  if p.state ≠ .profOn then some p
  else
    let i := eip - p.lowpc
    if ¬ i < p.textsize then some p
    else
      let i := (i / (HISTFRACTION * sizeofUHALF)).toNat
      if (p.kcountsize / sizeofUHALF).toNat ≤ i then none
      else some { p with kcount := update p.kcount i (p.kcount i + 1#16) }

/-! ## The call graph -/

/-- A new arc, at the head of the chain at `b`. -/
def newArc (p : GmonParam) (b : Nat) (selfpc : UADDR) (link : UHALF) : GmonParam :=
  let toindex := (p.tos 0).link + 1#16
  let p := { p with tos := update p.tos 0 { p.tos 0 with link := toindex } }
  if p.tolimit ≤ toindex.toNat then { p with state := .profError }
  else
    { p with
      tos := update p.tos toindex.toNat ⟨selfpc, 1#32, link⟩
      froms := update p.froms b toindex }

/-- The search for an arc behind `top`, with the one before it. Without a result, it does not
end. -/
def searchArc (p : GmonParam) (selfpc : UADDR) : Nat → Nat → Option (Option (Nat × Nat))
  | 0, _ => none
  | n + 1, top =>
    if (p.tos top).link = 0#16 then some none
    else
      let next := (p.tos top).link.toNat
      if p.tolimit ≤ next then none
      else if (p.tos next).selfpc = selfpc then some (some (top, next))
      else searchArc p selfpc n next

/-- `top->count++`. -/
def countArc (p : GmonParam) (top : Nat) : GmonParam :=
  { p with tos := update p.tos top { p.tos top with count := (p.tos top).count + 1#32 } }

/-- The arc `top` behind `prevtop` is moved to the head of the chain at `b`. -/
def moveArc (p : GmonParam) (b prevtop top : Nat) : GmonParam :=
  let toindex := (p.tos prevtop).link
  let tos := update p.tos prevtop { p.tos prevtop with link := (p.tos top).link }
  let tos := update tos top { tos top with link := p.froms b }
  { p with tos, froms := update p.froms b toindex }

/-- `_mcount`. -/
def mcount (p : GmonParam) (frompc selfpc : UADDR) : Option GmonParam :=
  if p.state ≠ .profOn then some p
  else
    let frompc := frompc - p.lowpc
    if p.textsize < frompc then some p
    else
      let b := (frompc / (p.hashfraction * sizeofUHALF)).toNat
      if (p.fromssize / sizeofUHALF).toNat ≤ b then none
      else
        let toindex := (p.froms b).toNat
        if toindex = 0 then some (newArc p b selfpc 0#16)
        else if p.tolimit ≤ toindex then none
        else if (p.tos toindex).selfpc = selfpc then
          some (countArc p toindex)
        else
          (searchArc p selfpc p.tolimit toindex).map fun
            | none => newArc p b selfpc (p.froms b)
            | some (prevtop, top) => moveArc (countArc p top) b prevtop top

/-! ## What is written out -/

/-- `rawarc`. -/
structure RawArc where
  frompc : UADDR
  selfpc : UADDR
  count : BitVec 32

/-- The arcs from `toindex` on. Without a result, there is no end of them. -/
def rawArcs (p : GmonParam) (frompc : UADDR) : Nat → Nat → Option (List RawArc)
  | 0, _ => none
  | n + 1, toindex =>
    if toindex = 0 then some []
    else if p.tolimit ≤ toindex then none
    else
      (rawArcs p frompc n (p.tos toindex).link.toNat).map
        (⟨frompc, (p.tos toindex).selfpc, (p.tos toindex).count⟩ :: ·)

/-- The histogram and the call graph that are written. -/
structure Gmon where
  kcount : List UHALF
  arcs : List RawArc

/-- `CKprofilerCleanup`, if the profiling has not failed. -/
def ckProfilerCleanup (p : GmonParam) : Option Gmon :=
  if p.state = .profError then none
  else do
    let chains ← (List.range (p.fromssize / sizeofUHALF).toNat).mapM fun fromindex =>
      rawArcs p (p.lowpc + .ofNat 32 fromindex * p.hashfraction * sizeofUHALF) p.tolimit
        (p.froms fromindex).toNat
    some ⟨(List.range (p.kcountsize / sizeofUHALF).toNat).map p.kcount, chains.flatten⟩

/-! ## Runs -/

/-- What the profiler is told. -/
inductive ProfOp
  | call (frompc selfpc : UADDR)
  | sample (eip : UADDR)
  | control (mode : Bool)

def profStep (p : GmonParam) : ProfOp → Option GmonParam
  | .call frompc selfpc => mcount p frompc selfpc
  | .sample eip => ckProfilSampler p eip
  | .control mode => some (ckProfilerControl p mode)

/-- Profiling that has failed is not started again. -/
def KeepsError (p : GmonParam) : ProfOp → Prop
  | .control _ => p.state ≠ .profError
  | .call .. | .sample _ => True

instance (p : GmonParam) (op : ProfOp) : Decidable (KeepsError p op) := by
  cases op <;> unfold KeepsError <;> infer_instance

/-- What is to be known of a program: the calls, by their places, and where the clock found it. -/
structure Profile where
  enabled : Bool
  arcs : List (UADDR × UADDR)
  ticks : List Nat

/-- What there is to be known after one more operation, of the program from `low` up to `high`.
Calls from places that are not four bytes apart are from the same place. -/
def Profile.note (low high : UADDR) (P : Profile) : ProfOp → Profile
  | .call frompc selfpc =>
    if P.enabled ∧ frompc - low < high - low then
      { P with arcs := P.arcs ++ [(rounddown frompc 4#32, selfpc)] }
    else P
  | .sample eip =>
    if P.enabled ∧ eip - low < high - low then
      { P with ticks := P.ticks ++ [(eip - low).toNat / 4] }
    else P
  | .control mode => { P with enabled := mode }

end Alliance.Monitor
