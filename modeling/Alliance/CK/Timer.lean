import Alliance.CK.SchedMembership

/-!
# The interval timer (`8254.h`, `tasks.h`, `tasks.c`)

`CKhwInitSched` loads counter 1 of the 8254 with 0 and lets it run. From there on it loses
one each tick and starts over at the top, so that it is the lowest 16 bits of the time with
the sign changed. Reading it takes three accesses to the ports, and time passes between
them: a command that latches the count, and two reads for its two bytes.

The clock keeps 32 bits of the time in `realtime`. An update adds the ticks since the last
one, which it finds from the counter alone, modulo 2^16.
-/

namespace Alliance.CK

/-! ## The commands of `8254.h` -/

def TMR_SC1 : BitVec 8 := 0x40
def TMR_LATCH : BitVec 8 := 0
def TMR_READ : BitVec 8 := 0xf0
def TMR_CNT : BitVec 8 := 0x20
def TMR_CH1 : BitVec 8 := 0x4

/-- The command of a latch for counter 1 alone: counter 1 selected, no byte selected. -/
def isLatch (command : BitVec 8) : Bool := command &&& 0xf0 == 0x40

/-- The command of a read-back that latches the count of counter 1. -/
def isReadBack (command : BitVec 8) : Bool := command &&& 0xe4 == 0xc4

/-! ## Counter 0 -/

/-- `CKsetTimerPeriod`: the two bytes that are written to counter 0, the low one first. -/
def ckSetTimerPeriod (quantum : TIME) : BitVec 8 × BitVec 8 :=
  let quantum := if (0xffff : UDATA).ult quantum then 0xffff else quantum
  ((quantum &&& 0xff).setWidth 8, (quantum.sshiftRight 8).setWidth 8)

/-- The value that two bytes written to a counter set it to. -/
def programmed (bytes : BitVec 8 × BitVec 8) : Nat := bytes.1.toNat + 256 * bytes.2.toNat

/-- A small word is written as it is. -/
theorem programmed_bytes {q : TIME} (h : q.toNat ≤ 0xffff) :
    programmed ((q &&& 0xff).setWidth 8, (q.sshiftRight 8).setWidth 8) = q.toNat := by
  have hmsb : q.msb = false := by
    rw [BitVec.msb_eq_decide, decide_eq_false_iff_not]
    omega
  have hlow : (q &&& 0xff).toNat = q.toNat % 256 := by
    have := Nat.and_two_pow_sub_one_eq_mod q.toNat 8
    rw [BitVec.toNat_and]
    simpa using this
  unfold programmed
  rw [BitVec.toNat_setWidth, BitVec.toNat_setWidth, hlow,
    BitVec.toNat_sshiftRight_of_msb_false hmsb, Nat.shiftRight_eq_div_pow]
  omega

/-- `CKsetTimerPeriod` programs its argument, or the largest count there is. -/
theorem programmed_ckSetTimerPeriod (quantum : TIME) :
    programmed (ckSetTimerPeriod quantum) = min quantum.toNat 0xffff := by
  unfold ckSetTimerPeriod
  by_cases h : (0xffff : UDATA).ult quantum
  · have hlt : 0xffff < quantum.toNat := by simpa [BitVec.ult] using h
    simp only [h, if_true]
    rw [programmed_bytes (by decide)]
    exact (Nat.min_eq_right (Nat.le_of_lt hlt)).symm
  · have hle : quantum.toNat ≤ 0xffff := by simpa [BitVec.ult] using h
    simp only [h, Bool.false_eq_true, if_false]
    rw [programmed_bytes hle, Nat.min_eq_left hle]

/-! ## Counter 1 -/

/-- A counter that reads and writes two bytes, the low one first, and counts down freely. -/
structure Counter where
  /-- What it was loaded with. -/
  initial : BitVec 16
  /-- The tick at which it was loaded. -/
  start : Nat
  /-- The count that a command has latched for reading. -/
  latch : Option (BitVec 16)
  /-- The low byte was read, the high byte is next. -/
  high : Bool

namespace Counter

/-- The count at a tick. -/
def count (c : Counter) (tick : Nat) : BitVec 16 := c.initial - BitVec.ofNat 16 (tick - c.start)

/-- `outportb(TMR_CTRL, command)`. A count that is latched stays until it is read. -/
def control (c : Counter) (command : BitVec 8) (tick : Nat) : Counter :=
  if (isLatch command || isReadBack command) ∧ c.latch = none then
    { c with latch := some (c.count tick) }
  else
    c

/-- `inportb(TMR_CNT1)`: the next byte of the latched count, or of the count itself. -/
def inportb (c : Counter) (tick : Nat) : BitVec 8 × Counter :=
  let value := c.latch.getD (c.count tick)
  if c.high then
    (value.extractLsb' 8 8, { c with latch := none, high := false })
  else
    (value.extractLsb' 0 8, { c with high := true })

/-- Nothing is latched or half read. -/
structure Idle (c : Counter) : Prop where
  latch : c.latch = none
  high : c.high = false

end Counter

/-- The part of `CKhwInitSched` for counter 1: a mode, and a low and a high byte of 0. -/
def ckHwInitSched (tick : Nat) : Counter where
  initial := 0
  start := tick
  latch := none
  high := false

/-- The ticks at which a call of `CKgetTimerValue` or `CKgetRealtime` is at the ports. -/
structure Access where
  latch : Nat
  low : Nat
  high : Nat

/-- Latch the count by a command and read its two bytes. -/
def Counter.read (c : Counter) (command : BitVec 8) (a : Access) : TIME × Counter :=
  let low := (c.control command a.latch).inportb a.low
  let high := low.2.inportb a.high
  (low.1.setWidth 32 ||| high.1.setWidth 32 <<< 8, high.2)

/-- `CKgetTimerValue`. -/
def ckGetTimerValue (c : Counter) (a : Access) : TIME × Counter :=
  c.read (TMR_READ - TMR_CNT + TMR_CH1) a

/-- The two bytes make up the word again. -/
theorem join_bytes (v : BitVec 16) :
    (v.extractLsb' 0 8).setWidth 32 ||| (v.extractLsb' 8 8).setWidth 32 <<< 8 = v.setWidth 32 := by
  ext i hi
  simp only [BitVec.getElem_or, BitVec.getElem_setWidth, BitVec.getLsbD_extractLsb',
    BitVec.getElem_shiftLeft]
  grind

/-- Reading an idle counter gives its count at the latch, and leaves it as it was. -/
theorem Counter.read_eq {c : Counter} (h : c.Idle) {command : BitVec 8}
    (hc : (isLatch command || isReadBack command) = true) (a : Access) :
    c.read command a = ((c.count a.latch).setWidth 32, c) := by
  have hcontrol : c.control command a.latch = { c with latch := some (c.count a.latch) } := by
    unfold Counter.control
    rw [if_pos ⟨hc, h.latch⟩]
  unfold Counter.read Counter.inportb
  simp only [hcontrol, h.high, Bool.false_eq_true, if_false, if_true, Option.getD_some,
    join_bytes]
  congr 1
  cases c
  obtain ⟨rfl, rfl⟩ := h
  rfl

/-! ## The clock -/

/-- The scheduler's memory and the counter. -/
structure Timed where
  sched : Sched
  counter : Counter

/-- `CKinitSched` at a tick: the time is 0, and the counter starts. -/
structure Timed.AtBoot (t : Timed) (tick : Nat) : Prop where
  realtime : t.sched.realtime = 0
  counter : t.counter = ckHwInitSched tick

/-- `CKupdateRealtime`, with its accesses to the counter. -/
def Timed.ckUpdateRealtime (t : Timed) (a : Access) : Timed :=
  let r := ckGetTimerValue t.counter a
  { sched := CK.ckUpdateRealtime t.sched r.1
    counter := r.2 }

/-- `CKgetRealtime`, with the time it returns. -/
def ckGetRealtime (t : Timed) (a : Access) : TIME × Timed :=
  let r := t.counter.read (TMR_LATCH + TMR_SC1) a
  (t.sched.realtime + (-(r.1 + t.sched.realtime) &&& 0xffff), { t with counter := r.2 })

/-- A call of one of the two. -/
inductive ClockOp where
  | update (a : Access)
  | get (a : Access)

def clockStep (t : Timed) : ClockOp → Timed
  | .update a => t.ckUpdateRealtime a
  | .get a => (ckGetRealtime t a).2

/-- The tick of the last update, where the one before the calls was at `last`. -/
def lastUpdate (last : Nat) : List ClockOp → Nat
  | [] => last
  | .update a :: ops => lastUpdate a.latch ops
  | .get _ :: ops => lastUpdate last ops

/-- Each update comes fewer than 65536 ticks after the one before it. -/
def Paced (last : Nat) : List ClockOp → Prop
  | [] => True
  | .update a :: ops => last ≤ a.latch ∧ a.latch < last + 65536 ∧ Paced a.latch ops
  | .get _ :: ops => Paced last ops

/-- The lowest bits of a negation, of a word that `d` takes to a multiple of 65536. -/
theorem masked_neg {x : BitVec 32} {d : Nat} (hd : d < 65536)
    (h : (x.toNat + d) % 65536 = 0) : -x &&& 0xffff = BitVec.ofNat 32 d := by
  have hmask : (-x &&& 0xffff).toNat = (-x).toNat % 65536 := by
    have := Nat.and_two_pow_sub_one_eq_mod (-x).toNat 16
    rw [BitVec.toNat_and]
    simpa using this
  have hx := x.isLt
  apply BitVec.eq_of_toNat_eq
  rw [hmask, BitVec.toNat_neg, BitVec.toNat_ofNat]
  omega

/-- The count and the ticks since it was loaded with 0 make a multiple of 65536. -/
theorem count_down (n : Nat) : ((0 - BitVec.ofNat 16 n).toNat + n) % 65536 = 0 := by
  have hneg : 0 - BitVec.ofNat 16 n = -BitVec.ofNat 16 n := BitVec.zero_sub _
  rw [hneg, BitVec.toNat_neg, BitVec.toNat_ofNat]
  omega

/-- The masked negation is the `d` ticks since the clock was at `e`. -/
theorem ticks_since (e d : Nat) (h : d < 65536) :
    BitVec.ofNat 32 e +
        (-((0 - BitVec.ofNat 16 (e + d)).setWidth 32 + BitVec.ofNat 32 e) &&& 0xffff) =
      BitVec.ofNat 32 (e + d) := by
  have hcount := count_down (e + d)
  have hc := (0 - BitVec.ofNat 16 (e + d)).isLt
  rw [masked_neg h, BitVec.ofNat_add]
  rw [BitVec.toNat_add, BitVec.toNat_setWidth, BitVec.toNat_ofNat]
  generalize (0 - BitVec.ofNat 16 (e + d)).toNat = c at hcount hc
  omega

/-- What holds between the calls: the counter is idle, and the clock is the time of the
last update since the counter was started. -/
structure Timed.Exact (t : Timed) (start last : Nat) : Prop where
  idle : t.counter.Idle
  initial : t.counter.initial = 0
  started : t.counter.start = start
  le : start ≤ last
  realtime : t.sched.realtime = BitVec.ofNat 32 (last - start)

section

variable {t : Timed} {start last : Nat} {a : Access}

theorem Timed.AtBoot.exact (h : t.AtBoot start) : t.Exact start start where
  idle := by
    rw [h.counter]
    exact ⟨rfl, rfl⟩
  initial := by
    rw [h.counter]
    rfl
  started := by
    rw [h.counter]
    rfl
  le := Nat.le_refl start
  realtime := by
    rw [h.realtime, Nat.sub_self]
    rfl

/-- An update leaves the counter as it was, and adds the masked negation to the clock. -/
theorem update_eq (h : t.counter.Idle) : t.ckUpdateRealtime a =
    { t with sched := ckUpdateRealtime t.sched ((t.counter.count a.latch).setWidth 32) } := by
  unfold Timed.ckUpdateRealtime ckGetTimerValue
  rw [Counter.read_eq h (by decide)]

/-- `CKgetRealtime` changes nothing and returns what an update would store. -/
theorem ckGetRealtime_eq (h : t.counter.Idle) :
    ckGetRealtime t a = ((t.ckUpdateRealtime a).sched.realtime, t) := by
  rw [update_eq h]
  unfold ckGetRealtime
  rw [Counter.read_eq h (by decide)]
  rfl

/-- The clock after an update that is in time. -/
theorem Timed.Exact.update (h : t.Exact start last) (hle : last ≤ a.latch)
    (hlt : a.latch < last + 65536) : (t.ckUpdateRealtime a).Exact start a.latch := by
  have hstart := h.le
  have hsum : a.latch - start = last - start + (a.latch - last) := by omega
  rw [update_eq h.idle]
  refine ⟨h.idle, h.initial, h.started, Nat.le_trans h.le hle, ?_⟩
  show t.sched.realtime + (-((t.counter.count a.latch).setWidth 32 + t.sched.realtime) &&& 0xffff) =
    BitVec.ofNat 32 (a.latch - start)
  unfold Counter.count
  rw [h.realtime, h.initial, h.started, hsum]
  exact ticks_since (last - start) (a.latch - last) (by omega)

theorem Timed.Exact.run {ops : List ClockOp} (h : t.Exact start last) (hp : Paced last ops) :
    (ops.foldl clockStep t).Exact start (lastUpdate last ops) := by
  induction ops generalizing t last with
  | nil => exact h
  | cons op ops ih =>
      cases op with
      | update a => exact ih (h.update hp.1 hp.2.1) hp.2.2
      | get a =>
          have hsame : clockStep t (.get a) = t := congrArg Prod.snd (ckGetRealtime_eq h.idle)
          rw [List.foldl_cons, hsame]
          exact ih h hp

/-- From the start of the clock, updates that are never 65536 ticks apart keep it exact. In
between, `CKgetRealtime` returns what an update would store there, and changes nothing. -/
theorem realtime_exact (ops : List ClockOp) (h : t.AtBoot start) (hp : Paced start ops) :
    (ops.foldl clockStep t).sched.realtime = BitVec.ofNat 32 (lastUpdate start ops - start) ∧
      ∀ now, ckGetRealtime (ops.foldl clockStep t) now =
        (((ops.foldl clockStep t).ckUpdateRealtime now).sched.realtime, ops.foldl clockStep t) := by
  have hrun := h.exact.run hp
  exact ⟨hrun.realtime, fun now => ckGetRealtime_eq hrun.idle⟩

end

theorem timed_atBoot (tick : Nat) : Timed.AtBoot ⟨schedAtBoot, ckHwInitSched tick⟩ tick :=
  ⟨rfl, rfl⟩

/-- Two updates and a `CKgetRealtime` between them, over two turns of the counter. -/
theorem realtime_exact_two :
    ([ClockOp.update ⟨65535, 65536, 65537⟩, .get ⟨65540, 65541, 70000⟩,
        .update ⟨131070, 131071, 131072⟩].foldl clockStep
      ⟨schedAtBoot, ckHwInitSched 0⟩).sched.realtime = 131070 :=
  (realtime_exact
    [.update ⟨65535, 65536, 65537⟩, .get ⟨65540, 65541, 70000⟩, .update ⟨131070, 131071, 131072⟩]
    (timed_atBoot 0) ⟨by decide, by decide, by decide, by decide, trivial⟩).1

end Alliance.CK
