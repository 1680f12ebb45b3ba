import Alliance.Lib.Bitmap

/-!
# Bitmaps

`KLbitmapAlloc` looks for free bits with tables that tell, for each byte, where its free bits
are. A byte is tried for itself, and then together with the bytes behind it. The bitmap is kept
by bytes; word `a` has the bytes `4 * a` to `4 * a + 3`, the lowest bits first. Counters are
natural numbers: a bitmap has no more bits than a machine word can count.

The loops of `KLbitmapAlloc` are a walk over places (`Place`, `look`): before a word, or before a
byte. A try that joins bytes moves the counters of both loops on, and they are not moved back
when it fails.
-/

namespace Alliance.KL

open Function Lib

/-! ## Tables -/

/-- `FastBitStTable`: the first free bit. -/
def fastBitStTable (x : BitVec 8) : Nat := ((List.range 8).find? fun b => !x.getLsbD b).getD 0

/-- The variables of the loop that looks for the largest block of free bits. -/
structure Largest where
  free : Nat
  maxfree : Nat
  maxstpos : Nat

/-- `if(free>maxfree)`: the block that ends with bit `b` is the largest so far. -/
def Largest.keep (s : Largest) (b : Nat) : Largest :=
  if s.maxfree < s.free then { s with maxfree := s.free, maxstpos := b + 1 - s.free } else s

/-- One bit of that loop. -/
def Largest.next (x : BitVec 8) (s : Largest) (b : Nat) : Largest :=
  (if x.getLsbD b then { s.keep b with free := 0 } else { s with free := s.free + 1 }).keep b

/-- The loop. -/
def largest (x : BitVec 8) : Largest := (List.range 8).foldl (Largest.next x) ⟨0, 0, 0⟩

/-- `FastBitList`: how many bits the largest block has. -/
def fastBitList (x : BitVec 8) : Nat := (largest x).maxfree

/-- `FastBitListSt`: where it starts. -/
def fastBitListSt (x : BitVec 8) : Nat := (largest x).maxstpos

/-- `FastBitEnList`: how many bits are free from the lowest on. -/
def fastBitEnList (x : BitVec 8) : Nat := ((List.range 8).find? fun b => x.getLsbD b).getD 8

/-- `FastBitStList`: how many bits are free from the highest down. -/
def fastBitStList (x : BitVec 8) : Nat := ((List.range 8).find? fun k => x.getLsbD (7 - k)).getD 8

/-- The largest block is free, and none is larger by one bit. -/
theorem largest_block : ∀ x : BitVec 8, fastBitListSt x + fastBitList x ≤ 8 ∧
    BitsFree x (fastBitListSt x) (fastBitList x) ∧
    ∀ o < 8 - fastBitList x, ¬ BitsFree x o (fastBitList x + 1) := by
  decide +kernel

theorem lowest_bits : ∀ x : BitVec 8, fastBitEnList x ≤ 8 ∧ BitsFree x 0 (fastBitEnList x) ∧
    (fastBitEnList x < 8 → x.getLsbD (fastBitEnList x) = true) := by
  decide +kernel

theorem highest_bits : ∀ x : BitVec 8, fastBitStList x ≤ 8 ∧
    BitsFree x (8 - fastBitStList x) (fastBitStList x) ∧
    (fastBitStList x < 8 → x.getLsbD (7 - fastBitStList x) = true) := by
  decide +kernel

theorem le_fastBitList {x : BitVec 8} {o m : Nat} (h : BitsFree x o m) (ho : o + m ≤ 8) :
    m ≤ fastBitList x := by
  by_contra hm
  exact (largest_block x).2.2 o (by omega) (h.mono (by omega))

theorem le_fastBitEnList {x : BitVec 8} {m : Nat} (h : BitsFree x 0 m) (hm : m ≤ 8) :
    m ≤ fastBitEnList x := by
  by_contra hlt
  have hset := (lowest_bits x).2.2 (by omega)
  have hfree := h (fastBitEnList x) (by omega)
  rw [Nat.zero_add, hset] at hfree
  exact absurd hfree nofun

theorem le_fastBitStList {x : BitVec 8} {o m : Nat} (h : BitsFree x o m) (ho : o + m = 8) :
    m ≤ fastBitStList x := by
  by_contra hlt
  have hset := (highest_bits x).2.2 (by omega)
  have hfree := h (7 - fastBitStList x - o) (by omega)
  rw [show o + (7 - fastBitStList x - o) = 7 - fastBitStList x by omega, hset] at hfree
  exact absurd hfree nofun

theorem first_bit : ∀ x : BitVec 8, x ≠ 0xff#8 →
    fastBitStTable x < 8 ∧ x.getLsbD (fastBitStTable x) = false := by
  decide +kernel

/-! ## Trying a byte -/

/-- The bitmap; `size` is counted in words. -/
structure KLbitmapStruct where
  size : Nat
  firstFree : Nat
  bitmap : Nat → BitVec 8

/-- How a try at a byte ends well: with its first free bit, with a block in it, or with its
highest bits and the bytes behind it. -/
inductive Hit where
  | single
  | inByte
  | span
  deriving DecidableEq, Repr

/-- How a try ends: a `return -1` at the end of the bitmap is `atEnd`, and `next` has the
counters that the loops go on with. -/
inductive Try where
  | hit (h : Hit)
  | atEnd
  | next (a b : Nat)
  deriving DecidableEq, Repr

namespace KLbitmapStruct

/-- `stepforward`; `none` is its `return -1`. -/
def stepforward (bs : KLbitmapStruct) (a b p : Nat) : Option (Nat × Nat × Nat) :=
  if b + 1 = 4 then
    if a + 1 = bs.size then none else some (a + 1, 0, p + 1)
  else some (a, b + 1, p + 1)

/-- `while(count>8)`: free bytes are counted off. -/
def stepWhile (bs : KLbitmapStruct) (temp : Nat) :
    Nat → Nat → Nat → Nat → Option (Nat × Nat × Nat × Nat)
  | count + 9, a, b, p => do
    let (a, b, p) ← bs.stepforward a b p
    if bs.bitmap (4 * temp + p) = 0#8 then bs.stepWhile temp (count + 1) a b p
    else some (count + 9, a, b, p)
  | count, a, b, p => some (count, a, b, p)

/-- A try at byte `b`, which is not full, of the word that `temp` points to. The word that is
meant is `a`: `temp` is not moved on with it. -/
def tryByte (bs : KLbitmapStruct) (nobits temp a b : Nat) : Try :=
  let bits := bs.bitmap (4 * temp + b)
  if nobits = 1 then .hit .single
  else if nobits < 8 ∧ nobits ≤ fastBitList bits then .hit .inByte
  else
    -- more bits are wanted than the byte has at its end
    let count := nobits - fastBitStList bits
    match (bs.stepforward a b b).bind fun (a, b, p) => bs.stepWhile temp count a b p with
    | none => .atEnd
    | some (count, a, b, p) =>
      if count < 8 ∧ count ≤ fastBitEnList (bs.bitmap (4 * temp + p)) then .hit .span
      else .next a b

/-! ## The search -/

/-- Where the loops are: before word `a`, or before byte `b` of word `a`, which is read from
`temp`. -/
inductive Place where
  | word (a : Nat)
  | byte (temp a b : Nat)
  deriving DecidableEq, Repr

/-- What the loops do at a place. -/
inductive Look where
  | hit (h : Hit) (temp a b : Nat)
  | stop
  | move (place : Place)
  deriving DecidableEq, Repr

/-- `bs->bitmap[a]==0xffffffff`. -/
def WordFull (bs : KLbitmapStruct) (a : Nat) : Prop := ∀ b < 4, bs.bitmap (4 * a + b) = 0xff#8

instance (bs : KLbitmapStruct) (a : Nat) : Decidable (bs.WordFull a) :=
  inferInstanceAs (Decidable (∀ b < 4, _))

/-- One round of the outer loop's head, or of the inner loop. -/
def look (bs : KLbitmapStruct) (nobits : Nat) : Place → Look
  | .word a =>
    if a < bs.size then
      if bs.WordFull a then .move (.word (a + 1)) else .move (.byte a a 0)
    else .stop
  | .byte temp a b =>
    if b < 4 then
      if bs.bitmap (4 * temp + b) = 0xff#8 then .move (.byte temp a (b + 1))
      else match bs.tryByte nobits temp a b with
        | .hit h => .hit h temp a b
        | .atEnd => .stop
        | .next a b => .move (.byte temp a (b + 1))
    else .move (.word (a + 1))

/-- `firstFree` at a place: it is set together with `temp`. -/
def Place.firstFree (old : Nat) : Place → Nat
  | .word _ => old
  | .byte temp _ _ => temp

/-- The loops. Each round goes on by a byte, so there are fewer than six for each word. -/
def search (bs : KLbitmapStruct) (nobits : Nat) :
    Nat → Nat → Place → Nat × Option (Hit × Nat × Nat × Nat)
  | 0, firstFree, _ => (firstFree, none)
  | fuel + 1, firstFree, place =>
    match bs.look nobits place with
    | .hit h temp a b => (firstFree, some (h, temp, a, b))
    | .stop => (firstFree, none)
    | .move place => bs.search nobits fuel (place.firstFree firstFree) place

/-! ## Marking -/

/-- `-0x80>>(bitval-1)`. The processor shifts by the count modulo 32. -/
def spanMask (bitval : Nat) : BitVec 8 :=
  ((-0x80#32).sshiftRight ((bitval + 31) % 32)).setWidth 8

/-- Whole bytes are marked while `count` is larger than 8, and the lowest bits of one more. -/
def markWhile : Nat → Nat → (Nat → BitVec 8) → Nat → BitVec 8
  | count + 9, y, bitmap => markWhile (count + 1) (y + 1) (update bitmap y 0xff#8)
  | count, y, bitmap => update bitmap y (bitmap y ||| (1#8 <<< count - 1#8))

/-- The bitmap with the bits of a hit marked used, and the index that is returned. -/
def mark (bs : KLbitmapStruct) (nobits temp a b : Nat) : Hit → (Nat → BitVec 8) × Nat
  | .single =>
    let bits := bs.bitmap (4 * temp + b)
    let bitval := fastBitStTable bits
    (update bs.bitmap (4 * temp + b) (bits ||| 1#8 <<< bitval), (4 * a + b) * 8 + bitval)
  | .inByte =>
    let bits := bs.bitmap (4 * temp + b)
    let bitno := fastBitListSt bits
    (update bs.bitmap (4 * temp + b) (bits ||| (1#8 <<< nobits - 1#8) <<< bitno),
      (4 * a + b) * 8 + bitno)
  | .span =>
    let bits := bs.bitmap (4 * temp + b)
    let bitval := fastBitStList bits
    (markWhile (nobits - bitval) (4 * temp + b + 1)
      (update bs.bitmap (4 * temp + b) (bits ||| spanMask bitval)),
      (4 * a + b) * 8 + (8 - bitval))

end KLbitmapStruct

open KLbitmapStruct

/-! ## Calls -/

/-- `KLbitmapInitAlloc`. -/
def klBitmapInitAlloc (bs : KLbitmapStruct) (size : Nat) : KLbitmapStruct where
  size := (size + 31) / 32
  firstFree := 0
  bitmap y := if y < 4 * ((size + 31) / 32) then 0#8 else bs.bitmap y

/-- `KLbitmapAlloc`; `none` is -1. -/
def klBitmapAlloc (bs : KLbitmapStruct) (nobits : Nat) : KLbitmapStruct × Option Nat :=
  match bs.search nobits (6 * bs.size + 1) bs.firstFree (.word bs.firstFree) with
  | (firstFree, none) => ({ bs with firstFree }, none)
  | (firstFree, some (h, temp, a, b)) =>
    let (bitmap, bitno) := bs.mark nobits temp a b h
    ({ bs with firstFree, bitmap }, some bitno)

/-- `KLbitmapMarkUsed`. -/
def klBitmapMarkUsed (bs : KLbitmapStruct) (bit : Nat) : KLbitmapStruct where
  size := bs.size
  firstFree := if bit / 8 / 4 < bs.firstFree then bit / 8 / 4 else bs.firstFree
  bitmap := update bs.bitmap (bit / 8) (bs.bitmap (bit / 8) ||| 1#8 <<< (bit % 8))

/-- `KLbitmapFree`. -/
def klBitmapFree (bs : KLbitmapStruct) (bit : Nat) : KLbitmapStruct where
  size := bs.size
  firstFree := if bit / 8 / 4 < bs.firstFree then bit / 8 / 4 else bs.firstFree
  bitmap := update bs.bitmap (bit / 8) (bs.bitmap (bit / 8) &&& ~~~(1#8 <<< (bit % 8)))

/-- A bitmap that was initialised for `size` bits. -/
def bitmapOf (size : Nat) : KLbitmapStruct := klBitmapInitAlloc ⟨0, 0, fun _ => 0#8⟩ size

end Alliance.KL
