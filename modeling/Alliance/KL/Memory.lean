import Mathlib.Algebra.Order.Group.Int
import Mathlib.Data.BitVec
import Alliance.Lib.LexDiff

/-!
# Copying and comparing memory (`MemoryCopy.c`, `MemoryCompare.c`)

`KLmemoryCopy` copies single bytes until the destination is aligned, then words of two bytes, and
hands what is left to a byte loop. The word loop ends behind the last word, and says that one byte
is left where it has already copied one too many: the sign of what it returns is wrong. So a copy
of more than 15 bytes is exact if length and destination are both even or both odd
(`klMemoryCopy_exact_iff`).

`KLmemoryCompare` tests for the end behind the first pair of bytes, and so reads one for a length
of 0 (`klMemoryCompare_orders_iff`).

Every access is kept in a list beside the memory.
-/

namespace Alliance.KL.Memory

open Function Lib

/-- `UADDR`, and the bits of a `DATA`. -/
abbrev UADDR := BitVec 32

abbrev DATA := BitVec 32

abbrev UBYTE := BitVec 8

abbrev UHALF := BitVec 16

/-- `ADDRSIZE`. -/
def ADDRSIZE : Nat := 4

/-- Memory, and what has been read and written. -/
structure Traced where
  mem : UADDR → UBYTE
  reads : List UADDR
  writes : List UADDR

namespace Traced

variable (t : Traced)

def readByte (a : UADDR) : UBYTE × Traced := (t.mem a, { t with reads := t.reads ++ [a] })

def writeByte (a : UADDR) (v : UBYTE) : Traced :=
  { t with mem := update t.mem a v, writes := t.writes ++ [a] }

/-- The lower byte comes first. -/
def readHalf (a : UADDR) : UHALF × Traced :=
  (t.mem (a + 1#32) ++ t.mem a, { t with reads := t.reads ++ [a, a + 1#32] })

def writeHalf (a : UADDR) (v : UHALF) : Traced :=
  { t with
    mem := update (update t.mem a (v.setWidth 8)) (a + 1#32) (v.extractLsb' 8 8)
    writes := t.writes ++ [a, a + 1#32] }

end Traced

/-! ## `MemoryCopy.c` -/

/-- `KLbyteCopyFwd`, with `*dest` and `*src` behind it. -/
def klByteCopyFwd (t : Traced) (dest src : UADDR) (size : Int) : Traced × UADDR × UADDR :=
  if 0 < size then
    let (copy, t) := t.readByte src
    klByteCopyFwd (t.writeByte dest copy) (dest + 1#32) (src + 1#32) (size - 1)
  else (t, dest, src)
termination_by size.toNat

/-- `KLwordCopyFwd`, with `*dest` and `*src` behind it, and what it says is left over. -/
def klWordCopyFwd (t : Traced) (dest src : UADDR) (size : Int) : Traced × UADDR × UADDR × Int :=
  if 0 < size then
    let (copy, t) := t.readHalf src
    klWordCopyFwd (t.writeHalf dest copy) (dest + 2#32) (src + 2#32) (size - 2)
  else (t, dest, src, -size)
termination_by size.toNat

/-- `KLmemoryCopy`. -/
def klMemoryCopy (t : Traced) (dstpp srcpp : UADDR) (len : Int) : Traced × UADDR :=
  if 16 ≤ len then
    let unaligned := (-dstpp).toNat % ADDRSIZE
    let (t, destPtr, srcPtr) := klByteCopyFwd t dstpp srcpp unaligned
    let (t, destPtr, srcPtr, mylen) := klWordCopyFwd t destPtr srcPtr (len - unaligned)
    ((klByteCopyFwd t destPtr srcPtr mylen).1, dstpp)
  else ((klByteCopyFwd t dstpp srcpp len).1, dstpp)

/-- The `n` addresses from `p` on. -/
def addrs (p : UADDR) (n : Nat) : List UADDR := (List.range n).map fun i => p + .ofNat 32 i

/-- No address is in both areas. -/
def Apart (dst src : UADDR) (n : Nat) : Prop := ∀ a ∈ addrs dst n, a ∉ addrs src n

/-- The destination gets the source, nothing else is read, and nothing else is written. -/
structure CopiedExactly (mem : UADDR → UBYTE) (dst src : UADDR) (n : Nat) (t : Traced) : Prop where
  copied : ∀ i < n, t.mem (dst + .ofNat 32 i) = mem (src + .ofNat 32 i)
  reads : ∀ a ∈ t.reads, a ∈ addrs src n
  writes : ∀ a ∈ t.writes, a ∈ addrs dst n
  rest : ∀ a, a ∉ addrs dst n → t.mem a = mem a

/-! ### Addresses -/

variable {t t' t'' : Traced} {dst src p a : UADDR} {n k i : Nat}

theorem mem_addrs : a ∈ addrs p n ↔ ∃ i < n, a = p + .ofNat 32 i := by
  unfold addrs
  rw [List.mem_map]
  constructor
  · intro h
    rcases h with ⟨i, hi, rfl⟩
    exact ⟨i, List.mem_range.mp hi, rfl⟩
  · intro h
    rcases h with ⟨i, hi, rfl⟩
    exact ⟨i, List.mem_range.mpr hi, rfl⟩

theorem add_ofNat_ofNat (p : UADDR) (n i : Nat) :
    p + .ofNat 32 n + .ofNat 32 i = p + .ofNat 32 (n + i) := by
  rw [BitVec.ofNat_add, BitVec.add_assoc]

theorem addrs_add (p : UADDR) (n k : Nat) :
    addrs p (n + k) = addrs p n ++ addrs (p + .ofNat 32 n) k := by
  unfold addrs
  rw [List.range_add, List.map_append, List.map_map]
  refine congrArg _ (List.map_congr_left fun i _ => ?_)
  exact (add_ofNat_ofNat p n i).symm

/-- Fewer than `2 ^ 32` addresses are all different. -/
theorem add_ofNat_inj (hn : n < 2 ^ 32) (hi : i < 2 ^ 32)
    (h : p + .ofNat 32 n = p + .ofNat 32 i) : n = i := by
  have hnat := congrArg BitVec.toNat ((BitVec.add_right_inj p).mp h)
  rwa [BitVec.toNat_ofNat, BitVec.toNat_ofNat, Nat.mod_eq_of_lt hn, Nat.mod_eq_of_lt hi] at hnat

/-- The areas behind the first `n` addresses are apart, and so are the first ones. -/
theorem Apart.split (h : Apart dst src (n + k)) :
    Apart dst src n ∧ Apart (dst + .ofNat 32 n) (src + .ofNat 32 n) k ∧
      (∀ a ∈ addrs dst n, a ∉ addrs (src + .ofNat 32 n) k) := by
  unfold Apart at h
  rw [addrs_add, addrs_add] at h
  refine ⟨fun a ha hb => ?_, fun a ha hb => ?_, fun a ha hb => ?_⟩
  · exact h a (List.mem_append_left _ ha) (List.mem_append_left _ hb)
  · exact h a (List.mem_append_right _ ha) (List.mem_append_right _ hb)
  · exact h a (List.mem_append_left _ ha) (List.mem_append_right _ hb)

/-- One area lies in front of the other. -/
theorem apart_of_le (h : dst.toNat + n ≤ src.toNat) (hsrc : src.toNat + n ≤ 2 ^ 32) :
    Apart dst src n := by
  intro a ha hb
  rcases mem_addrs.mp ha with ⟨i, hi, rfl⟩
  rcases mem_addrs.mp hb with ⟨j, hj, he⟩
  have hnat := congrArg BitVec.toNat he
  rw [BitVec.toNat_add, BitVec.toNat_add, BitVec.toNat_ofNat, BitVec.toNat_ofNat] at hnat
  omega

/-! ### A copy of `n` bytes -/

/-- From `t` to `t'`, `n` bytes are copied. If the areas are apart, the copy is what was there
before. -/
structure Moved (t : Traced) (dst src : UADDR) (n : Nat) (t' : Traced) : Prop where
  reads : t'.reads = t.reads ++ addrs src n
  writes : t'.writes = t.writes ++ addrs dst n
  copied : n < 2 ^ 32 → Apart dst src n →
    (∀ i < n, t'.mem (dst + .ofNat 32 i) = t.mem (src + .ofNat 32 i)) ∧
      ∀ a, a ∉ addrs dst n → t'.mem a = t.mem a

namespace Moved

theorem nothing (t : Traced) (dst src : UADDR) : Moved t dst src 0 t :=
  ⟨(List.append_nil _).symm, (List.append_nil _).symm,
    fun _ _ => ⟨fun i hi => absurd hi (Nat.not_lt_zero i), fun _ _ => rfl⟩⟩

/-- One copy behind another. -/
theorem append (h : Moved t dst src n t')
    (h' : Moved t' (dst + .ofNat 32 n) (src + .ofNat 32 n) k t'') :
    Moved t dst src (n + k) t'' := by
  refine ⟨?_, ?_, fun hlt hapart => ?_⟩
  · rw [h'.reads, h.reads, addrs_add, List.append_assoc]
  · rw [h'.writes, h.writes, addrs_add, List.append_assoc]
  · rcases hapart.split with ⟨hfront, hbehind, hcross⟩
    rcases h.copied (by omega) hfront with ⟨hcopied, hrest⟩
    rcases h'.copied (by omega) hbehind with ⟨hcopied', hrest'⟩
    refine ⟨fun i hi => ?_, fun a ha => ?_⟩
    · by_cases hin : i < n
      · -- the second copy does not come to the first `n` bytes
        rw [hrest' _ fun hmem => ?_, hcopied i hin]
        rcases mem_addrs.mp hmem with ⟨j, hj, he⟩
        rw [add_ofNat_ofNat] at he
        have := add_ofNat_inj (by omega) (by omega) he
        omega
      · have hj := hcopied' (i - n) (by omega)
        rw [add_ofNat_ofNat, add_ofNat_ofNat, Nat.add_sub_cancel' (by omega)] at hj
        rw [hj]
        refine hrest _ fun hmem => hcross _ hmem ?_
        refine mem_addrs.mpr ⟨i - n, by omega, ?_⟩
        rw [add_ofNat_ofNat, Nat.add_sub_cancel' (by omega)]
    · rw [addrs_add, List.mem_append, not_or] at ha
      rw [hrest' a ha.2, hrest a ha.1]

theorem byte (t : Traced) (dst src : UADDR) :
    Moved t dst src 1 ((t.readByte src).2.writeByte dst (t.readByte src).1) := by
  have haddrs : ∀ p : UADDR, addrs p 1 = [p] := fun p => by
    show [p + 0#32] = [p]
    rw [BitVec.add_zero]
  refine ⟨by rw [haddrs]; rfl, by rw [haddrs]; rfl, fun _ _ => ⟨fun i hi => ?_, fun a ha => ?_⟩⟩
  · obtain rfl : i = 0 := by omega
    show update t.mem dst (t.mem src) (dst + 0#32) = t.mem (src + 0#32)
    rw [BitVec.add_zero, BitVec.add_zero, update_self]
  · rw [haddrs, List.mem_singleton] at ha
    exact update_of_ne ha _ _

/-- A word is two bytes. -/
theorem half (t : Traced) (dst src : UADDR) :
    Moved t dst src 2 ((t.readHalf src).2.writeHalf dst (t.readHalf src).1) := by
  have haddrs : ∀ p : UADDR, addrs p 2 = [p, p + 1#32] := fun p => by
    show [p + 0#32, p + 1#32] = _
    rw [BitVec.add_zero]
  have hne : dst ≠ dst + 1#32 := by bv_omega
  refine ⟨by rw [haddrs]; rfl, by rw [haddrs]; rfl, fun _ _ => ⟨fun i hi => ?_, fun a ha => ?_⟩⟩
  · show update (update t.mem dst ((t.mem (src + 1#32) ++ t.mem src).setWidth 8)) (dst + 1#32)
      ((t.mem (src + 1#32) ++ t.mem src).extractLsb' 8 8) (dst + .ofNat 32 i) = _
    rcases (show i = 0 ∨ i = 1 by omega) with rfl | rfl
    · rw [show dst + BitVec.ofNat 32 0 = dst from BitVec.add_zero dst,
        show src + BitVec.ofNat 32 0 = src from BitVec.add_zero src, update_of_ne hne, update_self]
      exact BitVec.setWidth_append_eq_right
    · rw [update_self]
      exact BitVec.extractLsb'_append_eq_left
  · rw [haddrs, List.mem_cons, List.mem_singleton, not_or] at ha
    exact (update_of_ne ha.2 _ _).trans (update_of_ne ha.1 _ _)

end Moved

/-! ### The loops -/

theorem klByteCopyFwd_moved (t : Traced) (dst src : UADDR) (n : Nat) :
    Moved t dst src n (klByteCopyFwd t dst src n).1 ∧
      (klByteCopyFwd t dst src n).2 = (dst + .ofNat 32 n, src + .ofNat 32 n) := by
  induction n generalizing t dst src with
  | zero =>
      rw [klByteCopyFwd, if_neg (by omega)]
      refine ⟨.nothing t dst src, ?_⟩
      show (dst, src) = (dst + 0#32, src + 0#32)
      rw [BitVec.add_zero, BitVec.add_zero]
  | succ n ih =>
      rw [klByteCopyFwd, if_pos (by omega)]
      have hsize : ((n + 1 : Nat) : Int) - 1 = n := by omega
      rw [hsize]
      rcases ih ((t.readByte src).2.writeByte dst (t.readByte src).1) (dst + 1#32) (src + 1#32) with
        ⟨hmoved, hptr⟩
      have h := (Moved.byte t dst src).append hmoved
      rw [Nat.add_comm 1 n] at h
      refine ⟨h, ?_⟩
      dsimp only
      rw [hptr, Nat.add_comm n 1, ← add_ofNat_ofNat, ← add_ofNat_ofNat]

/-- **The word loop** copies whole words, and says that a byte is left over if it has copied one
too many. -/
theorem klWordCopyFwd_moved (t : Traced) (dst src : UADDR) (n : Nat) :
    Moved t dst src (n + n % 2) (klWordCopyFwd t dst src n).1 ∧
      (klWordCopyFwd t dst src n).2 =
        (dst + .ofNat 32 (n + n % 2), src + .ofNat 32 (n + n % 2), ((n % 2 : Nat) : Int)) := by
  induction n using Nat.strongRecOn generalizing t dst src with
  | ind n ih =>
    by_cases hn : n = 0
    · subst hn
      rw [klWordCopyFwd, if_neg (by omega)]
      refine ⟨.nothing t dst src, ?_⟩
      show (dst, src, -((0 : Nat) : Int)) = (dst + 0#32, src + 0#32, ((0 : Nat) : Int))
      rw [BitVec.add_zero, BitVec.add_zero]
      rfl
    · rw [klWordCopyFwd, if_pos (by omega)]
      dsimp only
      have hfirst := Moved.half t dst src
      by_cases h1 : n = 1
      · -- the last round takes a byte too many, and the size that it returns is not negative
        subst h1
        rw [klWordCopyFwd, if_neg (by omega)]
        exact ⟨hfirst, rfl⟩
      · have hsize : (n : Int) - 2 = ((n - 2 : Nat) : Int) := by omega
        rw [hsize]
        rcases ih (n - 2) (by omega) ((t.readHalf src).2.writeHalf dst (t.readHalf src).1)
          (dst + 2#32) (src + 2#32) with ⟨hmoved, hptr⟩
        have h := hfirst.append hmoved
        have hcount : 2 + (n - 2 + (n - 2) % 2) = n + n % 2 := by omega
        have hleft : (n - 2) % 2 = n % 2 := by omega
        rw [hcount] at h
        refine ⟨h, ?_⟩
        rw [hptr, show dst + 2#32 = dst + .ofNat 32 2 from rfl,
          show src + 2#32 = src + .ofNat 32 2 from rfl, add_ofNat_ofNat, add_ofNat_ofNat, hcount,
          hleft]

/-- How many bytes `KLmemoryCopy` copies: two too many if the word loop ends with an odd one. -/
def copiedBytes (dst : UADDR) (n : Nat) : Nat :=
  if 16 ≤ n ∧ n % 2 ≠ dst.toNat % 2 then n + 2 else n

theorem klMemoryCopy_moved (t : Traced) (dst src : UADDR) (n : Nat) :
    Moved t dst src (copiedBytes dst n) (klMemoryCopy t dst src n).1 := by
  by_cases hn : 16 ≤ n
  · unfold klMemoryCopy
    rw [if_pos (by omega)]
    -- the bytes up to the next aligned address
    have hu : (-dst).toNat % ADDRSIZE ≤ 3 := Nat.le_of_lt_succ (Nat.mod_lt _ (by decide))
    have hparity : (-dst).toNat % ADDRSIZE % 2 = dst.toNat % 2 := by
      have := dst.isLt
      unfold ADDRSIZE
      rw [BitVec.toNat_neg]
      omega
    generalize (-dst).toNat % ADDRSIZE = u at hu hparity
    rcases klByteCopyFwd_moved t dst src u with ⟨hbytes, hptr⟩
    have hsize : (n : Int) - (u : Int) = ((n - u : Nat) : Int) := by omega
    dsimp only
    simp only [hptr, hsize]
    rcases klWordCopyFwd_moved (klByteCopyFwd t dst src u).1 (dst + .ofNat 32 u)
      (src + .ofNat 32 u) (n - u) with ⟨hwords, hptr'⟩
    simp only [hptr']
    have htail := (klByteCopyFwd_moved
      (klWordCopyFwd (klByteCopyFwd t dst src u).1 (dst + .ofNat 32 u) (src + .ofNat 32 u)
        ((n - u : Nat) : Int)).1
      (dst + .ofNat 32 u + .ofNat 32 (n - u + (n - u) % 2))
      (src + .ofNat 32 u + .ofNat 32 (n - u + (n - u) % 2)) ((n - u) % 2)).1
    have h := hbytes.append (hwords.append htail)
    have hcount : u + (n - u + (n - u) % 2 + (n - u) % 2) = copiedBytes dst n := by
      unfold copiedBytes
      split_ifs <;> omega
    rwa [hcount] at h
  · have hcount : copiedBytes dst n = n := if_neg fun h => hn h.1
    unfold klMemoryCopy
    rw [hcount, if_neg (by omega)]
    exact (klByteCopyFwd_moved t dst src n).1

theorem CopiedExactly.of_moved {mem : UADDR → UBYTE} (hn : n < 2 ^ 32) (hapart : Apart dst src n)
    (h : Moved ⟨mem, [], []⟩ dst src n t) : CopiedExactly mem dst src n t := by
  rcases h.copied hn hapart with ⟨hcopied, hrest⟩
  refine ⟨hcopied, fun a ha => ?_, fun a ha => ?_, hrest⟩
  · rw [h.reads] at ha
    exact ha
  · rw [h.writes] at ha
    exact ha

/-- The two bytes behind the areas are copied, too. -/
theorem not_copiedExactly {mem : UADDR → UBYTE} (hn : n < 2 ^ 32)
    (h : Moved ⟨mem, [], []⟩ dst src (n + 2) t) : ¬ CopiedExactly mem dst src n t := by
  intro hexact
  have hread : src + .ofNat 32 n ∈ t.reads := by
    rw [h.reads]
    exact mem_addrs.mpr ⟨n, by omega, rfl⟩
  rcases mem_addrs.mp (hexact.reads _ hread) with ⟨i, hi, he⟩
  have := add_ofNat_inj hn (by omega) he
  omega

/-- **A copy is exact** if there are fewer than 16 bytes, or length and destination are both even or
both odd; in no other case. -/
theorem klMemoryCopy_exact_iff (mem : UADDR → UBYTE) (dst src : UADDR) (n : Nat)
    (hn : n < 2 ^ 31) (hapart : Apart dst src n) :
    CopiedExactly mem dst src n (klMemoryCopy ⟨mem, [], []⟩ dst src n).1 ↔
      n < 16 ∨ n % 2 = dst.toNat % 2 := by
  have hmoved := klMemoryCopy_moved ⟨mem, [], []⟩ dst src n
  unfold copiedBytes at hmoved
  by_cases hodd : 16 ≤ n ∧ n % 2 ≠ dst.toNat % 2
  · rw [if_pos hodd] at hmoved
    refine iff_of_false (not_copiedExactly (by omega) hmoved) fun h => ?_
    omega
  · rw [if_neg hodd] at hmoved
    exact iff_of_true (.of_moved (by omega) hapart hmoved) (by omega)

/-- 16 bytes from one even address to another. -/
theorem klMemoryCopy_exact_sixteen :
    CopiedExactly (fun a => a.setWidth 8) 0x1000#32 0x2001#32 16
      (klMemoryCopy ⟨fun a => a.setWidth 8, [], []⟩ 0x1000#32 0x2001#32 (16 : Nat)).1 :=
  (klMemoryCopy_exact_iff _ 0x1000#32 0x2001#32 16 (by decide)
    (apart_of_le (by decide) (by decide))).mpr (.inr (by decide))

/-- 17 bytes: the copy writes to what is behind the destination. -/
theorem klMemoryCopy_beyond :
    ¬ CopiedExactly (fun a => a.setWidth 8) 0x1000#32 0x2001#32 17
      (klMemoryCopy ⟨fun a => a.setWidth 8, [], []⟩ 0x1000#32 0x2001#32 (17 : Nat)).1 ∧
    (klMemoryCopy ⟨fun a => a.setWidth 8, [], []⟩ 0x1000#32 0x2001#32 (17 : Nat)).1.mem 0x1011#32 =
      0x12#8 := by
  have hmoved : Moved ⟨fun a => a.setWidth 8, [], []⟩ 0x1000#32 0x2001#32 19
      (klMemoryCopy ⟨fun a => a.setWidth 8, [], []⟩ 0x1000#32 0x2001#32 (17 : Nat)).1 :=
    klMemoryCopy_moved _ 0x1000#32 0x2001#32 17
  have hapart : Apart 0x1000#32 0x2001#32 19 := apart_of_le (by decide) (by decide)
  exact ⟨not_copiedExactly (by decide) hmoved, (hmoved.copied (by decide) hapart).1 17 (by decide)⟩

/-! ## `MemoryCompare.c` -/

/-- The loop of `KLmemoryCompare`, from the `i`-th pair of bytes on. -/
def compareFrom (len : UADDR) (t : Traced) (srcp1 srcp2 i : UADDR) : DATA × Traced :=
  let (byte1, t) := t.readByte srcp1
  let (byte2, t) := t.readByte srcp2
  let a0 : DATA := byte1.signExtend 32
  let b0 : DATA := byte2.signExtend 32
  if _h : i + 1#32 = len then (a0 - b0, t)
  else if a0 = b0 then compareFrom len t (srcp1 + 1#32) (srcp2 + 1#32) (i + 1#32)
  else (a0 - b0, t)
termination_by (len - (i + 1#32)).toNat
decreasing_by bv_omega

/-- `KLmemoryCompare`. -/
def klMemoryCompare (t : Traced) (a b len : UADDR) : DATA × Traced := compareFrom len t a b 0#32

/-- What `KLmemoryCompare` says of two areas. -/
def compared (mem : UADDR → UBYTE) (len a b : UADDR) : Int :=
  (klMemoryCompare ⟨mem, [], []⟩ a b len).1.toInt

/-- The bytes of an area, as the signed numbers that a `BYTE` can have. -/
def bytesFrom (mem : UADDR → UBYTE) (p : UADDR) (i : Nat) : Int := (mem (p + .ofNat 32 i)).toInt

/-- The areas are ordered by their first `len` bytes, and nothing else is read. -/
structure Orders (mem : UADDR → UBYTE) (a b c len : UADDR) : Prop where
  equal : compared mem len a b = 0 ↔
    ∀ i < len.toNat, mem (a + .ofNat 32 i) = mem (b + .ofNat 32 i)
  first : ∀ k < len.toNat, (∀ i < k, mem (a + .ofNat 32 i) = mem (b + .ofNat 32 i)) →
    mem (a + .ofNat 32 k) ≠ mem (b + .ofNat 32 k) →
    (compared mem len a b).sign = (bytesFrom mem a k - bytesFrom mem b k).sign
  swapped : (compared mem len b a).sign = -(compared mem len a b).sign
  trans : compared mem len a b ≤ 0 → compared mem len b c ≤ 0 → compared mem len a c ≤ 0
  trans_lt : compared mem len a b < 0 → compared mem len b c < 0 → compared mem len a c < 0
  reads : ∀ x ∈ (klMemoryCompare ⟨mem, [], []⟩ a b len).2.reads,
    x ∈ addrs a len.toNat ∨ x ∈ addrs b len.toNat

variable {mem : UADDR → UBYTE} {b c q len : UADDR}

theorem signExtend_inj {x y : UBYTE} : x.signExtend 32 = y.signExtend 32 ↔ x.toInt = y.toInt := by
  rw [← BitVec.toInt_inj, BitVec.toInt_signExtend_of_le (by decide),
    BitVec.toInt_signExtend_of_le (by decide)]

/-- A difference of two bytes fits. -/
theorem toInt_signExtend_sub (x y : UBYTE) :
    (x.signExtend 32 - y.signExtend 32 : DATA).toInt = x.toInt - y.toInt := by
  have hx := BitVec.toInt_lt (x := x)
  have hx' := BitVec.le_toInt x
  have hy := BitVec.toInt_lt (x := y)
  have hy' := BitVec.le_toInt y
  rw [BitVec.toInt_sub, BitVec.toInt_signExtend_of_le (by decide),
    BitVec.toInt_signExtend_of_le (by decide)]
  exact Int.bmod_eq_of_le (by omega) (by omega)

theorem bytesFrom_succ (mem : UADDR → UBYTE) (p : UADDR) :
    (fun i => bytesFrom mem p (i + 1)) = bytesFrom mem (p + 1#32) := by
  funext i
  unfold bytesFrom
  rw [Nat.add_comm i 1, ← add_ofNat_ofNat]

theorem bytesFrom_zero (mem : UADDR → UBYTE) (p : UADDR) : bytesFrom mem p 0 = (mem p).toInt := by
  unfold bytesFrom
  rw [show p + BitVec.ofNat 32 0 = p from BitVec.add_zero p]

/-- A round reads a byte of each area, and is the last one, or finds a difference, or goes on. -/
theorem compareFrom_eq (len : UADDR) (t : Traced) (p q i : UADDR) : compareFrom len t p q i =
    let t' : Traced := { t with reads := t.reads ++ [p] ++ [q] }
    if i + 1#32 = len ∨ (t.mem p).toInt ≠ (t.mem q).toInt then
      ((t.mem p).signExtend 32 - (t.mem q).signExtend 32, t')
    else compareFrom len t' (p + 1#32) (q + 1#32) (i + 1#32) := by
  rw [compareFrom]
  dsimp only [Traced.readByte]
  by_cases hend : i + 1#32 = len
  · rw [dif_pos hend, if_pos (.inl hend)]
  · rw [dif_neg hend]
    by_cases heq : (t.mem p).toInt = (t.mem q).toInt
    · rw [if_pos (signExtend_inj.mpr heq), if_neg (not_or.mpr ⟨hend, not_not_intro heq⟩)]
    · rw [if_neg fun h => heq (signExtend_inj.mp h), if_pos (.inr heq)]

theorem mem_addrs_self (p : UADDR) (n : Nat) : p ∈ addrs p (n + 1) :=
  mem_addrs.mpr ⟨0, Nat.succ_pos n, (BitVec.add_zero p).symm⟩

theorem mem_addrs_succ (h : a ∈ addrs (p + 1#32) n) : a ∈ addrs p (n + 1) := by
  rcases mem_addrs.mp h with ⟨i, hi, rfl⟩
  refine mem_addrs.mpr ⟨1 + i, by omega, ?_⟩
  rw [← add_ofNat_ofNat]

/-- What a round has read. -/
theorem mem_reads_round {l : List UADDR} {x : UADDR} (hx : x ∈ l ++ [p] ++ [q]) (n : Nat) :
    x ∈ l ∨ x ∈ addrs p (n + 1) ∨ x ∈ addrs q (n + 1) := by
  rw [List.append_assoc, List.mem_append] at hx
  rcases hx with hx | hx
  · exact .inl hx
  · rcases List.mem_cons.mp hx with rfl | hx
    · exact .inr (.inl (mem_addrs_self x n))
    · obtain rfl := List.mem_singleton.mp hx
      exact .inr (.inr (mem_addrs_self x n))

/-- **The loop** ends with the first difference among the bytes that are left, and reads no
others. -/
theorem compareFrom_spec (t : Traced) (p q i : UADDR) (n : Nat) (hn : n + 1 < 2 ^ 32)
    (hlen : len = i + .ofNat 32 (n + 1)) :
    (compareFrom len t p q i).1.toInt = lexDiff (bytesFrom t.mem p) (bytesFrom t.mem q) (n + 1) ∧
      ∀ x ∈ (compareFrom len t p q i).2.reads,
        x ∈ t.reads ∨ x ∈ addrs p (n + 1) ∨ x ∈ addrs q (n + 1) := by
  induction n generalizing t p q i with
  | zero =>
      rw [compareFrom_eq]
      dsimp only
      rw [if_pos (.inl hlen.symm)]
      refine ⟨?_, fun x hx => mem_reads_round hx 0⟩
      dsimp only
      rw [toInt_signExtend_sub]
      by_cases h0 : bytesFrom t.mem p 0 = bytesFrom t.mem q 0
      · rw [lexDiff_of_eq h0, ← bytesFrom_zero, ← bytesFrom_zero, h0]
        exact sub_self _
      · rw [lexDiff_of_ne h0, bytesFrom_zero, bytesFrom_zero]
  | succ n ih =>
      have hnext : ¬ i + 1#32 = len := by
        rw [hlen, BitVec.add_right_inj, ← BitVec.toNat_inj, BitVec.toNat_ofNat, BitVec.toNat_ofNat]
        omega
      have hlen' : len = i + 1#32 + .ofNat 32 (n + 1) := by
        rw [hlen, Nat.add_comm (n + 1) 1, ← add_ofNat_ofNat]
      rw [compareFrom_eq]
      dsimp only
      by_cases h0 : bytesFrom t.mem p 0 = bytesFrom t.mem q 0
      · have heq : (t.mem p).toInt = (t.mem q).toInt := by
          rwa [bytesFrom_zero, bytesFrom_zero] at h0
        rw [if_neg (not_or.mpr ⟨hnext, not_not_intro heq⟩), lexDiff_of_eq h0, bytesFrom_succ,
          bytesFrom_succ]
        rcases ih { t with reads := t.reads ++ [p] ++ [q] } (p + 1#32) (q + 1#32) (i + 1#32)
          (by omega) hlen' with ⟨hvalue, hreads⟩
        refine ⟨hvalue, fun x hx => ?_⟩
        rcases hreads x hx with hx | hx | hx
        · exact mem_reads_round hx (n + 1)
        · exact .inr (.inl (mem_addrs_succ hx))
        · exact .inr (.inr (mem_addrs_succ hx))
      · have hne : (t.mem p).toInt ≠ (t.mem q).toInt := by
          rwa [bytesFrom_zero, bytesFrom_zero] at h0
        rw [if_pos (.inr hne), lexDiff_of_ne h0, bytesFrom_zero, bytesFrom_zero]
        exact ⟨toInt_signExtend_sub _ _, fun x hx => mem_reads_round hx (n + 1)⟩

/-- What has been read stays in the list. -/
theorem reads_compareFrom (len : UADDR) (t : Traced) (p q i : UADDR) :
    ∀ x ∈ t.reads ++ [p] ++ [q], x ∈ (compareFrom len t p q i).2.reads := by
  generalize hleft : (len - (i + 1#32)).toNat = left
  induction left using Nat.strongRecOn generalizing t p q i with
  | ind left ih =>
    intro x hx
    rw [compareFrom_eq]
    dsimp only
    split
    · exact hx
    · next hgo =>
      have hnext : ¬ i + 1#32 = len := fun h => hgo (.inl h)
      refine ih _ ?_ { t with reads := t.reads ++ [p] ++ [q] } (p + 1#32) (q + 1#32) (i + 1#32)
        rfl x ?_
      · rw [← hleft]
        bv_omega
      · rw [List.append_assoc]
        exact List.mem_append_left _ hx

/-- The rounds of the loop, the first one with its index 0. -/
theorem rounds_eq (hn : 0 < len.toNat) : len = 0#32 + .ofNat 32 (len.toNat - 1 + 1) := by
  rw [Nat.sub_add_cancel hn, BitVec.zero_add, BitVec.ofNat_toNat, BitVec.setWidth_eq]

theorem compared_eq (hlen : len ≠ 0#32) (a b : UADDR) :
    compared mem len a b = lexDiff (bytesFrom mem a) (bytesFrom mem b) len.toNat := by
  have hn : 0 < len.toNat := Nat.pos_of_ne_zero fun h => hlen (BitVec.eq_of_toNat_eq h)
  have hlt := len.isLt
  have h := (compareFrom_spec ⟨mem, [], []⟩ a b 0#32 (len.toNat - 1) (by omega) (rounds_eq hn)).1
  rwa [Nat.sub_add_cancel hn] at h

theorem bytesFrom_inj (i : Nat) : bytesFrom mem a i = bytesFrom mem b i ↔
    mem (a + .ofNat 32 i) = mem (b + .ofNat 32 i) := BitVec.toInt_inj

/-- The first bytes are read whatever the length is. -/
theorem not_orders_zero (mem : UADDR → UBYTE) (a b c : UADDR) : ¬ Orders mem a b c 0#32 := by
  intro h
  have hread : a ∈ (klMemoryCompare ⟨mem, [], []⟩ a b 0#32).2.reads :=
    reads_compareFrom 0#32 ⟨mem, [], []⟩ a b 0#32 a (.head _)
  rcases h.reads a hread with h | h
  · exact absurd h List.not_mem_nil
  · exact absurd h List.not_mem_nil

/-- **Areas are ordered** by their first `len` bytes, for each length but 0. -/
theorem klMemoryCompare_orders_iff (mem : UADDR → UBYTE) (a b c len : UADDR) :
    Orders mem a b c len ↔ len ≠ 0#32 := by
  constructor
  · intro h h0
    exact not_orders_zero mem a b c (h0 ▸ h)
  · intro hlen
    have hn : 0 < len.toNat := Nat.pos_of_ne_zero fun h => hlen (BitVec.eq_of_toNat_eq h)
    refine ⟨?_, fun k hk heq hne => ?_, ?_, fun hab hbc => ?_, fun hab hbc => ?_, fun x hx => ?_⟩
    · rw [compared_eq hlen, lexDiff_eq_zero_iff]
      exact forall₂_congr fun i _ => bytesFrom_inj i
    · rw [compared_eq hlen, lexDiff_first hk (fun i hi => (bytesFrom_inj i).mpr (heq i hi))
        fun h => hne ((bytesFrom_inj k).mp h)]
    · rw [compared_eq hlen, compared_eq hlen, lexDiff_swap, Int.sign_neg]
    · rw [compared_eq hlen] at hab hbc ⊢
      exact lexDiff_trans_le hab hbc
    · rw [compared_eq hlen] at hab hbc ⊢
      exact lexDiff_trans hab hbc
    · have h := (compareFrom_spec ⟨mem, [], []⟩ a b 0#32 (len.toNat - 1)
        (by have := len.isLt; omega) (rounds_eq hn)).2
      rw [Nat.sub_add_cancel hn] at h
      exact (h x hx).resolve_left List.not_mem_nil

/-- Areas of no bytes differ. -/
theorem klMemoryCompare_nothing :
    compared (fun a => if a = 0x1000#32 then 1#8 else 0#8) 0#32 0x1000#32 0x2000#32 = 1 ∧
    ¬ Orders (fun a => if a = 0x1000#32 then 1#8 else 0#8) 0x1000#32 0x2000#32 0x3000#32 0#32 := by
  refine ⟨?_, not_orders_zero _ _ _ _⟩
  unfold compared klMemoryCompare
  rw [compareFrom_eq]
  decide

end Alliance.KL.Memory
