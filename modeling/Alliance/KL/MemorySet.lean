import Alliance.KL.Memory

/-!
# Filling memory (`MemorySet.c`)

`KLmemorySet` stores single bytes until the address is aligned, then eight words at a time, then
single words, and the rest byte by byte. Whatever the address and the length, it stores the byte
once at each address of the area, in order, and nowhere else (`klMemorySet_fills`).
-/

namespace Alliance.KL.Memory

open Function Lib

/-- `((ADDR *) a)[0] = v`. -/
def Traced.writeWord (t : Traced) (a : UADDR) (v : DATA) : Traced :=
  { t with
    mem := update (update (update (update t.mem a (v.extractLsb' 0 8))
      (a + 1#32) (v.extractLsb' 8 8)) (a + 2#32) (v.extractLsb' 16 8)) (a + 3#32)
      (v.extractLsb' 24 8)
    writes := t.writes ++ [a, a + 1#32, a + 2#32, a + 3#32] }

/-! ## `MemorySet.c` -/

/-- `cccc`. -/
def fourTimes (c : UBYTE) : DATA :=
  let cccc := c.setWidth 32
  let cccc := cccc ||| cccc <<< 8
  cccc ||| cccc <<< 16

/-- The alignment loop, with `dstp` and `mylen` behind it. -/
def alignLoop (t : Traced) (dstp : UADDR) (c : UBYTE) (mylen : Nat) : Traced × UADDR × Nat :=
  if dstp.toNat % ADDRSIZE ≠ 0 then
    alignLoop (t.writeByte dstp c) (dstp + 1#32) c (mylen - 1)
  else (t, dstp, mylen)
termination_by (ADDRSIZE - dstp.toNat % ADDRSIZE) % ADDRSIZE
decreasing_by
  rename_i h
  unfold ADDRSIZE at h ⊢
  rw [BitVec.toNat_add]
  have := dstp.isLt
  show (4 - (dstp.toNat + 1) % 2 ^ 32 % 4) % 4 < _
  omega

/-- A round of a loop that stores words: `k` of them. -/
def storeWords (t : Traced) (dstp : UADDR) (c : UBYTE) : Nat → Traced
  | 0 => t
  | k + 1 => storeWords (t.writeWord dstp (fourTimes c)) (dstp + 4#32) c k

/-- The loops that store `k` words in a round. -/
def wordLoop (k : Nat) (t : Traced) (dstp : UADDR) (c : UBYTE) : Nat → Traced × UADDR
  | 0 => (t, dstp)
  | xlen + 1 => wordLoop k (storeWords t dstp c k) (dstp + .ofNat 32 (k * ADDRSIZE)) c xlen

/-- The loop over the last few bytes. -/
def byteLoop (t : Traced) (dstp : UADDR) (c : UBYTE) : Nat → Traced
  | 0 => t
  | mylen + 1 => byteLoop (t.writeByte dstp c) (dstp + 1#32) c mylen

/-- `KLmemorySet`. -/
def klMemorySet (t : Traced) (dstpp : UADDR) (c : UBYTE) (len : Int) : Traced × UADDR :=
  if 8 ≤ len then
    let (t, dstp, mylen) := alignLoop t dstpp c len.toNat
    let (t, dstp) := wordLoop 8 t dstp c (mylen / (ADDRSIZE * 8))
    let mylen := mylen % (ADDRSIZE * 8)
    let (t, dstp) := wordLoop 1 t dstp c (mylen / ADDRSIZE)
    let mylen := mylen % ADDRSIZE
    (byteLoop t dstp c mylen, dstpp)
  else (byteLoop t dstpp c len.toNat, dstpp)

/-! ## Byte by byte -/

variable {t : Traced} {p a : UADDR} {c : UBYTE} {n k : Nat}

theorem byteLoop_add (t : Traced) (p : UADDR) (c : UBYTE) (n k : Nat) :
    byteLoop t p c (n + k) = byteLoop (byteLoop t p c n) (p + .ofNat 32 n) c k := by
  induction n generalizing t p with
  | zero => rw [Nat.zero_add, BitVec.add_zero]; rfl
  | succ n ih =>
      rw [Nat.add_right_comm, byteLoop, ih, byteLoop]
      congr 1
      exact (add_ofNat_ofNat p 1 n).trans (by rw [Nat.add_comm])

theorem fourTimes_bytes : ∀ c : UBYTE, (fourTimes c).extractLsb' 0 8 = c ∧
    (fourTimes c).extractLsb' 8 8 = c ∧ (fourTimes c).extractLsb' 16 8 = c ∧
    (fourTimes c).extractLsb' 24 8 = c := by
  decide +kernel

/-- A word is four bytes. -/
theorem writeWord_fourTimes : t.writeWord p (fourTimes c) = byteLoop t p c 4 := by
  obtain ⟨h0, h1, h2, h3⟩ := fourTimes_bytes c
  unfold Traced.writeWord
  rw [h0, h1, h2, h3]
  simp only [byteLoop, Traced.writeByte, BitVec.add_assoc, List.append_assoc]
  rfl

theorem storeWords_eq (t : Traced) (p : UADDR) (c : UBYTE) (k : Nat) :
    storeWords t p c k = byteLoop t p c (k * ADDRSIZE) := by
  induction k generalizing t p with
  | zero => rw [Nat.zero_mul]; rfl
  | succ k ih =>
      rw [storeWords, ih, writeWord_fourTimes, Nat.succ_mul, Nat.add_comm (k * ADDRSIZE)]
      exact (byteLoop_add t p c 4 _).symm

/-- **A loop that stores words** stores their bytes. -/
theorem wordLoop_eq (k : Nat) (t : Traced) (p : UADDR) (c : UBYTE) (xlen : Nat) :
    wordLoop k t p c xlen =
      (byteLoop t p c (k * ADDRSIZE * xlen), p + .ofNat 32 (k * ADDRSIZE * xlen)) := by
  induction xlen generalizing t p with
  | zero => rw [wordLoop, Nat.mul_zero, BitVec.add_zero]; rfl
  | succ xlen ih =>
      rw [wordLoop, ih, storeWords_eq, ← byteLoop_add, add_ofNat_ofNat,
        show k * ADDRSIZE * (xlen + 1) = k * ADDRSIZE + k * ADDRSIZE * xlen by
          rw [Nat.mul_succ, Nat.add_comm]]

/-- **The alignment loop** stores less than a word. -/
theorem alignLoop_eq (t : Traced) (p : UADDR) (c : UBYTE) (mylen : Nat) :
    ∃ m < ADDRSIZE, alignLoop t p c mylen =
      (byteLoop t p c m, p + .ofNat 32 m, mylen - m) := by
  have key : ∀ m (t : Traced) (p : UADDR) (mylen : Nat),
      (ADDRSIZE - p.toNat % ADDRSIZE) % ADDRSIZE = m → alignLoop t p c mylen =
        (byteLoop t p c m, p + .ofNat 32 m, mylen - m) := by
    intro m
    induction m with
    | zero =>
        intro t p mylen hm
        unfold ADDRSIZE at hm
        rw [alignLoop, if_neg (by unfold ADDRSIZE; omega), BitVec.add_zero]
        rfl
    | succ m ih =>
        intro t p mylen hm
        unfold ADDRSIZE at hm
        have hp := p.isLt
        have hnext : (ADDRSIZE - (p + 1#32).toNat % ADDRSIZE) % ADDRSIZE = m := by
          unfold ADDRSIZE
          rw [BitVec.toNat_add]
          show (4 - (p.toNat + 1) % 2 ^ 32 % 4) % 4 = m
          omega
        rw [alignLoop, if_pos (by unfold ADDRSIZE; omega), ih _ _ _ hnext, byteLoop]
        refine Prod.ext rfl (Prod.ext ?_ (by dsimp only; omega))
        exact (add_ofNat_ofNat p 1 m).trans (by rw [Nat.add_comm])
  exact ⟨_, Nat.mod_lt _ (by decide), key _ t p mylen rfl⟩

/-- What the bytes leave. -/
theorem byteLoop_spec (t : Traced) (p : UADDR) (c : UBYTE) (n : Nat) :
    (∀ a, (byteLoop t p c n).mem a = if a ∈ addrs p n then c else t.mem a) ∧
      (byteLoop t p c n).writes = t.writes ++ addrs p n ∧
      (byteLoop t p c n).reads = t.reads := by
  induction n with
  | zero =>
      refine ⟨fun a => (if_neg List.not_mem_nil).symm, (List.append_nil _).symm, rfl⟩
  | succ n ih =>
      obtain ⟨hmem, hwrites, hreads⟩ := ih
      rw [byteLoop_add, addrs_add]
      refine ⟨fun a => ?_, ?_, hreads⟩
      · show update (byteLoop t p c n).mem (p + .ofNat 32 n) c a = _
        have hone : addrs (p + .ofNat 32 n) 1 = [p + .ofNat 32 n] := by
          show [p + .ofNat 32 n + .ofNat 32 0] = _
          rw [BitVec.add_zero]
        rw [hone]
        by_cases ha : a = p + .ofNat 32 n
        · rw [ha, update_self, if_pos (List.mem_append_right _ (List.mem_singleton_self _))]
        · rw [update_of_ne ha, hmem]
          refine if_congr ?_ rfl rfl
          rw [List.mem_append, List.mem_singleton]
          exact (or_iff_left ha).symm
      · show (byteLoop t p c n).writes ++ [p + .ofNat 32 n] = _
        rw [hwrites, List.append_assoc]
        congr 2
        show _ = [p + .ofNat 32 n + .ofNat 32 0]
        rw [BitVec.add_zero]

theorem klMemorySet_eq (t : Traced) (dstpp : UADDR) (c : UBYTE) (len : Int) :
    klMemorySet t dstpp c len = (byteLoop t dstpp c len.toNat, dstpp) := by
  unfold klMemorySet
  split
  · next hlen =>
    obtain ⟨m, hm, halign⟩ := alignLoop_eq t dstpp c len.toNat
    rw [halign]
    dsimp only
    rw [wordLoop_eq]
    dsimp only
    rw [wordLoop_eq]
    dsimp only
    simp only [add_ofNat_ofNat]
    rw [← byteLoop_add, ← byteLoop_add, ← byteLoop_add]
    unfold ADDRSIZE at hm ⊢
    congr 2
    omega
  · rfl

/-- **Exactly the area** is filled, for any address and length. -/
theorem klMemorySet_fills (t : Traced) (dstpp : UADDR) (c : UBYTE) (len : Int) :
    (klMemorySet t dstpp c len).2 = dstpp ∧
      (∀ a, (klMemorySet t dstpp c len).1.mem a =
        if a ∈ addrs dstpp len.toNat then c else t.mem a) ∧
      (klMemorySet t dstpp c len).1.writes = t.writes ++ addrs dstpp len.toNat ∧
      (klMemorySet t dstpp c len).1.reads = t.reads := by
  rw [klMemorySet_eq]
  exact ⟨rfl, byteLoop_spec t dstpp c len.toNat⟩

end Alliance.KL.Memory
