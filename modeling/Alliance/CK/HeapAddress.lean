import Mathlib.Data.BitVec
import Mathlib.Data.Nat.Bitwise
import Mathlib.Tactic.Ring
import Alliance.CK.PriHeap

/-!
# Pointers into a priority heap (`pri_heap.c`)

The heap operations follow pointers and have no indices. `LCHILD`, `RCHILD` and `PARENT` take the
address of a slot to that of another one; the sums that they shift have lost their highest bit,
and `PARENT` puts it back. For a heap in the upper half of memory they are the tree that `PriHeap`
has on indices (`heap_pointers`).
-/

namespace Alliance.CK

open Lib.BinHeap

/-- `ADDRSIZE`: it is an unsigned word, and so is all that it is added to. -/
def ADDRSIZE : UADDR := 4#32

/-- `LCHILD(x)`, for `curHeaps->heap`. -/
def LCHILD (heap x : UADDR) : UADDR := (x <<< 1) - heap + ADDRSIZE

/-- `RCHILD(x)`. -/
def RCHILD (heap x : UADDR) : UADDR := (x <<< 1) - heap + 2#32 * ADDRSIZE

/-- `PARENT(x)`. -/
def PARENT (heap x : UADDR) : UADDR :=
  (((x + heap - ADDRSIZE) >>> 1) &&& ~~~(ADDRSIZE >>> 1)) ||| 0x80000000#32

/-- `&heap[N]`. -/
def slotAddr (heap : UADDR) (N : Nat) : UADDR := heap + ADDRSIZE * .ofNat 32 N

/-- An array of pointers in the upper half of memory. -/
structure HeapArray (heap : UADDR) (slots : Nat) : Prop where
  aligned : heap.toNat % 4 = 0
  high : 0x80000000 ≤ heap.toNat
  inside : heap.toNat + 4 * slots ≤ 2 ^ 32

instance (heap : UADDR) (slots : Nat) : Decidable (HeapArray heap slots) :=
  decidable_of_iff (heap.toNat % 4 = 0 ∧ 0x80000000 ≤ heap.toNat ∧ heap.toNat + 4 * slots ≤ 2 ^ 32)
    ⟨fun ⟨h₁, h₂, h₃⟩ => ⟨h₁, h₂, h₃⟩, fun h => ⟨h.aligned, h.high, h.inside⟩⟩

/-! ## Bits -/

/-- What a mask keeps and what it takes away are the word. -/
theorem and_not_add_and (x m : UADDR) : (x &&& ~~~m) + (x &&& m) = x := by
  have hdisjoint : (x &&& ~~~m) &&& (x &&& m) = 0#32 := by
    ext i
    cases hm : m[i] <;> simp [hm]
  rw [BitVec.add_eq_or_of_and_eq_zero _ _ hdisjoint]
  ext i
  cases hm : m[i] <;> simp [hm]

/-- Bit 1 is taken away. -/
theorem toNat_clear_bit (x : UADDR) :
    (x &&& ~~~(ADDRSIZE >>> 1)).toNat = x.toNat - 2 * (x.toNat / 2 % 2) := by
  have hbit : (x &&& ADDRSIZE >>> 1).toNat = 2 * (x.toNat / 2 % 2) := by
    show (x &&& 2#32).toNat = _
    rw [BitVec.toNat_and, show (2#32).toNat = 2 ^ 1 from rfl, Nat.and_two_pow,
      Nat.testBit_eq_decide_div_mod_eq, pow_one, Nat.mul_comm]
    rcases Nat.mod_two_eq_zero_or_one (x.toNat / 2) with h | h
    · rw [h]; rfl
    · rw [h]; rfl
  have hsum := congrArg BitVec.toNat (and_not_add_and x (ADDRSIZE >>> 1))
  have hle : (x &&& ~~~(ADDRSIZE >>> 1)).toNat ≤ x.toNat := by
    rw [BitVec.toNat_and]
    exact Nat.and_le_left
  have hx := x.isLt
  rw [BitVec.toNat_add, hbit] at hsum
  omega

/-- The highest bit is put back. -/
theorem toNat_set_high {x : UADDR} (h : x.toNat < 0x80000000) :
    (x ||| 0x80000000#32).toNat = x.toNat + 0x80000000 := by
  have hdisjoint : x &&& 0x80000000#32 = 0#32 := by
    apply BitVec.eq_of_toNat_eq
    rw [BitVec.toNat_and, show (0x80000000#32).toNat = 2 ^ 31 from rfl, Nat.and_two_pow,
      Nat.testBit_lt_two_pow h]
    rfl
  rw [← BitVec.add_eq_or_of_and_eq_zero _ _ hdisjoint]
  exact BitVec.toNat_add_of_lt (by rw [show (0x80000000#32).toNat = 0x80000000 from rfl]; omega)

/-! ## Slots -/

variable {heap : UADDR} {slots N : Nat}

theorem HeapArray.toNat_slotAddr (h : HeapArray heap slots) (hN : N < slots) :
    (slotAddr heap N).toNat = heap.toNat + 4 * N := by
  have hinside := h.inside
  have hN32 : (BitVec.ofNat 32 N).toNat = N := Nat.mod_eq_of_lt (by omega)
  have hoffset : (ADDRSIZE * BitVec.ofNat 32 N).toNat = 4 * N := by
    rw [BitVec.toNat_mul, hN32, show ADDRSIZE.toNat = 4 from rfl]
    exact Nat.mod_eq_of_lt (by omega)
  unfold slotAddr
  rw [BitVec.toNat_add, hoffset]
  exact Nat.mod_eq_of_lt (by omega)

/-- The children of a slot, wherever the heap is. -/
theorem child_slotAddr (heap : UADDR) (N k : Nat) :
    (slotAddr heap N <<< 1) - heap + .ofNat 32 k * ADDRSIZE = slotAddr heap (2 * N + k) := by
  have hsucc : BitVec.ofNat 32 (2 * N + k) = .ofNat 32 N + .ofNat 32 N + .ofNat 32 k := by
    rw [Nat.two_mul, BitVec.ofNat_add, BitVec.ofNat_add]
  have hshift : slotAddr heap N <<< 1 = slotAddr heap N + slotAddr heap N := by
    rw [BitVec.shiftLeft_eq_mul_twoPow]
    exact BitVec.mul_two
  rw [hshift]
  unfold slotAddr
  rw [hsucc]
  ring

/-- **`PARENT`**: the sum has lost its highest bit, the shift halves what is left. -/
theorem HeapArray.parent_slotAddr (h : HeapArray heap slots) (hN : N < slots) (h1 : 1 ≤ N) :
    PARENT heap (slotAddr heap N) = slotAddr heap (parent N) := by
  have haligned := h.aligned
  have hhigh := h.high
  have hinside := h.inside
  have hslot := h.toNat_slotAddr hN
  have hparent : (slotAddr heap (parent N)).toNat = heap.toNat + 4 * ((N - 1) / 2) :=
    h.toNat_slotAddr (Nat.lt_trans (parent_lt h1) hN)
  have hsum : (slotAddr heap N + heap - ADDRSIZE).toNat =
      2 * (heap.toNat - 0x80000000) + 4 * (N - 1) := by
    rw [BitVec.toNat_sub, BitVec.toNat_add, hslot, show ADDRSIZE.toNat = 4 from rfl]
    omega
  have hhalf : ((slotAddr heap N + heap - ADDRSIZE) >>> 1).toNat =
      heap.toNat - 0x80000000 + 2 * (N - 1) := by
    rw [BitVec.toNat_ushiftRight, hsum, Nat.shiftRight_eq_div_pow]
    omega
  -- an even slot has an odd one in front of it, and half of that is 2 too many
  have hmasked : (((slotAddr heap N + heap - ADDRSIZE) >>> 1) &&& ~~~(ADDRSIZE >>> 1)).toNat =
      heap.toNat - 0x80000000 + 4 * ((N - 1) / 2) := by
    rw [toNat_clear_bit, hhalf]
    omega
  apply BitVec.eq_of_toNat_eq
  unfold PARENT
  rw [toNat_set_high (by omega), hmasked, hparent]
  omega

/-- **The pointer macros are the tree on indices**, for every heap in the upper half of memory. -/
theorem heap_pointers (h : HeapArray heap slots) (hN : N < slots) :
    (lchild N < slots → LCHILD heap (slotAddr heap N) = slotAddr heap (lchild N)) ∧
    (rchild N < slots → RCHILD heap (slotAddr heap N) = slotAddr heap (rchild N)) ∧
    (1 ≤ N → parent N < slots ∧ PARENT heap (slotAddr heap N) = slotAddr heap (parent N)) := by
  refine ⟨fun _ => ?_, fun _ => ?_, fun h1 => ?_⟩
  · have hchild := child_slotAddr heap N 1
    rwa [BitVec.one_mul] at hchild
  · exact child_slotAddr heap N 2
  · exact ⟨Nat.lt_trans (parent_lt h1) hN, h.parent_slotAddr hN h1⟩

/-- The last slot of a heap of the kernel, right below the top of memory. -/
theorem heap_pointers_top :
    HeapArray 0xFFFFF000#32 MAXEVENTS ∧
    PARENT 0xFFFFF000#32 (slotAddr 0xFFFFF000#32 1023) = slotAddr 0xFFFFF000#32 511 := by
  have h : HeapArray 0xFFFFF000#32 MAXEVENTS := by decide
  exact ⟨h, ((heap_pointers h (show 1023 < MAXEVENTS by decide)).2.2 (by decide)).2⟩

end Alliance.CK
