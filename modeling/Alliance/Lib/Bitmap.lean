import Mathlib.Logic.Function.Basic

/-!
# Bitmaps in memory

A bitmap is an array of cells of `w` bits; bit `j` is bit `j % w` of cell `j / w`. A bit that is
clear is free. `RunFree` is a run of free bits, which may lie in several cells, and `Marked`
tells which bits a change has marked used. What a program does to one cell is `marked_or`, and
changes of one cell after the other are put together by `Marked.trans`.
-/

namespace Alliance.Lib

open Function

variable {w : Nat} {bitmap bitmap' bitmap'' : Nat → BitVec w} {x mask : BitVec w}
  {i j k m m' n o y : Nat}

/-! ## Free bits -/

/-- The `m` bits of a cell from `o` on are free. -/
def BitsFree (x : BitVec w) (o m : Nat) : Prop := ∀ k < m, x.getLsbD (o + k) = false

instance (x : BitVec w) (o m : Nat) : Decidable (BitsFree x o m) :=
  inferInstanceAs (Decidable (∀ k < m, _))

/-- Bit `j` is free. -/
def BitFree (bitmap : Nat → BitVec w) (j : Nat) : Prop :=
  (bitmap (j / w)).getLsbD (j % w) = false

instance (bitmap : Nat → BitVec w) (j : Nat) : Decidable (BitFree bitmap j) :=
  inferInstanceAs (Decidable (_ = _))

/-- The `n` bits from `i` on are free. -/
def RunFree (bitmap : Nat → BitVec w) (i n : Nat) : Prop := ∀ k < n, BitFree bitmap (i + k)

instance (bitmap : Nat → BitVec w) (i n : Nat) : Decidable (RunFree bitmap i n) :=
  inferInstanceAs (Decidable (∀ k < n, _))

theorem BitsFree.mono (h : BitsFree x o m) (hm : m' ≤ m) : BitsFree x o m' :=
  fun k hk => h k (Nat.lt_of_lt_of_le hk hm)

theorem BitsFree.zero (h : BitsFree x 0 w) : x = 0#w := by
  refine BitVec.eq_of_getLsbD_eq fun k hk => ?_
  rw [← Nat.zero_add k, h k hk, BitVec.getLsbD_zero]

theorem bitFree_cell (hk : k < w) : BitFree bitmap (w * y + k) ↔ (bitmap y).getLsbD k = false := by
  unfold BitFree
  rw [Nat.mul_add_div (by omega), Nat.div_eq_of_lt hk, Nat.add_zero, Nat.mul_add_mod,
    Nat.mod_eq_of_lt hk]

/-- The bits of a run that lie in one cell. -/
theorem RunFree.cell (h : RunFree bitmap i n) (hi : i ≤ w * y + o) (hn : w * y + o + m ≤ i + n)
    (ho : o + m ≤ w) : BitsFree (bitmap y) o m := by
  intro k hk
  have hbit := h (w * y + (o + k) - i) (by omega)
  rwa [show i + (w * y + (o + k) - i) = w * y + (o + k) by omega, bitFree_cell (by omega)] at hbit

/-- No bit of a full cell is free. -/
theorem not_bitFree_full (hw : 0 < w) (hy : bitmap (j / w) = BitVec.allOnes w) :
    ¬ BitFree bitmap j := by
  unfold BitFree
  rw [hy, BitVec.getLsbD_allOnes, decide_eq_true (Nat.mod_lt j hw)]
  exact nofun

/-! ## Changes of one cell -/

theorem bitFree_update (hj : j / w ≠ y) : BitFree (update bitmap y x) j ↔ BitFree bitmap j := by
  unfold BitFree
  rw [update_of_ne hj]

/-- Bits that are put to a cell free none. -/
theorem BitFree.of_or (h : BitFree (update bitmap y (bitmap y ||| mask)) j) : BitFree bitmap j := by
  by_cases hj : j / w = y
  · unfold BitFree at h ⊢
    rw [hj, update_self, BitVec.getLsbD_or, Bool.or_eq_false_iff] at h
    rw [hj]
    exact h.1
  · exact (bitFree_update hj).mp h

/-! ## Marked bits -/

/-- `bitmap'` is `bitmap` with the `n` bits from `i` on marked used. -/
def Marked (bitmap bitmap' : Nat → BitVec w) (i n : Nat) : Prop :=
  ∀ j, BitFree bitmap' j ↔ BitFree bitmap j ∧ ¬ (i ≤ j ∧ j < i + n)

/-- **Bits of one cell** are marked by a mask. -/
theorem marked_or (hm : ∀ k < w, mask.getLsbD k = decide (o ≤ k ∧ k < o + m)) (ho : o + m ≤ w) :
    Marked bitmap (update bitmap y (bitmap y ||| mask)) (w * y + o) m := by
  intro j
  have hj := Nat.div_add_mod j w
  by_cases hy : j / w = y
  · rcases Nat.eq_zero_or_pos w with rfl | hw
    · -- there are no bits
      have hno : m = 0 := by omega
      subst hno
      refine ⟨fun h => ⟨h.of_or, by omega⟩, fun h => ?_⟩
      unfold BitFree
      exact BitVec.getLsbD_of_ge _ _ (Nat.zero_le _)
    · unfold BitFree
      rw [hy, update_self, BitVec.getLsbD_or, hm _ (Nat.mod_lt _ hw), Bool.or_eq_false_iff,
        decide_eq_false_iff_not]
      rw [hy] at hj
      refine and_congr_right fun _ => not_congr ?_
      omega
  · rw [bitFree_update hy]
    refine (and_iff_left fun hin => hy ?_).symm
    have hcomm : w * y = y * w := Nat.mul_comm w y
    have hsucc : (y + 1) * w = y * w + w := Nat.succ_mul y w
    exact Nat.div_eq_of_lt_le (by omega) (by omega)

/-- Runs that are marked one behind the other. -/
theorem Marked.trans (h : Marked bitmap bitmap' i n) (h' : Marked bitmap' bitmap'' (i + n) m) :
    Marked bitmap bitmap'' i (n + m) := by
  intro j
  rw [h' j, h j, and_assoc]
  refine and_congr_right fun _ => ?_
  omega

/-- A run that is marked starts no later than a free bit that the change has marked. -/
theorem Marked.start_le (h : Marked bitmap bitmap' i n) (hj : BitFree bitmap j)
    (hused : ¬ BitFree bitmap' j) : i ≤ j := by
  by_contra hlt
  exact hused ((h j).mpr ⟨hj, fun hin => hlt hin.1⟩)

/-- Two runs that are marked by the same change, of which one is free at its start. -/
theorem Marked.start (h : Marked bitmap bitmap' j m) (h' : Marked bitmap bitmap' i n)
    (hj : BitFree bitmap j) (hm : 0 < m) : i ≤ j :=
  h'.start_le hj fun hf => ((h j).mp hf).2 ⟨Nat.le_refl j, by omega⟩

end Alliance.Lib
