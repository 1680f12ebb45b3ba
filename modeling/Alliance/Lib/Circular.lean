import Mathlib.Algebra.Group.Nat.Defs
import Mathlib.Algebra.Group.Int.Defs

/-!
# Circular comparison of machine words

Subtracting two `w`-bit words and looking at the sign of the difference orders
them on a circle. The comparison is not an order on all words, but it is one on
any arc shorter than half the circle: measured from the start of such an arc, it
is the order of the offsets.
-/

namespace Alliance.Lib.Circular

variable {w : Nat}

/-- `x` comes before `y` on the circle: the difference is negative. -/
def Before (x y : BitVec w) : Prop := (x - y).slt 0#w = true

/-- `x` comes before `y` or is `y`, as the sign of the difference sees it. -/
def BeforeEq (x y : BitVec w) : Prop := (x - y).sle 0#w = true

instance (x y : BitVec w) : Decidable (Before x y) := inferInstanceAs (Decidable (_ = true))
instance (x y : BitVec w) : Decidable (BeforeEq x y) := inferInstanceAs (Decidable (_ = true))

/-- How far `x` lies after `b`, going round in the direction of time. -/
def offset (b x : BitVec w) : Nat := (x - b).toNat

/-- `x` lies on the half circle that starts at `b`. -/
def Within (b x : BitVec w) : Prop := 2 * offset b x < 2 ^ w

/-! ## Offsets -/

theorem sub_sub_sub_cancel (x y b : BitVec w) : (x - b) - (y - b) = x - y := by grind

@[simp] theorem offset_self (b : BitVec w) : offset b b = 0 := by simp [offset]

theorem offset_eq_zero {b x : BitVec w} : offset b x = 0 ↔ x = b := by
  constructor
  · intro h
    have h0 : x - b = 0#w := BitVec.eq_of_toNat_eq (by simpa [offset] using h)
    have hx : x = (x - b) + b := (BitVec.sub_add_cancel x b).symm
    rw [hx, h0, BitVec.zero_add]
  · rintro rfl
    exact offset_self x

/-- Moving the start of the arc forward to a point `x` has not passed. -/
theorem offset_rebase {b c x : BitVec w} (h : offset b c ≤ offset b x) :
    offset c x = offset b x - offset b c := by
  unfold offset at h ⊢
  rw [← sub_sub_sub_cancel x c b, BitVec.toNat_sub_of_le (BitVec.le_def.mpr h)]

/-- Going `d` further adds `d` to the offset, as long as the circle is not completed. -/
theorem offset_add {b x d : BitVec w} (h : offset b x + d.toNat < 2 ^ w) :
    offset b (x + d) = offset b x + d.toNat := by
  have hadd : x + d - b = (x - b) + d := by grind
  unfold offset at h ⊢
  rw [hadd, BitVec.toNat_add, Nat.mod_eq_of_lt h]

/-! ## Signed distances -/

theorem beforeEq_iff_toInt {x y : BitVec w} : BeforeEq x y ↔ (x - y).toInt ≤ 0 := by
  unfold BeforeEq
  rw [BitVec.sle_iff_toInt_le, BitVec.toInt_zero]

/-- A distance that fits the word is the difference of the distances. -/
theorem toInt_sub_of_fits {x y : BitVec w} (hl : -2 ^ (w - 1) ≤ x.toInt - y.toInt)
    (hu : x.toInt - y.toInt < 2 ^ (w - 1)) : (x - y).toInt = x.toInt - y.toInt := by
  refine BitVec.toInt_sub_of_not_ssubOverflow ?_
  unfold BitVec.ssubOverflow
  simp only [Bool.or_eq_true, decide_eq_true_eq, not_or, Int.not_le, ge_iff_le]
  omega

/-! ## The comparison on a half circle -/

/-- The sign of a difference, by the natural numbers the two words stand for. -/
theorem slt_zero_sub {u v : BitVec w} (hu : 2 * u.toNat < 2 ^ w) (hv : 2 * v.toNat < 2 ^ w) :
    (u - v).slt 0#w = true ↔ u.toNat < v.toNat := by
  rcases Nat.eq_zero_or_pos w with rfl | hw
  · obtain rfl := Subsingleton.elim u v
    simp
  have hsub : (u - v).toNat = (2 ^ w - v.toNat + u.toNat) % 2 ^ w := BitVec.toNat_sub u v
  rw [BitVec.slt_zero_eq_msb, BitVec.msb_eq_decide, decide_eq_true_iff, hsub]
  have hp : 2 ^ w = 2 * 2 ^ (w - 1) := by
    rw [← Nat.pow_succ', Nat.succ_eq_add_one, Nat.sub_add_cancel hw]
  rcases Nat.lt_or_ge u.toNat v.toNat with h | h
  · rw [Nat.mod_eq_of_lt (by omega)]
    omega
  · have : 2 ^ w - v.toNat + u.toNat = (u.toNat - v.toNat) + 2 ^ w := by omega
    rw [this, Nat.add_mod_right, Nat.mod_eq_of_lt (by omega)]
    omega

/-- On the half circle after `b`, `Before` is the order of the offsets. -/
theorem before_iff {b x y : BitVec w} (hx : Within b x) (hy : Within b y) :
    Before x y ↔ offset b x < offset b y := by
  unfold Before
  rw [← sub_sub_sub_cancel x y b]
  exact slt_zero_sub hx hy

/-- On the half circle after `b`, `BeforeEq` is the opposite of `Before` with the sides exchanged. -/
theorem beforeEq_iff {b x y : BitVec w} (hx : Within b x) (hy : Within b y) :
    BeforeEq x y ↔ ¬ Before y x := by
  have hle : BeforeEq x y ↔ Before x y ∨ x = y := by
    unfold BeforeEq Before
    rw [BitVec.sle_eq_slt_or_eq, Bool.or_eq_true, beq_iff_eq, BitVec.sub_eq_iff_eq_add,
      BitVec.zero_add]
  rw [hle, before_iff hx hy, before_iff hy hx]
  constructor
  · rintro (h | rfl) <;> omega
  · intro h
    rcases Nat.lt_or_ge (offset b x) (offset b y) with hlt | hge
    · exact Or.inl hlt
    · right
      have h0 : offset b x = offset b y := by omega
      have h1 := offset_rebase (Nat.le_of_eq h0)
      rw [h0, Nat.sub_self] at h1
      exact (offset_eq_zero.mp h1).symm

end Alliance.Lib.Circular
