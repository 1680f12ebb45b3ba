import Mathlib.Algebra.Order.Group.Defs

/-!
# The first difference of two sequences

`lexDiff f g n` is what `f` and `g` differ by where they first differ, among the first `n`
elements, and 0 if they do not. Its sign orders sequences as a dictionary does: it is 0 for equal
ones, changes when they are swapped, and goes from one sequence over a second one to a third.
-/

namespace Alliance.Lib

variable {α : Type} [AddCommGroup α] [LinearOrder α]

/-- Compare from the front, up to the first element that differs. -/
def lexDiff : (Nat → α) → (Nat → α) → Nat → α
  | _, _, 0 => 0
  | f, g, n + 1 =>
    if f 0 = g 0 then lexDiff (fun i => f (i + 1)) (fun i => g (i + 1)) n else f 0 - g 0

variable {f g h : Nat → α} {n k : Nat}

theorem lexDiff_of_eq (hk : f 0 = g 0) :
    lexDiff f g (n + 1) = lexDiff (fun i => f (i + 1)) (fun i => g (i + 1)) n := if_pos hk

theorem lexDiff_of_ne (hk : f 0 ≠ g 0) : lexDiff f g (n + 1) = f 0 - g 0 := if_neg hk

theorem lexDiff_eq_zero_iff : lexDiff f g n = 0 ↔ ∀ i < n, f i = g i := by
  induction n generalizing f g with
  | zero => exact ⟨fun _ i hi => absurd hi (Nat.not_lt_zero i), fun _ => rfl⟩
  | succ n ih =>
      by_cases h0 : f 0 = g 0
      · rw [lexDiff_of_eq h0, ih]
        constructor
        · intro hrest i hi
          cases i with
          | zero => exact h0
          | succ i => exact hrest i (Nat.lt_of_succ_lt_succ hi)
        · intro hall i hi
          exact hall (i + 1) (Nat.succ_lt_succ hi)
      · rw [lexDiff_of_ne h0, sub_eq_zero]
        exact ⟨fun he => absurd he h0, fun hall => hall 0 (Nat.succ_pos n)⟩

/-- Where the first difference is. -/
theorem lexDiff_first (hk : k < n) (heq : ∀ i < k, f i = g i) (hne : f k ≠ g k) :
    lexDiff f g n = f k - g k := by
  induction k generalizing f g n with
  | zero =>
      cases n with
      | zero => exact absurd hk (Nat.lt_irrefl 0)
      | succ n => exact lexDiff_of_ne hne
  | succ k ih =>
      cases n with
      | zero => exact absurd hk (Nat.not_lt_zero _)
      | succ n =>
          rw [lexDiff_of_eq (heq 0 (Nat.succ_pos k))]
          exact ih (Nat.lt_of_succ_lt_succ hk) (fun i hi => heq (i + 1) (Nat.succ_lt_succ hi)) hne

theorem lexDiff_swap : lexDiff g f n = - lexDiff f g n := by
  induction n generalizing f g with
  | zero => exact neg_zero.symm
  | succ n ih =>
      by_cases h0 : f 0 = g 0
      · rw [lexDiff_of_eq h0, lexDiff_of_eq h0.symm, ih]
      · rw [lexDiff_of_ne h0, lexDiff_of_ne (Ne.symm h0), neg_sub]

theorem lexDiff_congr {f' g' : Nat → α} (hf : ∀ i < n, f i = f' i) (hg : ∀ i < n, g i = g' i) :
    lexDiff f g n = lexDiff f' g' n := by
  induction n generalizing f g f' g' with
  | zero => rfl
  | succ n ih =>
      unfold lexDiff
      rw [hf 0 (Nat.succ_pos n), hg 0 (Nat.succ_pos n),
        ih (fun i hi => hf (i + 1) (Nat.succ_lt_succ hi))
          (fun i hi => hg (i + 1) (Nat.succ_lt_succ hi))]

variable [IsOrderedAddMonoid α]

/-- From the first sequence to the third, over the second. -/
theorem lexDiff_trans (hfg : lexDiff f g n < 0) (hgh : lexDiff g h n < 0) : lexDiff f h n < 0 := by
  induction n generalizing f g h with
  | zero => exact absurd hfg (lt_irrefl 0)
  | succ n ih =>
      by_cases h1 : f 0 = g 0
      · rw [lexDiff_of_eq h1] at hfg
        by_cases h2 : g 0 = h 0
        · rw [lexDiff_of_eq h2] at hgh
          rw [lexDiff_of_eq (h1.trans h2)]
          exact ih hfg hgh
        · rw [lexDiff_of_ne h2] at hgh
          rw [lexDiff_of_ne (h1 ▸ h2), h1]
          exact hgh
      · rw [lexDiff_of_ne h1, sub_neg] at hfg
        by_cases h2 : g 0 = h 0
        · rw [lexDiff_of_ne (h2 ▸ h1), ← h2, sub_neg]
          exact hfg
        · rw [lexDiff_of_ne h2, sub_neg] at hgh
          have hlt := hfg.trans hgh
          rw [lexDiff_of_ne (ne_of_lt hlt), sub_neg]
          exact hlt

theorem lexDiff_trans_le (hfg : lexDiff f g n ≤ 0) (hgh : lexDiff g h n ≤ 0) :
    lexDiff f h n ≤ 0 := by
  rcases eq_or_lt_of_le hfg with h1 | h1
  · rwa [lexDiff_congr (lexDiff_eq_zero_iff.mp h1) fun _ _ => rfl]
  · rcases eq_or_lt_of_le hgh with h2 | h2
    · rw [← lexDiff_congr (fun _ _ => rfl) (lexDiff_eq_zero_iff.mp h2)]
      exact hfg
    · exact le_of_lt (lexDiff_trans h1 h2)

end Alliance.Lib
