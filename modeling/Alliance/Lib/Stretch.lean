import Mathlib.Data.BitVec
import Mathlib.Logic.Function.Basic
import Mathlib.Algebra.BigOperators.Group.List.Basic
import Mathlib.Tactic.Abel

/-!
# Stretches of a memory

A memory is a function on words. `stretch mem p n` are its cells from `p` on, and a list lies at `p`
(`LiesAt`) if they are its elements. A list in front of another one ends where the other one starts
(`liesAt_append`). The sum of a stretch changes by as much as one of its cells
(`sum_stretch_update`), so that it gives away every change of a single cell.
-/

namespace Alliance.Lib

open Function

variable {α : Type} {w n m i : Nat} {mem mem' : BitVec w → α} {p b : BitVec w} {x : α}
  {l l' : List α}

/-- The cells from `p` on. -/
def stretch (mem : BitVec w → α) (p : BitVec w) (n : Nat) : List α :=
  (List.range n).map fun i => mem (p + .ofNat w i)

/-- The list lies at `p`. -/
def LiesAt (mem : BitVec w → α) (p : BitVec w) (l : List α) : Prop :=
  ∀ i (h : i < l.length), mem (p + .ofNat w i) = l[i]

/-- The addresses from `p` on. -/
def InStretch (p : BitVec w) (n : Nat) (a : BitVec w) : Prop := ∃ i < n, a = p + .ofNat w i

theorem InStretch.mono (h : InStretch p n b) (hn : n ≤ m) : InStretch p m b := by
  obtain ⟨i, hi, he⟩ := h
  exact ⟨i, Nat.lt_of_lt_of_le hi hn, he⟩

theorem add_ofNat_add (p : BitVec w) (m i : Nat) :
    p + .ofNat w (m + i) = p + .ofNat w m + .ofNat w i := by
  rw [BitVec.ofNat_add, BitVec.add_assoc]

theorem add_ofNat_inj (hm : m < 2 ^ w) (hi : i < 2 ^ w) (h : p + .ofNat w m = p + .ofNat w i) :
    m = i := by
  have hnat := congrArg BitVec.toNat (add_left_cancel h)
  rwa [BitVec.toNat_ofNat, BitVec.toNat_ofNat, Nat.mod_eq_of_lt hm, Nat.mod_eq_of_lt hi] at hnat

/-! ## Lists in a memory -/

theorem liesAt_nil : LiesAt mem p [] := fun i h => absurd h (Nat.not_lt_zero i)

theorem liesAt_append :
    LiesAt mem p (l ++ l') ↔ LiesAt mem p l ∧ LiesAt mem (p + .ofNat w l.length) l' := by
  constructor
  · intro h
    refine ⟨fun i hi => ?_, fun i hi => ?_⟩
    · rw [h i (by rw [List.length_append]; omega), List.getElem_append_left hi]
    · rw [← add_ofNat_add, h (l.length + i) (by rw [List.length_append]; omega),
        List.getElem_append_right (Nat.le_add_right _ _)]
      congr 1
      omega
  · intro h i hi
    rw [List.length_append] at hi
    by_cases hl : i < l.length
    · rw [h.1 i hl, List.getElem_append_left hl]
    · obtain ⟨k, rfl⟩ := Nat.exists_eq_add_of_le (Nat.not_lt.mp hl)
      rw [add_ofNat_add, h.2 k (by omega), List.getElem_append_right (Nat.le_add_right _ _)]
      congr 1
      omega

theorem liesAt_cons : LiesAt mem p (x :: l) ↔ mem p = x ∧ LiesAt mem (p + 1) l := by
  have happ := @liesAt_append _ _ mem p [x] l
  rw [List.singleton_append] at happ
  rw [happ]
  refine and_congr_left fun _ => ?_
  constructor
  · intro h
    have h0 := h 0 Nat.one_pos
    rwa [BitVec.add_zero] at h0
  · intro h i hi
    obtain rfl : i = 0 := Nat.lt_one_iff.mp hi
    rwa [BitVec.add_zero]

theorem liesAt_ofFn {f : Fin n → α} :
    LiesAt mem p (List.ofFn f) ↔ ∀ i : Fin n, mem (p + .ofNat w i) = f i := by
  constructor
  · intro h i
    rw [h i (by rw [List.length_ofFn]; exact i.isLt), List.getElem_ofFn]
  · intro h i hi
    rw [List.getElem_ofFn]
    exact h ⟨i, _⟩

/-! ## What one cell changes -/

theorem stretch_succ : stretch mem p (n + 1) = stretch mem p n ++ [mem (p + .ofNat w n)] := by
  unfold stretch
  rw [List.range_succ, List.map_append]
  rfl

theorem stretch_update_outside (h : ¬ InStretch p n b) :
    stretch (update mem b x) p n = stretch mem p n := by
  unfold stretch
  refine List.map_congr_left fun i hi => update_of_ne (fun he => h ?_) _ _
  exact ⟨i, List.mem_range.mp hi, he.symm⟩

/-- **The sum** of a stretch changes as a cell in it does. -/
theorem sum_stretch_update [AddCommGroup α] (hn : n ≤ 2 ^ w) (h : InStretch p n b) :
    (stretch (update mem b x) p n).sum = (stretch mem p n).sum + (x - mem b) := by
  induction n with
  | zero =>
      obtain ⟨i, hi, -⟩ := h
      exact absurd hi (Nat.not_lt_zero i)
  | succ n ih =>
      rw [stretch_succ, stretch_succ, List.sum_append, List.sum_append, List.sum_singleton,
        List.sum_singleton]
      by_cases hb : InStretch p n b
      · have hne : p + .ofNat w n ≠ b := by
          intro he
          obtain ⟨i, hi, rfl⟩ := hb
          exact absurd (add_ofNat_inj (by omega) (by omega) he) (by omega)
        rw [ih (by omega) hb, update_of_ne hne]
        abel
      · obtain ⟨i, hi, rfl⟩ := h
        obtain rfl : i = n := by
          by_contra hin
          exact hb ⟨i, by omega, rfl⟩
        rw [stretch_update_outside hb, update_self]
        abel

theorem sum_stretch_update_ne [AddCommGroup α] (hn : n ≤ 2 ^ w) (h : InStretch p n b)
    (hx : x ≠ mem b) : (stretch (update mem b x) p n).sum ≠ (stretch mem p n).sum := by
  intro he
  rw [sum_stretch_update hn h] at he
  exact hx (sub_eq_zero.mp (add_eq_left.mp he))

end Alliance.Lib
