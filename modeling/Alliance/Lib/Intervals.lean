import Mathlib.Data.List.Pairwise
import Mathlib.Data.List.Sort

/-!
# Lists of intervals

Intervals that are in order, with a gap between any two of them, are the maximal ones of what
they cover (`mem_iff`), so that two such lists that cover the same are the same list. What a
program puts into such a list in any order, joining what touches, is therefore determined by what
was put in.
-/

namespace Alliance.Lib

variable {α : Type*} [LinearOrder α] {l l' : List (α × α)} {x y : α × α} {a p q : α}

/-- `a` is in one of the intervals, each of which is without its end. -/
def Covered (l : List (α × α)) (a : α) : Prop := ∃ x ∈ l, x.1 ≤ a ∧ a < x.2

/-- The intervals are in order, and none touches the next. -/
structure Separated (l : List (α × α)) : Prop where
  nonempty : ∀ x ∈ l, x.1 < x.2
  apart : l.Pairwise fun x y => x.2 < y.1

namespace Separated

theorem apart_or (h : Separated l) (hx : x ∈ l) (hy : y ∈ l) (hne : x ≠ y) :
    x.2 < y.1 ∨ y.2 < x.1 := by
  have hapart : l.Pairwise fun x y => x.2 < y.1 ∨ y.2 < x.1 := h.apart.imp .inl
  have hsymm : Std.Symm fun x y : α × α => x.2 < y.1 ∨ y.2 < x.1 := ⟨fun _ _ => Or.symm⟩
  exact hapart.forall hx hy hne

/-- Behind an interval is a gap. -/
theorem not_covered_end (h : Separated l) (hx : x ∈ l) : ¬ Covered l x.2 := by
  rintro ⟨y, hy, hle, hlt⟩
  by_cases hne : x = y
  · exact lt_irrefl _ (hne ▸ hlt)
  rcases h.apart_or hx hy hne with hxy | hyx
  · exact absurd hle (not_le.mpr hxy)
  · exact lt_asymm (hlt.trans hyx) (h.nonempty x hx)

/-- So is one before it. -/
theorem exists_gap_before (h : Separated l) (hx : x ∈ l) (ha : a < x.1) :
    ∃ b, a ≤ b ∧ b < x.1 ∧ ¬ Covered l b := by
  by_cases hc : Covered l a
  · obtain ⟨y, hy, hle, hlt⟩ := hc
    have hne : x ≠ y := fun h0 => not_le.mpr ha (h0 ▸ hle)
    rcases h.apart_or hx hy hne with hxy | hyx
    · exact absurd (hle.trans_lt ha) (lt_asymm ((h.nonempty x hx).trans hxy))
    · exact ⟨y.2, hlt.le, hyx, h.not_covered_end hy⟩
  · exact ⟨a, le_rfl, ha, hc⟩

/-- **The intervals** are the maximal ones of what they cover. -/
theorem mem_iff (h : Separated l) : (p, q) ∈ l ↔ p < q ∧ (∀ a, p ≤ a → a < q → Covered l a) ∧
    ¬ Covered l q ∧ ∀ a < p, ∃ b, a ≤ b ∧ b < p ∧ ¬ Covered l b := by
  constructor
  · intro hx
    exact ⟨h.nonempty _ hx, fun a hp hq => ⟨_, hx, hp, hq⟩, h.not_covered_end hx,
      fun a ha => h.exists_gap_before hx ha⟩
  · rintro ⟨hpq, hin, hq, hp⟩
    obtain ⟨x, hx, hle, hlt⟩ := hin p le_rfl hpq
    have hstart : p ≤ x.1 := by
      by_contra hlt'
      obtain ⟨b, hxb, hbp, hb⟩ := hp x.1 (not_le.mp hlt')
      exact hb ⟨x, hx, hxb, hbp.trans hlt⟩
    have hend : x.2 ≤ q := by
      by_contra hlt'
      exact hq ⟨x, hx, hle.trans hpq.le, not_le.mp hlt'⟩
    have hend' : q ≤ x.2 := by
      by_contra hlt'
      exact h.not_covered_end hx (hin x.2 hlt.le (not_le.mp hlt'))
    rwa [le_antisymm hstart hle, le_antisymm hend' hend]

/-- **Lists that cover the same** are the same. -/
theorem eq_of_covered (h : Separated l) (h' : Separated l')
    (hc : ∀ a, Covered l a ↔ Covered l' a) : l = l' := by
  have hsorted : ∀ {l : List (α × α)}, Separated l → l.Pairwise fun x y => x.1 < y.1 := fun h =>
    h.apart.imp_of_mem fun hx _ hxy => (h.nonempty _ hx).trans hxy
  have hirrefl : Std.Irrefl fun x y : α × α => x.1 < y.1 := ⟨fun x => lt_irrefl x.1⟩
  refine (hsorted h).eq_of_mem_iff (hsorted h') fun x => ?_
  rw [show x = (x.1, x.2) from rfl, h.mem_iff, h'.mem_iff]
  simp only [hc]

end Separated

end Alliance.Lib
