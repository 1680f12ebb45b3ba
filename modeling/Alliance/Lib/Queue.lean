import Alliance.Lib.DList
import Mathlib.Logic.Function.Basic

/-!
# Lists with a pointer to the first and to the last node

The nodes are linked forwards only. A program that keeps both ends appends without a walk;
it removes a node that a walk found, together with the node before it.

`Queue` says that the two ends are those of the list `l`. `Queue.push`, `Queue.unlink` and
`search_cases` are what the three operations do to `l`; all changes of links are instances
of `Chained.retarget`.
-/

namespace Alliance.Lib

open Function

variable {α : Type} {nil : α} {next next' : α → α} {l as bs cs : List α} {a p q x y n prev : α}

namespace Chained

/-- A chain visits no node twice. -/
theorem nodup (h : Chained nil next p l) : l.Nodup := by
  induction l generalizing p with
  | nil => exact .nil
  | cons x l ih =>
      refine List.nodup_cons.mpr ⟨fun hx => ?_, ih h.2.2⟩
      obtain ⟨as, bs, rfl⟩ := List.append_of_mem hx
      -- what is behind `x` would be two lists of different lengths
      have hlen := congrArg List.length (h.2.2.unique (after h.2.2))
      simp at hlen
      omega

/-- **A node is made to point elsewhere**: what was behind it is replaced. -/
theorem retarget [DecidableEq α] (h : Chained nil next p (as ++ y :: bs))
    (hcs : Chained nil next q cs) (hy : y ∉ cs) :
    Chained nil (update next y q) p (as ++ y :: cs) := by
  induction as generalizing p with
  | nil =>
      refine ⟨h.1, h.2.1, ?_⟩
      rw [update_self]
      exact hcs.congr fun z hz => update_of_ne (ne_of_mem_of_not_mem hz hy) ..
  | cons a as ih =>
      have hne : a ≠ y := fun e =>
        (List.nodup_cons.mp h.nodup).1 (List.mem_append_right as (e ▸ .head _))
      refine ⟨h.1, h.2.1, ?_⟩
      rw [update_of_ne hne]
      exact ih h.2.2

/-- The last node points to `nil`. -/
theorem next_getLast (h : Chained nil next p (as ++ [y])) : next y = nil :=
  after h

end Chained

/-! ## The two ends -/

/-- The pointers to the first and to the last node. -/
structure Ends (α : Type) where
  first : α
  last : α
  deriving DecidableEq

variable {e : Ends α}

/-- The nodes of `l` are linked from `first` on, and the last of them is `last`. -/
structure Queue (nil : α) (next : α → α) (e : Ends α) (l : List α) : Prop where
  chained : Chained nil next e.first l
  last : e.last = l.getLastD nil

/-- Append a node. -/
def Ends.push [DecidableEq α] (nil : α) (e : Ends α) (next : α → α) (n : α) :
    (α → α) × Ends α :=
  (if e.last ≠ nil then update next e.last n else next,
    { first := if e.first = nil then n else e.first, last := n })

/-- Take out a node with the node before it, which is `nil` for the first. -/
def Ends.unlink [DecidableEq α] (nil : α) (e : Ends α) (next : α → α) (x prev : α) :
    (α → α) × Ends α :=
  (if prev = nil then next else update next prev (next x),
    { first := if prev = nil then next x else e.first
      last := if x = e.last then prev else e.last })

namespace Queue

theorem congr (h : Queue nil next e l) (hf : ∀ y ∈ l, next' y = next y) : Queue nil next' e l :=
  ⟨h.chained.congr hf, h.last⟩

theorem first_eq_nil (h : Queue nil next e l) : e.first = nil ↔ l = [] := by
  cases l with
  | nil => exact iff_of_true h.chained rfl
  | cons x l => exact iff_of_false (h.chained.1 ▸ h.chained.2.1) (List.cons_ne_nil x l)

theorem last_mem (h : Queue nil next e l) (hl : l ≠ []) : e.last ∈ l := by
  rw [h.last, List.getLastD_eq_getLast?, List.getLast?_eq_some_getLast hl]
  exact List.getLast_mem hl

theorem last_eq_nil (h : Queue nil next e l) : e.last = nil ↔ l = [] := by
  constructor
  · intro hlast
    by_contra hl
    exact h.chained.nil_notMem (hlast ▸ h.last_mem hl)
  · intro hl
    rw [h.last, hl]
    rfl

/-- A list is empty or has a last node. -/
theorem cases_last (h : Queue nil next e l) :
    (l = [] ∧ e.first = nil ∧ e.last = nil) ∨
      ∃ as y, l = as ++ [y] ∧ y ≠ nil ∧ e.first ≠ nil ∧ e.last = y := by
  rcases List.eq_nil_or_concat l with hl | ⟨as, y, hl⟩
  · exact .inl ⟨hl, h.first_eq_nil.mpr hl, h.last_eq_nil.mpr hl⟩
  · rw [List.concat_eq_append] at hl
    have hne : l ≠ [] := by simp [hl]
    have hlast : e.last = y := by rw [h.last, hl, List.getLastD_concat]
    exact .inr ⟨as, y, hl, fun hy => hne (h.last_eq_nil.mp (hlast.trans hy)),
      fun hf => hne (h.first_eq_nil.mp hf), hlast⟩

/-- The last node ends the list. -/
theorem next_last (h : Queue nil next e l) (hl : l ≠ []) : next e.last = nil := by
  obtain ⟨hnil, _⟩ | ⟨as, y, rfl, _, _, hy⟩ := h.cases_last
  · exact absurd hnil hl
  · rw [hy]
    exact h.chained.next_getLast

/-- **Appending** a node that is not in the list. -/
theorem push [DecidableEq α] (h : Queue nil next e l) (hn : n ∉ l) (hnil : n ≠ nil)
    (hnext : next n = nil) :
    Queue nil (e.push nil next n).1 (e.push nil next n).2 (l ++ [n]) := by
  refine ⟨?_, (List.getLastD_concat ..).symm⟩
  unfold Ends.push
  obtain ⟨rfl, hf, hlast⟩ | ⟨as, y, rfl, hy, hf, hlast⟩ := h.cases_last
  · -- the node is the only one
    simp only [hf, hlast, ne_eq, not_true_eq_false, if_false, if_true]
    exact ⟨rfl, hnil, hnext⟩
  · simp only [hf, hlast, ne_eq, hy, not_false_eq_true, if_true, if_false]
    rw [List.append_assoc]
    have hcs : Chained nil next n [n] := ⟨rfl, hnil, hnext⟩
    refine h.chained.retarget hcs fun hm => ?_
    obtain rfl := List.mem_singleton.mp hm
    exact hn (List.mem_append_right as (.head _))

/-- **Taking out** a node, with the node before it. -/
theorem unlink [DecidableEq α] (h : Queue nil next e (as ++ x :: bs))
    (hprev : prev = as.getLastD nil) :
    Queue nil (e.unlink nil next x prev).1 (e.unlink nil next x prev).2 (as ++ bs) := by
  have hnodup := h.chained.nodup
  have hnil := h.chained.nil_notMem
  constructor
  · unfold Ends.unlink
    rcases List.eq_nil_or_concat as with rfl | ⟨as, y, rfl⟩
    · obtain rfl : prev = nil := hprev
      rw [if_pos rfl, if_pos rfl]
      exact h.chained.2.2
    · rw [List.concat_eq_append] at h hnodup hnil hprev ⊢
      rw [List.getLastD_concat] at hprev
      obtain rfl := hprev
      have hy : prev ≠ nil := fun e => hnil (by simp [← e])
      simp only [hy, if_false]
      rw [List.append_assoc] at h hnodup ⊢
      have hall : Chained nil next e.first (as ++ prev :: x :: bs) := h.chained
      have hbs : Chained nil next (next x) bs :=
        Chained.after (p := e.first) (l := as ++ [prev]) (by simpa using hall)
      refine hall.retarget hbs fun hm => ?_
      exact (List.nodup_cons.mp (List.nodup_append.mp hnodup).2.1).1 (.tail _ hm)
  · unfold Ends.unlink
    dsimp only
    rcases List.eq_nil_or_concat bs with rfl | ⟨bs, z, rfl⟩
    · -- the last node goes
      have hlast : x = e.last := by rw [h.last, List.getLastD_concat]
      rw [if_pos hlast, hprev, List.append_nil]
    · rw [List.concat_eq_append] at h hnodup ⊢
      have hlast : e.last = z := by
        rw [h.last, ← List.cons_append, ← List.append_assoc, List.getLastD_concat]
      have hxz : x ≠ e.last := by
        rw [hlast]
        intro he
        have hxb := (List.nodup_cons.mp (List.nodup_append.mp hnodup).2.1).1
        exact hxb (List.mem_append_right bs (he ▸ .head _))
      rw [if_neg hxz, hlast, ← List.append_assoc, List.getLastD_concat]

end Queue

/-! ## The walk -/

/-- Walk from `a` on to the first node with `P`, for as many nodes as there is fuel. It
returns the node, or `nil`, and the node before. -/
def search [DecidableEq α] (nil : α) (next : α → α) (P : α → Prop) [DecidablePred P] :
    Nat → α → α → Option (α × α)
  | 0, _, _ => none
  | fuel + 1, a, prev =>
    if a = nil then some (nil, prev)
    else if P a then some (a, prev)
    else search nil next P fuel (next a) a

/-- The walk finds the first node with `P` if there is one. -/
theorem search_cases [DecidableEq α] {P : α → Prop} [DecidablePred P] {fuel : Nat}
    (h : Chained nil next a l) (hf : l.length < fuel) :
    ((∀ y ∈ l, ¬ P y) ∧ ∃ z, search nil next P fuel a prev = some (nil, z)) ∨
      ∃ as x bs, l = as ++ x :: bs ∧ (∀ y ∈ as, ¬ P y) ∧ P x ∧
        search nil next P fuel a prev = some (x, as.getLastD prev) := by
  induction fuel generalizing a l prev with
  | zero => exact absurd hf (Nat.not_lt_zero _)
  | succ fuel ih =>
      cases l with
      | nil =>
          refine .inl ⟨by simp, prev, ?_⟩
          rw [search, if_pos (show a = nil from h)]
      | cons x l =>
          obtain ⟨rfl, hnil, hl⟩ := h
          rw [search, if_neg hnil]
          by_cases hP : P a
          · rw [if_pos hP]
            exact .inr ⟨[], a, l, rfl, by simp, hP, rfl⟩
          · rw [if_neg hP]
            obtain ⟨hnone, hz⟩ | ⟨as, x, bs, rfl, has, hx, hs⟩ :=
              @ih _ _ a hl (Nat.lt_of_succ_lt_succ hf)
            · exact .inl ⟨List.forall_mem_cons.mpr ⟨hP, hnone⟩, hz⟩
            · refine .inr ⟨a :: as, x, bs, rfl, List.forall_mem_cons.mpr ⟨hP, has⟩, hx, ?_⟩
              rw [hs, List.getLastD_cons]

end Alliance.Lib
