import Mathlib.Data.List.Flatten
import Mathlib.Data.List.Perm.Basic

/-!
# Lists made of groups

Nested loops that put something out make a list of it, a part for each round. Which loop is the
outer one does not matter for what is put out (`flatMap_swap_perm`). Where each element says which
group it belongs to, two lists are the same up to order if their groups are (`perm_flatMap_iff`).
-/

namespace Alliance.Lib

variable {α β γ ι : Type} {l : List ι} {f g : ι → List α} {tag : α → ι}

theorem flatMap_swap_perm (l : List α) (m : List β) (f : α → β → List γ) :
    (l.flatMap fun a => m.flatMap fun b => f a b).Perm
      (m.flatMap fun b => l.flatMap fun a => f a b) := by
  induction l with
  | nil =>
      simp only [List.flatMap_nil]
      rw [List.flatMap_eq_nil_iff.mpr fun _ _ => rfl]
  | cons a l ih =>
      simp only [List.flatMap_cons]
      exact (ih.append_left _).trans (List.flatMap_append_perm m (f a) _)

theorem flatMap_filter {p : α → Prop} [DecidablePred p] (l : List α) (f : α → List β) :
    (l.filter p).flatMap f = l.flatMap fun a => if p a then f a else [] := by
  induction l with
  | nil => rfl
  | cons a l ih =>
      rw [List.flatMap_cons, List.filter_cons]
      by_cases ha : p a
      · rw [if_pos (decide_eq_true ha), List.flatMap_cons, if_pos ha, ih]
      · rw [if_neg fun h => ha (of_decide_eq_true h), if_neg ha, ih, List.nil_append]

/-- Groups that are parts of others are the whole of them if that holds for all together. -/
theorem eq_of_flatMap_length {f g : ι → List α} (hsub : ∀ i ∈ l, (f i).Sublist (g i))
    (hlength : (l.flatMap f).length = (l.flatMap g).length) : ∀ i ∈ l, f i = g i := by
  induction l with
  | nil => exact fun i hi => absurd hi List.not_mem_nil
  | cons j l ih =>
      have hj := hsub j List.mem_cons_self
      have hrest : ∀ i ∈ l, (f i).Sublist (g i) := fun i hi => hsub i (List.mem_cons_of_mem j hi)
      have hle := (List.Sublist.flatMap_right l hrest).length_le
      rw [List.flatMap_cons, List.flatMap_cons, List.length_append, List.length_append] at hlength
      have hjlength := hj.length_le
      intro i hi
      rcases List.mem_cons.mp hi with rfl | hi
      · exact hj.eq_of_length (by omega)
      · exact ih hrest (by omega) i hi

/-- Groups of one element at most, which is the one they are for. -/
theorem flatMap_sublist {f : ι → List ι} (hf : ∀ i, (f i).Sublist [i]) (l : List ι) :
    (l.flatMap f).Sublist l := by
  have h := List.Sublist.flatMap_right l fun i _ => hf i
  rwa [List.flatMap_singleton'] at h

/-- The elements of a list that belong to one of its groups are that group. -/
theorem filter_flatMap_tag [DecidableEq ι] (hf : ∀ i, ∀ a ∈ f i, tag a = i) (hl : l.Nodup) {i : ι}
    (hi : i ∈ l) : (l.flatMap f).filter (fun a => tag a = i) = f i := by
  have hself : (f i).filter (fun a => tag a = i) = f i :=
    List.filter_eq_self.mpr fun a ha => decide_eq_true (hf i a ha)
  have hother : ∀ j, j ≠ i → (f j).filter (fun a => tag a = i) = [] := by
    intro j hne
    refine List.filter_eq_nil_iff.mpr fun a ha htag => hne ?_
    rw [← hf j a ha]
    exact of_decide_eq_true htag
  induction l with
  | nil => exact absurd hi List.not_mem_nil
  | cons j l ih =>
      rcases List.nodup_cons.mp hl with ⟨hj, hl⟩
      rw [List.flatMap_cons, List.filter_append]
      by_cases he : j = i
      · -- it is not in the rest
        subst he
        have hrest : (l.flatMap f).filter (fun a => tag a = j) = [] := by
          rw [List.filter_flatMap]
          refine List.flatMap_eq_nil_iff.mpr fun j' hj' => hother j' fun he => hj ?_
          exact he ▸ hj'
        rw [hself, hrest, List.append_nil]
      · rw [hother j he, List.nil_append]
        exact ih hl ((List.mem_cons.mp hi).resolve_left (Ne.symm he))

theorem perm_flatMap_iff [DecidableEq ι] (hf : ∀ i, ∀ a ∈ f i, tag a = i)
    (hg : ∀ i, ∀ a ∈ g i, tag a = i) (hl : l.Nodup) :
    (l.flatMap f).Perm (l.flatMap g) ↔ ∀ i ∈ l, (f i).Perm (g i) := by
  constructor
  · intro h i hi
    have hgroup := h.filter fun a => tag a = i
    rwa [filter_flatMap_tag hf hl hi, filter_flatMap_tag hg hl hi] at hgroup
  · exact fun h => List.Perm.flatMap_left l h

end Alliance.Lib
