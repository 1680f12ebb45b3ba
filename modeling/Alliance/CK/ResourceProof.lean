import Alliance.CK.Resource

/-!
# The lists of the owners

The list that an owner heads is linked through `next` and `prev` only, so the two operations
on it leave every other field of every record alone. One call's part on that list is
therefore no part of what follows about traps, I/O regions and owners.
-/

namespace Alliance.CK.Resources

open Function

variable {s s' : Resources} {r c : Addr}

/-- A field of the records, of all of them at once. -/
def field {β : Type} (s : Resources) (f : CKResource → β) (r : Addr) : β := f (s.mem r)

theorem field_setRec {β : Type} (s : Resources) (f : CKResource → β) (r : Addr) (x : CKResource) :
    (s.setRec r x).field f = update (s.field f) r (f x) := by
  funext y
  by_cases h : y = r
  · subst h; simp [field, setRec]
  · simp [field, setRec, h]

theorem field_setRec_of_ne {β : Type} (f : CKResource → β) (x : CKResource) (h : c ≠ r) :
    (s.setRec r x).field f c = s.field f c := by
  rw [field_setRec, update_of_ne h]

/-- A store that does not change the field. -/
theorem field_setRec_same {β : Type} {f : CKResource → β} {x : CKResource}
    (h : f x = f (s.mem r)) : (s.setRec r x).field f = s.field f := by
  rw [field_setRec, h]
  exact update_eq_self r (s.field f)

section

variable {β : Type} {f : CKResource → β} (hnext : ∀ x v, f { x with next := v } = f x)
  (hprev : ∀ x v, f { x with prev := v } = f x) (k : ResourceSignature) (owner : Addr)

include hnext hprev

theorem field_linkResource : (s.linkResource k owner c).field f = s.field f := by
  have h₁ : ((s.setNext c NIL).setPrev c (s.head k owner)).field f = s.field f :=
    (field_setRec_same (hprev _ _)).trans (field_setRec_same (hnext _ _))
  unfold linkResource
  simp only
  split
  · exact (field_setRec_same (hnext _ _)).trans h₁
  · exact h₁

theorem field_unlinkResource : (s.unlinkResource k r).field f = s.field f := by
  unfold unlinkResource
  generalize hs₁ : (if (s.mem r).prev ≠ NIL then s.setNext (s.mem r).prev (s.mem r).next
    else s) = s₁
  have h₁ : s₁.field f = s.field f := by
    rw [← hs₁]
    split
    · exact field_setRec_same (hnext _ _)
    · rfl
  simp only
  split
  · exact (field_setRec_same (hprev _ _)).trans h₁
  · exact h₁

end

/-- The two operations on an owner's list store into links and heads of that kind only. -/
theorem linkResource_rest (s : Resources) (k : ResourceSignature) (owner c : Addr) :
    (s.linkResource k owner c).trapHeads = s.trapHeads ∧
      (s.linkResource k owner c).held = s.held ∧
      (s.linkResource k owner c).allocated = s.allocated ∧
      (s.linkResource k owner c).records = s.records := by
  unfold linkResource
  simp only
  split <;> exact ⟨rfl, rfl, rfl, rfl⟩

theorem unlinkResource_rest (s : Resources) (k : ResourceSignature) (r : Addr) :
    (s.unlinkResource k r).trapHeads = s.trapHeads ∧ (s.unlinkResource k r).held = s.held ∧
      (s.unlinkResource k r).allocated = s.allocated ∧
      (s.unlinkResource k r).records = s.records := by
  unfold unlinkResource
  simp only
  split <;> split <;> exact ⟨rfl, rfl, rfl, rfl⟩

theorem enter_eq_some {m : CKMutex} (h : s.enter m = some s') :
    s.held m = false ∧ s' = { s with held := update s.held m true } := by
  unfold enter at h
  split at h
  · exact absurd h (by simp)
  · next hm => exact ⟨Bool.eq_false_iff.mpr hm, (Option.some.inj h).symm⟩

theorem enter_of_free {m : CKMutex} (h : s.held m = false) :
    s.enter m = some { s with held := update s.held m true } := by
  rw [enter, if_neg (by simp [h])]

/-- Leaving what was entered. -/
theorem exit_held {m : CKMutex} {held : CKMutex → Bool} (h : held m = false) :
    update (update held m true) m false = held := by
  rw [update_idem, ← h, update_eq_self]

theorem map_fst_eq_some {x : Option (Resources × DATA)} (h : x.map Prod.fst = some s') :
    ∃ e, x = some (s', e) := by
  obtain ⟨⟨s₁, e⟩, hx, rfl⟩ := Option.map_eq_some_iff.mp h
  exact ⟨e, hx⟩

end Alliance.CK.Resources
