import Alliance.Lib.Run

/-!
# When a computation has a result

A computation with checks is a chain of `Option.bind`s, each of whose links is a guarded value or
a computation of its own. The rules here turn "it has a result" into the conjunction of the
guards, each about the values of the links before it; over a list of operations, into a condition
along the list.
-/

namespace Alliance.Lib

variable {σ α β : Type}

theorem isSome_bind_iff {x : Option α} {f : α → Option β} :
    (x.bind f).isSome ↔ ∃ a, x = some a ∧ (f a).isSome := by
  cases x with
  | none => simp
  | some a => simp

/-- A guarded value. -/
theorem exists_guard {c : Prop} [Decidable c] {a : α} {p : α → Prop} :
    (∃ x, (if c then some a else none) = some x ∧ p x) ↔ c ∧ p a := by
  by_cases hc : c
  · simp [hc]
  · simp [hc]

theorem isSome_guard {c : Prop} [Decidable c] {a : α} :
    (if c then some a else none).isSome ↔ c := by
  by_cases hc : c
  · simp [hc]
  · simp [hc]

/-- A check in front of a computation. -/
theorem isSome_unless {c : Prop} [Decidable c] {x : Option α} :
    (if c then none else x).isSome ↔ ¬ c ∧ x.isSome := by
  by_cases hc : c
  · simp [hc]
  · simp [hc]

theorem isSome_ite {c : Prop} [Decidable c] {x y : Option α} :
    (if c then x else y).isSome ↔ (c → x.isSome) ∧ (¬ c → y.isSome) := by
  by_cases hc : c
  · simp [hc]
  · simp [hc]

/-- Operations one after the other. -/
theorem isSome_foldlM_iff {step : σ → α → Option σ} {s : σ} {as : List α} :
    (as.foldlM step s).isSome ↔ Along step (fun s a => (step s a).isSome) s as := by
  induction as generalizing s with
  | nil => exact ⟨fun _ => trivial, fun _ => rfl⟩
  | cons a as ih =>
      rw [List.foldlM_cons, Option.bind_eq_bind, isSome_bind_iff]
      constructor
      · rintro ⟨s', hs, hrest⟩
        refine ⟨Option.isSome_iff_exists.mpr ⟨s', hs⟩, fun s'' hs' => ?_⟩
        obtain rfl := Option.some.inj (hs.symm.trans hs')
        exact ih.mp hrest
      · rintro ⟨hs, hrest⟩
        obtain ⟨s', hs⟩ := Option.isSome_iff_exists.mp hs
        exact ⟨s', hs, ih.mpr (hrest s' hs)⟩

/-- Two conditions that are the same at each step are the same along a list. -/
theorem Along.congr {step : σ → α → Option σ} {C C' : σ → α → Prop} (h : ∀ s a, C s a ↔ C' s a)
    {s : σ} {as : List α} : Along step C s as ↔ Along step C' s as := by
  obtain rfl : C = C' := funext fun s => funext fun a => propext (h s a)
  exact Iff.rfl

/-- A check in front of each step of a fold that does not depend on how far the fold is. -/
theorem foldlM_checked {f : σ → α → Option σ} {C : σ → α → Prop} {D : α → Prop}
    [∀ s a, Decidable (C s a)] [DecidablePred D] {I : σ → Prop}
    (hC : ∀ s a, I s → (C s a ↔ D a)) (hkeep : ∀ s a s', I s → f s a = some s' → I s')
    {as : List α} {s : σ} (h : I s) :
    as.foldlM (fun s a => if C s a then f s a else none) s =
      if ∀ a ∈ as, D a then as.foldlM f s else none := by
  induction as generalizing s with
  | nil => rfl
  | cons a as ih =>
      rw [List.foldlM_cons, List.foldlM_cons]
      by_cases hD : D a
      · rw [if_pos ((hC s a h).mpr hD)]
        cases hs : f s a with
        | none => exact (ite_self none).symm
        | some s' =>
            have hall : (∀ b ∈ a :: as, D b) ↔ ∀ b ∈ as, D b := by
              rw [List.forall_mem_cons]
              exact and_iff_right hD
            simp only [hall]
            exact ih (hkeep s a s' h hs)
      · rw [if_neg fun hc => hD ((hC s a h).mp hc), if_neg fun hall => hD (hall a (.head as))]
        rfl

/-- A fold of checks only. -/
theorem foldlM_guard {f : σ → α → Option σ} {D : α → Prop} [DecidablePred D] {as : List α} {s : σ}
    (h : ∀ a ∈ as, f s a = if D a then some s else none) :
    as.foldlM f s = if ∀ a ∈ as, D a then some s else none := by
  induction as with
  | nil => rw [if_pos fun _ ha => absurd ha List.not_mem_nil]; rfl
  | cons a as ih =>
      rw [List.foldlM_cons, h a (.head as)]
      by_cases hD : D a
      · rw [if_pos hD]
        have hall : (∀ b ∈ a :: as, D b) ↔ ∀ b ∈ as, D b := by
          rw [List.forall_mem_cons]
          exact and_iff_right hD
        simp only [hall]
        exact ih fun b hb => h b (.tail a hb)
      · rw [if_neg hD, if_neg fun hall => hD (hall a (.head as))]
        rfl

/-- A part of a value that decides alone what becomes of it. -/
theorem bind_map_congr {τ γ : Type} {g : α → τ} {π : β → γ} {x x' : Option α} {f : α → Option β}
    (h : x.map g = x'.map g) (hf : ∀ a a', g a = g a' → (f a).map π = (f a').map π) :
    (x.bind f).map π = (x'.bind f).map π := by
  cases x with
  | none =>
      obtain rfl := Option.map_eq_none_iff.mp h.symm
      rfl
  | some a =>
      obtain ⟨a', rfl, he⟩ := Option.map_eq_some_iff.mp h.symm
      exact hf a a' he.symm

theorem foldlM_map_congr {τ : Type} {π : σ → τ} {f : σ → α → Option σ}
    (h : ∀ s s' a, π s = π s' → (f s a).map π = (f s' a).map π) {as : List α} {s s' : σ}
    (hs : π s = π s') : (as.foldlM f s).map π = (as.foldlM f s').map π := by
  induction as generalizing s s' with
  | nil => exact congrArg some hs
  | cons a as ih =>
      rw [List.foldlM_cons, List.foldlM_cons]
      exact bind_map_congr (h s s' a hs) fun _ _ he => ih he

/-- Functions that only look at the second components. -/
theorem map_congr_snd {γ : Type} {o o' : Option (α × β)} {f f' : α × β → γ}
    (h : o.map (·.2) = o'.map (·.2)) (hf : ∀ a a' b, f (a, b) = f' (a', b)) :
    o.map f = o'.map f' := by
  cases o with
  | none =>
      obtain rfl := Option.map_eq_none_iff.mp h.symm
      rfl
  | some r =>
      obtain ⟨r', rfl, hr⟩ := Option.map_eq_some_iff.mp h.symm
      obtain ⟨a, b⟩ := r
      obtain ⟨a', b'⟩ := r'
      obtain rfl : b' = b := hr
      exact congrArg some (hf a a' b')

end Alliance.Lib
