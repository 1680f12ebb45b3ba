/-!
# Runs of a partial step function

A component is a state type `σ`, a type `α` of operations, and a step function
`step : σ → α → Option σ` whose `none` stands for an execution the source gives no
meaning to. `Run step C` is the set of executions whose every step meets the
side condition `C`, read in the state the step starts from.

Three rules carry every invariant: `Run.invariant` for a property of states,
`Run.relates` for a property that compares each state with the one the run
started in, and `Run.history` for a property of a state and the operations that
led to it. `Run.simulates` pairs the runs of two components. `exec` computes a run, and
`Along` is the side condition of a run that is yet to be done.
-/

namespace Alliance.Lib

variable {σ α : Type}

/-- The executions of `step` whose steps all meet `C`, from a first to a last state. -/
inductive Run (step : σ → α → Option σ) (C : σ → α → Prop) : σ → List α → σ → Prop
  | nil (s : σ) : Run step C s [] s
  | cons {s s' s'' : σ} {a : α} {as : List α} :
      C s a → step s a = some s' → Run step C s' as s'' → Run step C s (a :: as) s''

variable {step : σ → α → Option σ} {C C' : σ → α → Prop}

/-- A property that one admissible step keeps is kept by every run. -/
theorem Run.invariant {I : σ → Prop}
    (hstep : ∀ {s s' : σ} {a : α}, I s → C s a → step s a = some s' → I s')
    {s s' : σ} {as : List α} (hr : Run step C s as s') (h : I s) : I s' := by
  induction hr with
  | nil _ => exact h
  | cons hC hs _ ih => exact ih (hstep h hC hs)

/-- A relation on the operations done and the two ends of a run, built up step by step. -/
theorem Run.relates {I : σ → Prop} {R : σ → List α → σ → Prop}
    (hstep : ∀ {s s' : σ} {a : α}, I s → C s a → step s a = some s' → I s')
    (hnil : ∀ s, I s → R s [] s)
    (hcons : ∀ {s s' s'' : σ} {a : α} {as : List α},
      I s → C s a → step s a = some s' → R s' as s'' → R s (a :: as) s'')
    {s s' : σ} {as : List α} (hr : Run step C s as s') (h : I s) : R s as s' := by
  induction hr with
  | nil s => exact hnil s h
  | cons hC hs _ ih => exact hcons h hC hs (ih (hstep h hC hs))

/-- A weaker side condition admits more runs. -/
theorem Run.mono (hC : ∀ s a, C s a → C' s a) {s s' : σ} {as : List α}
    (hr : Run step C s as s') : Run step C' s as s' := by
  induction hr with
  | nil s => exact .nil s
  | cons h hs _ ih => exact .cons (hC _ _ h) hs ih

/-- One more step at the end of a run. -/
theorem Run.snoc {s s' s'' : σ} {a : α} {as : List α} (hr : Run step C s as s')
    (hC : C s' a) (hs : step s' a = some s'') : Run step C s (as ++ [a]) s'' := by
  induction hr with
  | nil s => exact .cons hC hs (.nil _)
  | cons h h' _ ih => exact .cons h h' (ih hC hs)

/-- A property of the operations done so far and the state they led to. -/
theorem Run.history {I : List α → σ → Prop} {s s' : σ} {as : List α}
    (hr : Run step C s as s') (h : I [] s)
    (hstep : ∀ {bs : List α} {s₁ s₂ : σ} {a : α},
      Run step C s bs s₁ → I bs s₁ → C s₁ a → step s₁ a = some s₂ → I (bs ++ [a]) s₂) :
    I as s' := by
  -- what is left of the run is done after what was done so far
  have key : ∀ {s₁ s' : σ} {as : List α}, Run step C s₁ as s' →
      ∀ bs, Run step C s bs s₁ → I bs s₁ → I (bs ++ as) s' := by
    intro s₁ s' as hr
    induction hr with
    | nil s₁ => exact fun bs _ h => by rwa [List.append_nil]
    | @cons s₁ s₂ s₃ a as hC hs _ ih =>
        intro bs hbs h
        have := ih (bs ++ [a]) (hbs.snoc hC hs) (hstep hbs h hC hs)
        rwa [List.append_assoc, List.singleton_append] at this
  exact key hr [] (.nil s) h

/-- Two runs one after the other. -/
theorem Run.append {s s' s'' : σ} {as bs : List α} (hr : Run step C s as s')
    (hr' : Run step C s' bs s'') : Run step C s (as ++ bs) s'' := by
  induction hr with
  | nil _ => exact hr'
  | cons h hs _ ih => exact .cons h hs (ih hr')

/-- A property of the part of a list that is done and the state it led to holds at the end of
the fold over the list. -/
theorem foldlM_prefixes {f : σ → α → Option σ} {I : List α → σ → Prop} {l : List α} {s s' : σ}
    (hs : l.foldlM f s = some s') (h0 : I [] s)
    (hstep : ∀ {done a rest s₁ s₂}, l = done ++ a :: rest → I done s₁ → f s₁ a = some s₂ →
      I (done ++ [a]) s₂) : I l s' := by
  -- what is left of the list is done after what was done so far
  have key : ∀ rest done s₁, l = done ++ rest → I done s₁ → rest.foldlM f s₁ = some s' → I l s' := by
    intro rest
    induction rest with
    | nil =>
        intro done s₁ hl h hs
        obtain rfl := Option.some.inj hs
        rwa [hl, List.append_nil]
    | cons a rest ih =>
        intro done s₁ hl h hs
        obtain ⟨s₂, h₂, hs⟩ := Option.bind_eq_some_iff.mp hs
        exact ih (done ++ [a]) s₂ (by rw [hl, List.append_assoc]; rfl) (hstep hl h h₂) hs
  exact key l [] s rfl h0 hs

/-- A fold over the numbers below `n` that goes through the states of a sequence. -/
theorem foldlM_range {f : σ → Nat → Option σ} {g : Nat → σ} {n : Nat}
    (hstep : ∀ i < n, f (g i) i = some (g (i + 1))) :
    (List.range n).foldlM f (g 0) = some (g n) := by
  induction n with
  | zero => rfl
  | succ n ih =>
      rw [List.range_succ, List.foldlM_append, ih fun i hi => hstep i (Nat.lt_succ_of_lt hi)]
      exact congrArg (Option.bind · some) (hstep n (Nat.lt_succ_self n))

/-- A fold whose steps add to a list what they are for. -/
theorem foldlM_appends {β : Type} {f : σ → α → Option σ} {state : List β → σ} {g : α → List β}
    {l : List α} (hstep : ∀ a ∈ l, ∀ bs, f (state bs) a = some (state (bs ++ g a))) (bs : List β) :
    l.foldlM f (state bs) = some (state (bs ++ l.flatMap g)) := by
  induction l generalizing bs with
  | nil => rw [List.flatMap_nil, List.append_nil]; rfl
  | cons a l ih =>
      rw [List.foldlM_cons, hstep a (.head l) bs, List.flatMap_cons, ← List.append_assoc]
      exact ih (fun a ha => hstep a (.tail _ ha)) (bs ++ g a)

/-! ## Simulation -/

/-- A relation that every admissible step keeps, with a step of another component that does
the same operation, pairs every run with a run of that component. -/
theorem Run.simulates {τ : Type} {step' : τ → α → Option τ} {D : τ → α → Prop} {R : σ → τ → Prop}
    (hstep : ∀ {s s' : σ} {t : τ} {a : α}, R s t → C s a → step s a = some s' →
      ∃ t', D t a ∧ step' t a = some t' ∧ R s' t')
    {s s' : σ} {as : List α} (hr : Run step C s as s') {t : τ} (h : R s t) :
    ∃ t', Run step' D t as t' ∧ R s' t' := by
  induction hr generalizing t with
  | nil _ => exact ⟨t, .nil t, h⟩
  | cons hC hs _ ih =>
      obtain ⟨t₁, hD, ht₁, h₁⟩ := hstep h hC hs
      obtain ⟨t', hr', h'⟩ := ih h₁
      exact ⟨t', .cons hD ht₁ hr', h'⟩

/-! ## Side conditions of a list of operations -/

/-- Each operation of the list meets `C` in the state it is done in. -/
def Along (step : σ → α → Option σ) (C : σ → α → Prop) : σ → List α → Prop
  | _, [] => True
  | s, a :: as => C s a ∧ ∀ s', step s a = some s' → Along step C s' as

/-- A condition on the operations alone holds along any execution of them. -/
theorem Along.of_forall {s : σ} {as : List α} (h : ∀ a ∈ as, ∀ s, C s a) : Along step C s as := by
  induction as generalizing s with
  | nil => trivial
  | cons a as ih =>
      exact ⟨h a (.head as) s, fun _ _ => ih fun b hb => h b (.tail a hb)⟩

/-- Two conditions that are the same where an invariant holds that a step keeps are the same along
a list. -/
theorem Along.congr_of_invariant {I : σ → Prop} (h : ∀ {s a}, I s → (C s a ↔ C' s a))
    (hstep : ∀ {s s' a}, I s → C s a → step s a = some s' → I s') {s : σ} {as : List α} (hI : I s) :
    Along step C s as ↔ Along step C' s as := by
  induction as generalizing s with
  | nil => exact Iff.rfl
  | cons a as ih =>
      rw [Along, Along, ← h hI]
      refine and_congr_right fun hC => ?_
      exact forall_congr' fun s' => imp_congr_right fun hs => ih (hstep hI hC hs)

theorem Run.along {s s' : σ} {as : List α} (hr : Run step C s as s') (h : Along step C' s as) :
    Run step (fun s a => C s a ∧ C' s a) s as s' := by
  induction hr with
  | nil s => exact .nil s
  | cons hC hs _ ih => exact .cons ⟨hC, h.1⟩ hs (ih (h.2 _ hs))

/-! ## Computing a run -/

/-- Do the operations one after the other as long as they meet `C`. -/
def exec (step : σ → α → Option σ) (C : σ → α → Prop) [∀ s a, Decidable (C s a)] :
    σ → List α → Option σ
  | s, [] => some s
  | s, a :: as => if C s a then (step s a).bind fun s' => exec step C s' as else none

theorem Run.of_exec [∀ s a, Decidable (C s a)] {s s' : σ} {as : List α}
    (h : exec step C s as = some s') : Run step C s as s' := by
  induction as generalizing s with
  | nil =>
      obtain rfl := Option.some.inj h
      exact .nil s
  | cons a as ih =>
      unfold exec at h
      split at h
      · rename_i hC
        obtain ⟨s₁, hs, hrest⟩ := Option.bind_eq_some_iff.mp h
        exact .cons hC hs (ih hrest)
      · exact absurd h (by simp)

/-- A test that a computed run passes holds at the end of a run. -/
theorem Run.of_exec_any [∀ s a, Decidable (C s a)] {s : σ} {as : List α} {p : σ → Bool}
    (h : (exec step C s as).any p = true) : ∃ s', Run step C s as s' ∧ p s' = true := by
  obtain ⟨s', hs', hp⟩ := (Option.any_eq_true p _).mp h
  exact ⟨s', .of_exec hs', hp⟩

end Alliance.Lib
