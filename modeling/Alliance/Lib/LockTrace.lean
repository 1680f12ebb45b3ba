/-!
# Traces of locks

A program that logs what it does to its locks, newest first. `heldAfter` replays a log for one
caller: it may not enter what it holds, nor leave what it does not hold. `Holds` follows a caller
from one log to a longer one, and is what each step of a program is described by; a call is
`Balanced` if it starts and ends without a lock.
-/

namespace Alliance.Lib

variable {κ ε : Type}

inductive LockEvent (κ ε : Type) where
  | enter (k : κ)
  | exit (k : κ)
  | other (e : ε)
  deriving DecidableEq, Repr

variable [DecidableEq κ] {log log₁ log₂ tr tr' : List (LockEvent κ ε)} {h h₁ h₂ : List κ} {k : κ}

/-- What a caller that held `h` holds after the events. -/
def heldAfter (h : List κ) : List (LockEvent κ ε) → Option (List κ)
  | [] => some h
  | .enter k :: past => do
    let h ← heldAfter h past
    if k ∈ h then none else some (k :: h)
  | .exit k :: past => do
    let h ← heldAfter h past
    if k ∈ h then some (h.erase k) else none
  | .other _ :: past => heldAfter h past

theorem heldAfter_append (h : List κ) (tr' tr : List (LockEvent κ ε)) :
    heldAfter h (tr' ++ tr) = (heldAfter h tr).bind fun h => heldAfter h tr' := by
  induction tr' with
  | nil => cases hh : heldAfter h tr <;> exact hh
  | cons e tr' ih =>
      cases e with
      | enter k =>
          simp only [List.cons_append, heldAfter, ih]
          cases heldAfter h tr <;> rfl
      | exit k =>
          simp only [List.cons_append, heldAfter, ih]
          cases heldAfter h tr <;> rfl
      | other e =>
          simp only [List.cons_append, heldAfter, ih]

/-- The log has grown, and a caller that held `h` before holds `h₁` now. -/
def Holds (log : List (LockEvent κ ε)) (h : List κ) (log₁ : List (LockEvent κ ε))
    (h₁ : List κ) : Prop :=
  ∃ tr, log₁ = tr ++ log ∧ heldAfter h tr = some h₁

/-- Every lock that was entered was left, and no other. -/
def Balanced (log log₁ : List (LockEvent κ ε)) : Prop := Holds log [] log₁ []

namespace Holds

theorem refl (log : List (LockEvent κ ε)) (h : List κ) : Holds log h log h := ⟨[], rfl, rfl⟩

theorem trans (ha : Holds log h log₁ h₁) (hb : Holds log₁ h₁ log₂ h₂) : Holds log h log₂ h₂ := by
  obtain ⟨tr, rfl, ha⟩ := ha
  obtain ⟨tr', rfl, hb⟩ := hb
  refine ⟨tr' ++ tr, (List.append_assoc ..).symm, ?_⟩
  rw [heldAfter_append, ha]
  exact hb

theorem enter (log : List (LockEvent κ ε)) (hk : k ∉ h) : Holds log h (.enter k :: log) (k :: h) :=
  ⟨[.enter k], rfl, if_neg hk⟩

theorem exit (log : List (LockEvent κ ε)) (k : κ) (h : List κ) :
    Holds log (k :: h) (.exit k :: log) h :=
  ⟨[.exit k], rfl, by simp [heldAfter]⟩

theorem other (log : List (LockEvent κ ε)) (e : ε) (h : List κ) : Holds log h (.other e :: log) h :=
  ⟨[.other e], rfl, rfl⟩

/-- What is held follows from the log. -/
theorem unique (ha : Holds log h log₁ h₁) (hb : Holds log h log₁ h₂) : h₁ = h₂ := by
  obtain ⟨tr, rfl, ha⟩ := ha
  obtain ⟨tr', he, hb⟩ := hb
  obtain rfl := List.append_cancel_right he
  exact Option.some.inj (ha.symm.trans hb)

end Holds

/-- A caller that ends with a lock in hand has not left all it entered. -/
theorem not_balanced (hh : Holds log [] log₁ (k :: h)) : ¬ Balanced log log₁ :=
  fun hb => List.cons_ne_nil k h (hh.unique hb)

end Alliance.Lib
