import Mathlib.Logic.Function.Basic

/-!
# Queues in a circular array

The items of a queue lie one behind the other in an array of `m` slots, and go on in slot 0
behind the last one. `Ring` says where they lie: from the slot `b` on. What is in the other
slots is left open.

Programs keep two indices, and tell a full array from an empty one by leaving a slot free.
`add_mod_eq_iff` is what their comparison of the two indices means.
-/

namespace Alliance.Lib

open Function

variable {α : Type} {m b i j k : Nat} {slot : Nat → α} {l : List α} {x : α}

/-! ## Indices -/

/-- A step of an index that starts again at 0 behind the last slot. -/
theorem succ_mod (hb : b < m) : (b + 1) % m = if b + 1 = m then 0 else b + 1 := by
  split
  · next h => rw [h, Nat.mod_self]
  · exact Nat.mod_eq_of_lt (by omega)

theorem add_mod_cases (hb : b < m) (hk : k ≤ m) :
    b + k < m ∧ (b + k) % m = b + k ∨ m ≤ b + k ∧ (b + k) % m = b + k - m := by
  by_cases h : b + k < m
  · exact .inl ⟨h, Nat.mod_eq_of_lt h⟩
  · refine .inr ⟨by omega, ?_⟩
    rw [Nat.mod_eq_sub_mod (by omega)]
    exact Nat.mod_eq_of_lt (by omega)

/-- Two indices are the same if nothing or a whole lap is between them. -/
theorem add_mod_eq_iff (hb : b < m) (hk : k ≤ m) : (b + k) % m = b ↔ k = 0 ∨ k = m := by
  rcases add_mod_cases hb hk with ⟨h, he⟩ | ⟨h, he⟩
  · rw [he]
    omega
  · rw [he]
    omega

/-- The items of a queue are in different slots. -/
theorem add_mod_inj (hb : b < m) (hi : i < m) (hj : j < m) :
    (b + i) % m = (b + j) % m ↔ i = j := by
  rcases add_mod_cases hb (Nat.le_of_lt hi) with ⟨h, he⟩ | ⟨h, he⟩ <;>
    rcases add_mod_cases hb (Nat.le_of_lt hj) with ⟨h', he'⟩ | ⟨h', he'⟩
  all_goals
    rw [he, he']
    omega

theorem mod_add_mod_succ (b k m : Nat) : ((b + 1) % m + k) % m = (b + (k + 1)) % m := by
  rw [Nat.mod_add_mod, Nat.add_assoc, Nat.add_comm 1 k]

/-- How far one index is ahead of the other one. -/
theorem ahead_eq (hb : b < m) (hk : k < m) : ((b + k) % m + m - b) % m = k := by
  rcases add_mod_cases hb (Nat.le_of_lt hk) with ⟨h, he⟩ | ⟨h, he⟩
  · rw [he, show b + k + m - b = k + m by omega, Nat.add_mod_right]
    exact Nat.mod_eq_of_lt hk
  · rw [he, show b + k - m + m - b = k by omega]
    exact Nat.mod_eq_of_lt hk

/-! ## Items -/

/-- The items of `l` are in the slots from `b` on. -/
structure Ring (m : Nat) (slot : Nat → α) (b : Nat) (l : List α) : Prop where
  start : b < m
  room : l.length ≤ m
  item : ∀ i (h : i < l.length), slot ((b + i) % m) = l[i]

namespace Ring

theorem empty (hb : b < m) : Ring m slot b [] := ⟨hb, Nat.zero_le m, fun _ h => absurd h (by simp)⟩

/-- Only the slots of the array matter. -/
theorem congr {slot' : Nat → α} (h : Ring m slot b l) (he : ∀ i, i < m → slot' i = slot i) :
    Ring m slot' b l :=
  ⟨h.start, h.room, fun i hi =>
    (he _ (Nat.mod_lt _ (Nat.zero_lt_of_lt h.start))).trans (h.item i hi)⟩

theorem first (h : Ring m slot b (x :: l)) : slot b = x := by
  have := h.item 0 (by simp)
  rwa [Nat.add_zero, Nat.mod_eq_of_lt h.start] at this

/-- **Behind the last item** there is room for one more. -/
theorem push (h : Ring m slot b l) (hl : l.length < m) (x : α) :
    Ring m (update slot ((b + l.length) % m) x) b (l ++ [x]) := by
  refine ⟨h.start, by simpa using Nat.succ_le_of_lt hl, fun i hi => ?_⟩
  rw [List.length_append, List.length_singleton] at hi
  by_cases he : i = l.length
  · subst he
    rw [update_self, List.getElem_concat_length rfl]
  · have hil : i < l.length := by omega
    have hne : (b + i) % m ≠ (b + l.length) % m :=
      fun hm => he ((add_mod_inj h.start (by omega) hl).mp hm)
    rw [update_of_ne hne, List.getElem_append_left hil]
    exact h.item i hil

/-- **The first item** is taken. -/
theorem pop (h : Ring m slot b (x :: l)) : Ring m slot ((b + 1) % m) l := by
  have hroom := h.room
  rw [List.length_cons] at hroom
  refine ⟨Nat.mod_lt _ (by omega), by omega, fun i hi => ?_⟩
  rw [mod_add_mod_succ]
  exact h.item (i + 1) (by simpa using hi)

end Ring

end Alliance.Lib
