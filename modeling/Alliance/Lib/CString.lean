import Mathlib.Data.List.TakeWhile

/-!
# Strings in memory

A string of C is an array of bytes up to the first 0. `IsString` says which string an array has,
`CString` is a list of bytes that can be one. `cut` is the search for a character.
-/

namespace Alliance.Lib

/-- Where a scan over elements that satisfy `p` stops. -/
theorem span_append {α : Type} {p : α → Bool} {front rest : List α}
    (hfront : ∀ a ∈ front, p a = true) (hrest : ∀ a ∈ rest.head?, p a = false) :
    (front ++ rest).takeWhile p = front ∧ (front ++ rest).dropWhile p = rest := by
  rw [List.takeWhile_append_of_pos hfront, List.dropWhile_append_of_pos hfront]
  cases rest with
  | nil => exact ⟨List.append_nil front, rfl⟩
  | cons a rest =>
      have ha : ¬ p a = true := fun h => Bool.false_ne_true ((hrest a rfl).symm.trans h)
      rw [List.takeWhile_cons_of_neg ha, List.dropWhile_cons_of_neg ha, List.append_nil]
      exact ⟨rfl, rfl⟩

variable {α : Type} [DecidableEq α]

/-- The bytes of a string literal, without its 0. -/
def chars (s : String) : List (BitVec 8) := s.toList.map fun c => .ofNat 8 c.toNat

/-- A string in memory ends at its first 0. -/
structure CString where
  chars : List (BitVec 8)
  nonzero : ∀ c ∈ chars, c ≠ 0#8

/-- The string in an array of characters. -/
structure IsString (a : Nat → BitVec 8) (s : List (BitVec 8)) : Prop where
  chars : ∀ k < s.length, s[k]? = some (a k)
  ends : a s.length = 0#8

/-! ## The first occurrence of a character -/

/-- What is in front of the first `c` in a list, and what is behind it. -/
def cut (s : List α) (c : α) : Option (List α × List α) :=
  match s.dropWhile (· ≠ c) with
  | [] => none
  | _ :: rest => some (s.takeWhile (· ≠ c), rest)

theorem cut_eq {s front rest : List α} {c : α}
    (h : cut s c = some (front, rest)) : s = front ++ c :: rest ∧ c ∉ front := by
  have hsplit : s.takeWhile (· ≠ c) ++ s.dropWhile (· ≠ c) = s := List.takeWhile_append_dropWhile
  have hhead := List.head?_dropWhile_not (· ≠ c) s
  unfold cut at h
  split at h
  · exact absurd h nofun
  · next d rest' hdrop =>
    obtain ⟨rfl, rfl⟩ := Prod.mk.inj (Option.some.inj h)
    rw [hdrop] at hsplit hhead
    obtain rfl : d = c := by simpa using hhead
    exact ⟨hsplit.symm, fun hc => by simpa using List.mem_takeWhile_imp hc⟩

theorem cut_none {s : List α} {c : α} (h : c ∉ s) :
    cut s c = none := by
  cases hm : cut s c with
  | none => rfl
  | some r =>
      obtain ⟨front, rest⟩ := r
      obtain ⟨rfl, -⟩ := cut_eq hm
      exact absurd (List.mem_append_right _ (.head _)) h

theorem cut_isSome {s : List α} {c : α} (h : c ∈ s) :
    ∃ r, cut s c = some r := by
  unfold cut
  split
  · next hdrop =>
    exact absurd (List.dropWhile_eq_nil_iff.mp hdrop c h) (by simp)
  · exact ⟨_, rfl⟩

theorem cut_append {front rest : List α} {c : α} (h : c ∉ front) :
    cut (front ++ c :: rest) c = some (front, rest) := by
  have hfront : ∀ x ∈ front, (decide (x ≠ c)) = true := by
    intro x hx
    exact decide_eq_true fun hxc => h (hxc ▸ hx)
  have hrest : ∀ x ∈ (c :: rest).head?, (decide (x ≠ c)) = false := by
    intro x hx
    exact decide_eq_false fun hne => hne (Option.some.inj hx).symm
  obtain ⟨htake, hdrop⟩ := span_append hfront hrest
  rw [cut, hdrop, htake]

/-! ## The first occurrence of a string -/

/-- Where the first `needle` in a list starts. -/
def find (needle : List α) : List α → Option Nat
  | [] => if needle = [] then some 0 else none
  | c :: s => if needle <+: c :: s then some 0 else (find needle s).map (· + 1)

theorem find_isSome {needle s : List α} : (find needle s).isSome ↔ needle <:+: s := by
  induction s with
  | nil =>
      rw [find, List.infix_nil]
      split
      · next h => exact iff_of_true rfl h
      · next h => exact iff_of_false nofun h
  | cons c s ih =>
      rw [find, List.infix_cons_iff, ← ih]
      split
      · next h => exact iff_of_true rfl (.inl h)
      · next h => rw [Option.isSome_map, or_iff_right h]

theorem find_char {front rest : List α} {c : α} (h : c ∉ front) :
    find [c] (front ++ c :: rest) = some front.length := by
  induction front with
  | nil => exact if_pos ⟨rest, rfl⟩
  | cons d front ih =>
      rw [List.mem_cons, not_or] at h
      rcases h with ⟨hne, hfront⟩
      have hnot : ¬ [c] <+: d :: (front ++ c :: rest) := fun hp =>
        hne (List.cons_prefix_cons.mp hp).1
      rw [List.cons_append, find, if_neg hnot, ih hfront]
      rfl

end Alliance.Lib
