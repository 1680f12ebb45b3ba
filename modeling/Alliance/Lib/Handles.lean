import Mathlib.Data.List.Nodup
import Mathlib.Data.List.Perm.Subperm

/-!
# Tables that give out handles

A handle is the number of an entry of a table. `Given` says that the handles which were given out
and not taken back are those of the entries in use, each of them once. As long as it holds, a
search for a free entry finds one exactly if fewer handles are out than there are entries
(`Given.exists_free_iff`).
-/

namespace Alliance.Lib

variable {n e : Nat} {used used' : Nat → Prop} {given : List Nat}

/-- The handles in `given` are those of the `n` entries that are used. -/
structure Given (n : Nat) (used : Nat → Prop) (given : List Nat) : Prop where
  nodup : given.Nodup
  mem_iff : ∀ e, e ∈ given ↔ e < n ∧ used e

namespace Given

theorem empty : Given n (fun _ => False) [] :=
  ⟨.nil, fun _ => ⟨fun h => absurd h List.not_mem_nil, fun h => h.2.elim⟩⟩

theorem congr (h : Given n used given) (hused : ∀ i < n, used i ↔ used' i) :
    Given n used' given := by
  refine ⟨h.nodup, fun e => ?_⟩
  rw [h.mem_iff]
  exact and_congr_right fun he => hused e he

/-- A free entry is given out. -/
theorem give (h : Given n used given) (he : e < n) (hfree : ¬ used e) :
    Given n (fun i => i = e ∨ used i) (given ++ [e]) := by
  constructor
  · refine List.Nodup.append h.nodup (List.nodup_singleton e) fun i hi hie => ?_
    obtain rfl := List.mem_singleton.mp hie
    exact hfree ((h.mem_iff i).mp hi).2
  · intro i
    rw [List.mem_append, h.mem_iff, List.mem_singleton]
    constructor
    · intro hi
      rcases hi with ⟨hlt, hused⟩ | rfl
      · exact ⟨hlt, .inr hused⟩
      · exact ⟨he, .inl rfl⟩
    · intro hi
      rcases hi with ⟨hlt, rfl | hused⟩
      · exact .inr rfl
      · exact .inl ⟨hlt, hused⟩

/-- A handle is taken back. -/
theorem take (h : Given n used given) (e : Nat) :
    Given n (fun i => i ≠ e ∧ used i) (given.erase e) := by
  refine ⟨h.nodup.erase e, fun i => ?_⟩
  rw [h.nodup.mem_erase_iff, h.mem_iff]
  exact and_left_comm

theorem length_le (h : Given n used given) : given.length ≤ n := by
  have hin : given ⊆ List.range n := fun e he => List.mem_range.mpr ((h.mem_iff e).mp he).1
  have hle := (List.subperm_of_subset h.nodup hin).length_le
  rwa [List.length_range] at hle

/-- **There is a free entry** exactly if not all handles are out. -/
theorem exists_free_iff (h : Given n used given) : (∃ e < n, ¬ used e) ↔ given.length < n := by
  constructor
  · intro hfree
    rcases hfree with ⟨e, he, hfree⟩
    -- the free entry could be given out, too
    have hle := (h.give he hfree).length_le
    rw [List.length_append, List.length_singleton] at hle
    exact hle
  · intro hlt
    by_contra hall
    have hsub : List.range n ⊆ given := by
      intro e he
      refine (h.mem_iff e).mpr ⟨List.mem_range.mp he, ?_⟩
      by_contra hfree
      exact hall ⟨e, List.mem_range.mp he, hfree⟩
    have hle := (List.subperm_of_subset List.nodup_range hsub).length_le
    rw [List.length_range] at hle
    omega

end Given

end Alliance.Lib
