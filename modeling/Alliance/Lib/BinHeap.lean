import Mathlib.Data.Multiset.Range
import Mathlib.Logic.Function.Basic

/-!
# Binary heaps with a hole

A heap lives in the first `n` slots of an array, slot `i` above slots `2i+1` and
`2i+2`. Sifting moves a *hole* through the array and writes the sifted entry `x`
only at the end, so the state between two rounds of a sift is an array, a hole,
and an entry that is nowhere.

`UpOrder` and `DownOrder` are the two loop invariants: every pair off the hole is
in order, and the hole's neighbours are in the order that the direction of the
sift needs. Each has a rule for one round (`move`) and one for the last write
(`finish`).

The order is only asked to be one on the entries at hand: `WeakOrderOn lt P` says
that `lt` is a strict weak order on the entries satisfying `P`.
-/

namespace Alliance.Lib.BinHeap

open Function

variable {α : Type}

/-! ## The shape of the tree -/

/-- The slot above slot `i`. -/
def parent (i : Nat) : Nat := (i - 1) / 2

/-- The left child of slot `i`. -/
def lchild (i : Nat) : Nat := 2 * i + 1

/-- The right child of slot `i`. -/
def rchild (i : Nat) : Nat := 2 * i + 2

theorem parent_lt {i : Nat} (h : 0 < i) : parent i < i := by unfold parent; omega

theorem lt_lchild (i : Nat) : i < lchild i := by unfold lchild; omega

theorem lt_rchild (i : Nat) : i < rchild i := by unfold rchild; omega

theorem parent_eq_iff {c p : Nat} (h : 0 < c) : parent c = p ↔ c = lchild p ∨ c = rchild p := by
  unfold parent lchild rchild; omega

theorem parent_lchild (p : Nat) : parent (lchild p) = p := by unfold parent lchild; omega

theorem parent_rchild (p : Nat) : parent (rchild p) = p := by unfold parent rchild; omega

theorem lchild_le_of_parent {c p : Nat} (h : 0 < c) (hp : parent c = p) : lchild p ≤ c := by
  rcases (parent_eq_iff h).mp hp with rfl | rfl <;> unfold lchild <;> simp [rchild]

/-! ## Entries -/

/-- The entries of the first `n` slots. -/
def slots (a : Nat → α) (n : Nat) : Multiset α := (Multiset.range n).map a

theorem slots_succ (a : Nat → α) (n : Nat) : slots a (n + 1) = a n ::ₘ slots a n := by
  simp [slots, Multiset.range_succ]

theorem slots_congr {a b : Nat → α} {n : Nat} (h : ∀ i, i < n → a i = b i) :
    slots a n = slots b n :=
  Multiset.map_congr rfl fun i hi => h i (Multiset.mem_range.mp hi)

theorem mem_slots {a : Nat → α} {n : Nat} {x : α} : x ∈ slots a n ↔ ∃ i, i < n ∧ a i = x := by
  simp [slots]

/-- Overwriting a slot trades its entry for the new one. -/
theorem slots_update {a : Nat → α} {n i : Nat} (h : i < n) (x : α) :
    a i ::ₘ slots (update a i x) n = x ::ₘ slots a n := by
  have hi : i ∈ Multiset.range n := Multiset.mem_range.mpr h
  have hnot : i ∉ (Multiset.range n).erase i := (Multiset.nodup_range n).notMem_erase
  have hrest : ((Multiset.range n).erase i).map (update a i x)
      = ((Multiset.range n).erase i).map a :=
    Multiset.map_congr rfl fun j hj => update_of_ne (ne_of_mem_of_not_mem hj hnot) x a
  unfold slots
  rw [← Multiset.cons_erase hi, Multiset.map_cons, Multiset.map_cons, hrest, update_self,
    Multiset.cons_swap]

/-- Moving the hole from `i` to `j` moves nothing in or out. -/
theorem slots_move {a : Nat → α} {n i j : Nat} (hi : i < n) (hj : j < n) (hij : j ≠ i) (x : α) :
    slots (update (update a i (a j)) j x) n = slots (update a i x) n := by
  have h1 := slots_update (a := update a i (a j)) hj x
  have h2 := slots_update (a := a) hi (a j)
  have h3 := slots_update (a := a) hi x
  rw [update_of_ne hij] at h1
  have h4 : a i ::ₘ a j ::ₘ slots (update (update a i (a j)) j x) n
      = a i ::ₘ a j ::ₘ slots (update a i x) n := by
    rw [h1, Multiset.cons_swap, h2, Multiset.cons_swap x, Multiset.cons_swap (a i), h3]
  simpa using h4

/-! ## Order -/

/-- `lt` is a strict weak order on the entries satisfying `P`. -/
structure WeakOrderOn (lt : α → α → Prop) (P : α → Prop) : Prop where
  /-- No two entries are each before the other. -/
  asymm : ∀ {x y : α}, P x → P y → lt x y → ¬ lt y x
  /-- Being at or after is transitive. -/
  trans : ∀ {x y z : α}, P x → P y → P z → ¬ lt x y → ¬ lt y z → ¬ lt x z

/-- No entry is before the entry above it. -/
def Ordered (lt : α → α → Prop) (a : Nat → α) (n : Nat) : Prop :=
  ∀ i, 0 < i → i < n → ¬ lt (a i) (a (parent i))

/-- The pairs that do not touch the hole are in order. -/
def OrderedExcept (lt : α → α → Prop) (a : Nat → α) (n hole : Nat) : Prop :=
  ∀ i, 0 < i → i < n → i ≠ hole → parent i ≠ hole → ¬ lt (a i) (a (parent i))

/-- The entries below the hole are at or after the entry above it. -/
def Bridged (lt : α → α → Prop) (a : Nat → α) (n hole : Nat) : Prop :=
  0 < hole → ∀ c, 0 < c → c < n → parent c = hole → ¬ lt (a c) (a (parent hole))

/-- What a sift towards the root keeps. -/
structure UpOrder (lt : α → α → Prop) (a : Nat → α) (n hole : Nat) (x : α) : Prop where
  /-- Pairs off the hole are in order. -/
  except : OrderedExcept lt a n hole
  /-- Across the hole too. -/
  bridged : Bridged lt a n hole
  /-- The sifted entry fits above what is below the hole. -/
  below : ∀ c, 0 < c → c < n → parent c = hole → ¬ lt (a c) x

/-- What a sift towards the leaves keeps. -/
structure DownOrder (lt : α → α → Prop) (a : Nat → α) (n hole : Nat) (x : α) : Prop where
  /-- Pairs off the hole are in order. -/
  except : OrderedExcept lt a n hole
  /-- Across the hole too. -/
  bridged : Bridged lt a n hole
  /-- The sifted entry fits below what is above the hole. -/
  above : 0 < hole → ¬ lt x (a (parent hole))

section Order

variable {lt : α → α → Prop} {P : α → Prop} {a : Nat → α} {n hole : Nat} {x : α}

theorem WeakOrderOn.irrefl (w : WeakOrderOn lt P) (hx : P x) : ¬ lt x x :=
  fun h => w.asymm hx hx h h

/-- An ordered heap is in order around any slot. -/
theorem Ordered.except (h : Ordered lt a n) (hole : Nat) : OrderedExcept lt a n hole :=
  fun i h0 hi _ _ => h i h0 hi

theorem Ordered.bridged (w : WeakOrderOn lt P) (hP : ∀ i, i < n → P (a i))
    (h : Ordered lt a n) (hh : hole < n) : Bridged lt a n hole := by
  intro h0 c hc0 hc hpc
  have hp := parent_lt h0
  have hcp : ¬ lt (a c) (a hole) := hpc ▸ h c hc0 hc
  exact w.trans (hP c hc) (hP hole hh) (hP _ (by omega)) hcp (h hole h0 hh)

/-- The root of an ordered heap is at or before every entry. -/
theorem Ordered.root_first (w : WeakOrderOn lt P) (hP : ∀ i, i < n → P (a i))
    (h : Ordered lt a n) : ∀ i, i < n → ¬ lt (a i) (a 0) := by
  intro i
  induction i using Nat.strongRecOn with
  | ind i ih =>
    intro hi
    rcases Nat.eq_zero_or_pos i with rfl | h0
    · exact w.irrefl (hP 0 hi)
    · have hp := parent_lt h0
      exact w.trans (hP i hi) (hP _ (by omega)) (hP 0 (by omega)) (h i h0 hi)
        (ih (parent i) hp (by omega))

theorem Ordered.congr {b : Nat → α} (hab : ∀ i, i < n → a i = b i) (h : Ordered lt a n) :
    Ordered lt b n := by
  intro i h0 hi
  have hp := parent_lt h0
  rw [← hab i hi, ← hab (parent i) (by omega)]
  exact h i h0 hi

/-! ## Sifting towards the root -/

/-- One round of a sift towards the root: the entry above comes down into the hole. -/
theorem UpOrder.move (w : WeakOrderOn lt P) (hP : ∀ i, i < n → i ≠ hole → P (a i)) (hx : P x)
    (o : UpOrder lt a n hole x) (h0 : 0 < hole) (hn : hole < n) (hlt : lt x (a (parent hole))) :
    UpOrder lt (update a hole (a (parent hole))) n (parent hole) x := by
  have hp := parent_lt h0
  have hPp : P (a (parent hole)) := hP _ (by omega) (by omega)
  have hup : 0 < parent hole → ¬ lt (a (parent hole)) (a (parent (parent hole))) := fun hp0 =>
    o.except (parent hole) hp0 (by omega) (by omega) (by have := parent_lt hp0; omega)
  -- a child of the old parent other than the hole was already in order below it
  have hsib : ∀ c, 0 < c → c < n → parent c = parent hole → c ≠ hole →
      ¬ lt (a c) (a (parent hole)) := by
    intro c hc0 hc hpc hne
    have := o.except c hc0 hc hne (by rw [hpc]; omega)
    rwa [hpc] at this
  refine ⟨?_, ?_, ?_⟩
  · intro i hi0 hi hne hpne
    have hih : i ≠ hole := fun he => hpne (by rw [he])
    rw [update_of_ne hih]
    by_cases hph : parent i = hole
    · rw [hph, update_self]
      exact o.bridged h0 i hi0 hi hph
    · rw [update_of_ne hph]
      exact o.except i hi0 hi hih hph
  · intro hp0 c hc0 hc hpc
    have hpp := parent_lt hp0
    rw [update_of_ne (by omega : parent (parent hole) ≠ hole)]
    by_cases hch : c = hole
    · rw [hch, update_self]
      exact hup hp0
    · rw [update_of_ne hch]
      exact w.trans (hP c hc hch) hPp (hP _ (by omega) (by omega)) (hsib c hc0 hc hpc hch) (hup hp0)
  · intro c hc0 hc hpc
    by_cases hch : c = hole
    · rw [hch, update_self]
      exact w.asymm hx hPp hlt
    · rw [update_of_ne hch]
      intro hcx
      have hcp := hsib c hc0 hc hpc hch
      exact w.trans (hP c hc hch) hPp hx hcp (w.asymm hx hPp hlt) hcx

/-- The last write of a sift towards the root. -/
theorem UpOrder.finish (o : UpOrder lt a n hole x)
    (hstop : 0 < hole → ¬ lt x (a (parent hole))) : Ordered lt (update a hole x) n := by
  intro i h0 hi
  have hp := parent_lt h0
  by_cases hih : i = hole
  · subst hih
    rw [update_self, update_of_ne (by omega)]
    exact hstop h0
  · rw [update_of_ne hih]
    by_cases hph : parent i = hole
    · rw [hph, update_self]
      exact o.below i h0 hi hph
    · rw [update_of_ne hph]
      exact o.except i h0 hi hih hph

/-! ## Sifting towards the leaves -/

/-- One round of a sift towards the leaves: the least entry below comes up into the hole. -/
theorem DownOrder.move (w : WeakOrderOn lt P) (hP : ∀ i, i < n → i ≠ hole → P (a i)) (hx : P x)
    (o : DownOrder lt a n hole x) {c : Nat} (hc0 : 0 < c) (hc : c < n) (hpc : parent c = hole)
    (hmin : ∀ s, 0 < s → s < n → parent s = hole → ¬ lt (a s) (a c)) (hlt : lt (a c) x) :
    DownOrder lt (update a hole (a c)) n c x := by
  have hgt : hole < c := hpc ▸ parent_lt hc0
  refine ⟨?_, ?_, ?_⟩
  · intro i hi0 hi hne hpne
    have hp := parent_lt hi0
    by_cases hih : i = hole
    · subst hih
      rw [update_self, update_of_ne (by omega)]
      exact o.bridged hi0 c hc0 hc hpc
    · rw [update_of_ne hih]
      by_cases hph : parent i = hole
      · rw [hph, update_self]
        exact hmin i hi0 hi hph
      · rw [update_of_ne hph]
        exact o.except i hi0 hi hih hph
  · intro _ d hd0 hd hpd
    have hdc : c < d := hpd ▸ parent_lt hd0
    rw [hpc, update_self, update_of_ne (by omega)]
    have := o.except d hd0 hd (by omega) (by omega)
    rwa [hpd] at this
  · intro _
    rw [hpc, update_self]
    exact w.asymm (hP c hc (by omega)) hx hlt

/-- The last write of a sift towards the leaves. -/
theorem DownOrder.finish (o : DownOrder lt a n hole x)
    (hstop : ∀ c, 0 < c → c < n → parent c = hole → ¬ lt (a c) x) :
    Ordered lt (update a hole x) n := by
  intro i h0 hi
  have hp := parent_lt h0
  by_cases hih : i = hole
  · subst hih
    rw [update_self, update_of_ne (by omega)]
    exact o.above h0
  · rw [update_of_ne hih]
    by_cases hph : parent i = hole
    · rw [hph, update_self]
      exact hstop i h0 hi hph
    · rw [update_of_ne hph]
      exact o.except i h0 hi hih hph

/-- An entry that is before the entry above the hole leaves the heap out of order. -/
theorem not_ordered_update (h0 : 0 < hole) (hn : hole < n) (hlt : lt x (a (parent hole))) :
    ¬ Ordered lt (update a hole x) n := by
  intro h
  have hp := parent_lt h0
  have := h hole h0 hn
  rw [update_self, update_of_ne (by omega)] at this
  exact this hlt

end Order

end Alliance.Lib.BinHeap
