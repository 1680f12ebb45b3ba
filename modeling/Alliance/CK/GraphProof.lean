import Alliance.CK.Graph
import Mathlib.Order.Nat
import Mathlib.Data.Nat.Find

/-!
# The dependency array stays sorted, grouped and indexed

`ODG.Indexed` is the invariant: the edges are sorted by parent, every header counts
its edges, and a parent's `firstDependency` is the slot where its edges start. A
slot `i` *starts* `v` when its edge leaves `v` and the edge before it does not; in a
sorted table only one slot does.

The two loops are described first, by what they do to the slots and by which cached
pointers they move. Both descriptions are about an arbitrary table; that the pointers
moved are the right ones is where sortedness comes in.
-/

namespace Alliance.CK

open Function Lib

/-! ## The table as a list -/

namespace ODG

theorem length_edges (g : ODG) : g.edges.length = g.lastDep := by simp [edges]

theorem getElem?_edges (g : ODG) (i : Nat) :
    g.edges[i]? = if i < g.lastDep then some (g.oda i) else none := by
  by_cases h : i < g.lastDep
  · simp [edges, h]
  · simp [edges, h]

theorem mem_edges {g : ODG} {e : EDGE} : e ∈ g.edges ↔ ∃ i < g.lastDep, g.oda i = e := by
  simp [edges]

/-- Slot `i` holds an edge of `v` and the slot before it does not. -/
def Starts (g : ODG) (v : Addr) (i : Nat) : Prop := g.parent i = v ∧ g.parentBefore i ≠ v

instance (g : ODG) (v : Addr) (i : Nat) : Decidable (g.Starts v i) :=
  inferInstanceAs (Decidable (_ ∧ _))

/-- The invariant of the dependency array. -/
structure Indexed (g : ODG) : Prop where
  sorted : ∀ i j, i < j → j < g.lastDep → g.parent i ≤ g.parent j
  counted : ∀ v, g.dependencies v = g.edges.countP (fun e => e.parent = v)
  indexed : ∀ v i, i < g.lastDep → g.Starts v i → g.firstDependency v = i
  before : ∀ i < g.lastDep, g.parent i ≠ g.before

/-- No edges, and no header that counts any. -/
structure Empty (g : ODG) : Prop where
  lastDep : g.lastDep = 0
  dependencies : ∀ v, g.dependencies v = 0

theorem Empty.indexed {g : ODG} (h : g.Empty) : g.Indexed where
  sorted i j _ hj := by rw [h.lastDep] at hj; omega
  counted v := by rw [h.dependencies v]; simp [edges, h.lastDep]
  indexed v i hi _ := by rw [h.lastDep] at hi; omega
  before i hi := by rw [h.lastDep] at hi; omega

theorem parentBefore_congr {g g' : ODG} {i : Nat} (hb : g'.before = g.before)
    (h : ∀ j < i, g'.oda j = g.oda j) : g'.parentBefore i = g.parentBefore i := by
  cases i with
  | zero => exact hb
  | succ j => simp only [parentBefore, parent, h j (by omega)]

theorem starts_congr {g g' : ODG} {i : Nat} (v : Addr) (hb : g'.before = g.before)
    (h : ∀ j ≤ i, g'.oda j = g.oda j) : g'.Starts v i ↔ g.Starts v i := by
  unfold Starts
  rw [parentBefore_congr hb fun j hj => h j (by omega), parent, parent, h i le_rfl]

/-- All edges between two edges of `v` are edges of `v`. -/
theorem Indexed.between {g : ODG} (h : g.Indexed) {v : Addr} {i j k : Nat} (hij : i ≤ j)
    (hjk : j ≤ k) (hk : k < g.lastDep) (hi : g.parent i = v) (hv : g.parent k = v) :
    g.parent j = v := by
  have h1 : g.parent i ≤ g.parent j := by
    rcases Nat.lt_or_eq_of_le hij with hlt | rfl
    · exact h.sorted i j hlt (by omega)
    · exact le_rfl
  have h2 : g.parent j ≤ g.parent k := by
    rcases Nat.lt_or_eq_of_le hjk with hlt | rfl
    · exact h.sorted j k hlt hk
    · exact le_rfl
  rw [hi] at h1
  rw [hv] at h2
  exact Nat.le_antisymm h2 h1

/-- Where an edge of `v` has an earlier edge of `v`, it does not start `v`. -/
theorem Indexed.not_starts {g : ODG} (h : g.Indexed) {v : Addr} {i j : Nat} (hij : i < j)
    (hj : j < g.lastDep) (hi : g.parent i = v) : ¬ g.Starts v j := by
  rintro ⟨hp, hne⟩
  cases j with
  | zero => omega
  | succ k => exact hne (h.between (Nat.le_of_lt_succ hij) (Nat.le_succ k) hj hi hp)

/-- The edges of a parent start at its `firstDependency`. -/
theorem Indexed.first {g : ODG} (h : g.Indexed) {v : Addr} {i : Nat} (hi : i < g.lastDep)
    (hv : g.parent i = v) :
    g.firstDependency v ≤ i ∧ g.parent (g.firstDependency v) = v ∧
      ∀ j < g.firstDependency v, g.parent j ≠ v := by
  have hex : ∃ j, g.parent j = v := ⟨i, hv⟩
  have hle : Nat.find hex ≤ i := Nat.find_min' hex hv
  have hstart : g.Starts v (Nat.find hex) := by
    refine ⟨Nat.find_spec hex, ?_⟩
    rcases hk : Nat.find hex with _ | k
    · intro hb
      have := h.before (Nat.find hex) (by omega)
      rw [Nat.find_spec hex] at this
      exact this hb.symm
    · exact Nat.find_min hex (by omega)
  rw [h.indexed v _ (by omega) hstart]
  exact ⟨hle, Nat.find_spec hex, fun j hj => Nat.find_min hex hj⟩

end ODG

/-! ## A store under a test -/

section

variable (g : ODG) (p : Prop) [Decidable p] (v : Addr) (i : Nat)

theorem oda_ite_setFirst : (if p then g.setFirst v i else g).oda = g.oda := by
  split <;> rfl

theorem lastDep_ite_setFirst :
    (if p then g.setFirst v i else g).lastDep = g.lastDep := by
  split <;> rfl

theorem before_ite_setFirst :
    (if p then g.setFirst v i else g).before = g.before := by
  split <;> rfl

theorem dependencies_ite_setFirst :
    (if p then g.setFirst v i else g).dependencies = g.dependencies := by
  split <;> simp

theorem header_ite_setFirst : (if p then g.setFirst v i else g).header = g.header := by
  split <;> simp

/-- Re-basing the parent of slot `k` if the slot starts it. -/
theorem firstDependency_ite_setFirst (k : Nat) (hp : p ↔ g.Starts (g.parent k) k) :
    (if p then g.setFirst (g.parent k) i else g).firstDependency v =
      if g.Starts v k then i else g.firstDependency v := by
  by_cases hs : g.Starts v k
  · have hv : g.parent k = v := hs.1
    subst hv
    rw [if_pos hs, if_pos (hp.mpr hs), ODG.firstDependency_setFirst, update_self]
  · rw [if_neg hs]
    split
    case isTrue h =>
      rw [ODG.firstDependency_setFirst, update_of_ne]
      rintro rfl
      exact hs (hp.mp h)
    case isFalse => rfl

end

/-! ## Making room -/

/-- What `makeRoom` leaves behind: the slots from `k` on have moved up by one, and so
has the pointer of every parent whose edges start among them. -/
structure RoomMade (g : ODG) (p : Addr) (n : Nat) (g' : ODG) (k : Nat) : Prop where
  le : k ≤ n
  below : ∀ i < k, g'.oda i = g.oda i
  above : ∀ i, k ≤ i → i < n → g'.oda (i + 1) = g.oda i
  beyond : ∀ i, n < i → g'.oda i = g.oda i
  later : ∀ i, k ≤ i → i < n → p < g.parent i
  stop : ∀ j, k = j + 1 → g.parent j ≤ p
  lastDep : g'.lastDep = g.lastDep
  before : g'.before = g.before
  dependencies : g'.dependencies = g.dependencies
  header : g'.header = g.header
  moved : ∀ v i, k ≤ i → i < n → g.Starts v i → (∀ j, k ≤ j → j < i → ¬ g.Starts v j) →
    g'.firstDependency v = i + 1
  kept : ∀ v, (∀ i, k ≤ i → i < n → ¬ g.Starts v i) →
    g'.firstDependency v = g.firstDependency v

theorem makeRoom_made (p : Addr) (n : Nat) :
    ∀ g : ODG, RoomMade g p n (makeRoom g p n).1 (makeRoom g p n).2 := by
  induction n with
  | zero =>
    intro g
    exact ⟨by simp [makeRoom], fun _ _ => rfl, fun _ _ h => absurd h (by omega), fun _ _ => rfl,
      fun _ _ h => absurd h (by omega), fun j h => by simp [makeRoom] at h, rfl, rfl, rfl, rfl,
      fun _ _ _ h => absurd h (by omega), fun _ _ => rfl⟩
  | succ n ih =>
    intro g
    rw [makeRoom]
    split
    case isFalse hlt =>
      exact ⟨le_rfl, fun _ _ => rfl, fun _ h h' => absurd h (by omega), fun _ _ => rfl,
        fun _ h h' => absurd h (by omega), fun j hj => by
          rw [← Nat.succ.inj hj]; exact Nat.le_of_not_lt hlt,
        rfl, rfl, rfl, rfl, fun _ _ h h' => absurd h (by omega), fun _ _ => rfl⟩
    case isTrue hlt =>
      -- one round: slot `n` is copied up, and its parent's pointer follows if it starts there
      generalize hg1 : (if g.parent n ≠ g.parentBefore n then
        g.setFirst (g.parent n) (n + 1) else g) = g1
      have hoda : g1.oda = g.oda := by rw [← hg1, oda_ite_setFirst]
      have hlast : g1.lastDep = g.lastDep := by rw [← hg1, lastDep_ite_setFirst]
      have hbef : g1.before = g.before := by rw [← hg1, before_ite_setFirst]
      have hdep : g1.dependencies = g.dependencies := by rw [← hg1, dependencies_ite_setFirst]
      have hhdr : g1.header = g.header := by rw [← hg1, header_ite_setFirst]
      have hfst : ∀ v, g1.firstDependency v =
          if g.Starts v n then n + 1 else g.firstDependency v := by
        intro v
        rw [← hg1]
        exact firstDependency_ite_setFirst g _ v (n + 1) n
          ⟨fun h => ⟨rfl, Ne.symm h⟩, fun h => Ne.symm h.2⟩
      have hst : ∀ v i, i ≤ n →
          ((g1.setDep (n + 1) (g1.oda n)).Starts v i ↔ g.Starts v i) := by
        intro v i hi
        refine ODG.starts_congr v hbef fun j hj => ?_
        simp only [ODG.oda_setDep, hoda]
        exact update_of_ne (by omega) _ _
      have hr := ih (g1.setDep (n + 1) (g1.oda n))
      simp only at hr ⊢
      generalize makeRoom (g1.setDep (n + 1) (g1.oda n)) p n = r at hr ⊢
      have hslot : ∀ i ≤ n, (g1.setDep (n + 1) (g1.oda n)).oda i = g.oda i := by
        intro i hi
        simp only [ODG.oda_setDep, hoda]
        exact update_of_ne (by omega) _ _
      refine ⟨by have := hr.le; omega, ?_, ?_, ?_, ?_, ?_, ?_, ?_, ?_, ?_, ?_, ?_⟩
      · intro i hi
        rw [hr.below i hi, hslot i (by have := hr.le; omega)]
      · intro i hki hi
        rcases Nat.lt_or_eq_of_le (Nat.le_of_lt_succ hi) with hin | rfl
        · rw [hr.above i hki hin, hslot i (by omega)]
        · rw [hr.beyond _ (by omega)]
          simp [hoda]
      · intro i hi
        rw [hr.beyond i (by omega)]
        simp only [ODG.oda_setDep, hoda]
        exact update_of_ne (by omega) _ _
      · intro i hki hi
        rcases Nat.lt_or_eq_of_le (Nat.le_of_lt_succ hi) with hin | rfl
        · have := hr.later i hki hin
          rwa [ODG.parent, hslot i (by omega)] at this
        · exact hlt
      · intro j hj
        have := hr.stop j hj
        rwa [ODG.parent, hslot j (by have := hr.le; omega)] at this
      · rw [hr.lastDep, ODG.lastDep_setDep, hlast]
      · rw [hr.before, ODG.before_setDep, hbef]
      · rw [hr.dependencies, ODG.dependencies_setDep, hdep]
      · rw [hr.header, ODG.header_setDep, hhdr]
      · intro v i hki hi hs hfirst
        rcases Nat.lt_or_eq_of_le (Nat.le_of_lt_succ hi) with hin | rfl
        · exact hr.moved v i hki hin ((hst v i (by omega)).mpr hs) fun j hkj hj hsj =>
            hfirst j hkj hj ((hst v j (by omega)).mp hsj)
        · rw [hr.kept v fun j hkj hj hsj => hfirst j hkj hj ((hst v j (by omega)).mp hsj),
            ODG.firstDependency_setDep, hfst, if_pos hs]
      · intro v hnone
        rw [hr.kept v fun j hkj hj hsj => hnone j hkj (by omega) ((hst v j (by omega)).mp hsj),
          ODG.firstDependency_setDep, hfst, if_neg (hnone n hr.le (by omega))]

/-! ## Closing the gap -/

/-- What `closeGap` leaves behind: the slots behind `k` have moved down by one, and the
pointer of every parent whose edges now start at `k` or later is re-based. -/
structure GapClosed (g : ODG) (k : Nat) (g' : ODG) : Prop where
  below : ∀ i < k, g'.oda i = g.oda i
  moved : ∀ i, k ≤ i → i + 1 < g.lastDep → g'.oda i = g.oda (i + 1)
  lastDep : g'.lastDep = g.lastDep
  before : g'.before = g.before
  dependencies : g'.dependencies = g.dependencies
  header : g'.header = g.header
  rebased : ∀ v i, k ≤ i → i + 1 < g.lastDep → g'.Starts v i →
    (∀ j, i < j → j + 1 < g.lastDep → ¬ g'.Starts v j) → g'.firstDependency v = i
  kept : ∀ v, (∀ i, k ≤ i → i + 1 < g.lastDep → ¬ g'.Starts v i) →
    g'.firstDependency v = g.firstDependency v

theorem closeGap_closed (d : Nat) : ∀ (g : ODG) (k : Nat), g.lastDep - k ≤ d →
    (∀ i < g.lastDep, g.parent i ≠ g.before) → GapClosed g k (closeGap g k) := by
  induction d with
  | zero =>
    intro g k hd _
    rw [closeGap, dif_neg (by omega)]
    exact ⟨fun _ _ => rfl, fun i h h' => absurd h (by omega), rfl, rfl, rfl, rfl,
      fun _ i h h' => absurd h (by omega), fun _ _ => rfl⟩
  | succ d ih =>
    intro g k hd hbef
    rw [closeGap]
    split
    case isFalse hlt =>
      exact ⟨fun _ _ => rfl, fun i h h' => absurd h (by omega), rfl, rfl, rfl, rfl,
        fun _ i h h' => absurd h (by omega), fun _ _ => rfl⟩
    case isTrue hlt =>
      generalize hg0 : g.setDep k (g.oda (k + 1)) = g0
      have hoda0 : ∀ i, g0.oda i = if i = k then g.oda (k + 1) else g.oda i := by
        intro i
        rw [← hg0]
        simp only [ODG.oda_setDep, update_apply]
      have hkbef : g0.parent k ≠ g.before := by
        rw [ODG.parent, hoda0, if_pos rfl]
        exact hbef _ hlt
      -- the test of the source, `currDep == ODA` apart, is that the slot starts its parent
      have htest : (k = 0 ∨ g0.parent k ≠ g0.parentBefore k) ↔ g0.Starts (g0.parent k) k := by
        constructor
        · rintro (rfl | hne)
          · refine ⟨rfl, Ne.symm ?_⟩
            rw [ODG.parentBefore, ← hg0]
            rw [← hg0] at hkbef
            exact hkbef
          · exact ⟨rfl, Ne.symm hne⟩
        · intro hs
          exact .inr (Ne.symm hs.2)
      generalize hg1 : (if k = 0 ∨ g0.parent k ≠ g0.parentBefore k then
        g0.setFirst (g0.parent k) k else g0) = g1
      have hres : (if k = 0 ∨ g0.parent k ≠ g0.parentBefore k then
          closeGap (g0.setFirst (g0.parent k) k) (k + 1) else closeGap g0 (k + 1)) =
          closeGap g1 (k + 1) := by
        rw [← hg1]
        split <;> rfl
      simp only [hres]
      have hoda : g1.oda = g0.oda := by rw [← hg1, oda_ite_setFirst]
      have hlast : g1.lastDep = g.lastDep := by
        rw [← hg1, lastDep_ite_setFirst, ← hg0, ODG.lastDep_setDep]
      have hbefore : g1.before = g.before := by
        rw [← hg1, before_ite_setFirst, ← hg0, ODG.before_setDep]
      have hdep : g1.dependencies = g.dependencies := by
        rw [← hg1, dependencies_ite_setFirst, ← hg0, ODG.dependencies_setDep]
      have hhdr : g1.header = g.header := by
        rw [← hg1, header_ite_setFirst, ← hg0, ODG.header_setDep]
      have hfst : ∀ v, g1.firstDependency v =
          if g0.Starts v k then k else g.firstDependency v := by
        intro v
        have hg0f : g0.firstDependency = g.firstDependency := by rw [← hg0]; rfl
        rw [← hg1, firstDependency_ite_setFirst g0 _ v k k htest, hg0f]
      have hr := ih g1 (k + 1) (by omega) (by
        intro i hi
        rw [hlast] at hi
        rw [hbefore, ODG.parent, hoda, hoda0]
        split
        · exact hbef _ hlt
        · exact hbef _ hi)
      generalize closeGap g1 (k + 1) = g' at hr ⊢
      have hslot : ∀ i ≤ k, g'.oda i = g0.oda i := by
        intro i hi
        rw [hr.below i (by omega), hoda]
      have hb0 : g0.before = g.before := by rw [← hg0]; rfl
      have hst : ∀ v, g'.Starts v k ↔ g0.Starts v k := fun v =>
        ODG.starts_congr v (by rw [hr.before, hbefore, hb0]) hslot
      refine ⟨?_, ?_, ?_, ?_, ?_, ?_, ?_, ?_⟩
      · intro i hi
        rw [hslot i (by omega), hoda0, if_neg (by omega)]
      · intro i hki hi
        rcases Nat.lt_or_eq_of_le hki with hlt' | rfl
        · rw [hr.moved i hlt' (by rw [hlast]; exact hi), hoda, hoda0, if_neg (by omega)]
        · rw [hslot _ le_rfl, hoda0, if_pos rfl]
      · rw [hr.lastDep, hlast]
      · rw [hr.before, hbefore]
      · rw [hr.dependencies, hdep]
      · rw [hr.header, hhdr]
      · intro v i hki hi hs hlater
        rcases Nat.lt_or_eq_of_le hki with hlt' | rfl
        · refine hr.rebased v i hlt' (by rw [hlast]; exact hi) hs fun j hij hj => ?_
          exact hlater j hij (by rw [← hlast]; exact hj)
        · rw [hr.kept v fun j hkj hj => hlater j (by omega) (by rw [← hlast]; exact hj), hfst,
            if_pos ((hst v).mp hs)]
      · intro v hnone
        rw [hr.kept v fun j hkj hj => hnone j (by omega) (by rw [← hlast]; exact hj), hfst,
          if_neg fun hs => hnone k le_rfl hlt ((hst v).mpr hs)]

/-! ## Adding an edge -/

/-- `es'` is `es` with `e` put somewhere in it; all other edges keep their order. -/
def Inserted (e : EDGE) (es es' : List EDGE) : Prop :=
  ∃ xs ys, es = xs ++ ys ∧ es' = xs ++ e :: ys

theorem Inserted.multiset {e : EDGE} {es es' : List EDGE} (h : Inserted e es es') :
    (es' : Multiset EDGE) = e ::ₘ (es : Multiset EDGE) := by
  obtain ⟨xs, ys, rfl, rfl⟩ := h
  exact Multiset.coe_eq_coe.mpr List.perm_middle

theorem Inserted.order {e : EDGE} {es es' : List EDGE} (h : Inserted e es es')
    (p : EDGE → Bool) : (es.filter p).Sublist (es'.filter p) := by
  obtain ⟨xs, ys, rfl, rfl⟩ := h
  exact List.Sublist.filter p ((List.sublist_cons_self e ys).append_left xs)

theorem Inserted.countP {e : EDGE} {es es' : List EDGE} (h : Inserted e es es')
    (p : EDGE → Bool) : es'.countP p = es.countP p + if p e then 1 else 0 := by
  obtain ⟨xs, ys, rfl, rfl⟩ := h
  simp only [List.countP_append, List.countP_cons]
  omega

theorem Inserted.length {e : EDGE} {es es' : List EDGE} (h : Inserted e es es') :
    es'.length = es.length + 1 := by
  obtain ⟨xs, ys, rfl, rfl⟩ := h
  simp only [List.length_append, List.length_cons]
  omega

/-- The table `g'` is `g` with an edge from `p` put into slot `k`, behind the edges of `p`
and of all earlier parents. -/
structure AddedAt (g : ODG) (p c : Addr) (g' : ODG) (k : Nat) : Prop where
  le : k ≤ g.lastDep
  lastDep : g'.lastDep = g.lastDep + 1
  before : g'.before = g.before
  below : ∀ i < k, g'.oda i = g.oda i
  at_slot : g'.oda k = ⟨p, c⟩
  above : ∀ i, k ≤ i → i < g.lastDep → g'.oda (i + 1) = g.oda i
  earlier : ∀ i < k, g.parent i ≤ p
  later : ∀ i, k ≤ i → i < g.lastDep → p < g.parent i

namespace AddedAt

variable {g g' : ODG} {p c : Addr} {k : Nat}

theorem inserted (h : AddedAt g p c g' k) : Inserted ⟨p, c⟩ g.edges g'.edges := by
  refine ⟨g.edges.take k, g.edges.drop k, (List.take_append_drop k _).symm, ?_⟩
  have hle := h.le
  have hlen : (g.edges.take k).length = k := by
    rw [List.length_take, g.length_edges]
    omega
  refine List.ext_getElem? fun i => ?_
  rw [ODG.getElem?_edges, List.getElem?_append, hlen, h.lastDep]
  rcases Nat.lt_trichotomy i k with hlt | rfl | hgt
  · rw [if_pos (by omega), if_pos hlt, List.getElem?_take_of_lt hlt, ODG.getElem?_edges,
      if_pos (by omega), h.below i hlt]
  · rw [if_pos (by omega), if_neg (by omega), Nat.sub_self, List.getElem?_cons_zero, h.at_slot]
  · obtain ⟨j, rfl⟩ : ∃ j, i = j + 1 := ⟨i - 1, by omega⟩
    rw [if_neg (c := j + 1 < k) (by omega), show j + 1 - k = (j - k) + 1 by omega,
      List.getElem?_cons_succ, List.getElem?_drop, ODG.getElem?_edges,
      show k + (j - k) = j by omega]
    by_cases hj : j < g.lastDep
    · rw [if_pos (by omega), if_pos hj, h.above j (by omega) hj]
    · rw [if_neg (by omega), if_neg hj]

/-- Every slot of the new table is the new one or one of the old table's. -/
theorem slot_cases (h : AddedAt g p c g' k) {i : Nat} (hi : i < g'.lastDep) :
    (i < k ∧ g'.parent i = g.parent i) ∨ (i = k ∧ g'.parent i = p) ∨
      ∃ j, i = j + 1 ∧ k ≤ j ∧ j < g.lastDep ∧ g'.parent i = g.parent j := by
  rw [h.lastDep] at hi
  rcases Nat.lt_trichotomy i k with hlt | rfl | hgt
  · exact .inl ⟨hlt, by rw [ODG.parent, h.below i hlt, ODG.parent]⟩
  · exact .inr (.inl ⟨rfl, by rw [ODG.parent, h.at_slot]⟩)
  · obtain ⟨j, rfl⟩ : ∃ j, i = j + 1 := ⟨i - 1, by omega⟩
    exact .inr (.inr ⟨j, rfl, by omega, by omega, by
      rw [ODG.parent, h.above j (by omega) (by omega), ODG.parent]⟩)

theorem sorted (h : AddedAt g p c g' k) (hg : g.Indexed) {i j : Nat} (hij : i < j)
    (hj : j < g'.lastDep) : g'.parent i ≤ g'.parent j := by
  have hle := h.le
  rcases h.slot_cases (Nat.lt_trans hij hj) with ⟨hi, ei⟩ | ⟨rfl, ei⟩ | ⟨i', rfl, hki, hi, ei⟩ <;>
    rcases h.slot_cases hj with ⟨hj, ej⟩ | ⟨rfl, ej⟩ | ⟨j', rfl, hkj, hj, ej⟩ <;>
    try omega
  · rw [ei, ej]
    exact hg.sorted i j hij (by omega)
  · rw [ei, ej]
    exact h.earlier i hi
  · rw [ei, ej]
    exact hg.sorted i j' (by omega) hj
  · rw [ei, ej]
    exact Nat.le_of_lt (h.later j' hkj hj)
  · rw [ei, ej]
    exact hg.sorted i' j' (by omega) hj

theorem starts_below (h : AddedAt g p c g' k) {v : Addr} {i : Nat} (hi : i < k) :
    g'.Starts v i ↔ g.Starts v i :=
  ODG.starts_congr v h.before fun j hj => h.below j (by omega)

/-- A slot that moved up starts its parent only if it did so before. -/
theorem starts_above (h : AddedAt g p c g' k) (hg : g.Indexed) {v : Addr} {j : Nat} (hk : k ≤ j)
    (hj : j < g.lastDep) (hs : g'.Starts v (j + 1)) : g.Starts v j := by
  have hv : g.parent j = v := by
    rw [← hs.1, ODG.parent, ODG.parent, h.above j hk hj]
  refine ⟨hv, ?_⟩
  rcases Nat.lt_or_eq_of_le hk with hlt | rfl
  · obtain ⟨l, rfl⟩ : ∃ l, j = l + 1 := ⟨j - 1, by omega⟩
    have := hs.2
    rwa [ODG.parentBefore, ODG.parent, h.above l (by omega) (by omega)] at this
  · have hpv : p < v := hv ▸ h.later k le_rfl hj
    cases k with
    | zero => exact fun hb => hg.before 0 hj (hv.trans hb.symm)
    | succ l =>
      exact Nat.ne_of_lt (Nat.lt_of_le_of_lt (h.earlier l (by omega)) hpv)

/-- With the pointers of `p` and of the parents that moved re-based, the table is indexed. -/
theorem indexed (h : AddedAt g p c g' k) (hg : g.Indexed) (hp : p ≠ g.before)
    (hdep : g'.dependencies = update g.dependencies p (g.dependencies p + 1))
    (hfirst : g'.Starts p k → g'.firstDependency p = k)
    (hkept : ∀ v, ¬ (v = p ∧ g'.Starts p k) → (∀ i, k ≤ i → i < g.lastDep → ¬ g.Starts v i) →
      g'.firstDependency v = g.firstDependency v)
    (hmoved : ∀ v i, v ≠ p → k ≤ i → i < g.lastDep → g.Starts v i →
      (∀ j, k ≤ j → j < i → ¬ g.Starts v j) → g'.firstDependency v = i + 1) :
    g'.Indexed where
  sorted i j hij hj := h.sorted hg hij hj
  counted v := by
    rw [hdep, h.inserted.countP]
    by_cases hv : v = p
    · subst hv
      rw [update_self, hg.counted, if_pos (by simp)]
    · rw [update_of_ne hv, hg.counted, if_neg (by simp [Ne.symm hv])]
      omega
  indexed v i hi hs := by
    have hle := h.le
    rcases h.slot_cases hi with ⟨hik, ei⟩ | ⟨rfl, ei⟩ | ⟨j, rfl, hkj, hj, ei⟩
    · have hsg : g.Starts v i := (h.starts_below hik).mp hs
      rw [hkept v ?_ fun j hkj hj => hg.not_starts (by omega) hj hsg.1]
      · exact hg.indexed v i (by omega) hsg
      · -- an earlier edge of `p` keeps the new one from being the first
        rintro ⟨rfl, hk, hne⟩
        obtain ⟨l, rfl⟩ : ∃ l, k = l + 1 := ⟨k - 1, by omega⟩
        refine hne (Nat.le_antisymm ?_ ?_) <;>
          rw [ODG.parentBefore, ODG.parent, h.below l (by omega)]
        · exact h.earlier l (by omega)
        · rw [← hsg.1]
          rcases Nat.lt_or_eq_of_le (Nat.le_of_lt_succ hik) with hil | rfl
          · exact hg.sorted i l hil (by omega)
          · exact le_rfl
    · have hv : v = p := hs.1.symm.trans ei
      subst hv
      exact hfirst hs
    · have hsg := h.starts_above hg hkj hj hs
      refine hmoved v j ?_ hkj hj hsg fun l _ hlj hsl => hg.not_starts hlj hj hsl.1 hsg
      rintro rfl
      exact absurd (hsg.1 ▸ h.later j hkj hj) (Nat.lt_irrefl _)
  before i hi := by
    rw [h.before]
    rcases h.slot_cases hi with ⟨hik, ei⟩ | ⟨rfl, ei⟩ | ⟨j, rfl, hkj, hj, ei⟩ <;> rw [ei]
    · exact hg.before i (by have := h.le; omega)
    · exact hp
    · exact hg.before j hj

end AddedAt

/-- `CKaddObjectDep` inserts its edge and keeps the array indexed. -/
theorem ckAddObjectDep_spec {g g' : ODG} {p c : Addr} (hg : g.Indexed) (hp : p ≠ g.before)
    (h : ckAddObjectDep g p c = some g') :
    Inserted ⟨p, c⟩ g.edges g'.edges ∧ g'.Indexed ∧ g'.before = g.before ∧
      g'.header = g.header := by
  unfold ckAddObjectDep at h
  split at h
  case isFalse => exact absurd h (by simp)
  case isTrue hroom =>
    simp only [Option.some.injEq] at h
    generalize hg0 : (g.setLastDep (g.lastDep + 1)).setDependencies p (g.dependencies p + 1) = g0
      at h
    have hoda0 : g0.oda = g.oda := by rw [← hg0]; rfl
    have hb0 : g0.before = g.before := by rw [← hg0]; rfl
    have hfst0 : g0.firstDependency = g.firstDependency := by
      rw [← hg0, ODG.firstDependency_setDependencies, ODG.firstDependency_setLastDep]
    have hst0 : ∀ v i, g0.Starts v i ↔ g.Starts v i := fun v i =>
      ODG.starts_congr v hb0 fun j _ => by rw [hoda0]
    have hr := makeRoom_made p g.lastDep g0
    generalize makeRoom g0 p g.lastDep = r at hr h
    obtain ⟨g1, k⟩ := r
    simp only at hr h
    -- the free slot `k` is taken, and `p` re-based if the edge is its first
    have hoda : g'.oda = update g1.oda k ⟨p, c⟩ := by rw [← h, oda_ite_setFirst]; rfl
    have hbef : g'.before = g.before := by
      rw [← h, before_ite_setFirst, ODG.before_setDep, hr.before, hb0]
    have hadd : AddedAt g p c g' k :=
      { le := hr.le
        lastDep := by
          rw [← h, lastDep_ite_setFirst, ODG.lastDep_setDep, hr.lastDep, ← hg0]; rfl
        before := hbef
        below := fun i hi => by
          rw [hoda, update_of_ne (by omega), hr.below i hi, hoda0]
        at_slot := by rw [hoda, update_self]
        above := fun i hki hi => by
          rw [hoda, update_of_ne (by omega), hr.above i hki hi, hoda0]
        earlier := fun i hi => by
          obtain ⟨j, rfl⟩ : ∃ j, k = j + 1 := ⟨k - 1, by omega⟩
          have hj : g.parent j ≤ p := by
            have := hr.stop j rfl
            rwa [ODG.parent, hoda0] at this
          rcases Nat.lt_or_eq_of_le (Nat.le_of_lt_succ hi) with hlt | rfl
          · exact Nat.le_trans (hg.sorted i j hlt (by have := hr.le; omega)) hj
          · exact hj
        later := fun i hki hi => by
          have := hr.later i hki hi
          rwa [ODG.parent, hoda0] at this }
    refine ⟨hadd.inserted, ?_, hbef, ?_⟩
    · have hpk : (g1.setDep k ⟨p, c⟩).parent k = p := by simp [ODG.parent]
      have htest : (k = 0 ∨ (g1.setDep k ⟨p, c⟩).parentBefore k ≠ p) ↔
          (g1.setDep k ⟨p, c⟩).Starts p k := by
        constructor
        · rintro (rfl | hne)
          · exact ⟨hpk, by
              rw [ODG.parentBefore, ODG.before_setDep, hr.before, hb0]; exact hp.symm⟩
          · exact ⟨hpk, hne⟩
        · intro hs
          exact .inr hs.2
      have hstk : g'.Starts p k ↔ (g1.setDep k ⟨p, c⟩).Starts p k :=
        ODG.starts_congr p (by rw [hbef, ODG.before_setDep, hr.before, hb0])
          fun j _ => by rw [hoda]; rfl
      refine hadd.indexed hg hp ?_ ?_ ?_ ?_
      · rw [← h, dependencies_ite_setFirst, ODG.dependencies_setDep, hr.dependencies, ← hg0,
          ODG.dependencies_setDependencies, ODG.dependencies_setLastDep]
      · intro hs
        rw [← h, if_pos (htest.mpr (hstk.mp hs)), ODG.firstDependency_setFirst, update_self]
      · intro v hv hnone
        have : g'.firstDependency v = g1.firstDependency v := by
          rw [← h]
          split
          case isTrue ht =>
            rw [ODG.firstDependency_setFirst, update_of_ne, ODG.firstDependency_setDep]
            rintro rfl
            exact hv ⟨rfl, hstk.mpr (htest.mp ht)⟩
          case isFalse => rfl
        rw [this, hr.kept v fun i hki hi hs => hnone i hki hi ((hst0 v i).mp hs), hfst0]
      · intro v i hv hki hi hs hfst
        have : g'.firstDependency v = g1.firstDependency v := by
          rw [← h]
          split
          case isTrue =>
            rw [ODG.firstDependency_setFirst, update_of_ne hv, ODG.firstDependency_setDep]
          case isFalse => rfl
        rw [this]
        exact hr.moved v i hki hi ((hst0 v i).mpr hs) fun j hkj hj hsj =>
          hfst j hkj hj ((hst0 v j).mp hsj)
    · rw [← h, header_ite_setFirst, ODG.header_setDep, hr.header, ← hg0,
        ODG.header_setDependencies, ODG.header_setLastDep]

/-! ## Removing an edge -/

/-- The table `g'` is `g` without the edge in slot `k`. -/
structure RemovedAt (g : ODG) (k : Nat) (g' : ODG) : Prop where
  lt : k < g.lastDep
  lastDep : g'.lastDep + 1 = g.lastDep
  before : g'.before = g.before
  below : ∀ i < k, g'.oda i = g.oda i
  moved : ∀ i, k ≤ i → i < g'.lastDep → g'.oda i = g.oda (i + 1)

namespace RemovedAt

variable {g g' : ODG} {k : Nat}

theorem edges (h : RemovedAt g k g') :
    g.edges = g'.edges.take k ++ g.oda k :: g'.edges.drop k := by
  have hlast := h.lastDep
  have hlt := h.lt
  have hlen : (g'.edges.take k).length = k := by
    rw [List.length_take, g'.length_edges]
    omega
  refine List.ext_getElem? fun i => ?_
  rw [ODG.getElem?_edges, List.getElem?_append, hlen]
  rcases Nat.lt_trichotomy i k with hik | rfl | hgt
  · rw [if_pos (by omega), if_pos hik, List.getElem?_take_of_lt hik, ODG.getElem?_edges,
      if_pos (by omega), h.below i hik]
  · rw [if_pos (by omega), if_neg (by omega), Nat.sub_self, List.getElem?_cons_zero]
  · obtain ⟨j, rfl⟩ : ∃ j, i = j + 1 := ⟨i - 1, by omega⟩
    rw [if_neg (c := j + 1 < k) (by omega), show j + 1 - k = (j - k) + 1 by omega,
      List.getElem?_cons_succ, List.getElem?_drop, ODG.getElem?_edges,
      show k + (j - k) = j by omega]
    by_cases hj : j < g'.lastDep
    · rw [if_pos (by omega), if_pos hj, h.moved j (by omega) hj]
    · rw [if_neg (by omega), if_neg hj]

theorem inserted (h : RemovedAt g k g') : Inserted (g.oda k) g'.edges g.edges :=
  ⟨_, _, (List.take_append_drop k _).symm, h.edges⟩

/-- Every slot of the new table is one of the old table's. -/
theorem slot_cases (h : RemovedAt g k g') {i : Nat} (hi : i < g'.lastDep) :
    (i < k ∧ g'.parent i = g.parent i) ∨ (k ≤ i ∧ g'.parent i = g.parent (i + 1)) := by
  rcases Nat.lt_or_ge i k with hik | hik
  · exact .inl ⟨hik, by rw [ODG.parent, h.below i hik, ODG.parent]⟩
  · exact .inr ⟨hik, by rw [ODG.parent, h.moved i hik hi, ODG.parent]⟩

theorem sorted (h : RemovedAt g k g') (hg : g.Indexed) {i j : Nat} (hij : i < j)
    (hj : j < g'.lastDep) : g'.parent i ≤ g'.parent j := by
  have hlast := h.lastDep
  rcases h.slot_cases (Nat.lt_trans hij hj) with ⟨hi, ei⟩ | ⟨hi, ei⟩ <;>
    rcases h.slot_cases hj with ⟨hj', ej⟩ | ⟨hj', ej⟩ <;> rw [ei, ej] <;>
    exact hg.sorted _ _ (by omega) (by omega)

/-- Where an edge of `v` has an earlier edge of `v`, it does not start `v`. -/
theorem not_starts (h : RemovedAt g k g') (hg : g.Indexed) {v : Addr} {i j : Nat} (hij : i < j)
    (hj : j < g'.lastDep) (hi : g'.parent i = v) : ¬ g'.Starts v j := by
  rintro ⟨hp, hne⟩
  obtain ⟨l, rfl⟩ : ∃ l, j = l + 1 := ⟨j - 1, by omega⟩
  refine hne (Nat.le_antisymm ?_ ?_)
  · rw [← hp]
    exact h.sorted hg (Nat.lt_succ_self l) hj
  · rw [← hi]
    rcases Nat.lt_or_eq_of_le (Nat.le_of_lt_succ hij) with hil | rfl
    · exact h.sorted hg hil (by omega)
    · exact le_rfl

theorem indexed (h : RemovedAt g k g') (hg : g.Indexed)
    (hdep : g'.dependencies = update g.dependencies (g.parent k)
      (g.dependencies (g.parent k) - 1))
    (hrebased : ∀ v i, k ≤ i → i < g'.lastDep → g'.Starts v i →
      (∀ j, i < j → j < g'.lastDep → ¬ g'.Starts v j) → g'.firstDependency v = i)
    (hkept : ∀ v, (∀ i, k ≤ i → i < g'.lastDep → ¬ g'.Starts v i) →
      g'.firstDependency v = g.firstDependency v) :
    g'.Indexed where
  sorted i j hij hj := h.sorted hg hij hj
  counted v := by
    have hcount := h.inserted.countP (fun e => decide (e.parent = v))
    rw [hdep]
    by_cases hv : g.parent k = v
    · subst hv
      rw [update_self, hg.counted, hcount, if_pos (by simp [ODG.parent]), Nat.add_sub_cancel]
    · rw [update_of_ne (Ne.symm hv), hg.counted, hcount, if_neg (by simpa [ODG.parent] using hv)]
      omega
  indexed v i hi hs := by
    have hlast := h.lastDep
    rcases Nat.lt_or_ge i k with hik | hik
    · rw [hkept v fun j hkj hj => h.not_starts hg (by omega) hj hs.1]
      exact hg.indexed v i (by omega)
        ((ODG.starts_congr v h.before fun j hj => h.below j (by omega)).mp hs)
    · exact hrebased v i hik hi hs fun j hij hj => h.not_starts hg hij hj hs.1
  before i hi := by
    have hlast := h.lastDep
    rw [h.before]
    rcases h.slot_cases hi with ⟨hik, ei⟩ | ⟨hik, ei⟩ <;> rw [ei] <;>
      exact hg.before _ (by omega)

end RemovedAt

/-- `CKremoveObjectDep` removes the edge in its slot and keeps the array indexed. -/
theorem ckRemoveObjectDep_spec {g : ODG} {k : Nat} (hg : g.Indexed) (hk : k < g.lastDep) :
    RemovedAt g k (ckRemoveObjectDep g k) ∧ (ckRemoveObjectDep g k).Indexed ∧
      (ckRemoveObjectDep g k).header = g.header := by
  generalize hg' : ckRemoveObjectDep g k = g'
  unfold ckRemoveObjectDep at hg'
  generalize hg0 : g.setDependencies (g.parent k) (g.dependencies (g.parent k) - 1) = g0 at hg'
  have hoda0 : g0.oda = g.oda := by rw [← hg0]; rfl
  have hlast0 : g0.lastDep = g.lastDep := by rw [← hg0]; rfl
  have hb0 : g0.before = g.before := by rw [← hg0]; rfl
  have hfst0 : g0.firstDependency = g.firstDependency := by
    rw [← hg0, ODG.firstDependency_setDependencies]
  have hr := closeGap_closed g0.lastDep g0 k (by omega) fun i hi => by
    rw [ODG.parent, hoda0, hb0]
    exact hg.before i (hlast0 ▸ hi)
  generalize closeGap g0 k = g1 at hr hg'
  have hlast : g'.lastDep = g.lastDep - 1 := by
    rw [← hg', ODG.lastDep_setLastDep, hr.lastDep, hlast0]
  have hst : ∀ v i, g'.Starts v i ↔ g1.Starts v i := fun v i => by
    rw [← hg']
    exact ODG.starts_congr v rfl fun _ _ => rfl
  have hfst : g'.firstDependency = g1.firstDependency := by rw [← hg']; rfl
  have hrem : RemovedAt g k g' :=
    { lt := hk
      lastDep := by omega
      before := by rw [← hg', ODG.before_setLastDep, hr.before, hb0]
      below := fun i hi => by rw [← hg', ODG.oda_setLastDep, hr.below i hi, hoda0]
      moved := fun i hki hi => by
        rw [← hg', ODG.oda_setLastDep, hr.moved i hki (by omega), hoda0] }
  refine ⟨hrem, hrem.indexed hg ?_ ?_ ?_, ?_⟩
  · rw [← hg', ODG.dependencies_setLastDep, hr.dependencies, ← hg0,
      ODG.dependencies_setDependencies]
  · intro v i hki hi hs hlater
    rw [hfst]
    exact hr.rebased v i hki (by omega) ((hst v i).mp hs) fun j hij hj hsj =>
      hlater j hij (by omega) ((hst v j).mpr hsj)
  · intro v hnone
    rw [hfst, hr.kept v fun i hki hi hs => hnone i hki (by omega) ((hst v i).mpr hs), hfst0]
  · rw [← hg', ODG.header_setLastDep, hr.header, ← hg0, ODG.header_setDependencies]

/-! ## Searching an edge -/

/-- A predicate that holds on a block of the first `n` numbers, starting at `f`, holds
exactly on the `f + i` with `i` below its count. -/
theorem countP_range_block {P : Nat → Bool} {f : Nat} (hlow : ∀ i < f, P i = false) (n : Nat)
    (hblock : ∀ i j, f ≤ i → i ≤ j → j < n → P j = true → P i = true) :
    (f + (List.range n).countP P ≤ n ∨ (List.range n).countP P = 0) ∧
      ∀ i < n, P i = true ↔ f ≤ i ∧ i < f + (List.range n).countP P := by
  induction n with
  | zero => exact ⟨.inr rfl, fun i hi => absurd hi (by omega)⟩
  | succ n ih =>
    obtain ⟨hle, hiff⟩ := ih fun i j hi hij hj => hblock i j hi hij (by omega)
    rw [List.range_succ, List.countP_append, List.countP_singleton]
    cases hn : P n with
    | false =>
      simp only [Bool.false_eq_true, if_false, Nat.add_zero]
      refine ⟨by omega, fun i hi => ?_⟩
      rcases Nat.lt_or_eq_of_le (Nat.le_of_lt_succ hi) with hlt | rfl
      · exact hiff i hlt
      · rw [hn]
        simp only [Bool.false_eq_true, false_iff]
        omega
    | true =>
      have hfn : f ≤ n := by
        refine Nat.le_of_not_lt fun h => ?_
        rw [hlow n h] at hn
        exact absurd hn (by simp)
      -- everything from `f` up to `n` is in the block
      have hcount : f + (List.range n).countP P = n := by
        rcases Nat.lt_or_eq_of_le hfn with hlt | rfl
        · have := (hiff (n - 1) (by omega)).mp
            (hblock (n - 1) n (by omega) (by omega) (by omega) hn)
          omega
        · have : (List.range f).countP P = 0 := by
            rw [List.countP_eq_zero]
            intro i hi
            rw [hlow i (List.mem_range.mp hi)]
            simp
          omega
      simp only [if_true]
      refine ⟨by omega, fun i hi => ?_⟩
      constructor
      · intro hi'
        refine ⟨Nat.le_of_not_lt fun h => ?_, by omega⟩
        rw [hlow i h] at hi'
        exact absurd hi' (by simp)
      · rintro ⟨hfi, -⟩
        exact hblock i n hfi (by omega) (by omega) hn

namespace ODG.Indexed

variable {g : ODG}

/-- The edges of a parent fill the `dependencies` slots from `firstDependency` on. -/
theorem slot_iff (hg : g.Indexed) (v : Addr) {i : Nat} (hv : 0 < g.dependencies v) :
    (i < g.lastDep ∧ g.parent i = v) ↔
      g.firstDependency v ≤ i ∧ i < g.firstDependency v + g.dependencies v := by
  have hcount : g.dependencies v = (List.range g.lastDep).countP (fun i => g.parent i = v) := by
    rw [hg.counted, ODG.edges, List.countP_map]
    rfl
  obtain ⟨i₀, hi₀, hp₀⟩ : ∃ i < g.lastDep, g.parent i = v := by
    rw [hcount, List.countP_pos_iff] at hv
    obtain ⟨i, hi, hp⟩ := hv
    exact ⟨i, List.mem_range.mp hi, of_decide_eq_true hp⟩
  obtain ⟨hle₀, hf, hlow⟩ := hg.first hi₀ hp₀
  obtain ⟨hle, hiff⟩ := countP_range_block (P := fun i => g.parent i = v)
    (f := g.firstDependency v) (fun i hi => by simpa using hlow i hi) g.lastDep
    fun i j hi hij hj hp => by
      simp only [decide_eq_true_eq] at hp ⊢
      exact hg.between hi hij hj hf hp
  rw [← hcount] at hle hiff
  constructor
  · rintro ⟨hi, hp⟩
    exact (hiff i hi).mp (by simpa using hp)
  · rintro ⟨hfi, hi⟩
    have hin : i < g.lastDep := by omega
    exact ⟨hin, by simpa using (hiff i hin).mpr ⟨hfi, hi⟩⟩

theorem dependencies_pos (hg : g.Indexed) {v : Addr} :
    0 < g.dependencies v ↔ ∃ i < g.lastDep, g.parent i = v := by
  rw [hg.counted, List.countP_pos_iff]
  constructor
  · rintro ⟨e, he, hp⟩
    obtain ⟨i, hi, rfl⟩ := ODG.mem_edges.mp he
    exact ⟨i, hi, of_decide_eq_true hp⟩
  · rintro ⟨i, hi, hp⟩
    exact ⟨g.oda i, ODG.mem_edges.mpr ⟨i, hi, rfl⟩, decide_eq_true hp⟩

end ODG.Indexed

/-- `CKremoveDepSearch` removes the first edge between its objects, if there is one. -/
theorem ckRemoveDepSearch_spec {g : ODG} (hg : g.Indexed) (v c : Addr) :
    (∃ k, g.oda k = ⟨v, c⟩ ∧ (∀ i < k, g.oda i ≠ ⟨v, c⟩) ∧ k < g.lastDep ∧
      ckRemoveDepSearch g v c = ckRemoveObjectDep g k) ∨
    (⟨v, c⟩ ∉ g.edges ∧ ckRemoveDepSearch g v c = g) := by
  unfold ckRemoveDepSearch
  have hslot : ∀ {j}, j < g.dependencies v → g.firstDependency v + j < g.lastDep ∧
      g.parent (g.firstDependency v + j) = v := fun hj =>
    (hg.slot_iff v (Nat.zero_lt_of_lt hj)).mpr ⟨Nat.le_add_right _ _, by omega⟩
  -- an edge from `v` to `c` lies at some offset behind the first edge of `v`
  have hedge : ∀ {i}, i < g.lastDep → g.oda i = ⟨v, c⟩ →
      ∃ j < g.dependencies v, i = g.firstDependency v + j := fun {i} hi he => by
    have hp : g.parent i = v := by rw [ODG.parent, he]
    obtain ⟨h1, h2⟩ := (hg.slot_iff v (hg.dependencies_pos.mpr ⟨i, hi, hp⟩)).mp ⟨hi, hp⟩
    exact ⟨i - g.firstDependency v, by omega, by omega⟩
  cases hfind : (List.range (g.dependencies v)).find?
      (fun i => (g.oda (g.firstDependency v + i)).child = c) with
  | some j =>
    left
    obtain ⟨hc, hmem, hfirst⟩ := List.find?_range_eq_some.mp hfind
    have hj : j < g.dependencies v := List.mem_range.mp hmem
    refine ⟨g.firstDependency v + j, EDGE.ext (hslot hj).2 (of_decide_eq_true hc), ?_,
      (hslot hj).1, rfl⟩
    intro i hi he
    obtain ⟨l, hl, rfl⟩ := hedge (by have := (hslot hj).1; omega) he
    have := hfirst l (by omega)
    rw [he] at this
    simp at this
  | none =>
    right
    refine ⟨fun he => ?_, rfl⟩
    obtain ⟨i, hi, heq⟩ := ODG.mem_edges.mp he
    obtain ⟨j, hj, rfl⟩ := hedge hi heq
    have := List.find?_eq_none.mp hfind j (List.mem_range.mpr hj)
    rw [heq] at this
    simp at this

end Alliance.CK
