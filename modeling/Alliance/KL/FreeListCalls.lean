import Alliance.KL.FreeListProof
import Alliance.Lib.Queue
import Mathlib.Data.List.Perm.Subperm

/-!
# The calls of the allocator

In a free list no walk is endless, so every call returns. An allocation takes the bytes of its
block out of the set of free bytes, or nothing; freeing puts the bytes in. Each leaves a free
list, whatever was asked for, but for two requests that the calls do not check: a size so close
to the number of addresses that rounding it up gives 0, and a region that leaves less than a
header behind it.
-/

namespace Alliance.KL.KLfreeListDescriptor

open Function Lib
open CK (UADDR)

variable {s s' : KLfreeListDescriptor} {l l' as bs : List UADDR} {e x y data size left r : UADDR}
  {t a k : Nat} {fit : UADDR → UADDR → Option (UADDR × UADDR)}

/-! ## The search -/

/-- No walk along a list runs out of fuel. -/
theorem length_lt (hn : l.Nodup) (h0 : NIL ∉ l) : l.length < ADDRESSES := by
  have hsub : (NIL :: l).map BitVec.toNat ⊆ List.range ADDRESSES := by
    intro a ha
    obtain ⟨x, _, rfl⟩ := List.mem_map.mp ha
    exact List.mem_range.mpr x.isLt
  have hnodup : ((NIL :: l).map BitVec.toNat).Nodup :=
    (List.nodup_cons.mpr ⟨h0, hn⟩).map fun _ _ h => BitVec.eq_of_toNat_eq h
  have hle := (hnodup.subperm hsub).length_le
  rwa [List.length_map, List.length_cons, List.length_range] at hle

theorem klGetFastLookupToUse_toNat (size : UADDR) : klGetFastLookupToUse size =
    if 8192 ≤ size.toNat then
      if 131072 ≤ size.toNat then if 524288 ≤ size.toNat then 7 else 6
      else if 32768 ≤ size.toNat then 5 else 4
    else if 512 ≤ size.toNat then if 2048 ≤ size.toNat then 3 else 2
    else if 128 ≤ size.toNat then 1 else 0 := rfl

/-- The size list of a larger entry is not an earlier one. -/
theorem klGetFastLookupToUse_mono {size size' : UADDR} (h : size ≤ size') :
    klGetFastLookupToUse size ≤ klGetFastLookupToUse size' := by
  have h := BitVec.le_def.mp h
  rw [klGetFastLookupToUse_toNat, klGetFastLookupToUse_toNat]
  split_ifs <;> omega

theorem klGetFastLookupToUse_lt (size : UADDR) : klGetFastLookupToUse size < 8 := by
  rw [klGetFastLookupToUse_toNat]
  split_ifs <;> decide

/-- A block can be taken out of the entry at `data`, and leaves nothing or a header's room behind
it. -/
def Eligible (s : KLfreeListDescriptor) (fit : UADDR → UADDR → Option (UADDR × UADDR))
    (e data left : UADDR) : Prop :=
  fit e (s.sizeOf e) = some (data, left) ∧ (left = 0#32 ∨ 24 ≤ left.toNat)

/-- The best of the entries with `P`: none leaves less. -/
def BestOf (s : KLfreeListDescriptor) (fit : UADDR → UADDR → Option (UADDR × UADDR))
    (P : UADDR → Prop) (b : Best) : Prop :=
  b = .none ∧ (∀ e data left, P e → ¬ s.Eligible fit e data left) ∨
    P b.bestentry ∧ s.Eligible fit b.bestentry b.result b.bestleft ∧
      ∀ e data left, P e → s.Eligible fit e data left → b.bestleft ≤ left

/-- The entries of the size lists, in the order of each. -/
def SizeLists (s : KLfreeListDescriptor) (l : List UADDR) (m : Nat → List UADDR) : Prop :=
  ∀ t, Chained NIL (s.nextsizeOf t) (s.FirstFreeSizeEntry t) (m t) ∧
    ∀ x, x ∈ m t ↔ x ∈ l ∧ s.tableOf x = t

theorem Links.sizeLists (h : s.Links l) : ∃ m, s.SizeLists l m ∧
    ∀ t, (m t).Nodup ∧ (m t).length < ADDRESSES := by
  obtain ⟨m, hm⟩ := Classical.skolem.mp h.size
  refine ⟨m, fun t => ?_, fun t => ?_⟩
  · have hc := (hm t).1.chained
    rw [nextsizeOf_nil] at hc
    exact ⟨hc, (hm t).2⟩
  · have hn := (List.nodup_cons.mp (hm t).1.nodup).2
    exact ⟨hn, length_lt hn (hm t).1.nil_notMem⟩

/-- The walk along a size list, by the list of its entries. -/
def bestOf (s : KLfreeListDescriptor) (fit : UADDR → UADDR → Option (UADDR × UADDR)) :
    List UADDR → Best → Best
  | [], best => best
  | e :: m, best =>
    match fit e (s.sizeOf e) with
    | none => s.bestOf fit m best
    | some (data, left) =>
      if left = 0#32 then ⟨e, data, left⟩
      else if HEADER ≤ left ∧ left ≤ best.bestleft then s.bestOf fit m ⟨e, data, left⟩
      else s.bestOf fit m best

theorem searchSize_eq (fit : UADDR → UADDR → Option (UADDR × UADDR)) {m : List UADDR}
    {fuel : Nat} (b : Best) (hc : Chained NIL (s.nextsizeOf t) e m) (hf : m.length < fuel) :
    s.searchSize fit fuel e b = some (s.bestOf fit m b) := by
  induction fuel generalizing e m b with
  | zero => exact absurd hf (Nat.not_lt_zero _)
  | succ fuel ih =>
      cases m with
      | nil => rw [searchSize, if_pos (show e = NIL from hc), bestOf]
      | cons x m =>
          obtain ⟨rfl, hnil, hc⟩ := hc
          rw [nextsizeOf_of_ne hnil] at hc
          have hnext := fun b => @ih _ _ b hc (Nat.lt_of_succ_lt_succ hf)
          rw [searchSize, bestOf, if_neg hnil, show (s.mem e).size = s.sizeOf e from rfl]
          cases fit e (s.sizeOf e) with
          | none => exact hnext b
          | some r =>
              dsimp only
              split
              · rfl
              · split
                · exact hnext _
                · exact hnext b

/-- An entry that no block can be taken out of changes nothing. -/
theorem BestOf.skip {P : UADDR → Prop} {b : Best} (hb : s.BestOf fit P b)
    (hx : ∀ data left, ¬ s.Eligible fit x data left) : s.BestOf fit (fun e => P e ∨ e = x) b := by
  rcases hb with ⟨rfl, hnone⟩ | ⟨hP, helig, hmin⟩
  · refine .inl ⟨rfl, fun e data left he => ?_⟩
    rcases he with he | rfl
    · exact hnone e data left he
    · exact hx data left
  · refine .inr ⟨.inl hP, helig, fun e data left he hel => ?_⟩
    rcases he with he | rfl
    · exact hmin e data left he hel
    · exact absurd hel (hx data left)

/-- An entry that leaves no more than the best one so far takes its place. -/
theorem BestOf.better {P : UADDR → Prop} {b : Best} (hb : s.BestOf fit P b)
    (hx : s.Eligible fit x data left) (hle : left ≤ b.bestleft) :
    s.BestOf fit (fun e => P e ∨ e = x) ⟨x, data, left⟩ := by
  refine .inr ⟨.inr rfl, hx, fun e data' left' he hel => ?_⟩
  rcases he with he | rfl
  · rcases hb with ⟨-, hnone⟩ | ⟨-, -, hmin⟩
    · exact absurd hel (hnone e data' left' he)
    · exact BitVec.le_trans hle (hmin e data' left' he hel)
  · obtain ⟨-, rfl⟩ := Prod.mk.inj (Option.some.inj (hx.1.symm.trans hel.1))
    exact BitVec.le_refl _

/-- An entry that leaves more does not. -/
theorem BestOf.worse {P : UADDR → Prop} {b : Best} (hb : s.BestOf fit P b)
    (hx : s.Eligible fit x data left) (hlt : ¬ left ≤ b.bestleft) :
    s.BestOf fit (fun e => P e ∨ e = x) b := by
  rcases hb with ⟨rfl, -⟩ | ⟨hP, helig, hmin⟩
  · refine absurd (BitVec.le_def.mpr ?_) hlt
    have := left.isLt
    show left.toNat ≤ 2 ^ 32 - 1
    omega
  · refine .inr ⟨.inl hP, helig, fun e data' left' he hel => ?_⟩
    rcases he with he | rfl
    · exact hmin e data' left' he hel
    · obtain ⟨-, rfl⟩ := Prod.mk.inj (Option.some.inj (hx.1.symm.trans hel.1))
      exact BitVec.le_of_lt (BitVec.not_le.mp hlt)

theorem BestOf.congr {P Q : UADDR → Prop} {b : Best} (hb : s.BestOf fit P b)
    (hPQ : ∀ e, P e ↔ Q e) : s.BestOf fit Q b := by
  rwa [← show P = Q from funext fun e => propext (hPQ e)]

/-- **The walk along a size list** finds the best of its entries. -/
theorem bestOf_best {P : UADDR → Prop} {m : List UADDR} {b : Best} (hb : s.BestOf fit P b) :
    s.BestOf fit (fun e => P e ∨ e ∈ m) (s.bestOf fit m b) := by
  induction m generalizing P b with
  | nil => exact hb.congr fun e => by simp
  | cons x m ih =>
      have hstep : ∀ {b}, s.BestOf fit (fun e => P e ∨ e = x) b →
          s.BestOf fit (fun e => P e ∨ e ∈ x :: m) (s.bestOf fit m b) := fun hb =>
        (ih hb).congr fun e => by simp only [List.mem_cons, or_assoc]
      rw [bestOf]
      cases hfit : fit x (s.sizeOf x) with
      | none => exact hstep (hb.skip fun data left hel => nomatch hfit.symm.trans hel.1)
      | some r =>
          obtain ⟨data, left⟩ := r
          dsimp only
          split
          · -- a perfect match ends the walk
            next hl =>
            subst hl
            exact .inr ⟨.inr (.head _), ⟨hfit, .inl rfl⟩, fun _ _ _ _ _ =>
              BitVec.le_def.mpr (Nat.zero_le _)⟩
          · next hl =>
            split
            · next hle => exact hstep (hb.better ⟨hfit, .inr (BitVec.le_def.mp hle.1)⟩ hle.2)
            · next hnot =>
              by_cases hroom : HEADER ≤ left
              · exact hstep (hb.worse ⟨hfit, .inr (BitVec.le_def.mp hroom)⟩ fun hle =>
                  hnot ⟨hroom, hle⟩)
              · refine hstep (hb.skip fun data' left' hel => ?_)
                obtain ⟨-, rfl⟩ := Prod.mk.inj (Option.some.inj (hfit.symm.trans hel.1))
                exact hroom (BitVec.le_def.mpr (hel.2.resolve_left hl))

theorem bestOf_list (fit : UADDR → UADDR → Option (UADDR × UADDR)) (m : List UADDR) :
    s.BestOf fit (· ∈ m) (s.bestOf fit m .none) :=
  (bestOf_best (P := fun _ => False) (.inl ⟨rfl, fun _ _ _ h => absurd h not_false⟩)).congr
    fun e => by simp

/-- The walk along the size lists, by their entries. -/
def bestFrom (s : KLfreeListDescriptor) (fit : UADDR → UADDR → Option (UADDR × UADDR))
    (m : Nat → List UADDR) : Nat → Nat → Best
  | 0, _ => .none
  | k + 1, t =>
    if (s.bestOf fit (m t) .none).bestentry ≠ NIL then s.bestOf fit (m t) .none
    else s.bestFrom fit m k (t + 1)

theorem searchTables_eq (fit : UADDR → UADDR → Option (UADDR × UADDR)) {m : Nat → List UADDR}
    (hm : s.SizeLists l m) (hf : ∀ t, (m t).length < ADDRESSES) (k t : Nat) :
    s.searchTables fit k t = some (s.bestFrom fit m k t) := by
  induction k generalizing t with
  | zero => rfl
  | succ k ih =>
      rw [searchTables, searchSize_eq fit .none (hm t).1 (hf t), bestFrom]
      dsimp only [Option.bind_eq_bind, Option.bind_some]
      split
      · rfl
      · exact ih (t + 1)

/-- **The walk along the size lists** finds the best entry of the first list that has one. -/
theorem bestFrom_first {lists : Nat → List UADDR} (hm : s.SizeLists l lists) (hnil : NIL ∉ l)
    (fit : UADDR → UADDR → Option (UADDR × UADDR)) (k t : Nat) :
    s.bestFrom fit lists k t = .none ∧
        (∀ t', t ≤ t' → t' < t + k → ∀ e ∈ lists t', ∀ data left, ¬ s.Eligible fit e data left) ∨
      ∃ t', t ≤ t' ∧ t' < t + k ∧ (s.bestFrom fit lists k t).bestentry ∈ lists t' ∧
        s.BestOf fit (· ∈ lists t') (s.bestFrom fit lists k t) ∧
        ∀ t'', t ≤ t'' → t'' < t' → ∀ e ∈ lists t'', ∀ data left, ¬ s.Eligible fit e data left := by
  induction k generalizing t with
  | zero => exact .inl ⟨rfl, fun t' h₁ h₂ => absurd h₂ (Nat.not_lt.mpr h₁)⟩
  | succ k ih =>
      have hbest := bestOf_list (s := s) fit (lists t)
      have hnil : NIL ∉ lists t := fun h0 => hnil (((hm t).2 NIL).mp h0).1
      rw [bestFrom]
      split
      · next hne =>
        refine .inr ⟨t, Nat.le_refl t, by omega, ?_, hbest, fun t'' h₁ h₂ => by omega⟩
        rcases hbest with ⟨h0, -⟩ | ⟨hmem, -⟩
        · rw [h0] at hne
          exact absurd rfl hne
        · exact hmem
      · next hz =>
        have hnone : ∀ e ∈ lists t, ∀ data left, ¬ s.Eligible fit e data left := by
          rcases hbest with ⟨-, hnone⟩ | ⟨hmem, -⟩
          · exact fun e he data left => hnone e data left he
          · rw [not_not.mp hz] at hmem
            exact absurd hmem hnil
        have hfrom : ∀ {t'}, t ≤ t' → t' ≠ t → t + 1 ≤ t' := fun h₁ h₂ =>
          Nat.lt_of_le_of_ne h₁ (Ne.symm h₂)
        rcases ih (t + 1) with ⟨h0, hrest⟩ | ⟨t', h₁, h₂, hmem, hb, hrest⟩
        · refine .inl ⟨h0, fun t'' h₃ h₄ => ?_⟩
          by_cases ht : t'' = t
          · rwa [ht]
          · exact hrest t'' (hfrom h₃ ht) (by omega)
        · refine .inr ⟨t', by omega, by omega, hmem, hb, fun t'' h₃ h₄ => ?_⟩
          by_cases ht : t'' = t
          · rwa [ht]
          · exact hrest t'' (hfrom h₃ ht) h₄

theorem allocWith_cases (fit : UADDR → UADDR → Option (UADDR × UADDR))
    (size : UADDR) (h : s.Links l) : s.allocWith .none fit size = some (s, NIL) ∨
    ∃ e ∈ l, ∃ data left, fit e (s.sizeOf e) = some (data, left) ∧
      (left = 0#32 ∨ 24 ≤ left.toNat) ∧
      s.allocWith .none fit size = some (s.takeBlock e data size left, data) := by
  obtain ⟨lists, hm, hlists⟩ := h.sizeLists
  have hs : s.searchFrom fit size = some _ := searchTables_eq fit hm (fun t => (hlists t).2)
    (8 - klGetFastLookupToUse size) (klGetFastLookupToUse size)
  unfold allocWith
  rw [hs]
  rcases bestFrom_first hm h.addr.nil_notMem fit (8 - klGetFastLookupToUse size)
    (klGetFastLookupToUse size) with ⟨hb, -⟩ | ⟨t, -, -, hmem, hb, -⟩
  · rw [hb]
    exact .inl rfl
  · have he := (((hm t).2 _).mp hmem).1
    have hnil := h.ne_nil he
    rcases hb with ⟨h0, -⟩ | ⟨-, ⟨hfit, hl⟩, -⟩
    · rw [h0] at hnil
      exact absurd rfl hnil
    · refine .inr ⟨_, he, _, _, hfit, hl, ?_⟩
      simp only [Option.bind_eq_bind, Option.bind_some]
      rw [if_pos hnil]

/-! ## Where a block fits -/

theorem fitAt_ends (hf : fitAt size e (s.sizeOf e) = some (data, left)) :
    data = e ∧ data.toNat + size.toNat + left.toNat = s.endOf e := by
  unfold fitAt at hf
  split at hf
  · next hle =>
    simp only [Option.some.injEq, Prod.mk.injEq] at hf
    obtain ⟨rfl, rfl⟩ := hf
    have := BitVec.le_def.mp hle
    rw [BitVec.toNat_sub_of_le hle, endOf]
    exact ⟨rfl, by omega⟩
  · exact absurd hf (by simp)

/-- The mask of an alignment clears the low bits. -/
theorem and_neg_shiftLeft (x : UADDR) (k : Nat) :
    (x &&& -(1#32 <<< k)) = (x >>> k) <<< k := by
  have hneg : -(1#32 <<< k) = BitVec.allOnes 32 <<< k := by
    rw [BitVec.shiftLeft_eq_mul_twoPow, BitVec.shiftLeft_eq_mul_twoPow, ← BitVec.neg_mul]
    rfl
  rw [hneg]
  ext i hi
  by_cases h : i < k
  · simp [h]
  · have hk : k + (i - k) = i := by omega
    have hone : (BitVec.allOnes 32)[i - k] = true := BitVec.getElem_allOnes _ _
    rw [BitVec.getElem_and, BitVec.getElem_shiftLeft, BitVec.getElem_shiftLeft, hone,
      BitVec.getElem_ushiftRight, hk]
    simp [h, hi]

theorem toNat_and_neg (x : UADDR) (k : Nat) :
    (x &&& -(1#32 <<< k)).toNat = x.toNat / 2 ^ k * 2 ^ k := by
  rw [and_neg_shiftLeft, BitVec.toNat_shiftLeft, BitVec.toNat_ushiftRight,
    Nat.shiftRight_eq_div_pow, Nat.shiftLeft_eq]
  exact Nat.mod_eq_of_lt (Nat.lt_of_le_of_lt (Nat.div_mul_le_self _ _) x.isLt)

/-- Rounding up does not go down, unless it wraps around and ends far below. -/
theorem alignUp_cases (k : Nat) (x : UADDR) :
    x.toNat ≤ (alignUp k x).toNat ∧ (alignUp k x).toNat < x.toNat + 2 ^ 31 ∨
      alignUp k x = 0#32 ∨ (alignUp k x).toNat + 2 ^ 31 < x.toNat := by
  by_cases hk : k < 32
  · have hle : 2 ^ k ≤ 2 ^ 31 := Nat.pow_le_pow_right (by omega) (by omega)
    have hpos : 0 < 2 ^ k := Nat.two_pow_pos k
    have hmask : (1#32 <<< k - 1#32).toNat = 2 ^ k - 1 := by
      have hone : (1#32 <<< k).toNat = 2 ^ k := by
        rw [BitVec.toNat_shiftLeft, Nat.shiftLeft_eq]
        simp
        omega
      rw [BitVec.toNat_sub, hone]
      simp
      omega
    have hx := x.isLt
    have hr := toNat_and_neg (x + (1#32 <<< k - 1#32)) k
    have hdiv := Nat.div_add_mod (x + (1#32 <<< k - 1#32)).toNat (2 ^ k)
    have hmod := Nat.mod_lt (x + (1#32 <<< k - 1#32)).toNat hpos
    rw [BitVec.toNat_add, hmask] at hr hdiv hmod
    rw [Nat.mul_comm, ← hr] at hdiv
    change (alignUp k x).toNat + _ = _ at hdiv
    by_cases hw : x.toNat + (2 ^ k - 1) < 2 ^ 32
    · rw [Nat.mod_eq_of_lt hw] at hdiv hmod
      exact .inl (by omega)
    · exact .inr (.inr (by omega))
  · have h0 : 1#32 <<< k = 0#32 := by rw [BitVec.shiftLeft_eq_zero (by omega)]
    exact .inr (.inl (by simp [alignUp, h0]))

/-- What `leftFrom` finds is what the entry has behind an address in it. -/
theorem leftFrom_ends (hb : s.endOf e ≤ ADDRESSES) (hsize : 0 < size.toNat)
    (hle : size ≤ leftFrom data e (s.sizeOf e)) :
    e.toNat ≤ data.toNat ∧
      data.toNat + (leftFrom data e (s.sizeOf e)).toNat = s.endOf e := by
  have hle := BitVec.le_def.mp hle
  unfold leftFrom at hle ⊢
  unfold endOf ADDRESSES at *
  split at hle
  · simp only [BitVec.toNat_ofNat, Nat.zero_mod] at hle
    omega
  · next hc =>
    rw [if_neg hc]
    -- the address is not behind the entry
    have hd : data - e ≤ s.sizeOf e := by
      by_cases h0 : data - e = 0#32
      · rw [h0]
        exact BitVec.le_def.mpr (Nat.zero_le _)
      · exact BitVec.not_lt.mp fun hlt => hc ⟨h0, hlt⟩
    rw [BitVec.toNat_sub_of_le hd] at hle ⊢
    have hd := BitVec.le_def.mp hd
    have hx := data.isLt
    rw [BitVec.toNat_sub] at *
    omega

theorem fitAligned_ends {k : Nat} (hb : s.endOf e ≤ ADDRESSES) (hnil : e ≠ NIL)
    (hsize : 0 < size.toNat) (hf : fitAligned size k e (s.sizeOf e) = some (data, left)) :
    (data = e ∨ e.toNat + 24 ≤ data.toNat ∧ 0 < size.toNat) ∧
      data.toNat + size.toNat + left.toNat = s.endOf e := by
  unfold fitAligned at hf
  split at hf
  · dsimp only at hf
    generalize hd : (if alignUp k e - e ≠ 0#32 ∧ alignUp k e - e < HEADER then
      alignUp k (e + HEADER) else alignUp k e) = d at hf
    split at hf
    · next hle =>
      simp only [Option.some.injEq, Prod.mk.injEq] at hf
      obtain ⟨rfl, rfl⟩ := hf
      obtain ⟨hge, hends⟩ := leftFrom_ends hb hsize hle
      rw [BitVec.toNat_sub_of_le hle]
      have hle := BitVec.le_def.mp hle
      refine ⟨?_, by omega⟩
      have hpos := toNat_pos hnil
      split at hd
      · -- rounded up from behind the header
        refine .inr ⟨?_, hsize⟩
        have h24 : (e + HEADER).toNat = (e.toNat + 24) % 2 ^ 32 := by
          rw [BitVec.toNat_add]
          rfl
        have hx := e.isLt
        rcases alignUp_cases k (e + HEADER) with hc | hc | hc
        · rw [hd] at hc
          omega
        · have : d.toNat = 0 := by rw [← hd, hc]; rfl
          omega
        · rw [hd] at hc
          omega
      · next hc =>
        by_cases h0 : d = e
        · exact .inl h0
        · refine .inr ⟨?_, hsize⟩
          rw [hd] at hc
          have hsub : (d - e).toNat = d.toNat - e.toNat :=
            BitVec.toNat_sub_of_le (BitVec.le_def.mpr hge)
          have h24 : HEADER ≤ d - e := by
            refine BitVec.not_lt.mp fun hlt => hc ⟨fun hz => h0 ?_, hlt⟩
            have hz : (d - e).toNat = 0 := congrArg BitVec.toNat hz
            exact BitVec.eq_of_toNat_eq (by omega)
          have : (24 : Nat) ≤ (d - e).toNat := BitVec.le_def.mp h24
          omega
    · exact absurd hf (by simp)
  · exact absurd hf (by simp)

/-! ## Allocating -/

/-- The size that is meant: `AdjustSize` without a wrap-around. -/
def roundedSize (size : UADDR) : Nat :=
  if size.toNat < 24 then 24 else (size.toNat + 3) / 4 * 4

theorem roundedSize_bounds (size : UADDR) :
    size.toNat ≤ roundedSize size ∧ 24 ≤ roundedSize size ∧ roundedSize size ≤ ADDRESSES := by
  have hx := size.isLt
  unfold roundedSize ADDRESSES
  split <;> omega

theorem toNat_adjustSize (size : UADDR) :
    (adjustSize size).toNat = roundedSize size % ADDRESSES := by
  unfold adjustSize roundedSize ADDRESSES
  by_cases hlt : size < HEADER
  · have hlt' : size.toNat < 24 := BitVec.lt_def.mp hlt
    rw [if_pos hlt, if_pos hlt']
    rfl
  · have hle : ¬ size.toNat < 24 := fun h => hlt (BitVec.lt_def.mpr h)
    rw [if_neg hlt, if_neg hle]
    have hmask := toNat_and_neg (size + 3#32) 2
    have hadd : (size + 3#32).toNat = (size.toNat + 3) % 2 ^ 32 := BitVec.toNat_add ..
    have hx := size.isLt
    change ((size + 3#32) &&& -4#32).toNat = _ at hmask
    omega

/-- The rounded size is 0 after a wrap-around, else it has room for a header. -/
theorem adjustSize_cases (size : UADDR) :
    adjustSize size = 0#32 ∨ 24 ≤ (adjustSize size).toNat := by
  obtain ⟨-, hroom, hle⟩ := roundedSize_bounds size
  have hmod := toNat_adjustSize size
  unfold ADDRESSES at hle hmod
  by_cases h0 : (adjustSize size).toNat = 0
  · exact .inl (BitVec.eq_of_toNat_eq h0)
  · exact .inr (by omega)

/-- Without a wrap-around the rounded size is the one that is meant. -/
theorem adjustSize_rounded {size : UADDR} (h : adjustSize size ≠ 0#32) :
    (adjustSize size).toNat = roundedSize size := by
  have hle := (roundedSize_bounds size).2.2
  have hmod := toNat_adjustSize size
  have hpos := toNat_pos h
  unfold ADDRESSES at hle hmod
  omega

/-- With one, it is as large as the memory. -/
theorem roundedSize_wrapped {size : UADDR} (h : adjustSize size = 0#32) :
    roundedSize size = ADDRESSES := by
  obtain ⟨-, hroom, hle⟩ := roundedSize_bounds size
  have hmod := toNat_adjustSize size
  rw [h] at hmod
  unfold ADDRESSES at hle hmod ⊢
  simp only [BitVec.toNat_ofNat, Nat.zero_mod] at hmod
  omega

theorem adjustSize_eq_zero (size : UADDR) :
    adjustSize size = 0#32 ↔ ADDRESSES ≤ size.toNat + 3 := by
  have hmod := toNat_adjustSize size
  have hx := size.isLt
  unfold roundedSize ADDRESSES at hmod
  unfold ADDRESSES
  constructor
  · intro h0
    rw [h0] at hmod
    simp only [BitVec.toNat_ofNat, Nat.zero_mod] at hmod
    split at hmod <;> omega
  · intro hle
    refine BitVec.eq_of_toNat_eq ?_
    show _ = 0
    split at hmod <;> omega

/-- What an allocation that returned `r` has done: nothing, or it took the bytes of the block. -/
structure Took (s : KLfreeListDescriptor) (l : List UADDR) (s' : KLfreeListDescriptor)
    (l' : List UADDR) (r size : UADDR) : Prop where
  entries : s'.Entries l'
  taken : r = NIL ∧ s' = s ∧ l' = l ∨
    r ≠ NIL ∧ s'.FreeMemory = s.FreeMemory - size ∧
      (∀ a, s'.Free l' a ↔ s.Free l a ∧ ¬ InBlock r size a) ∧
      ∀ a, InBlock r size a → s.Free l a

theorem Entries.took (h : s.Entries (as ++ e :: bs)) (hf : s.Fits e data size left) :
    Took s (as ++ e :: bs) (s.takeBlock e data size left)
      (as ++ (remains e data size left ++ bs)) data size := by
  have hnil : e ≠ NIL := h.links.ne_nil (by simp)
  obtain ⟨hle, hsuf⟩ := hf.le_and_suffix h
  obtain ⟨hfree, hin⟩ := h.free_carve hf
  have hrest := (carve_fields (s := s) hnil fun hl => (hsuf hl).2).1
  refine ⟨h.takeBlock hf, .inr ⟨?_, ?_, hfree, hin⟩⟩
  · rintro rfl
    exact absurd (toNat_pos hnil) (Nat.not_lt.mpr hle)
  · exact congrArg (· - size) (congrArg Prod.fst hrest)

/-- An allocation whose blocks lie in their entries. -/
theorem allocWith_took (h : s.Entries l)
    (hfit : ∀ e ∈ l, ∀ data left, fit e (s.sizeOf e) = some (data, left) →
      (data = e ∨ e.toNat + 24 ≤ data.toNat ∧ 0 < size.toNat) ∧
        data.toNat + size.toNat + left.toNat = s.endOf e) :
    ∃ s' l' r, s.allocWith .none fit size = some (s', r) ∧ Took s l s' l' r size := by
  rcases allocWith_cases fit size h.links with
    hs | ⟨e, he, data, left, hf, hl, hs⟩
  · exact ⟨s, l, NIL, hs, h, .inl ⟨rfl, rfl, rfl⟩⟩
  · obtain ⟨hbefore, hends⟩ := hfit e he data left hf
    obtain ⟨as, bs, rfl⟩ := List.append_of_mem he
    exact ⟨_, _, data, hs, h.took ⟨hbefore, hl, hends⟩⟩

/-- **`KLfreeListMemAlloc`**, for any size. -/
theorem klFreeListMemAlloc_took (h : s.Entries l) (size : UADDR) :
    ∃ s' l' r, s.klFreeListMemAlloc .none size = some (s', r) ∧
      Took s l s' l' r (adjustSize size) := by
  refine allocWith_took h fun e _ data left hf => ?_
  obtain ⟨hd, hends⟩ := fitAt_ends hf
  exact ⟨.inl hd, hends⟩

/-- **`KLfreeListMemAllocAlign`**, for any size that can be rounded up. -/
theorem klFreeListMemAllocAlign_took (h : s.Entries l) (k : Nat)
    (hsize : adjustSize size ≠ 0#32) :
    ∃ s' l' r, s.klFreeListMemAllocAlign .none size k = some (s', r) ∧
      Took s l s' l' r (adjustSize size) := by
  have hpos := (adjustSize_cases size).resolve_left hsize
  refine allocWith_took h fun e he data left hf => ?_
  exact fitAligned_ends (h.bound e he) (h.links.ne_nil he) (by omega) hf

/-- In a free list every allocation returns. -/
theorem klFreeListMemAllocAlign_some (h : s.Links l) (size : UADDR) (k : Nat) :
    ∃ s' r, s.klFreeListMemAllocAlign .none size k = some (s', r) := by
  rcases allocWith_cases (fitAligned (adjustSize size) k) (adjustSize size) h with
    hs | ⟨_, _, _, _, _, _, hs⟩
  · exact ⟨_, _, hs⟩
  · exact ⟨_, _, hs⟩

/-! ## Allocating a region -/

/-- What the walk along a size list for a region finds. -/
def RegionIn (s : KLfreeListDescriptor) (l : List UADDR) (data size : UADDR) : RegionWalk → Prop
  | .found e left => e ∈ l ∧ ¬ data < e ∧ ¬ (data - e ≠ 0#32 ∧ data - e < HEADER) ∧
      size ≤ leftFrom data e (s.sizeOf e) ∧ left = leftFrom data e (s.sizeOf e) - size
  | _ => True

/-- The walk along a size list, by the list of its entries. -/
def regionOf (s : KLfreeListDescriptor) (data size : UADDR) : List UADDR → RegionWalk
  | [] => .nextTable
  | e :: m =>
    if data < e then .nextTable
    else if data - e ≠ 0#32 ∧ data - e < HEADER then .tooClose
    else if size ≤ leftFrom data e (s.sizeOf e) then .found e (leftFrom data e (s.sizeOf e) - size)
    else s.regionOf data size m

theorem regionSize_eq (data size : UADDR) {m : List UADDR} {fuel : Nat}
    (hc : Chained NIL (s.nextsizeOf t) e m) (hf : m.length < fuel) :
    s.regionSize data size fuel e = some (s.regionOf data size m) := by
  induction fuel generalizing e m with
  | zero => exact absurd hf (Nat.not_lt_zero _)
  | succ fuel ih =>
      rw [regionSize]
      cases m with
      | nil => exact if_pos hc
      | cons x m =>
          obtain ⟨rfl, hnil, hc⟩ := hc
          rw [nextsizeOf_of_ne hnil] at hc
          rw [if_neg hnil, regionOf]
          dsimp only
          rw [show (s.mem e).size = s.sizeOf e from rfl, ih hc (Nat.lt_of_succ_lt_succ hf)]
          simp only [apply_ite some]

theorem regionOf_in (data size : UADDR) {m : List UADDR} (hsub : m ⊆ l) :
    s.RegionIn l data size (s.regionOf data size m) := by
  induction m with
  | nil => trivial
  | cons x m ih =>
      rw [regionOf]
      split
      · trivial
      · next hlt =>
        split
        · trivial
        · next hclose =>
          split
          · next hle => exact ⟨hsub (.head _), hlt, hclose, hle, rfl⟩
          · exact ih fun y hy => hsub (.tail _ hy)

/-- The walk along the size lists, by their entries. -/
def regionFrom (s : KLfreeListDescriptor) (data size : UADDR) (m : Nat → List UADDR) :
    Nat → Nat → RegionWalk
  | 0, _ => .nextTable
  | k + 1, t =>
    if s.regionOf data size (m t) = .nextTable then s.regionFrom data size m k (t + 1)
    else s.regionOf data size (m t)

theorem regionTables_eq (data size : UADDR) {m : Nat → List UADDR} (hm : s.SizeLists l m)
    (hf : ∀ t, (m t).length < ADDRESSES) (k t : Nat) :
    s.regionTables data size k t = some (s.regionFrom data size m k t) := by
  induction k generalizing t with
  | zero => rfl
  | succ k ih =>
      rw [regionTables, regionSize_eq data size (hm t).1 (hf t), regionFrom]
      dsimp only [Option.bind_eq_bind, Option.bind_some]
      split
      · exact ih (t + 1)
      · rfl

theorem regionFrom_in (data size : UADDR) {m : Nat → List UADDR} (hm : s.SizeLists l m)
    (k t : Nat) : s.RegionIn l data size (s.regionFrom data size m k t) := by
  induction k generalizing t with
  | zero => trivial
  | succ k ih =>
      rw [regionFrom]
      split
      · exact ih (t + 1)
      · exact regionOf_in data size fun x hx => (((hm t).2 x).mp hx).1

theorem regionTables_in (data size : UADDR) (h : s.Links l) (k t : Nat) :
    ∃ w, s.regionTables data size k t = some w ∧ s.RegionIn l data size w := by
  obtain ⟨m, hm, hlists⟩ := h.sizeLists
  exact ⟨_, regionTables_eq data size hm (fun t => (hlists t).2) k t,
    regionFrom_in data size hm k t⟩

theorem klFreeListMemAllocRegion_cases (h : s.Links l) (data size : UADDR) :
    s.klFreeListMemAllocRegion data size = some (s, NIL) ∨
      ∃ e left, s.RegionIn l data (adjustSize size) (.found e left) ∧
        s.klFreeListMemAllocRegion data size =
          some (s.takeBlock e data (adjustSize size) left, data) := by
  obtain ⟨w, hs, hw⟩ := regionTables_in data (adjustSize size) h
    (8 - klGetFastLookupToUse (adjustSize size)) (klGetFastLookupToUse (adjustSize size))
  unfold klFreeListMemAllocRegion
  dsimp only
  rw [hs]
  cases w with
  | found e left => exact .inr ⟨e, left, hw, rfl⟩
  | tooClose => exact .inl rfl
  | nextTable => exact .inl rfl

/-- The region leaves nothing or a header's room behind it, in every entry that it lies in. -/
def LeavesRoom (s : KLfreeListDescriptor) (l : List UADDR) (data size : UADDR) : Prop :=
  ∀ e ∈ l, e.toNat ≤ data.toNat → data.toNat + size.toNat ≤ s.endOf e →
    data.toNat + size.toNat = s.endOf e ∨ data.toNat + size.toNat + 24 ≤ s.endOf e

/-- **`KLfreeListMemAllocRegion`**, for a region that leaves room. -/
theorem klFreeListMemAllocRegion_took (h : s.Entries l) (hsize : adjustSize size ≠ 0#32)
    (hroom : s.LeavesRoom l data (adjustSize size)) :
    ∃ s' l' r, s.klFreeListMemAllocRegion data size = some (s', r) ∧
      Took s l s' l' r (adjustSize size) := by
  have hpos := (adjustSize_cases size).resolve_left hsize
  rcases klFreeListMemAllocRegion_cases h.links data size with
    hs | ⟨e, left, ⟨he, hlt, hclose, hle, hleft⟩, hs⟩
  · exact ⟨s, l, NIL, hs, h, .inl ⟨rfl, rfl, rfl⟩⟩
  · obtain ⟨hge, hends⟩ := leftFrom_ends (h.bound e he) (by omega) hle
    have hleft' : left.toNat = (leftFrom data e (s.sizeOf e)).toNat - (adjustSize size).toNat := by
      rw [hleft, BitVec.toNat_sub_of_le hle]
    have hle := BitVec.le_def.mp hle
    have hroom := hroom e he hge (by omega)
    obtain ⟨as, bs, rfl⟩ := List.append_of_mem he
    refine ⟨_, _, data, hs, h.took ⟨?_, ?_, by omega⟩⟩
    · by_cases hd : data = e
      · exact .inl hd
      · refine .inr ⟨?_, by omega⟩
        -- the walk does not stop at an entry that starts too close before the region
        have hsub : (data - e).toNat = data.toNat - e.toNat :=
          BitVec.toNat_sub_of_le (BitVec.le_def.mpr hge)
        have hne : data.toNat ≠ e.toNat := fun h0 => hd (BitVec.eq_of_toNat_eq h0)
        by_contra hlt24
        refine hclose ⟨fun h0 => ?_, BitVec.lt_def.mpr ?_⟩
        · have h0 : (data - e).toNat = 0 := congrArg BitVec.toNat h0
          omega
        · show (data - e).toNat < 24
          omega
    · by_cases h0 : left.toNat = 0
      · exact .inl (BitVec.eq_of_toNat_eq h0)
      · exact .inr (by omega)

/-! ## Freeing -/

/-- The walk stops at the first entry behind the address, or at the last. -/
theorem walkTo_cases (data : UADDR) {fuel : Nat} (hc : Chained NIL s.nextOf e l) (hne : l ≠ [])
    (hf : l.length < fuel) : ∃ as x bs, l = as ++ x :: bs ∧ s.walkTo data fuel e = some x ∧
      (∀ y ∈ as, y ≤ data) ∧ (data < x ∨ bs = []) := by
  induction fuel generalizing e l with
  | zero => exact absurd hf (Nat.not_lt_zero _)
  | succ fuel ih =>
      cases l with
      | nil => exact absurd rfl hne
      | cons x l =>
          obtain ⟨rfl, hnil, hc⟩ := hc
          rw [nextOf_of_ne hnil] at hc
          rw [walkTo]
          cases l with
          | nil =>
              rw [if_pos (.inl (show (s.mem e).next = NIL from hc))]
              exact ⟨[], e, [], rfl, rfl, by simp, .inr rfl⟩
          | cons y l =>
              by_cases hlt : data < e
              · rw [if_pos (.inr hlt)]
                exact ⟨[], e, y :: l, rfl, rfl, by simp, .inl hlt⟩
              · rw [if_neg (not_or.mpr ⟨fun h0 => hc.2.1 (hc.1.symm.trans h0), hlt⟩)]
                obtain ⟨as, x, bs, hl, hw, has, hx⟩ :=
                  ih hc (List.cons_ne_nil y l) (Nat.lt_of_succ_lt_succ hf)
                refine ⟨e :: as, x, bs, by rw [hl]; rfl, hw, ?_, hx⟩
                exact List.forall_mem_cons.mpr ⟨BitVec.not_lt.mp hlt, has⟩

/-- The place of an address is between the entries before and those behind it. -/
theorem placeOf_cases (h : s.Entries l) (data : UADDR) : ∃ as bs, l = as ++ bs ∧
    s.placeOf data = some (as.getLastD NIL, bs.headD NIL) ∧
    (∀ x ∈ as, x.toNat ≤ data.toNat) ∧ ∀ y ∈ bs, data.toNat < y.toNat := by
  have hc := h.links.addr.chained
  rw [nextOf_nil] at hc
  unfold placeOf
  cases hl : l with
  | nil =>
      rw [hl] at hc
      rw [if_pos (show s.FirstFreeEntry = NIL from hc)]
      exact ⟨[], [], rfl, rfl, by simp, by simp⟩
  | cons x₀ l₀ =>
      have hne : l ≠ [] := by simp [hl]
      have hfirst : s.FirstFreeEntry ≠ NIL := by
        rw [hl] at hc
        exact hc.1 ▸ hc.2.1
      obtain ⟨as, x, bs, hsplit, hw, has, hx⟩ :=
        walkTo_cases data hc hne (length_lt hc.nodup hc.nil_notMem)
      rw [if_neg hfirst, hw, ← hl, hsplit]
      rw [hsplit] at h
      dsimp only [Option.map_some]
      have has : ∀ y ∈ as, y.toNat ≤ data.toNat := fun y hy => BitVec.le_def.mp (has y hy)
      by_cases hlt : data < x
      · rw [if_pos hlt, h.links.neighbours.1]
        refine ⟨as, x :: bs, rfl, rfl, has, List.forall_mem_cons.mpr ⟨BitVec.lt_def.mp hlt, ?_⟩⟩
        intro y hy
        have hxy := h.around.2.1 y hy
        have hdx := BitVec.lt_def.mp hlt
        unfold endOf at hxy
        omega
      · obtain rfl := hx.resolve_left hlt
        rw [if_neg hlt]
        refine ⟨as ++ [x], [], by simp, by rw [List.getLastD_concat]; rfl, ?_, by simp⟩
        intro y hy
        rcases List.mem_append.mp hy with hy | hy
        · exact has y hy
        · obtain rfl := List.mem_singleton.mp hy
          exact BitVec.le_def.mp (BitVec.not_lt.mp hlt)

/-- A new entry adds its bytes. -/
theorem Entries.free_insert {p n v : UADDR} (hnil : e ≠ NIL) (he : e ∉ as ++ bs) :
    ((s.setSize e v).klFreeListInsert p e n).Free (as ++ e :: bs) a ↔
      s.Free (as ++ bs) a ∨ InBlock e v a := by
  have hsame : ∀ x ∈ as ++ bs, ((s.setSize e v).klFreeListInsert p e n).endOf x = s.endOf x := by
    intro x hx
    rw [insert_endOf hnil, update_of_ne (ne_of_mem_of_not_mem hx he)]
  rw [← List.singleton_append, free_middle, free_congr hsame]
  simp [Free, InBlock, insert_endOf hnil]

/-- Without callbacks a freed entry is inserted. -/
theorem klFreeListMemFreeChunk_none {p n : UADDR} :
    s.klFreeListMemFreeChunk .none p e n = s.klFreeListInsert p e n := by
  simp [klFreeListMemFreeChunk, preparedChunk, Callbacks.none]

/-- What an entry takes of the memory. -/
theorem free_singleton : s.Free [e] a ↔ e.toNat ≤ a ∧ a < e.toNat + (s.sizeOf e).toNat := by
  simp [Free, endOf]

/-- Two blocks that follow each other in memory are not longer together than an address. -/
theorem toNat_joined {p size size' : UADDR} (hp : p ≠ NIL)
    (hbound : p.toNat + size.toNat + size'.toNat ≤ ADDRESSES) :
    (size + size').toNat = size.toNat + size'.toNat := by
  have hpos := toNat_pos hp
  unfold ADDRESSES at hbound
  rw [BitVec.toNat_add]
  exact Nat.mod_eq_of_lt (by omega)

/-- An entry that a block was joined with gives its bytes to the new one. -/
theorem free_joined {p n : UADDR} (h : InBlock p n a ↔ s.Free [e] a ∨ InBlock data size a) :
    s.Free (as ++ bs) a ∨ InBlock p n a ↔ s.Free (as ++ e :: bs) a ∨ InBlock data size a := by
  rw [← List.singleton_append, free_middle, h, or_assoc]

/-- A block between two entries, not right behind the first, is put into the list and joined
with the second if it touches it. -/
theorem Entries.joinNext (h : s.Entries (as ++ bs)) (hnil : data ≠ NIL) (hroom : 24 ≤ size.toNat)
    (hbound : data.toNat + size.toNat ≤ ADDRESSES) (has : ∀ x ∈ as, s.endOf x < data.toNat)
    (hbs : ∀ y ∈ bs, data.toNat + size.toNat ≤ y.toNat) :
    ∃ l', (s.joinNext .none (as.getLastD NIL) data size (bs.headD NIL)).Entries l' ∧
      (s.joinNext .none (as.getLastD NIL) data size (bs.headD NIL)).rest = s.rest ∧
      ∀ a, (s.joinNext .none (as.getLastD NIL) data size (bs.headD NIL)).Free l' a ↔
        s.Free (as ++ bs) a ∨ InBlock data size a := by
  -- the block is no entry yet
  have hnotin : ∀ {bs' : List UADDR}, bs' ⊆ bs → data ∉ as ++ bs' := by
    intro bs' hsub hm
    rcases List.mem_append.mp hm with hm | hm
    · have := has data hm
      unfold endOf at this
      omega
    · have := hbs data (hsub hm)
      omega
  unfold KLfreeListDescriptor.joinNext
  split
  · next hc =>
    obtain ⟨hy, htouch⟩ := hc
    cases bs with
    | nil => exact absurd rfl hy
    | cons y bs =>
        rw [List.headD_cons] at hy htouch ⊢
        have hsize := (klFreeListRemove_rest (s := s) hy)
        have hend : data.toNat + size.toNat = y.toNat := by
          have h1 : (data + size).toNat = y.toNat := congrArg BitVec.toNat htouch
          have h2 := toNat_pos hy
          have h3 := BitVec.toNat_add data size
          unfold ADDRESSES at hbound
          omega
        have hyb := h.bound y (by simp)
        unfold endOf at hyb
        have hsum : (size + (s.mem y).size).toNat = size.toNat + (s.sizeOf y).toNat := by
          change (size + s.sizeOf y).toNat = _
          exact toNat_joined hnil (by omega)
        obtain ⟨_, hbs', _⟩ := h.around
        dsimp only
        rw [klFreeListMemFreeChunk_none, h.links.neighbours.2]
        refine ⟨as ++ data :: bs, ?_, ?_, fun a => ?_⟩
        · refine h.remove.insert rfl rfl hnil (by omega) (by omega) ?_ ?_
          · intro x hx
            rw [endOf_congr hsize.1]
            exact has x hx
          · intro z hz
            have := hbs' z hz
            unfold endOf at this
            omega
        · rw [(klFreeListInsert_rest hnil).2.2, setSize_rest.2.2.2.2.2, hsize.2.2]
        · rw [Entries.free_insert hnil (hnotin (List.subset_cons_self y bs)),
            free_congr fun x _ => congrFun (endOf_congr hsize.1) x]
          refine free_joined ?_
          rw [free_singleton]
          unfold InBlock
          omega
  · next hc =>
    have hlt : ∀ y ∈ bs, data.toNat + size.toNat < y.toNat := by
      cases bs with
      | nil => simp
      | cons y bs =>
          have hy : y ≠ NIL := h.links.ne_nil (by simp)
          have hne : data.toNat + size.toNat ≠ y.toNat := by
            intro he
            refine hc ⟨hy, BitVec.eq_of_toNat_eq ?_⟩
            rw [BitVec.toNat_add, List.headD_cons, he]
            exact Nat.mod_eq_of_lt y.isLt
          have hle := hbs y (.head _)
          refine List.forall_mem_cons.mpr ⟨by omega, fun z hz => ?_⟩
          have := h.around.2.1 z hz
          unfold endOf at this
          omega
    rw [klFreeListMemFreeChunk_none]
    refine ⟨as ++ data :: bs, h.insert rfl rfl hnil hroom hbound has hlt, ?_, fun a => ?_⟩
    · rw [(klFreeListInsert_rest hnil).2.2, setSize_rest.2.2.2.2.2]
    · exact Entries.free_insert hnil (hnotin (List.Subset.refl bs))

/-- The same with the entry before it: the block is joined with both entries that it touches. -/
theorem Entries.joinPrev (h : s.Entries (as ++ bs)) (hnil : data ≠ NIL) (hroom : 24 ≤ size.toNat)
    (hbound : data.toNat + size.toNat ≤ ADDRESSES) (has : ∀ x ∈ as, s.endOf x ≤ data.toNat)
    (hbs : ∀ y ∈ bs, data.toNat + size.toNat ≤ y.toNat) :
    ∃ l', (s.joinPrev .none (as.getLastD NIL) data size (bs.headD NIL)).Entries l' ∧
      (s.joinPrev .none (as.getLastD NIL) data size (bs.headD NIL)).rest = s.rest ∧
      ∀ a, (s.joinPrev .none (as.getLastD NIL) data size (bs.headD NIL)).Free l' a ↔
        s.Free (as ++ bs) a ∨ InBlock data size a := by
  unfold KLfreeListDescriptor.joinPrev
  rcases List.eq_nil_or_concat as with rfl | ⟨as, p, rfl⟩
  · rw [if_neg fun hc => hc.1 rfl]
    exact h.joinNext hnil hroom hbound (by simp) hbs
  rw [List.concat_eq_append] at h has ⊢
  rw [List.getLastD_concat]
  rw [← List.append_cons] at h ⊢
  have hp : p ≠ NIL := h.links.ne_nil (by simp)
  have hend := has p (by simp)
  have hplus : (p + (s.mem p).size).toNat = s.endOf p := by
    rw [BitVec.toNat_add]
    exact Nat.mod_eq_of_lt (Nat.lt_of_le_of_lt hend data.isLt)
  obtain ⟨hbefore, _, hsep⟩ := h.around
  split
  · next hc =>
    have hsize := klFreeListRemove_rest (s := s) hp
    have htouch : s.endOf p = data.toNat := by rw [← hplus, hc.2]
    have hend' : s.endOf p = p.toNat + (s.sizeOf p).toNat := rfl
    have hsum : (size + (s.mem p).size).toNat = size.toNat + (s.sizeOf p).toNat := by
      change (size + s.sizeOf p).toNat = _
      exact toNat_joined hp (by omega)
    dsimp only
    rw [h.links.neighbours.1]
    have hjoined : 24 ≤ (size + (s.mem p).size).toNat := by omega
    obtain ⟨l', h', hr, hf⟩ := h.remove.joinNext hp hjoined (by omega)
      (fun x hx => by rw [endOf_congr hsize.1]; exact hbefore x hx) fun y hy => by
        have := hbs y hy
        omega
    refine ⟨l', h', hr.trans hsize.2.2, fun a => ?_⟩
    rw [hf, free_congr fun x _ => congrFun (endOf_congr hsize.1) x]
    refine free_joined ?_
    rw [free_singleton]
    unfold InBlock
    omega
  · next hc =>
    have hne : s.endOf p ≠ data.toNat := fun he =>
      hc ⟨hp, BitVec.eq_of_toNat_eq (hplus.trans he)⟩
    rw [List.append_cons] at h ⊢
    have hlt : ∀ x ∈ as ++ [p], s.endOf x < data.toNat := by
      intro x hx
      rcases List.mem_append.mp hx with hx | hx
      · have := hbefore x hx
        unfold endOf at hend
        omega
      · obtain rfl := List.mem_singleton.mp hx
        omega
    have hj := h.joinNext hnil hroom hbound hlt hbs
    rwa [List.getLastD_concat] at hj

/-- The block is not free, and is one. -/
structure Freeable (s : KLfreeListDescriptor) (l : List UADDR) (data size : UADDR) : Prop where
  ne_nil : data ≠ NIL
  room : size ≠ 0#32
  bound : data.toNat + size.toNat ≤ ADDRESSES
  apart : ∀ x ∈ l, s.endOf x ≤ data.toNat ∨ data.toNat + size.toNat ≤ x.toNat

/-- A block none of whose bytes is free. -/
theorem Entries.freeable (h : s.Entries l) (hnil : data ≠ NIL) (hsize : size ≠ 0#32)
    (hbytes : ∀ a, InBlock data size a → a < ADDRESSES ∧ ¬ s.Free l a) :
    s.Freeable l data size := by
  have hpos := toNat_pos hsize
  have hlast := (hbytes (data.toNat + size.toNat - 1) (by unfold InBlock; omega)).1
  refine ⟨hnil, hsize, by omega, fun x hx => ?_⟩
  by_contra hmeet
  have hroom := h.room x hx
  have hend : s.endOf x = x.toNat + (s.sizeOf x).toNat := rfl
  -- a byte of both
  have hin : InBlock data size (max x.toNat data.toNat) := by
    unfold InBlock
    omega
  exact (hbytes _ hin).2 ⟨x, hx, by omega, by omega⟩

/-- **`KLfreeListMemFree`** puts the bytes of the block in. -/
theorem klFreeListMemFree_gives (h : s.Entries l) (hb : s.Freeable l data (adjustSize size)) :
    ∃ s' l', s.klFreeListMemFree .none data size = some s' ∧ s'.Entries l' ∧
      s'.FreeMemory = s.FreeMemory + adjustSize size ∧
      ∀ a, s'.Free l' a ↔ s.Free l a ∨ InBlock data (adjustSize size) a := by
  have hroom := (adjustSize_cases size).resolve_left hb.room
  obtain ⟨as, bs, rfl, hs, has, hbs⟩ := placeOf_cases h data
  -- the entries before the place end before the block, those behind it start behind it
  have has : ∀ x ∈ as, s.endOf x ≤ data.toNat := by
    intro x hx
    have := has x hx
    have := hb.apart x (List.mem_append_left _ hx)
    omega
  have hbs : ∀ y ∈ bs, data.toNat + (adjustSize size).toNat ≤ y.toNat := by
    intro y hy
    have := hbs y hy
    have := hb.apart y (List.mem_append_right _ hy)
    unfold endOf at this
    omega
  have hcount := @Entries.count s (as ++ bs) (s.FreeMemory + adjustSize size) h
  obtain ⟨l', h', hr, hf⟩ := hcount.joinPrev hb.ne_nil hroom hb.bound has hbs
  refine ⟨_, l', ?_, h', congrArg Prod.fst hr, hf⟩
  unfold klFreeListMemFree
  rw [hs]
  rfl

/-- In a free list every call of `KLfreeListMemFree` returns. -/
theorem klFreeListMemFree_some (h : s.Entries l) (data size : UADDR) :
    ∃ s', s.klFreeListMemFree .none data size = some s' := by
  obtain ⟨as, bs, _, hs, _⟩ := placeOf_cases h data
  unfold klFreeListMemFree
  rw [hs]
  exact ⟨_, rfl⟩

end Alliance.KL.KLfreeListDescriptor
