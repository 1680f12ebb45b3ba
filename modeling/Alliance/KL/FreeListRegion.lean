import Alliance.KL.FreeListLedger

/-!
# Regions of the free list

A region that the caller names can be taken if it lies in one entry, and if what it leaves before
and behind it is nothing or has room for a header (`RegionFits`). `KLfreeListMemAllocRegion` does
not look at what is left behind it, and it leaves a size list at the first entry that is above
the region, as if the size lists were in the order of addresses. So a region is served if and
only if the entry that it lies in is met before such an entry where it should be, and not where
it should not (`klFreeListMemAllocRegion_iff`).
-/

namespace Alliance.KL.KLfreeListDescriptor

open Lib
open CK (UADDR)

variable {s s' : KLfreeListDescriptor} {l m : List UADDR} {lists : Nat → List UADDR}
  {e x data size left r : UADDR} {k n t : Nat}

/-! ## Where a region lies -/

/-- `n` bytes at `data` lie in the entry, at its start or with room for a header before them. -/
structure RegionHeld (s : KLfreeListDescriptor) (e data : UADDR) (n : Nat) : Prop where
  before : data = e ∨ e.toNat + 24 ≤ data.toNat
  inside : data.toNat + n ≤ s.endOf e

/-- What they leave behind them is nothing or has room for a header. -/
def RoomBehind (s : KLfreeListDescriptor) (e data : UADDR) (n : Nat) : Prop :=
  data.toNat + n = s.endOf e ∨ data.toNat + n + 24 ≤ s.endOf e

/-- The region can be taken out of the entry. -/
def RegionFits (s : KLfreeListDescriptor) (e data : UADDR) (n : Nat) : Prop :=
  s.RegionHeld e data n ∧ s.RoomBehind e data n

/-- The call takes the region if it can be taken out of an entry, and else nothing. -/
def RegionExact (s : KLfreeListDescriptor) (l : List UADDR) (data size : UADDR) : Prop :=
  ∃ s' l' r, s.klFreeListMemAllocRegion data size = some (s', r) ∧
    Took s l s' l' r (adjustSize size) ∧ (r = NIL ∨ r = data) ∧
    (r ≠ NIL ↔ ∃ e ∈ l, s.RegionFits e data (roundedSize size))

/-- In its size list no entry before `e` is above `data`. -/
def Reached (s : KLfreeListDescriptor) (data e : UADDR) : Prop :=
  ∃ as bs, Chained NIL (s.nextsizeOf (s.tableOf e)) (s.FirstFreeSizeEntry (s.tableOf e))
    (as ++ e :: bs) ∧ ∀ x ∈ as, x ≤ data

/-- A size list starts with an entry that is not above `data`. -/
def StartsBelow (s : KLfreeListDescriptor) (data : UADDR) (t : Nat) : Prop :=
  s.FirstFreeSizeEntry t ≠ NIL ∧ s.FirstFreeSizeEntry t ≤ data

/-- `data` lies in the header of an entry, behind its start. -/
def InHeader (data e : UADDR) : Prop := data - e ≠ 0#32 ∧ data - e < HEADER

/-- The call comes to the entry that the region lies in if and only if it can take the region
out of it. With a size that cannot be rounded up it takes the first entry that it comes to, unless
`data` lies in its header. -/
def RegionServed (s : KLfreeListDescriptor) (l : List UADDR) (data size : UADDR) : Prop :=
  if adjustSize size = 0#32 then
    ∀ t < 8, s.StartsBelow data t → (∀ t' < t, ¬ s.StartsBelow data t') →
      InHeader data (s.FirstFreeSizeEntry t)
  else ∀ e ∈ l, s.RegionHeld e data (roundedSize size) →
    (s.RoomBehind e data (roundedSize size) ↔ s.Reached data e)

/-! ## The walk -/

theorem RegionHeld.le (h : s.RegionHeld e data n) : e.toNat ≤ data.toNat := by
  rcases h.before with rfl | hb
  · exact Nat.le_refl _
  · omega

theorem InHeader.lt (h : InHeader data e) (hle : e ≤ data) :
    e.toNat < data.toNat ∧ data.toNat < e.toNat + 24 := by
  obtain ⟨hne, hlt⟩ := h
  have hsub := BitVec.toNat_sub_of_le hle
  have hpos := toNat_pos hne
  have hlt : (data - e).toNat < 24 := BitVec.lt_def.mp hlt
  omega

theorem before_of_not_inHeader (h : ¬ InHeader data e) (hle : e ≤ data) :
    data = e ∨ e.toNat + 24 ≤ data.toNat := by
  by_cases hd : data = e
  · exact .inl hd
  refine .inr ?_
  by_contra hlt
  have hsub := BitVec.toNat_sub_of_le hle
  have hge := BitVec.le_def.mp hle
  have hne : data.toNat ≠ e.toNat := fun h0 => hd (BitVec.eq_of_toNat_eq h0)
  refine h ⟨fun h0 => ?_, BitVec.lt_def.mpr (show (data - e).toNat < 24 by omega)⟩
  have h0 : (data - e).toNat = 0 := congrArg BitVec.toNat h0
  omega

/-- **One step of the walk**: an entry is taken if and only if the region lies in it. -/
theorem held_iff (h : s.Entries l) (he : e ∈ l) (hsize : 0 < size.toNat) :
    ¬ data < e ∧ ¬ InHeader data e ∧ size ≤ leftFrom data e (s.sizeOf e) ↔
      s.RegionHeld e data size.toNat := by
  constructor
  · intro ⟨hlt, hclose, hle⟩
    obtain ⟨hge, hends⟩ := leftFrom_ends (h.bound e he) hsize hle
    have hle := BitVec.le_def.mp hle
    exact ⟨before_of_not_inHeader hclose (BitVec.not_lt.mp hlt), by omega⟩
  · intro hheld
    have hge := hheld.le
    have hin := hheld.inside
    have hle : e ≤ data := BitVec.le_def.mpr hge
    have hsub := BitVec.toNat_sub_of_le hle
    unfold endOf at hin
    refine ⟨BitVec.not_lt.mpr hle, fun hc => ?_, ?_⟩
    · have := hc.lt hle
      rcases hheld.before with rfl | hb
      · omega
      · omega
    · unfold leftFrom
      have hd : ¬ s.sizeOf e < data - e := by
        refine BitVec.not_lt.mpr (BitVec.le_def.mpr ?_)
        omega
      rw [if_neg fun hc => hd hc.2, BitVec.le_def, BitVec.toNat_sub_of_le (BitVec.not_lt.mp hd)]
      omega

/-- Another entry than the one that the region lies in is passed over, or ends the walk. -/
theorem RegionHeld.other (h : s.Entries l) (he : e ∈ l) (hheld : s.RegionHeld e data size.toNat)
    (hsize : 0 < size.toNat) (hx : x ∈ l) (hne : x ≠ e) (hle : x ≤ data) :
    ¬ InHeader data x ∧ ¬ size ≤ leftFrom data x (s.sizeOf x) := by
  have hin := hheld.inside
  have hge := hheld.le
  have hroom := h.room x hx
  have hxd := BitVec.le_def.mp hle
  have hend : s.endOf x = x.toNat + (s.sizeOf x).toNat := rfl
  have hsep := h.separate he hx hne
  refine ⟨fun hc => ?_, fun hl => ?_⟩
  · have := hc.lt hle
    omega
  · have := (leftFrom_ends (h.bound x hx) hsize hl).2
    have := BitVec.le_def.mp hl
    omega

/-- The walk along the list `m` comes to `e`. -/
def Ahead (data e : UADDR) (m : List UADDR) : Prop :=
  ∃ as bs, m = as ++ e :: bs ∧ ∀ x ∈ as, x ≤ data

theorem ahead_cons (hne : x ≠ e) : Ahead data e (x :: m) ↔ x ≤ data ∧ Ahead data e m := by
  constructor
  · rintro ⟨as, bs, hm, has⟩
    cases as with
    | nil => exact absurd (List.cons.inj hm).1 hne
    | cons y as =>
        obtain ⟨rfl, rfl⟩ := List.cons.inj hm
        exact ⟨has x (.head _), as, bs, rfl, fun z hz => has z (.tail _ hz)⟩
  · rintro ⟨hx, as, bs, rfl, has⟩
    exact ⟨x :: as, bs, rfl, List.forall_mem_cons.mpr ⟨hx, has⟩⟩

/-- **The walk along a size list** takes the entry that the region lies in, if it comes to it. -/
theorem regionOf_held (h : s.Entries l) (he : e ∈ l) (hheld : s.RegionHeld e data size.toNat)
    (hsize : 0 < size.toNat) (hsub : m ⊆ l) :
    (∃ left, s.regionOf data size m = .found e left) ∧ Ahead data e m ∨
      s.regionOf data size m = .nextTable ∧ ¬ Ahead data e m := by
  induction m with
  | nil => exact .inr ⟨rfl, fun ⟨as, bs, hm, _⟩ => by simp at hm⟩
  | cons x m ih =>
      have ih := ih fun y hy => hsub (.tail _ hy)
      rw [regionOf]
      by_cases hxe : x = e
      · subst hxe
        obtain ⟨hlt, hclose, hle⟩ := (held_iff h he hsize).mpr hheld
        unfold InHeader at hclose
        rw [if_neg hlt, if_neg hclose, if_pos hle]
        exact .inl ⟨⟨_, rfl⟩, [], m, rfl, by simp⟩
      · rw [ahead_cons hxe]
        by_cases hlt : data < x
        · rw [if_pos hlt]
          exact .inr ⟨rfl, fun ha => BitVec.not_lt.mpr ha.1 hlt⟩
        · have hle := BitVec.not_lt.mp hlt
          obtain ⟨hclose, hout⟩ := hheld.other h he hsize (hsub (.head _)) hxe hle
          unfold InHeader at hclose
          rw [if_neg hlt, if_neg hclose, if_neg hout, and_iff_right hle]
          exact ih

/-- **The walk along the size lists.** -/
theorem regionFrom_held (h : s.Entries l) (hm : s.SizeLists l lists) (he : e ∈ l)
    (hheld : s.RegionHeld e data size.toNat) (hsize : 0 < size.toNat) (k t : Nat) :
    (∃ left, s.regionFrom data size lists k t = .found e left) ∧
        (∃ t', t ≤ t' ∧ t' < t + k ∧ Ahead data e (lists t')) ∨
      s.regionFrom data size lists k t = .nextTable ∧
        ∀ t', t ≤ t' → t' < t + k → ¬ Ahead data e (lists t') := by
  induction k generalizing t with
  | zero => exact .inr ⟨rfl, fun t' h₁ h₂ => absurd h₂ (Nat.not_lt.mpr h₁)⟩
  | succ k ih =>
      rw [regionFrom]
      rcases regionOf_held h he hheld hsize (m := lists t) fun x hx => (((hm t).2 x).mp hx).1 with
        ⟨⟨left, hw⟩, ha⟩ | ⟨hw, hna⟩
      · rw [hw, if_neg (by simp)]
        exact .inl ⟨⟨left, rfl⟩, t, Nat.le_refl t, by omega, ha⟩
      · rw [if_pos hw]
        rcases ih (t + 1) with ⟨hfound, t', h₁, h₂, ha⟩ | ⟨hnext, hnone⟩
        · exact .inl ⟨hfound, t', by omega, by omega, ha⟩
        · refine .inr ⟨hnext, fun t' h₁ h₂ => ?_⟩
          rcases Nat.eq_or_lt_of_le h₁ with rfl | hlt
          · exact hna
          · exact hnone t' hlt (by omega)

/-- `Reached` is about the list of the entries. -/
theorem reached_iff (hm : s.SizeLists l lists) :
    s.Reached data e ↔ Ahead data e (lists (s.tableOf e)) := by
  have hc := (hm (s.tableOf e)).1
  constructor
  · rintro ⟨as, bs, hc', has⟩
    exact ⟨as, bs, hc.unique hc', has⟩
  · rintro ⟨as, bs, ha, has⟩
    exact ⟨as, bs, ha ▸ hc, has⟩

/-- **The call** for a region that lies in an entry takes it out of that entry, or fails if the
walk does not come to it. -/
theorem klFreeListMemAllocRegion_held (h : s.Entries l) (he : e ∈ l)
    (hsize : adjustSize size ≠ 0#32) (hheld : s.RegionHeld e data (roundedSize size)) :
    (∃ s', s.klFreeListMemAllocRegion data size = some (s', data)) ∧ s.Reached data e ∨
      s.klFreeListMemAllocRegion data size = some (s, NIL) ∧ ¬ s.Reached data e := by
  obtain ⟨lists, hm, hlists⟩ := h.links.sizeLists
  rw [← adjustSize_rounded hsize] at hheld
  have hpos := toNat_pos hsize
  have hwalk := regionTables_eq data (adjustSize size) hm (fun t => (hlists t).2)
    (8 - klGetFastLookupToUse (adjustSize size)) (klGetFastLookupToUse (adjustSize size))
  rw [reached_iff hm]
  unfold klFreeListMemAllocRegion
  dsimp only
  rw [hwalk]
  rcases regionFrom_held h hm he hheld hpos (8 - klGetFastLookupToUse (adjustSize size))
    (klGetFastLookupToUse (adjustSize size)) with ⟨⟨left, hw⟩, t, -, -, ha⟩ | ⟨hw, hnone⟩
  · -- the list that it is met in is that of its size
    rw [hw]
    obtain ⟨as, bs, ht, -⟩ := id ha
    obtain rfl := (((hm t).2 e).mp (by rw [ht]; simp)).2
    exact .inl ⟨⟨_, rfl⟩, ha⟩
  · rw [hw]
    have hge := hheld.le
    have hin := hheld.inside
    have hle : adjustSize size ≤ s.sizeOf e := BitVec.le_def.mpr (by unfold endOf at hin; omega)
    have hlt := klGetFastLookupToUse_lt (s.sizeOf e)
    refine .inr ⟨rfl, hnone _ ?_ ?_⟩
    · rw [h.table e he]
      exact klGetFastLookupToUse_mono hle
    · rw [h.table e he]
      omega

/-- A call that does not fail has met the entry that the region lies in. -/
theorem klFreeListMemAllocRegion_cases_held (h : s.Entries l) (data : UADDR)
    (hsize : adjustSize size ≠ 0#32) :
    s.klFreeListMemAllocRegion data size = some (s, NIL) ∨
      ∃ e ∈ l, s.RegionHeld e data (roundedSize size) := by
  rcases klFreeListMemAllocRegion_cases h.links data size with
    hs | ⟨e, left, ⟨he, hlt, hclose, hle, -⟩, -⟩
  · exact .inl hs
  · rw [← adjustSize_rounded hsize]
    exact .inr ⟨e, he, (held_iff h he (toNat_pos hsize)).mp ⟨hlt, hclose, hle⟩⟩

/-! ## Sizes that cannot be rounded up -/

/-- The first entry of a size list ends the walk for an empty region. -/
theorem regionOf_zero (data : UADDR) (hc : Chained NIL (s.nextsizeOf t) (s.FirstFreeSizeEntry t) m) :
    s.regionOf data 0#32 m = .nextTable ∧ ¬ s.StartsBelow data t ∨
    s.regionOf data 0#32 m = .tooClose ∧
      s.StartsBelow data t ∧ InHeader data (s.FirstFreeSizeEntry t) ∨
    (∃ e left, s.regionOf data 0#32 m = .found e left) ∧
      s.StartsBelow data t ∧ ¬ InHeader data (s.FirstFreeSizeEntry t) := by
  unfold StartsBelow InHeader
  cases m with
  | nil => exact .inl ⟨rfl, fun hs => hs.1 hc⟩
  | cons x m =>
      obtain ⟨hx, hnil, -⟩ := hc
      rw [hx, regionOf]
      split
      · next hlt => exact .inl ⟨rfl, fun hs => BitVec.not_lt.mpr hs.2 hlt⟩
      · next hlt =>
        have hbelow : x ≠ NIL ∧ x ≤ data := ⟨hnil, BitVec.not_lt.mp hlt⟩
        split
        · next hclose => exact .inr (.inl ⟨rfl, hbelow, hclose⟩)
        · next hclose =>
          rw [if_pos (BitVec.le_def.mpr (Nat.zero_le _))]
          exact .inr (.inr ⟨⟨_, _, rfl⟩, hbelow, hclose⟩)

/-- The first size list that starts below the region ends the walk. -/
theorem regionFrom_zero (data : UADDR) (hm : s.SizeLists l lists) (k t : Nat) :
    (∃ e left, s.regionFrom data 0#32 lists k t = .found e left) ↔
      ∃ t', t ≤ t' ∧ t' < t + k ∧ s.StartsBelow data t' ∧
        (∀ t'', t ≤ t'' → t'' < t' → ¬ s.StartsBelow data t'') ∧
        ¬ InHeader data (s.FirstFreeSizeEntry t') := by
  induction k generalizing t with
  | zero =>
      refine iff_of_false (by simp [regionFrom]) ?_
      rintro ⟨t', h₁, h₂, -⟩
      exact absurd h₂ (Nat.not_lt.mpr h₁)
  | succ k ih =>
      rw [regionFrom]
      rcases regionOf_zero data (hm t).1 with
        ⟨hw, hnot⟩ | ⟨hw, hbelow, hclose⟩ | ⟨hw, hbelow, hclose⟩
      · rw [if_pos hw, ih (t + 1)]
        constructor
        · rintro ⟨t', h₁, h₂, hbelow, hfirst, hclose⟩
          refine ⟨t', by omega, by omega, hbelow, fun t'' h₃ h₄ => ?_, hclose⟩
          rcases Nat.eq_or_lt_of_le h₃ with rfl | hlt
          · exact hnot
          · exact hfirst t'' hlt h₄
        · rintro ⟨t', h₁, h₂, hbelow, hfirst, hclose⟩
          have hne : t ≠ t' := fun h0 => hnot (h0 ▸ hbelow)
          exact ⟨t', by omega, by omega, hbelow, fun t'' h₃ => hfirst t'' (by omega), hclose⟩
      · rw [hw, if_neg (by simp)]
        refine iff_of_false (by simp) ?_
        rintro ⟨t', h₁, h₂, hbelow', hfirst, hclose'⟩
        rcases Nat.eq_or_lt_of_le h₁ with rfl | hlt
        · exact hclose' hclose
        · exact hfirst t (Nat.le_refl t) hlt hbelow
      · obtain ⟨e, left, hw⟩ := hw
        rw [hw, if_neg (by simp)]
        exact iff_of_true ⟨e, left, rfl⟩ ⟨t, Nat.le_refl t, by omega, hbelow,
          fun t'' h₁ h₂ => absurd h₂ (Nat.not_lt.mpr h₁), hclose⟩

/-- The region would be as large as the memory. -/
theorem not_regionFits_wrapped (h : s.Entries l) (he : e ∈ l) (hsize : adjustSize size = 0#32) :
    ¬ s.RegionFits e data (roundedSize size) := by
  intro hfits
  have hle := hfits.1.le
  have hin := hfits.1.inside
  have hpos := toNat_pos (h.links.ne_nil he)
  have hbound := h.bound e he
  rw [roundedSize_wrapped hsize] at hin
  omega

/-- How the call ends. -/
theorem klFreeListMemAllocRegion_wrapped (h : s.Entries l) (data : UADDR)
    (hsize : adjustSize size = 0#32) :
    s.klFreeListMemAllocRegion data size = some (s, NIL) ∧ s.RegionServed l data size ∨
      (∃ s', s.klFreeListMemAllocRegion data size = some (s', data)) ∧ data ≠ NIL ∧
        ¬ s.RegionServed l data size := by
  obtain ⟨lists, hm, hlists⟩ := h.links.sizeLists
  have hwalk := regionTables_eq data 0#32 hm (fun t => (hlists t).2) 8 0
  have hin := regionFrom_in data 0#32 hm 8 0
  have hfound := regionFrom_zero data hm 8 0
  have hserved : s.RegionServed l data size ↔
      ¬ ∃ e left, s.regionFrom data 0#32 lists 8 0 = .found e left := by
    rw [hfound]
    unfold RegionServed
    rw [if_pos hsize]
    constructor
    · rintro hall ⟨t, -, ht, hbelow, hfirst, hclose⟩
      exact hclose (hall t (by omega) hbelow fun t' ht' => hfirst t' (Nat.zero_le _) ht')
    · intro hnone t ht hbelow hfirst
      by_contra hclose
      exact hnone ⟨t, Nat.zero_le t, by omega, hbelow, fun t' _ ht' => hfirst t' ht', hclose⟩
  rw [hserved]
  unfold klFreeListMemAllocRegion
  dsimp only
  rw [hsize, show klGetFastLookupToUse 0#32 = 0 from rfl, Nat.sub_zero, hwalk]
  generalize s.regionFrom data 0#32 lists 8 0 = w at hin
  cases w with
  | found e left =>
      have hne := toNat_pos (h.links.ne_nil hin.1)
      have hle := BitVec.le_def.mp (BitVec.not_lt.mp hin.2.1)
      refine .inr ⟨⟨_, rfl⟩, ?_, not_not_intro ⟨e, left, rfl⟩⟩
      rintro rfl
      exact absurd hle (Nat.not_le.mpr hne)
  | tooClose => exact .inl ⟨rfl, nofun⟩
  | nextTable => exact .inl ⟨rfl, nofun⟩

/-! ## The call -/

/-- A call that returns `NIL` takes nothing. -/
theorem regionExact_nil (h : s.Entries l)
    (hs : s.klFreeListMemAllocRegion data size = some (s, NIL)) :
    s.RegionExact l data size ↔ ∀ e ∈ l, ¬ s.RegionFits e data (roundedSize size) := by
  constructor
  · rintro ⟨s', l', r, hs', -, -, hr⟩ e he hfits
    obtain ⟨-, rfl⟩ := Prod.mk.inj (Option.some.inj (hs.symm.trans hs'))
    exact hr.mpr ⟨e, he, hfits⟩ rfl
  · intro hnone
    refine ⟨s, l, NIL, hs, ⟨h, .inl ⟨rfl, rfl, rfl⟩⟩, .inl rfl, iff_of_false (· rfl) ?_⟩
    rintro ⟨e, he, hfits⟩
    exact hnone e he hfits

/-- A region lies in one entry only. -/
theorem RegionHeld.unique_entry (hheld : s.RegionHeld e data n) (h : s.Entries l) (he : e ∈ l)
    (hx : x ∈ l) (hn : 0 < n) (hle : x.toNat ≤ data.toNat) (hin : data.toNat + n ≤ s.endOf x) :
    x = e := by
  by_contra hne
  have hge := hheld.le
  have hinside := hheld.inside
  rcases h.separate he hx hne with hsep | hsep
  · omega
  · omega

/-- **Region reservation** is exact if and only if the region is served. -/
theorem klFreeListMemAllocRegion_iff (h : s.Entries l) (data size : UADDR) :
    s.RegionExact l data size ↔ s.RegionServed l data size := by
  by_cases hsize : adjustSize size = 0#32
  · rcases klFreeListMemAllocRegion_wrapped h data hsize with
      ⟨hs, hserved⟩ | ⟨⟨s', hs⟩, hnil, hserved⟩
    · exact iff_of_true ((regionExact_nil h hs).mpr fun e he =>
        not_regionFits_wrapped h he hsize) hserved
    · refine iff_of_false ?_ hserved
      rintro ⟨s'', l', r, hs', -, -, hr⟩
      obtain ⟨-, rfl⟩ := Prod.mk.inj (Option.some.inj (hs.symm.trans hs'))
      obtain ⟨e, he, hfits⟩ := hr.mp hnil
      exact not_regionFits_wrapped h he hsize hfits
  have hpos : 0 < roundedSize size := Nat.lt_of_lt_of_le (by decide) (roundedSize_bounds size).2.1
  unfold RegionServed
  rw [if_neg hsize]
  by_cases hheld : ∃ e ∈ l, s.RegionHeld e data (roundedSize size)
  · obtain ⟨e, he, hheld⟩ := hheld
    have hall : (∀ x ∈ l, s.RegionHeld x data (roundedSize size) →
        (s.RoomBehind x data (roundedSize size) ↔ s.Reached data x)) ↔
        (s.RoomBehind e data (roundedSize size) ↔ s.Reached data e) := by
      refine ⟨fun hall => hall e he hheld, fun hiff x hx hheld' => ?_⟩
      rwa [hheld.unique_entry h he hx hpos hheld'.le hheld'.inside]
    have hfits : (∃ x ∈ l, s.RegionFits x data (roundedSize size)) ↔
        s.RoomBehind e data (roundedSize size) := by
      constructor
      · rintro ⟨x, hx, hheld', hroom⟩
        rwa [hheld.unique_entry h he hx hpos hheld'.le hheld'.inside] at hroom
      · exact fun hroom => ⟨e, he, hheld, hroom⟩
    rw [hall]
    have hne : data ≠ NIL := by
      rintro rfl
      exact absurd hheld.le (Nat.not_le.mpr (toNat_pos (h.links.ne_nil he)))
    rcases klFreeListMemAllocRegion_held h he hsize hheld with ⟨⟨s', hs⟩, hreached⟩ | ⟨hs, hnot⟩
    · rw [iff_true_right hreached]
      constructor
      · rintro ⟨s'', l', r, hs', -, -, hr⟩
        obtain ⟨-, rfl⟩ := Prod.mk.inj (Option.some.inj (hs.symm.trans hs'))
        exact hfits.mp (hr.mp hne)
      · intro hroom
        have hleaves : s.LeavesRoom l data (adjustSize size) := by
          intro x hx hle hin
          rw [adjustSize_rounded hsize] at hin ⊢
          obtain rfl := hheld.unique_entry h he hx hpos hle hin
          exact hroom
        obtain ⟨s'', l', r, hs', htook⟩ := klFreeListMemAllocRegion_took h hsize hleaves
        obtain ⟨rfl, rfl⟩ := Prod.mk.inj (Option.some.inj (hs.symm.trans hs'))
        exact ⟨_, l', _, hs, htook, .inr rfl, iff_of_true hne (hfits.mpr hroom)⟩
    · rw [iff_false_right hnot, regionExact_nil h hs]
      refine ⟨fun hnone hroom => hnone e he ⟨hheld, hroom⟩, fun hroom x hx hf => ?_⟩
      exact hroom (hfits.mp ⟨x, hx, hf⟩)
  · have hs := (klFreeListMemAllocRegion_cases_held h data hsize).resolve_right hheld
    rw [regionExact_nil h hs]
    exact iff_of_true (fun e he hf => hheld ⟨e, he, hf.1⟩) fun e he hh => absurd ⟨e, he, hh⟩ hheld

/-- All of the second of two entries is a region that is served. -/
theorem klFreeListMemAllocRegion_iff_two : ∃ s,
    freeListAtBoot.freeAll [(0x1000#32, 64#32), (0x2000#32, 64#32)] = some s ∧
    (s.RegionExact [0x1000#32, 0x2000#32] 0x2000#32 64#32 ↔
      s.RegionServed [0x1000#32, 0x2000#32] 0x2000#32 64#32) ∧
    (s.klFreeListMemAllocRegion 0x2000#32 64#32).any (fun out =>
      decide (out.2 = 0x2000#32)) = true := by
  obtain ⟨s, hs, hl, hp⟩ := freeAll_boot [(0x1000#32, 64#32), (0x2000#32, 64#32)]
    (l := [0x1000#32, 0x2000#32]) (fun s => (s.klFreeListMemAllocRegion 0x2000#32 64#32).any fun out =>
      decide (out.2 = 0x2000#32))
    (by decide) (by decide) (by decide +kernel)
  exact ⟨s, hs, klFreeListMemAllocRegion_iff hl 0x2000#32 64#32, hp⟩

/-- All of the first entry is none: the second was freed later, and is met before it. -/
theorem region_hidden : ∃ s,
    freeListAtBoot.freeAll [(0x1000#32, 64#32), (0x2000#32, 64#32)] = some s ∧
    s.Entries [0x1000#32, 0x2000#32] ∧ s.RegionFits 0x1000#32 0x1000#32 (roundedSize 64#32) ∧
    (s.klFreeListMemAllocRegion 0x1000#32 64#32).any (fun out => decide (out.2 = NIL)) = true ∧
    ¬ s.RegionExact [0x1000#32, 0x2000#32] 0x1000#32 64#32 := by
  obtain ⟨s, hs, hl, hp⟩ := freeAll_boot [(0x1000#32, 64#32), (0x2000#32, 64#32)]
    (l := [0x1000#32, 0x2000#32]) (fun s => ((s.klFreeListMemAllocRegion 0x1000#32 64#32).any fun out => decide (out.2 = NIL)) &&
      decide (s.sizeOf 0x1000#32 = 64#32))
    (by decide) (by decide) (by decide +kernel)
  obtain ⟨hcall, hsize⟩ := Bool.and_eq_true_iff.mp hp
  have hsize := of_decide_eq_true hsize
  have hend : s.endOf 0x1000#32 = 0x1000 + 64 := by
    unfold endOf
    rw [hsize]
    rfl
  have hfits : s.RegionFits 0x1000#32 0x1000#32 (roundedSize 64#32) :=
    ⟨⟨.inl rfl, Nat.le_of_eq hend.symm⟩, .inl hend.symm⟩
  refine ⟨s, hs, hl, hfits, hcall, ?_⟩
  rintro ⟨s', l', r, hs', -, -, hr⟩
  rw [hs', Option.any_some] at hcall
  exact hr.mpr ⟨_, .head _, hfits⟩ (of_decide_eq_true hcall)

end Alliance.KL.KLfreeListDescriptor
