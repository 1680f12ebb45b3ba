import Alliance.CK.ResourceProof
import Alliance.Lib.DList
import Alliance.Lib.Run
import Mathlib.Order.Interval.Set.Disjoint
import Mathlib.Order.CompletePartialOrder

/-!
# The list of I/O regions

All I/O regions are in one list from `IOfirstAlloc`, in the order of their ports, and two of
them never share a port. The search for a gap goes along the list with sums of 32 bits, so
all of this rests on the end of every region being a number of 32 bits too.
-/

namespace Alliance.CK

open Function Lib

/-- The ports from `base` on, `limit` of them. -/
def ports (base limit : UADDR) : Set ℕ := Set.Ico base.toNat (base.toNat + limit.toNat)

/-- The end of a region is a 32-bit number, so sums do not wrap. -/
def Fits (base limit : UADDR) : Prop := base.toNat + limit.toNat < 2 ^ 32

instance Fits.decidable (base limit : UADDR) : Decidable (Fits base limit) := Nat.decLt _ _

theorem Fits.toNat_add {base limit : UADDR} (h : Fits base limit) :
    (base + limit).toNat = base.toNat + limit.toNat := by
  rw [BitVec.toNat_add, Nat.mod_eq_of_lt h]

namespace Resources

variable {s s' : Resources} {r c gap : Addr} {base limit : UADDR} {l : List Addr}

def nextAlloc (s : Resources) (r : Addr) : Addr := (s.mem r).nextAlloc

def prevAlloc (s : Resources) (r : Addr) : Addr := (s.mem r).prevAlloc

/-- The first port of a region. -/
def first (s : Resources) (r : Addr) : ℕ := (s.mem r).base.toNat

/-- The first port behind a region. -/
def stop (s : Resources) (r : Addr) : ℕ := (s.mem r).base.toNat + (s.mem r).limit.toNat

/-- The ports of a region. -/
def regionPorts (s : Resources) (r : Addr) : Set ℕ := ports (s.mem r).base (s.mem r).limit

/-- **The I/O regions** of the list are the live ones, in the order of their ports. -/
structure IORegions (s : Resources) (l : List Addr) : Prop where
  linked : Linked IOfirstAlloc NIL s.nextAlloc s.prevAlloc l
  mem : ∀ r, r ∈ l ↔ s.allocated r = true
  fits : ∀ r ∈ l, Fits (s.mem r).base (s.mem r).limit
  limit : ∀ r ∈ l, (s.mem r).limit ≠ 0#32
  sorted : l.Pairwise fun a b => s.stop a ≤ s.first b
  bound : l.length ≤ s.records
  unlocked : ∀ m, s.held m = false

/-! ## The search for a gap -/

theorem findGapFrom_congr (hm : s'.mem = s.mem) (n : ℕ) (p : Addr) :
    s'.findGapFrom base limit n p = s.findGapFrom base limit n p := by
  induction n generalizing p with
  | zero => rfl
  | succ n ih =>
    unfold findGapFrom
    rw [hm, ih]

theorem ckIOfindGap_congr (hm : s'.mem = s.mem) (hr : s'.records = s.records) :
    s'.ckIOfindGap base limit = s.ckIOfindGap base limit := by
  unfold ckIOfindGap
  rw [hr, findGapFrom_congr hm]

/-- The test for a range that begins inside a region. -/
theorem lt_end_iff (hf : Fits (s.mem r).base (s.mem r).limit) :
    base < (s.mem r).base + (s.mem r).limit ↔ base.toNat < s.stop r := by
  rw [BitVec.lt_def, hf.toNat_add, stop]

/-- **The search** from a region that begins below the end of the range stops at one that the
range overlaps, or cuts the list in two around the range. -/
theorem findGapFrom_spec (hf : Fits base limit) {rest : List Addr} (n : ℕ) (gap : Addr)
    (hn : rest.length < n) (hc : Chained NIL s.nextAlloc (s.nextAlloc gap) rest)
    (hfits : ∀ r ∈ rest, Fits (s.mem r).base (s.mem r).limit) (hfirst : IOfirstAlloc ∉ rest)
    (hsorted : rest.Pairwise fun a b => s.first a ≤ s.first b)
    (hgap : gap ≠ IOfirstAlloc → Fits (s.mem gap).base (s.mem gap).limit ∧
      s.first gap < base.toNat + limit.toNat) :
    (s.findGapFrom base limit n gap = some NIL ∧ ∃ r ∈ gap :: rest, r ≠ IOfirstAlloc ∧
      base.toNat < s.stop r ∧ s.first r < base.toNat + limit.toNat) ∨
    ∃ as bs, rest = as ++ bs ∧ s.findGapFrom base limit n gap = some (as.getLastD gap) ∧
      (∀ r ∈ gap :: as, r ≠ IOfirstAlloc → s.stop r ≤ base.toNat) ∧
      ∀ r ∈ bs, base.toNat + limit.toNat ≤ s.first r := by
  induction rest generalizing n gap with
  | nil =>
    obtain ⟨n, rfl⟩ : ∃ k, n = k + 1 := ⟨n - 1, by simp at hn; omega⟩
    unfold findGapFrom
    by_cases ho : gap ≠ IOfirstAlloc ∧ base < (s.mem gap).base + (s.mem gap).limit
    · obtain ⟨hfg, hlow⟩ := hgap ho.1
      exact .inl ⟨if_pos ho, gap, .head _, ho.1, (lt_end_iff hfg).mp ho.2, hlow⟩
    · refine .inr ⟨[], [], rfl, ?_, fun r hr hne => ?_, fun r hr => absurd hr List.not_mem_nil⟩
      · rw [if_neg ho, if_pos (.inl hc)]
        rfl
      · obtain rfl := List.mem_singleton.mp hr
        exact not_lt.mp fun hlt => ho ⟨hne, (lt_end_iff (hgap hne).1).mpr hlt⟩
  | cons x rest ih =>
    obtain ⟨n, rfl⟩ : ∃ k, n = k + 1 := ⟨n - 1, by simp at hn; omega⟩
    obtain ⟨hx, hx0, hc⟩ := hc
    have hx : (s.mem gap).nextAlloc = x := hx
    have hxfirst : x ≠ IOfirstAlloc := fun he => hfirst (he ▸ .head _)
    unfold findGapFrom
    rw [hx]
    by_cases ho : gap ≠ IOfirstAlloc ∧ base < (s.mem gap).base + (s.mem gap).limit
    · obtain ⟨hfg, hlow⟩ := hgap ho.1
      exact .inl ⟨if_pos ho, gap, .head _, ho.1, (lt_end_iff hfg).mp ho.2, hlow⟩
    have hstop : gap ≠ IOfirstAlloc → s.stop gap ≤ base.toNat := fun hne =>
      not_lt.mp fun hlt => ho ⟨hne, (lt_end_iff (hgap hne).1).mpr hlt⟩
    rw [if_neg ho]
    by_cases hend : base + limit ≤ (s.mem x).base
    · -- the next region begins behind the range, and so do all that follow it
      have hle : base.toNat + limit.toNat ≤ s.first x := by
        rwa [BitVec.le_def, hf.toNat_add] at hend
      refine .inr ⟨[], x :: rest, rfl, if_pos (.inr hend), fun r hr => ?_, fun r hr => ?_⟩
      · obtain rfl := List.mem_singleton.mp hr
        exact hstop
      · rcases List.mem_cons.mp hr with rfl | hr
        · exact hle
        · exact hle.trans (List.rel_of_pairwise_cons hsorted hr)
    · rw [if_neg (not_or.mpr ⟨hx0, hend⟩)]
      have hlow : s.first x < base.toNat + limit.toNat := by
        rwa [BitVec.le_def, hf.toNat_add, not_le] at hend
      rcases ih n x (by simpa using hn) hc (fun r hr => hfits r (.tail _ hr))
          (fun hm => hfirst (.tail _ hm)) (List.pairwise_cons.mp hsorted).2
          (fun _ => ⟨hfits x (.head _), hlow⟩) with
        ⟨he, r, hr, hover⟩ | ⟨as, bs, hsplit, he, has, hbs⟩
      · exact .inl ⟨he, r, .tail _ hr, hover⟩
      · refine .inr ⟨x :: as, bs, congrArg _ hsplit, ?_, fun r hr => ?_, hbs⟩
        · rw [he, List.getLastD_cons]
        · rcases List.mem_cons.mp hr with rfl | hr
          · exact hstop
          · exact has r hr

theorem IORegions.sorted_first (h : IORegions s l) :
    l.Pairwise fun a b => s.first a ≤ s.first b :=
  h.sorted.imp fun hab => (Nat.le_add_right _ _).trans hab

/-- **`CKIOfindGap`** finds the place of a range that overlaps no region, and only of such. -/
theorem IORegions.findGap (h : IORegions s l) (hf : Fits base limit) (hl : limit ≠ 0#32) :
    (s.ckIOfindGap base limit = some NIL ∧
      ∃ r ∈ l, base.toNat < s.stop r ∧ s.first r < base.toNat + limit.toNat) ∨
    ∃ as bs, l = as ++ bs ∧ s.ckIOfindGap base limit = some (as.getLastD IOfirstAlloc) ∧
      (∀ r ∈ as, s.stop r ≤ base.toNat) ∧ ∀ r ∈ bs, base.toNat + limit.toNat ≤ s.first r := by
  unfold ckIOfindGap
  rw [if_neg hl]
  have hfirst := h.linked.hd_notMem
  rcases findGapFrom_spec hf (s.records + 1) IOfirstAlloc (Nat.lt_succ_of_le h.bound)
      h.linked.chained h.fits hfirst h.sorted_first (fun hne => absurd rfl hne) with
    ⟨he, r, hr, hne, hover⟩ | ⟨as, bs, hsplit, he, has, hbs⟩
  · exact .inl ⟨he, r, (List.mem_cons.mp hr).resolve_left hne, hover⟩
  · refine .inr ⟨as, bs, hsplit, he, fun r hr => has r (.tail _ hr) fun heq => hfirst ?_, hbs⟩
    rw [hsplit, ← heq]
    exact List.mem_append_left _ hr

/-- Two ranges of ports with none in common. -/
theorem ports_disjoint_iff {base' limit' : UADDR} (hl : limit ≠ 0#32) (hl' : limit' ≠ 0#32) :
    Disjoint (ports base limit) (ports base' limit') ↔
      base'.toNat + limit'.toNat ≤ base.toNat ∨ base.toNat + limit.toNat ≤ base'.toNat := by
  have h : limit.toNat ≠ 0 := fun h => hl (BitVec.eq_of_toNat_eq h)
  have h' : limit'.toNat ≠ 0 := fun h => hl' (BitVec.eq_of_toNat_eq h)
  rw [ports, ports, Set.Ico_disjoint_Ico]
  omega

/-! ## The two calls -/

/-- The base and the limit of a region. -/
def region (s : Resources) (r : Addr) : UADDR × UADDR := ((s.mem r).base, (s.mem r).limit)

/-- What the list of regions reads of a record. -/
def regionData (x : CKResource) : UADDR × UADDR × Addr × Addr :=
  (x.base, x.limit, x.nextAlloc, x.prevAlloc)

theorem region_of_regionData (h : s'.field regionData = s.field regionData) :
    s'.region = s.region :=
  funext fun r => congrArg (fun d => (d.1, d.2.1)) (congrFun h r)

theorem nextAlloc_of_regionData (h : s'.field regionData = s.field regionData) :
    s'.nextAlloc = s.nextAlloc :=
  funext fun r => congrArg (·.2.2.1) (congrFun h r)

theorem prevAlloc_of_regionData (h : s'.field regionData = s.field regionData) :
    s'.prevAlloc = s.prevAlloc :=
  funext fun r => congrArg (·.2.2.2) (congrFun h r)

@[simp] theorem setNextAlloc_nextAlloc (s : Resources) (r v : Addr) :
    (s.setNextAlloc r v).nextAlloc = update s.nextAlloc r v :=
  field_setRec s (·.nextAlloc) r _

@[simp] theorem setNextAlloc_prevAlloc (s : Resources) (r v : Addr) :
    (s.setNextAlloc r v).prevAlloc = s.prevAlloc :=
  field_setRec_same (f := (·.prevAlloc)) rfl

@[simp] theorem setNextAlloc_region (s : Resources) (r v : Addr) :
    (s.setNextAlloc r v).region = s.region :=
  field_setRec_same (f := fun x => (x.base, x.limit)) rfl

@[simp] theorem setPrevAlloc_nextAlloc (s : Resources) (r v : Addr) :
    (s.setPrevAlloc r v).nextAlloc = s.nextAlloc :=
  field_setRec_same (f := (·.nextAlloc)) rfl

@[simp] theorem setPrevAlloc_prevAlloc (s : Resources) (r v : Addr) :
    (s.setPrevAlloc r v).prevAlloc = update s.prevAlloc r v :=
  field_setRec s (·.prevAlloc) r _

@[simp] theorem setPrevAlloc_region (s : Resources) (r v : Addr) :
    (s.setPrevAlloc r v).region = s.region :=
  field_setRec_same (f := fun x => (x.base, x.limit)) rfl

/-- The part of `CKallocIORegion` that works on the list of regions. -/
def insertRegion (s : Resources) (c gap : Addr) (base limit : UADDR) : Resources :=
  let s := s.setRec c
    { s.mem c with base := base, limit := limit, nextAlloc := (s.mem gap).nextAlloc }
  let s := (s.setNextAlloc gap c).setPrevAlloc c gap
  let after := (s.mem c).nextAlloc
  if after ≠ NIL then s.setPrevAlloc after c else s

/-- A region `c` is put into the list behind `gap`. -/
structure RegionAdded (s : Resources) (c gap : Addr) (base limit : UADDR) (s' : Resources) :
    Prop where
  region : s'.region = update s.region c (base, limit)
  nextAlloc : ∀ y, s'.nextAlloc y =
    if y = c then s.nextAlloc gap else if y = gap then c else s.nextAlloc y
  prevAlloc : ∀ y, y ≠ NIL → s'.prevAlloc y =
    if y = c then gap else if y = s.nextAlloc gap then c else s.prevAlloc y

theorem RegionAdded.congr {s₁ s₁' : Resources} (h : RegionAdded s c gap base limit s')
    (hs : s.field regionData = s₁.field regionData)
    (hs' : s₁'.field regionData = s'.field regionData) :
    RegionAdded s₁ c gap base limit s₁' where
  region := by rw [region_of_regionData hs', h.region, region_of_regionData hs]
  nextAlloc y := by rw [nextAlloc_of_regionData hs', h.nextAlloc, nextAlloc_of_regionData hs]
  prevAlloc y hy := by
    rw [prevAlloc_of_regionData hs', h.prevAlloc y hy, nextAlloc_of_regionData hs,
      prevAlloc_of_regionData hs]

theorem insertRegion_added (s : Resources) (base limit : UADDR) (hcg : c ≠ gap)
    (hcn : c ≠ s.nextAlloc gap) :
    RegionAdded s c gap base limit (s.insertRegion c gap base limit) := by
  unfold insertRegion
  generalize hs₁ : s.setRec c
    { s.mem c with base := base, limit := limit, nextAlloc := (s.mem gap).nextAlloc } = s₁
  have hnext : s₁.nextAlloc = update s.nextAlloc c (s.nextAlloc gap) :=
    hs₁ ▸ field_setRec s (·.nextAlloc) c _
  have hprev : s₁.prevAlloc = s.prevAlloc := hs₁ ▸ field_setRec_same (f := (·.prevAlloc)) rfl
  have hregion : s₁.region = update s.region c (base, limit) :=
    hs₁ ▸ field_setRec s (fun x => (x.base, x.limit)) c _
  have hafter : ((s₁.setNextAlloc gap c).setPrevAlloc c gap).nextAlloc c = s.nextAlloc gap := by
    rw [setPrevAlloc_nextAlloc, setNextAlloc_nextAlloc, update_of_ne hcg, hnext, update_self]
  have hnext₂ : ∀ y, ((s₁.setNextAlloc gap c).setPrevAlloc c gap).nextAlloc y =
      if y = c then s.nextAlloc gap else if y = gap then c else s.nextAlloc y := by
    intro y
    rw [setPrevAlloc_nextAlloc, setNextAlloc_nextAlloc, hnext]
    by_cases hyc : y = c
    · subst hyc; simp [hcg]
    · simp [update_apply, hyc]
  have hprev₂ : ((s₁.setNextAlloc gap c).setPrevAlloc c gap).prevAlloc = update s.prevAlloc c gap := by
    rw [setPrevAlloc_prevAlloc, setNextAlloc_prevAlloc, hprev]
  have hregion₂ : ((s₁.setNextAlloc gap c).setPrevAlloc c gap).region =
      update s.region c (base, limit) := by
    rw [setPrevAlloc_region, setNextAlloc_region, hregion]
  change RegionAdded s c gap base limit
    (let t := (s₁.setNextAlloc gap c).setPrevAlloc c gap
    if t.nextAlloc c ≠ NIL then t.setPrevAlloc (t.nextAlloc c) c else t)
  generalize (s₁.setNextAlloc gap c).setPrevAlloc c gap = s₂ at *
  simp only [hafter]
  split
  · refine ⟨by rw [setPrevAlloc_region, hregion₂], fun y => ?_, fun y _ => ?_⟩
    · rw [setPrevAlloc_nextAlloc, hnext₂]
    · rw [setPrevAlloc_prevAlloc, hprev₂]
      by_cases hyc : y = c
      · subst hyc
        rw [if_pos rfl, update_of_ne hcn, update_self]
      · simp [update_apply, hyc]
  · next hnil =>
    -- no region is behind the gap, and none has the address `NIL`
    refine ⟨hregion₂, hnext₂, fun y hy => ?_⟩
    rw [hprev₂, not_not.mp hnil, if_neg hy, update_apply]

theorem insertRegion_rest (s : Resources) (c gap : Addr) (base limit : UADDR) :
    (s.insertRegion c gap base limit).held = s.held ∧
      (s.insertRegion c gap base limit).allocated = s.allocated ∧
      (s.insertRegion c gap base limit).records = s.records := by
  unfold insertRegion
  simp only
  split <;> exact ⟨rfl, rfl, rfl⟩

/-- The part of `CKfreeIORegion` that works on the list of regions. -/
def removeRegion (s : Resources) (r : Addr) : Resources :=
  let s := s.setNextAlloc (s.mem r).prevAlloc (s.mem r).nextAlloc
  if (s.mem r).nextAlloc ≠ NIL then s.setPrevAlloc (s.mem r).nextAlloc (s.mem r).prevAlloc else s

/-- A region `r` is taken out of the list. -/
structure RegionRemoved (s : Resources) (r : Addr) (s' : Resources) : Prop where
  region : s'.region = s.region
  nextAlloc : ∀ y, s'.nextAlloc y = if y = s.prevAlloc r then s.nextAlloc r else s.nextAlloc y
  prevAlloc : ∀ y, y ≠ NIL → s'.prevAlloc y =
    if y = s.nextAlloc r then s.prevAlloc r else s.prevAlloc y

theorem RegionRemoved.congr {s₁ s₁' : Resources} (h : RegionRemoved s r s')
    (hs : s.field regionData = s₁.field regionData)
    (hs' : s₁'.field regionData = s'.field regionData) : RegionRemoved s₁ r s₁' where
  region := by rw [region_of_regionData hs', h.region, region_of_regionData hs]
  nextAlloc y := by
    rw [nextAlloc_of_regionData hs', h.nextAlloc, nextAlloc_of_regionData hs,
      prevAlloc_of_regionData hs]
  prevAlloc y hy := by
    rw [prevAlloc_of_regionData hs', h.prevAlloc y hy, nextAlloc_of_regionData hs,
      prevAlloc_of_regionData hs]

theorem removeRegion_removed (s : Resources) (hr : s.prevAlloc r ≠ r) :
    RegionRemoved s r (s.removeRegion r) := by
  unfold removeRegion
  generalize hs₁ : s.setNextAlloc (s.mem r).prevAlloc (s.mem r).nextAlloc = s₁
  have hnext : s₁.nextAlloc = update s.nextAlloc (s.prevAlloc r) (s.nextAlloc r) :=
    hs₁ ▸ setNextAlloc_nextAlloc s _ _
  have hprev : s₁.prevAlloc = s.prevAlloc := hs₁ ▸ setNextAlloc_prevAlloc s _ _
  have hregion : s₁.region = s.region := hs₁ ▸ setNextAlloc_region s _ _
  change RegionRemoved s r (if s₁.nextAlloc r ≠ NIL then
    s₁.setPrevAlloc (s₁.nextAlloc r) (s₁.prevAlloc r) else s₁)
  rw [hnext, update_of_ne hr.symm, hprev]
  split
  · refine ⟨by simpa using hregion, fun y => ?_, fun y _ => ?_⟩
    · rw [setPrevAlloc_nextAlloc, hnext, update_apply]
    · rw [setPrevAlloc_prevAlloc, hprev, update_apply]
  · next hnil =>
    refine ⟨hregion, fun y => ?_, fun y hy => ?_⟩
    · rw [hnext, update_apply]
    · rw [hprev, not_not.mp hnil, if_neg hy]

/-- What **`CKallocIORegion`** does. -/
theorem ckAllocIORegion_cases {validThread : Addr → Bool} {resource owner : Addr} {res : Resource}
    {flags e : DATA} {env : AllocEnv} (hfree : ∀ m, s.held m = false)
    (hgap : ∀ gap, validThread owner = true → gap ≠ NIL →
      s.ckIOfindGap res.base res.limit = some gap → env.ckres ≠ NIL →
        env.ckres ≠ gap ∧ env.ckres ≠ s.nextAlloc gap)
    (h : s.ckAllocIORegion validThread resource res owner flags env = some (s', e)) :
    (validThread owner = false ∧ e = ENOVALIDTHREAD ∧ s' = s) ∨
    (validThread owner = true ∧ s.ckIOfindGap res.base res.limit = some NIL ∧
      e = ERESOURCEBUSY ∧ s' = s) ∨
    ∃ gap, validThread owner = true ∧ gap ≠ NIL ∧
      s.ckIOfindGap res.base res.limit = some gap ∧
      (env.ckres = NIL ∨
        e = 0#32 ∧ env.ckres ≠ NIL ∧ RegionAdded s env.ckres gap res.base res.limit s' ∧
          s'.allocated = update s.allocated env.ckres true ∧ s'.records = s.records + 1 ∧
          s'.held = s.held) := by
  unfold ckAllocIORegion at h
  split at h
  · next hv =>
    obtain ⟨rfl, rfl⟩ := Prod.mk.inj (Option.some.inj h)
    exact .inl ⟨by simpa using hv, rfl, rfl⟩
  next hv =>
  have hv : validThread owner = true := by simpa using hv
  obtain ⟨s₁, hs₁, h⟩ := Option.bind_eq_some_iff.mp h
  obtain ⟨-, hs₁⟩ := enter_eq_some hs₁
  obtain ⟨gap, hfind, h⟩ := Option.bind_eq_some_iff.mp h
  rw [ckIOfindGap_congr (s := s) (by rw [hs₁]) (by rw [hs₁])] at hfind
  split at h
  · next hgap0 =>
    obtain ⟨rfl, rfl⟩ := Prod.mk.inj (Option.some.inj h)
    refine .inr (.inl ⟨hv, hgap0 ▸ hfind, rfl, ?_⟩)
    rw [exit, hs₁, exit_held (hfree _)]
  next hgap0 =>
  refine .inr (.inr ⟨gap, hv, hgap0, hfind, ?_⟩)
  split at h
  · next h0 => exact .inl h0
  next h0 =>
  obtain ⟨hcg, hcn⟩ := hgap gap hv hgap0 hfind h0
  have hadd := insertRegion_added (s₁.alloc env.ckres) res.base res.limit hcg
    (show env.ckres ≠ s₁.nextAlloc gap by rw [hs₁]; exact hcn)
  have hrest := insertRegion_rest (s₁.alloc env.ckres) env.ckres gap res.base res.limit
  change (do
    let s₂ ← ((((s₁.alloc env.ckres).insertRegion env.ckres gap res.base res.limit).exit
      .IOAllocLock).setBasic .SIGIOREGION owner flags env.ckres).enter .resourceAllocLock
    some (((s₂.linkResource .SIGIOREGION owner env.ckres).exit .resourceAllocLock).setDescriptor
      resource env.ckres, 0#32)) = some (s', e) at h
  generalize (s₁.alloc env.ckres).insertRegion env.ckres gap res.base res.limit = s₃
    at hadd hrest h
  obtain ⟨s₂, hs₂, h⟩ := Option.bind_eq_some_iff.mp h
  obtain ⟨-, hs₂⟩ := enter_eq_some hs₂
  obtain ⟨rfl, rfl⟩ := Prod.mk.inj (Option.some.inj h)
  obtain ⟨-, hheld, halloc, hrec⟩ := linkResource_rest s₂ .SIGIOREGION owner env.ckres
  -- the list of the owner and the locks have no part in the list of regions
  have hlink : (s₂.linkResource .SIGIOREGION owner env.ckres).field regionData =
      s₃.field regionData := by
    refine (field_linkResource (fun _ _ => rfl) (fun _ _ => rfl) _ _).trans ?_
    rw [hs₂]
    exact field_setRec_same (s := s₃) rfl
  have hheld₃ : s₃.held = update s.held .IOAllocLock true := by rw [hrest.1, hs₁]; rfl
  have hheld₂ : s₂.held = update s.held .resourceAllocLock true := by
    rw [hs₂]
    show update (update s₃.held .IOAllocLock false) .resourceAllocLock true = _
    rw [hheld₃, exit_held (hfree _)]
  refine .inr ⟨rfl, h0, hadd.congr (by rw [hs₁]; rfl) hlink, ?_, ?_, ?_⟩
  · show (s₂.linkResource .SIGIOREGION owner env.ckres).allocated = _
    rw [halloc, hs₂]
    show s₃.allocated = _
    rw [hrest.2.1, hs₁]
    rfl
  · show (s₂.linkResource .SIGIOREGION owner env.ckres).records = _
    rw [hrec, hs₂]
    show s₃.records = _
    rw [hrest.2.2, hs₁]
    rfl
  · show update (s₂.linkResource .SIGIOREGION owner env.ckres).held .resourceAllocLock false = _
    rw [hheld, hheld₂, exit_held (hfree _)]

theorem removeRegion_rest (s : Resources) (r : Addr) :
    (s.removeRegion r).held = s.held ∧ (s.removeRegion r).allocated = s.allocated ∧
      (s.removeRegion r).records = s.records := by
  unfold removeRegion
  simp only
  split <;> exact ⟨rfl, rfl, rfl⟩

/-- What **`CKfreeIORegion`** does. -/
theorem ckFreeIORegion_cases (hfree : ∀ m, s.held m = false) (hr : s.prevAlloc r ≠ r) :
    ∃ s', s.ckFreeIORegion r = some (s', 0#32) ∧ RegionRemoved s r s' ∧
      s'.allocated = update s.allocated r false ∧ s'.records = s.records ∧ s'.held = s.held := by
  obtain ⟨s₁, he₁⟩ : ∃ s₁, s.enter .IOAllocLock = some s₁ := ⟨_, enter_of_free (hfree _)⟩
  obtain ⟨-, hs₁⟩ := enter_eq_some he₁
  have hrem := removeRegion_removed s₁ (show s₁.prevAlloc r ≠ r by rw [hs₁]; exact hr)
  have hrest := removeRegion_rest s₁ r
  have heq : s.ckFreeIORegion r = (do
      let s₂ ← ((s₁.removeRegion r).exit .IOAllocLock).enter .resourceAllocLock
      some (((s₂.unlinkResource .SIGIOREGION r).exit .resourceAllocLock).free r, 0#32)) := by
    rw [ckFreeIORegion, he₁]
    rfl
  generalize s₁.removeRegion r = s₃ at hrem hrest heq
  have hheld₃ : (s₃.exit .IOAllocLock).held = s.held := by
    show update s₃.held .IOAllocLock false = _
    rw [hrest.1, hs₁, exit_held (hfree _)]
  obtain ⟨s₂, he₂⟩ : ∃ s₂, (s₃.exit .IOAllocLock).enter .resourceAllocLock = some s₂ :=
    ⟨_, enter_of_free (by rw [hheld₃]; exact hfree _)⟩
  rw [he₂] at heq
  refine ⟨_, heq, ?_⟩
  obtain ⟨-, hs₂⟩ := enter_eq_some he₂
  obtain ⟨-, hheld, halloc, hrec⟩ := unlinkResource_rest s₂ .SIGIOREGION r
  have hlink : (s₂.unlinkResource .SIGIOREGION r).field regionData = s₃.field regionData := by
    refine (field_unlinkResource (fun _ _ => rfl) (fun _ _ => rfl) _).trans ?_
    rw [hs₂]
    rfl
  refine ⟨hrem.congr (by rw [hs₁]; rfl) hlink, ?_, ?_, ?_⟩
  · show update (s₂.unlinkResource .SIGIOREGION r).allocated r false = _
    rw [halloc, hs₂]
    show update s₃.allocated r false = _
    rw [hrest.2.1, hs₁]
  · show (s₂.unlinkResource .SIGIOREGION r).records = _
    rw [hrec, hs₂]
    show s₃.records = _
    rw [hrest.2.2, hs₁]
  · show update (s₂.unlinkResource .SIGIOREGION r).held .resourceAllocLock false = _
    rw [hheld, hs₂]
    show update (update (s₃.exit .IOAllocLock).held .resourceAllocLock true) _ false = _
    rw [hheld₃, exit_held (hfree _)]

/-! ## One call keeps the regions -/

theorem first_eq (s : Resources) (r : Addr) : s.first r = (s.region r).1.toNat := rfl

theorem stop_eq (s : Resources) (r : Addr) :
    s.stop r = (s.region r).1.toNat + (s.region r).2.toNat := rfl

/-- The gap that is found is not the record of the new region, nor is the region behind. -/
theorem IORegions.fresh (h : IORegions s l) (hc : s.allocated c = false) (h0 : c ≠ NIL)
    (hfirst : c ≠ IOfirstAlloc) {as bs : List Addr} (hl : l = as ++ bs) :
    c ∉ IOfirstAlloc :: l ∧ c ≠ as.getLastD IOfirstAlloc ∧
      c ≠ s.nextAlloc (as.getLastD IOfirstAlloc) ∧ as.getLastD IOfirstAlloc ≠ NIL := by
  have hcl : c ∉ l := fun hm => by
    have := (h.mem c).mp hm
    rw [hc] at this
    exact absurd this (by simp)
  have hc' : c ∉ IOfirstAlloc :: l := fun hm => (List.mem_cons.mp hm).elim hfirst hcl
  have hmem : as.getLastD IOfirstAlloc ∈ IOfirstAlloc :: l := by
    rw [hl]
    exact mem_cons_append (List.getLastD_mem_cons ..) _
  refine ⟨hc', fun he => hc' (he ▸ hmem), fun he => ?_, fun he => ?_⟩
  · rcases List.mem_cons.mp (h.linked.fwd_mem hmem) with hn | hn
    · exact h0 (he.trans hn)
    · exact hcl (he ▸ hn)
  · rcases List.mem_cons.mp (he ▸ hmem) with hn | hn
    · exact absurd hn (by decide)
    · exact h.linked.nil_notMem hn

/-- An allocation puts its region between those before and behind its range. -/
theorem IORegions.added {as bs : List Addr} (h : IORegions s (as ++ bs)) (hc : s.allocated c = false)
    (h0 : c ≠ NIL) (hfirst : c ≠ IOfirstAlloc) (hf : Fits base limit) (hl : limit ≠ 0#32)
    (has : ∀ r ∈ as, s.stop r ≤ base.toNat)
    (hbs : ∀ r ∈ bs, base.toNat + limit.toNat ≤ s.first r)
    (ha : RegionAdded s c (as.getLastD IOfirstAlloc) base limit s')
    (halloc : s'.allocated = update s.allocated c true) (hrec : s'.records = s.records + 1)
    (hheld : s'.held = s.held) : IORegions s' (as ++ c :: bs) := by
  obtain ⟨hnot, hcg, hcn, -⟩ := h.fresh hc h0 hfirst rfl
  have hregion : ∀ y ∈ as ++ bs, s'.region y = s.region y := fun y hy => by
    have hyc : y ≠ c := fun he => hnot (.tail _ (he ▸ hy))
    rw [ha.region, update_of_ne hyc]
  have hfirst' : ∀ y ∈ as ++ bs, s'.first y = s.first y := fun y hy => by
    rw [first_eq, hregion y hy, first_eq]
  have hstop' : ∀ y ∈ as ++ bs, s'.stop y = s.stop y := fun y hy => by
    rw [stop_eq, hregion y hy, stop_eq]
  have hnew : s'.region c = (base, limit) := by rw [ha.region, update_self]
  have hnil : NIL ∉ as ++ c :: bs := fun hm =>
    (mem_insert.mp hm).elim (fun he => h0 he.symm) h.linked.nil_notMem
  refine
    { linked := ?_
      mem := fun y => ?_
      fits := fun y hy => ?_
      limit := fun y hy => ?_
      sorted := ?_
      bound := ?_
      unlocked := fun m => hheld ▸ h.unlocked m }
  · exact h.linked.insert as rfl hnot h0 (fun y _ => ha.nextAlloc y)
      fun y hy => ha.prevAlloc y fun he => hnil (he ▸ hy)
  · rw [mem_insert, halloc]
    by_cases hy : y = c
    · simp [hy]
    · simp [hy, h.mem]
  · show Fits (s'.region y).1 (s'.region y).2
    rcases mem_insert.mp hy with rfl | hy
    · rw [hnew]
      exact hf
    · rw [hregion y hy]
      exact h.fits y hy
  · show (s'.region y).2 ≠ 0#32
    rcases mem_insert.mp hy with rfl | hy
    · rw [hnew]
      exact hl
    · rw [hregion y hy]
      exact h.limit y hy
  · have hsorted : (as ++ bs).Pairwise fun a b => s'.stop a ≤ s'.first b :=
      h.sorted.imp_of_mem fun ha' hb' hab => by rwa [hstop' _ ha', hfirst' _ hb']
    refine pairwise_insert hsorted (fun a ha' => ?_) fun b hb => ?_
    · rw [first_eq, hnew, hstop' a (List.mem_append_left _ ha')]
      exact has a ha'
    · rw [stop_eq, hnew, hfirst' b (List.mem_append_right _ hb)]
      exact hbs b hb
  · have := h.bound
    rw [hrec]
    simp only [List.length_append, List.length_cons] at this ⊢
    omega

/-- A release takes its region out. -/
theorem IORegions.removed {as bs : List Addr} (h : IORegions s (as ++ r :: bs))
    (hr : RegionRemoved s r s') (halloc : s'.allocated = update s.allocated r false)
    (hrec : s'.records = s.records) (hheld : s'.held = s.held) : IORegions s' (as ++ bs) := by
  have hnd := h.linked.nodup_tail
  have hsub : (as ++ bs).Sublist (as ++ r :: bs) :=
    (List.Sublist.refl as).append (List.sublist_cons_self r bs)
  have hrnot : r ∉ as ++ bs := fun hr => ((mem_remove hnd).mp hr).2 rfl
  refine
    { linked := ?_
      mem := fun y => ?_
      fits := fun y hy => ?_
      limit := fun y hy => ?_
      sorted := ?_
      bound := ?_
      unlocked := fun m => hheld ▸ h.unlocked m }
  · exact h.linked.unlink (fun y _ => hr.nextAlloc y) fun y hy => hr.prevAlloc y fun he =>
      h.linked.nil_notMem_remove (he ▸ hy)
  · rw [halloc]
    by_cases hy : y = r
    · simp [hy, hrnot]
    · rw [update_of_ne hy, ← h.mem, mem_insert]
      exact ⟨.inr, fun h => h.resolve_left hy⟩
  · show Fits (s'.region y).1 (s'.region y).2
    rw [hr.region]
    exact h.fits y (hsub.subset hy)
  · show (s'.region y).2 ≠ 0#32
    rw [hr.region]
    exact h.limit y (hsub.subset hy)
  · refine (h.sorted.sublist hsub).imp fun hab => ?_
    rwa [stop_eq, first_eq, hr.region]
  · rw [hrec]
    exact hsub.length_le.trans h.bound

/-- No two regions of the list have a port in common. -/
theorem IORegions.disjoint (h : IORegions s l) :
    l.Pairwise fun a b => Disjoint (s.regionPorts a) (s.regionPorts b) :=
  h.sorted.imp_of_mem fun ha hb hab => (ports_disjoint_iff (h.limit _ ha) (h.limit _ hb)).mpr (.inr hab)

theorem IORegions.ordered (h : IORegions s l) :
    l.Pairwise fun a b => (s.mem a).base < (s.mem b).base :=
  h.sorted.imp_of_mem fun {a b} ha _ hab => by
    have : (s.mem a).limit.toNat ≠ 0 := fun he => h.limit a ha (BitVec.eq_of_toNat_eq he)
    rw [BitVec.lt_def]
    simp only [stop, first] at hab
    omega

/-- A call with the locks free and the search done returns. -/
theorem ckAllocIORegion_isSome {validThread : Addr → Bool} {resource owner : Addr} {res : Resource}
    {flags : DATA} {env : AllocEnv} (hfree : ∀ m, s.held m = false)
    (hfind : s.ckIOfindGap res.base res.limit = some gap) :
    (s.ckAllocIORegion validThread resource res owner flags env).isSome := by
  unfold ckAllocIORegion
  split
  · rfl
  obtain ⟨s₁, he₁⟩ : ∃ s₁, s.enter .IOAllocLock = some s₁ := ⟨_, enter_of_free (hfree _)⟩
  obtain ⟨-, hs₁⟩ := enter_eq_some he₁
  have hfind₁ : s₁.ckIOfindGap res.base res.limit = some gap := by
    rw [ckIOfindGap_congr (s := s) (by rw [hs₁]) (by rw [hs₁])]
    exact hfind
  rw [he₁]
  simp only [Option.bind_eq_bind, Option.bind_some, hfind₁]
  split
  · rfl
  split
  · rfl
  have hheld := (insertRegion_rest (s₁.alloc env.ckres) env.ckres gap res.base res.limit).1
  change ((((((s₁.alloc env.ckres).insertRegion env.ckres gap res.base res.limit).exit
    .IOAllocLock).setBasic .SIGIOREGION owner flags env.ckres).enter .resourceAllocLock).bind
      _).isSome
  generalize (s₁.alloc env.ckres).insertRegion env.ckres gap res.base res.limit = s₃ at hheld
  rw [enter_of_free]
  · rfl
  · show update s₃.held .IOAllocLock false .resourceAllocLock = false
    rw [hheld, update_of_ne (by decide)]
    show s₁.held .resourceAllocLock = false
    rw [hs₁]
    show update s.held .IOAllocLock true .resourceAllocLock = false
    rw [update_of_ne (by decide)]
    exact hfree _

theorem IORegions.findGap_isSome (h : IORegions s l) (hf : Fits base limit) :
    ∃ gap, s.ckIOfindGap base limit = some gap := by
  by_cases hl : limit = 0#32
  · exact ⟨NIL, if_pos hl⟩
  · rcases h.findGap hf hl with ⟨he, -⟩ | ⟨as, bs, -, he, -⟩
    · exact ⟨_, he⟩
    · exact ⟨_, he⟩

end Resources

open Resources

/-! ## Runs -/

/-- The calls that allocate and release I/O regions. -/
inductive IOOp where
  | alloc (validThread : Addr → Bool) (resource : Addr) (res : Resource) (owner : Addr)
    (flags : DATA) (env : AllocEnv)
  | free (res : Addr)

def ioStep (s : Resources) : IOOp → Option Resources
  | .alloc validThread resource res owner flags env =>
    (s.ckAllocIORegion validThread resource res owner flags env).map Prod.fst
  | .free res => (s.ckFreeIORegion res).map Prod.fst

/-- The memory of a record is not in use, and what is released is live. -/
def IOOp.Legal (s : Resources) : IOOp → Prop
  | .alloc _ _ _ _ _ env =>
    env.ckres ≠ NIL → env.ckres ≠ IOfirstAlloc ∧ s.allocated env.ckres = false
  | .free res => s.allocated res = true

/-- The end of the requested range is a 32-bit number, and there is memory for its record. -/
def IOOp.Sound (s : Resources) : IOOp → Prop
  | .alloc validThread _ res owner _ env => validThread owner = true →
    Fits res.base res.limit ∧
      (env.ckres = NIL → s.ckIOfindGap res.base res.limit = some NIL)
  | .free _ => True

instance IOOp.decidableLegal (s : Resources) : (op : IOOp) → Decidable (op.Legal s)
  | .alloc _ _ _ _ _ env => inferInstanceAs (Decidable (env.ckres ≠ NIL → _ ∧ _ = false))
  | .free _ => inferInstanceAs (Decidable (_ = _))

instance IOOp.decidableSound (s : Resources) : (op : IOOp) → Decidable (op.Sound s)
  | .alloc .. => inferInstanceAs (Decidable (_ = true → _ ∧ (_ = NIL → _ = some NIL)))
  | .free _ => inferInstanceAs (Decidable True)

/-- A gap that is found cuts the list around the range. -/
theorem Resources.IORegions.gap {s : Resources} {l : List Addr} {base limit : UADDR} {gap : Addr}
    (h : IORegions s l) (hf : Fits base limit) (hgap : gap ≠ NIL)
    (hfind : s.ckIOfindGap base limit = some gap) :
    limit ≠ 0#32 ∧ ∃ as bs, l = as ++ bs ∧ gap = as.getLastD IOfirstAlloc ∧
      (∀ r ∈ as, s.stop r ≤ base.toNat) ∧ ∀ r ∈ bs, base.toNat + limit.toNat ≤ s.first r := by
  have hl : limit ≠ 0#32 := fun hl => by
    rw [ckIOfindGap, if_pos hl] at hfind
    exact hgap (Option.some.inj hfind).symm
  refine ⟨hl, ?_⟩
  rcases h.findGap hf hl with ⟨he, -⟩ | ⟨as, bs, hsplit, he, has, hbs⟩
  · rw [hfind] at he
    exact absurd (Option.some.inj he) hgap
  · rw [hfind] at he
    exact ⟨as, bs, hsplit, Option.some.inj he, has, hbs⟩

/-- The memory of a new record is not that of the regions next to the gap. -/
theorem Resources.IORegions.gap_fresh {s : Resources} {l : List Addr} (h : IORegions s l)
    {validThread : Addr → Bool} {resource owner : Addr} {res : Resource} {flags : DATA}
    {env : AllocEnv} (hl : (IOOp.alloc validThread resource res owner flags env).Legal s)
    (hf : validThread owner = true → Fits res.base res.limit) :
    ∀ gap, validThread owner = true → gap ≠ NIL →
      s.ckIOfindGap res.base res.limit = some gap → env.ckres ≠ NIL →
        env.ckres ≠ gap ∧ env.ckres ≠ s.nextAlloc gap := by
  intro gap hv hgap hfind h0
  obtain ⟨-, as, bs, hsplit, rfl, -⟩ := h.gap (hf hv) hgap hfind
  obtain ⟨-, hcg, hcn, -⟩ := h.fresh (hl h0).2 h0 (hl h0).1 hsplit
  exact ⟨hcg, hcn⟩

/-- **One call** keeps the regions. -/
theorem ioStep_regions {s s' : Resources} {op : IOOp} {l : List Addr} (h : IORegions s l)
    (hl : op.Legal s) (hs : op.Sound s) (hstep : ioStep s op = some s') :
    ∃ l', IORegions s' l' := by
  cases op with
  | alloc validThread resource res owner flags env =>
    obtain ⟨e, hcall⟩ := map_fst_eq_some hstep
    rcases ckAllocIORegion_cases h.unlocked (h.gap_fresh hl fun hv => (hs hv).1) hcall with
      ⟨-, -, rfl⟩ | ⟨-, -, -, rfl⟩ | ⟨gap, hv, hgap0, hfind, hmem | ⟨-, h0, ha, hrest⟩⟩
    · exact ⟨l, h⟩
    · exact ⟨l, h⟩
    · have := (hs hv).2 hmem
      rw [hfind] at this
      exact absurd (Option.some.inj this) hgap0
    · obtain ⟨hlim, as, bs, rfl, rfl, has, hbs⟩ := h.gap (hs hv).1 hgap0 hfind
      exact ⟨_, h.added (hl h0).2 h0 (hl h0).1 (hs hv).1 hlim has hbs ha hrest.1 hrest.2.1
        hrest.2.2⟩
  | free r =>
    have hr := (h.mem r).mpr hl
    have hpr := h.linked.bwd_ne hr
    obtain ⟨as, bs, rfl⟩ := List.append_of_mem hr
    obtain ⟨s₁, hcall, hrem, halloc, hrec, hheld⟩ := ckFreeIORegion_cases h.unlocked hpr
    rw [ioStep, hcall] at hstep
    obtain rfl := Option.some.inj hstep
    exact ⟨_, h.removed hrem halloc hrec hheld⟩

/-- No I/O regions are allocated. -/
structure Resources.NoRegions (s : Resources) : Prop where
  empty : s.nextAlloc IOfirstAlloc = NIL
  allocated : ∀ r, s.allocated r = false
  unlocked : ∀ m, s.held m = false

theorem Resources.NoRegions.regions {s : Resources} (h : s.NoRegions) : IORegions s [] where
  linked := .empty h.empty
  mem r := by simp [h.allocated r]
  fits _ hr := absurd hr List.not_mem_nil
  limit _ hr := absurd hr List.not_mem_nil
  sorted := .nil
  bound := Nat.zero_le _
  unlocked := h.unlocked

/-- **An allocation is refused** exactly when its range has a port in common with a region. -/
theorem Resources.IORegions.refused {s : Resources} {l : List Addr} (h : IORegions s l)
    {validThread : Addr → Bool} {resource owner : Addr} {res : Resource} {flags : DATA}
    {env : AllocEnv} (hl : (IOOp.alloc validThread resource res owner flags env).Legal s)
    (hv : validThread owner = true) (hlim : res.limit ≠ 0#32) (h0 : env.ckres ≠ NIL)
    (hf : Fits res.base res.limit) :
    ∃ s' e, s.ckAllocIORegion validThread resource res owner flags env = some (s', e) ∧
      (e = 0#32 ∨ e = ERESOURCEBUSY) ∧ (e = ERESOURCEBUSY ↔
        ∃ r, s.allocated r = true ∧ ¬ Disjoint (ports res.base res.limit) (s.regionPorts r)) := by
  obtain ⟨gap, hfind⟩ := h.findGap_isSome hf
  have hsome : (s.ckAllocIORegion validThread resource res owner flags env).isSome :=
    ckAllocIORegion_isSome h.unlocked hfind
  obtain ⟨⟨s', e⟩, hcall⟩ := Option.isSome_iff_exists.mp hsome
  refine ⟨s', e, hcall, ?_⟩
  rcases ckAllocIORegion_cases h.unlocked (h.gap_fresh hl fun _ => hf) hcall with
    ⟨hv', -⟩ | ⟨-, hfind, rfl, -⟩ | ⟨gap, -, hgap0, hfind, hmem | ⟨rfl, -⟩⟩
  · exact absurd (hv'.symm.trans hv) (by simp)
  · refine ⟨.inr rfl, fun _ => ?_, fun _ => rfl⟩
    -- the search ended at a region that the range overlaps
    rcases h.findGap hf hlim with ⟨-, r, hr, hstop, hfirst⟩ | ⟨as, bs, hsplit, he, -⟩
    · refine ⟨r, (h.mem r).mp hr, fun hd => ?_⟩
      rcases (ports_disjoint_iff hlim (h.limit r hr)).mp hd with hd | hd
      · exact absurd hd (not_le.mpr hstop)
      · exact absurd hd (not_le.mpr hfirst)
    · rw [hfind] at he
      have hlast : as.getLastD IOfirstAlloc ∈ IOfirstAlloc :: l := by
        rw [hsplit]
        exact mem_cons_append (List.getLastD_mem_cons ..) _
      rcases List.mem_cons.mp (Option.some.inj he ▸ hlast) with hn | hn
      · exact absurd hn (by decide)
      · exact absurd hn h.linked.nil_notMem
  · exact absurd hmem h0
  · refine ⟨.inl rfl, fun he => absurd he (by decide), fun ⟨r, hr, hd⟩ => absurd ?_ hd⟩
    obtain ⟨-, as, bs, rfl, rfl, has, hbs⟩ := h.gap hf hgap0 hfind
    have hr := (h.mem r).mpr hr
    refine (ports_disjoint_iff hlim (h.limit r hr)).mpr ?_
    rcases List.mem_append.mp hr with hr | hr
    · exact .inl (has r hr)
    · exact .inr (hbs r hr)

/-- **Every run** whose ranges end below 2^32 and that never lacks the memory of a record keeps
the regions in order and apart, and refuses exactly the ranges that overlap one. -/
theorem io_regions_run {s₀ s : Resources} {ops : List IOOp} (h0 : s₀.NoRegions)
    (hr : Run ioStep (fun s op => op.Legal s ∧ op.Sound s) s₀ ops s) :
    (∃ l, Linked IOfirstAlloc NIL s.nextAlloc s.prevAlloc l ∧
      (∀ r, r ∈ l ↔ s.allocated r = true) ∧
      (l.Pairwise fun a b => (s.mem a).base < (s.mem b).base) ∧
      l.Pairwise fun a b => Disjoint (s.regionPorts a) (s.regionPorts b)) ∧
    (∀ validThread resource res owner flags env,
      (IOOp.alloc validThread resource res owner flags env).Legal s →
      validThread owner = true → res.limit ≠ 0#32 → env.ckres ≠ NIL →
      Fits res.base res.limit →
        ∃ s' e, s.ckAllocIORegion validThread resource res owner flags env = some (s', e) ∧
          (e = 0#32 ∨ e = ERESOURCEBUSY) ∧ (e = ERESOURCEBUSY ↔
            ∃ r, s.allocated r = true ∧
              ¬ Disjoint (ports res.base res.limit) (s.regionPorts r))) ∧
    ∀ r, s.allocated r = true → (ioStep s (.free r)).isSome := by
  obtain ⟨l, h⟩ : ∃ l, IORegions s l :=
    hr.invariant (I := fun s => ∃ l, IORegions s l)
      (fun ⟨_, h⟩ hl hs => ioStep_regions h hl.1 hl.2 hs) ⟨_, h0.regions⟩
  refine ⟨⟨l, h.linked, h.mem, h.ordered, h.disjoint⟩,
    fun _ _ _ _ _ _ hl hv hlim hmem hf => h.refused hl hv hlim hmem hf, fun r hr => ?_⟩
  obtain ⟨s', hcall, -⟩ := ckFreeIORegion_cases h.unlocked (h.linked.bwd_ne ((h.mem r).mpr hr))
  rw [ioStep, hcall]
  rfl

/-- Thread 64 asks for the ports from `base` on. -/
def allocPorts (base limit : UADDR) (ckres : Addr) : IOOp :=
  .alloc (fun v => decide (v = 64)) 40
    { channel := 0, trap := 0, sigThread := NIL, priority := 0, base := base, limit := limit }
    64 0 { ckres := ckres, start := 0 }

theorem io_regions_run_two : ∃ s, Run ioStep (fun s op => op.Legal s ∧ op.Sound s) resourcesAtBoot
      [allocPorts 0x60#32 5#32 100, allocPorts 0x10#32 0x10#32 200] s ∧
    (∃ l, Linked IOfirstAlloc NIL s.nextAlloc s.prevAlloc l ∧
      (∀ r, r ∈ l ↔ s.allocated r = true) ∧
      (l.Pairwise fun a b => (s.mem a).base < (s.mem b).base) ∧
      l.Pairwise fun a b => Disjoint (s.regionPorts a) (s.regionPorts b)) := by
  obtain ⟨s, hr, -⟩ := Run.of_exec_any
    (show (exec ioStep (fun s op => op.Legal s ∧ op.Sound s) resourcesAtBoot
      [allocPorts 0x60#32 5#32 100, allocPorts 0x10#32 0x10#32 200]).any (fun _ => true) = true by
        decide +kernel)
  exact ⟨s, hr, (io_regions_run ⟨rfl, fun _ => rfl, fun _ => rfl⟩ hr).1⟩

/-- A region that ends at 2^32 has the end 0 in 32 bits, so nothing is found inside it. -/
theorem ckAllocIORegion_overlaps : ∃ s, Run ioStep (fun s op => op.Legal s) resourcesAtBoot
      [allocPorts 0xfffffff0#32 0x10#32 100, allocPorts 0xfffffff4#32 4#32 200] s ∧
    s.allocated 100 = true ∧ s.allocated 200 = true ∧
    ¬ Disjoint (s.regionPorts 100) (s.regionPorts 200) := by
  obtain ⟨s, hr, hp⟩ := Run.of_exec_any
    (show (exec ioStep (fun s op => op.Legal s) resourcesAtBoot
      [allocPorts 0xfffffff0#32 0x10#32 100, allocPorts 0xfffffff4#32 4#32 200]).any
        (fun s => decide (s.allocated 100 = true ∧ s.allocated 200 = true ∧
          s.region 100 = (0xfffffff0#32, 0x10#32) ∧ s.region 200 = (0xfffffff4#32, 4#32))) =
        true by decide +kernel)
  obtain ⟨h100, h200, hr100, hr200⟩ := of_decide_eq_true hp
  refine ⟨s, hr, h100, h200, fun hd => ?_⟩
  obtain ⟨hb, hl⟩ := Prod.mk.inj hr100
  obtain ⟨hb', hl'⟩ := Prod.mk.inj hr200
  simp only [regionPorts, hb, hl, hb', hl'] at hd
  have hport : (0xfffffff4 : ℕ) ∈ ports 0xfffffff0#32 0x10#32 := by simp [ports]
  exact Set.disjoint_left.mp hd hport (by simp [ports])

end Alliance.CK
