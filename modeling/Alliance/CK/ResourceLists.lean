import Alliance.CK.ResourceOwners
import Alliance.Lib.DList
import Alliance.Lib.Run

/-!
# The owners' lists of resources

An owner's list of its resources of one type is reached through `prev`: the head is the newest
resource, and `next` leads back to newer ones. `OwnerLinks` is what the three pairs of calls read
and write of these lists, `Lists` says which records hang from which head.

Over whole runs the lists are those of an account of what was allocated and not released since,
the newest first (`owner_lists_run`). Traps are not among the calls of a run: the search loop of
`CKfreeTrap` can store into a record that was released.
-/

namespace Alliance.CK

open Function Lib

@[ext] structure OwnerLinks where
  next : Addr → Addr
  prev : Addr → Addr
  head : ResourceSignature → Addr → Addr

namespace OwnerLinks

/-- Put a record in front. -/
def link (L : OwnerLinks) (k : ResourceSignature) (owner c : Addr) : OwnerLinks where
  next :=
    if L.head k owner ≠ NIL then update (update L.next c NIL) (L.head k owner) c
    else update L.next c NIL
  prev := update L.prev c (L.head k owner)
  head := update L.head k (update (L.head k) owner c)

/-- Take a record out. -/
def unlink (L : OwnerLinks) (k : ResourceSignature) (owner r : Addr) : OwnerLinks where
  next := if L.prev r ≠ NIL then update L.next (L.prev r) (L.next r) else L.next
  prev := if L.next r ≠ NIL then update L.prev (L.next r) (L.prev r) else L.prev
  head :=
    if L.next r ≠ NIL then L.head else update L.head k (update (L.head k) owner (L.prev r))

/-- The records from the head on. -/
def Holds (L : OwnerLinks) (k : ResourceSignature) (owner : Addr) (l : List Addr) : Prop :=
  Linked NIL NIL (update L.prev NIL (L.head k owner)) L.next l

/-- **The lists** of all owners: no record is in two of them. -/
structure Lists (L : OwnerLinks) (lists : ResourceSignature → Addr → List Addr) : Prop where
  holds : ∀ k owner, L.Holds k owner (lists k owner)
  apart : ∀ {x k k' owner owner'}, x ∈ lists k owner → x ∈ lists k' owner' →
    k = k' ∧ owner = owner'

variable {L : OwnerLinks} {k k' : ResourceSignature} {owner owner' c r : Addr} {l : List Addr}
  {lists : ResourceSignature → Addr → List Addr}

theorem Holds.ne_nil (h : L.Holds k owner l) {x : Addr} (hx : x ∈ l) : x ≠ NIL :=
  fun he => h.nil_notMem (he ▸ hx)

/-- The head is the first record. -/
theorem Holds.head_eq (h : L.Holds k owner l) : L.head k owner = l.headD NIL := by
  have hfirst := Linked.fwd_getLastD (show Linked _ _ _ _ ([] ++ l) from h)
  rwa [List.getLastD_nil, update_self] at hfirst

theorem Holds.head_mem (h : L.Holds k owner l) (h0 : L.head k owner ≠ NIL) :
    L.head k owner ∈ l := by
  rw [h.head_eq] at h0 ⊢
  cases l with
  | nil => exact absurd rfl h0
  | cons x l => exact .head _

/-- No record is its own neighbour. -/
theorem Holds.prev_ne (h : L.Holds k owner l) (hr : r ∈ l) : L.prev r ≠ r := by
  obtain ⟨as, bs, rfl⟩ := List.append_of_mem hr
  have hr0 : r ≠ NIL := h.ne_nil hr
  have hfwd := (Linked.split h).2.2.1
  rw [update_of_ne hr0] at hfwd
  rw [hfwd]
  cases bs with
  | nil => exact Ne.symm hr0
  | cons b bs =>
      rintro rfl
      have hnodup := (List.nodup_append.mp h.nodup_tail).2.1
      exact (List.nodup_cons.mp hnodup).1 (.head _)

/-- A record that is in no list is put in front of one. -/
theorem Holds.link (h : L.Holds k owner l) (hc : c ∉ l) (h0 : c ≠ NIL) :
    (L.link k owner c).Holds k owner (c :: l) := by
  refine Linked.insert [] h rfl ?_ h0 (fun y _ => ?_) fun y hy => ?_
  · intro hm
    rcases List.mem_cons.mp hm with he | hm
    · exact h0 he
    · exact hc hm
  · unfold OwnerLinks.link
    dsimp only
    simp only [update_self, update_apply]
    by_cases hy : y = NIL
    · subst hy
      simp [Ne.symm h0]
    · simp [hy]
  · have hy0 : y ≠ NIL := by
      rcases List.mem_cons.mp hy with rfl | hy
      · exact h0
      · exact h.ne_nil hy
    have hch : L.head k owner ≠ NIL → c ≠ L.head k owner := fun hh he => hc (he ▸ h.head_mem hh)
    unfold OwnerLinks.link
    dsimp only
    rw [List.getLastD_nil, update_self]
    split
    · next hh =>
      by_cases hyc : y = c
      · subst hyc
        rw [update_of_ne (hch hh), update_self, if_pos rfl]
      · rw [if_neg hyc, update_apply, update_of_ne hyc]
    · next hh =>
      rw [not_not.mp hh, update_apply, if_neg hy0]

/-- What is put in front of one list leaves the others alone. -/
theorem Holds.link_other (h : L.Holds k' owner' l) (hne : ¬ (k' = k ∧ owner' = owner))
    (hc : c ∉ l) (h0 : c ≠ NIL) (hhead : L.head k owner ∉ l) :
    (L.link k owner c).Holds k' owner' l := by
  have hh : (L.link k owner c).head k' owner' = L.head k' owner' := by
    unfold OwnerLinks.link
    dsimp only
    by_cases hk : k' = k
    · subst hk
      rw [update_self, update_of_ne fun he => hne ⟨rfl, he⟩]
    · rw [update_of_ne hk]
  unfold Holds
  rw [hh]
  refine Linked.congr h (fun y hy => ?_) fun y hy => ?_
  · have hyc : y ≠ c := by
      rintro rfl
      exact (List.mem_cons.mp hy).elim h0 hc
    rw [update_apply, update_apply]
    unfold OwnerLinks.link
    dsimp only
    rw [update_of_ne hyc]
  · have hyc : y ≠ c := fun he => hc (he ▸ hy)
    have hyh : y ≠ L.head k owner := fun he => hhead (he ▸ hy)
    unfold OwnerLinks.link
    dsimp only
    split
    · rw [update_of_ne hyh, update_of_ne hyc]
    · rw [update_of_ne hyc]

/-- A record is taken out of its list. -/
theorem Holds.unlink {as bs : List Addr} (h : L.Holds k owner (as ++ r :: bs)) :
    (L.unlink k owner r).Holds k owner (as ++ bs) := by
  have hr0 : r ≠ NIL := h.ne_nil (List.mem_append_right _ (.head _))
  have hfr : update L.prev NIL (L.head k owner) r = L.prev r := update_of_ne hr0 ..
  refine Linked.unlink h (fun y hy => ?_) fun y hy => ?_
  · rw [hfr]
    unfold OwnerLinks.unlink
    dsimp only
    by_cases hn : L.next r = NIL
    · rw [if_neg (not_not_intro hn), if_neg (not_not_intro hn), hn, update_self, update_self,
        update_apply, update_apply]
      split
      · rfl
      · rfl
    · rw [if_pos hn, if_pos hn]
      by_cases hy0 : y = NIL
      · subst hy0
        rw [update_self, update_self, if_neg (Ne.symm hn)]
      · rw [update_of_ne hy0, update_of_ne hy0, update_apply]
  · have hy0 : y ≠ NIL := by
      rintro rfl
      exact h.nil_notMem_remove hy
    rw [hfr]
    unfold OwnerLinks.unlink
    dsimp only
    split
    · rw [update_apply]
    · next hp => rw [not_not.mp hp, if_neg hy0]

/-- Taking a record out of one list leaves the others alone. -/
theorem Holds.unlink_other (h : L.Holds k' owner' l) (hne : ¬ (k' = k ∧ owner' = owner))
    (hp : L.prev r ∉ l) (hn : L.next r ∉ l) : (L.unlink k owner r).Holds k' owner' l := by
  have hh : (L.unlink k owner r).head k' owner' = L.head k' owner' := by
    unfold OwnerLinks.unlink
    dsimp only
    split
    · rfl
    · by_cases hk : k' = k
      · subst hk
        rw [update_self, update_of_ne fun he => hne ⟨rfl, he⟩]
      · rw [update_of_ne hk]
  unfold Holds
  rw [hh]
  refine Linked.congr h (fun y hy => ?_) fun y hy => ?_
  · rw [update_apply, update_apply]
    unfold OwnerLinks.unlink
    dsimp only
    split
    · rfl
    · next hy0 =>
      have hyn : y ≠ L.next r := fun he =>
        hn (he ▸ (List.mem_cons.mp hy).resolve_left hy0)
      split
      · rw [update_of_ne hyn]
      · rfl
  · have hyp : y ≠ L.prev r := fun he => hp (he ▸ hy)
    unfold OwnerLinks.unlink
    dsimp only
    split
    · rw [update_of_ne hyp]
    · rfl

theorem Lists.link (h : L.Lists lists) (hc : ∀ k owner, c ∉ lists k owner) (h0 : c ≠ NIL) :
    (L.link k owner c).Lists fun k' owner' =>
      if k' = k ∧ owner' = owner then c :: lists k' owner' else lists k' owner' where
  holds k' owner' := by
    split
    · next he =>
      obtain ⟨rfl, rfl⟩ := he
      exact (h.holds k' owner').link (hc k' owner') h0
    · next hne =>
      refine (h.holds k' owner').link_other hne (hc k' owner') h0 fun hm => ?_
      -- the head of the one list is no record of another
      have hhead := (h.holds k owner).head_mem ((h.holds k' owner').ne_nil hm)
      exact hne (h.apart hm hhead)
  apart := by
    have hmem : ∀ {x k' owner'}, x ∈ (if k' = k ∧ owner' = owner then c :: lists k' owner'
        else lists k' owner') → x = c ∧ k' = k ∧ owner' = owner ∨ x ∈ lists k' owner' := by
      intro x k' owner' hx
      split at hx
      · next he => exact (List.mem_cons.mp hx).imp_left fun hxc => ⟨hxc, he⟩
      · exact .inr hx
    intro x k₁ k₂ o₁ o₂ h₁ h₂
    rcases hmem h₁ with ⟨rfl, hk₁, ho₁⟩ | hx₁
    · rcases hmem h₂ with ⟨-, hk₂, ho₂⟩ | hx₂
      · exact ⟨hk₁.trans hk₂.symm, ho₁.trans ho₂.symm⟩
      · exact absurd hx₂ (hc k₂ o₂)
    · rcases hmem h₂ with ⟨rfl, -⟩ | hx₂
      · exact absurd hx₁ (hc k₁ o₁)
      · exact h.apart hx₁ hx₂

theorem filter_of_notMem (hr : r ∉ l) : l.filter (· ≠ r) = l :=
  List.filter_eq_self.mpr fun _ hy => decide_eq_true (ne_of_mem_of_not_mem hy hr)

theorem filter_middle {as bs : List Addr} (hn : (as ++ r :: bs).Nodup) :
    (as ++ r :: bs).filter (· ≠ r) = as ++ bs := by
  rw [List.filter_append, List.filter_cons_of_neg (by simp), ← List.filter_append,
    filter_of_notMem (List.nodup_middle.mp hn).notMem]

theorem Lists.unlink (h : L.Lists lists) (hr : r ∈ lists k owner) :
    (L.unlink k owner r).Lists fun k' owner' => (lists k' owner').filter (· ≠ r) where
  holds k' owner' := by
    by_cases he : k' = k ∧ owner' = owner
    · obtain ⟨rfl, rfl⟩ := he
      obtain ⟨as, bs, hl⟩ := List.append_of_mem hr
      have hlist := h.holds k' owner'
      rw [hl] at hlist ⊢
      rw [filter_middle hlist.nodup_tail]
      exact hlist.unlink
    · have hnot : r ∉ lists k' owner' := fun hm => he (h.apart hm hr)
      rw [filter_of_notMem hnot]
      -- the neighbours of the record are in its own list
      have hown := h.holds k owner
      have hother := h.holds k' owner'
      have hr0 : r ≠ NIL := hown.ne_nil hr
      have hprev : L.prev r ∈ NIL :: lists k owner := by
        have hm := Linked.fwd_mem hown (.tail _ hr)
        rwa [update_of_ne hr0] at hm
      refine hother.unlink_other he (fun hm => ?_) fun hm => ?_
      · rcases List.mem_cons.mp hprev with h0 | hin
        · exact hother.ne_nil hm h0
        · exact he (h.apart hm hin)
      · rcases List.mem_cons.mp (Linked.bwd_mem hown hr) with h0 | hin
        · exact hother.ne_nil hm h0
        · exact he (h.apart hm hin)
  apart h₁ h₂ := h.apart (List.mem_of_mem_filter h₁) (List.mem_of_mem_filter h₂)

end OwnerLinks

/-! ## The links in the records -/

namespace Resources

variable {s s' : Resources} {c r owner : Addr} {k : ResourceSignature}

def links (s : Resources) : OwnerLinks where
  next := s.field CKResource.next
  prev := s.field CKResource.prev
  head := s.head

/-- A store that does not change the links of its record. -/
theorem links_setRec_same {x : CKResource} (hnext : x.next = (s.mem r).next)
    (hprev : x.prev = (s.mem r).prev) : (s.setRec r x).links = s.links := by
  unfold links
  rw [field_setRec_same hnext, field_setRec_same hprev]
  rfl

section

variable (s : Resources) (r v owner c : Addr) (k : ResourceSignature)

@[simp] theorem next_setNext : (s.setNext r v).links.next = update s.links.next r v :=
  field_setRec s CKResource.next r _

@[simp] theorem prev_setNext : (s.setNext r v).links.prev = s.links.prev :=
  show (s.setNext r v).field CKResource.prev = s.field CKResource.prev from
    field_setRec_same rfl

@[simp] theorem next_setPrev : (s.setPrev r v).links.next = s.links.next :=
  show (s.setPrev r v).field CKResource.next = s.field CKResource.next from
    field_setRec_same rfl

@[simp] theorem prev_setPrev : (s.setPrev r v).links.prev = update s.links.prev r v :=
  field_setRec s CKResource.prev r _

theorem links_linkResource : (s.linkResource k owner c).links = s.links.link k owner c := by
  unfold linkResource OwnerLinks.link
  dsimp only
  change OwnerLinks.mk _ _ _ = _
  by_cases h0 : s.head k owner ≠ NIL
  · rw [if_pos h0, if_pos (show s.links.head k owner ≠ NIL from h0)]
    refine OwnerLinks.ext ?_ ?_ rfl
    · show (((s.setNext c NIL).setPrev c _).setNext _ c).links.next = _
      rw [next_setNext, next_setPrev, next_setNext]
      rfl
    · show (((s.setNext c NIL).setPrev c _).setNext _ c).links.prev = _
      rw [prev_setNext, prev_setPrev, prev_setNext]
      rfl
  · rw [if_neg h0, if_neg (show ¬ s.links.head k owner ≠ NIL from h0)]
    refine OwnerLinks.ext ?_ ?_ rfl
    · show ((s.setNext c NIL).setPrev c _).links.next = _
      rw [next_setPrev, next_setNext]
    · show ((s.setNext c NIL).setPrev c _).links.prev = _
      rw [prev_setPrev, prev_setNext]
      rfl

/-- A record that is not its own neighbour is taken out. -/
theorem links_unlinkResource (hr : s.links.prev r ≠ r) :
    (s.unlinkResource k r).links = s.links.unlink k (s.mem r).owner r := by
  generalize hs₁ : (if (s.mem r).prev ≠ NIL then s.setNext (s.mem r).prev (s.mem r).next
    else s) = s₁
  have hrec : s₁.mem r = s.mem r := by
    rw [← hs₁]
    split
    · exact update_of_ne (Ne.symm hr) _ _
    · rfl
  have hnext : s₁.links.next = (s.links.unlink k (s.mem r).owner r).next := by
    unfold OwnerLinks.unlink
    dsimp only
    rw [← hs₁]
    by_cases hp : (s.mem r).prev ≠ NIL
    · rw [if_pos hp, if_pos (show s.links.prev r ≠ NIL from hp), next_setNext]
      rfl
    · rw [if_neg hp, if_neg (show ¬ s.links.prev r ≠ NIL from hp)]
  have hprev : s₁.links.prev = s.links.prev := by
    rw [← hs₁]
    split
    · rw [prev_setNext]
    · rfl
  have hhead : s₁.head = s.head := by
    rw [← hs₁]
    split <;> rfl
  unfold unlinkResource
  dsimp only
  rw [hs₁, hrec]
  unfold OwnerLinks.unlink at hnext ⊢
  dsimp only at hnext ⊢
  by_cases hn : (s.mem r).next ≠ NIL
  · rw [if_pos hn, if_pos (show s.links.next r ≠ NIL from hn),
      if_pos (show s.links.next r ≠ NIL from hn)]
    refine OwnerLinks.ext ?_ ?_ hhead
    · rw [next_setPrev, hnext]
    · rw [prev_setPrev, hprev]
      rfl
  · rw [if_neg hn, if_neg (show ¬ s.links.next r ≠ NIL from hn),
      if_neg (show ¬ s.links.next r ≠ NIL from hn)]
    refine OwnerLinks.ext hnext hprev ?_
    show update s₁.head k (update (s₁.head k) (s.mem r).owner (s.mem r).prev) = _
    rw [hhead]
    rfl

end

/-! ## The calls -/

/-- The links are the same, and so are the types and the owners of the records. -/
structure Unmoved (s s' : Resources) : Prop where
  links : s'.links = s.links
  refs : s'.refs = s.refs

/-- A new resource is in front of the list of its owner. -/
structure Gained (s : Resources) (k : ResourceSignature) (owner c : Addr) (s' : Resources) :
    Prop where
  ne_nil : c ≠ NIL
  links : s'.links = s.links.link k owner c
  refs : ∃ sigThread, s'.refs = update s.refs c (k, owner, sigThread)

/-- A resource is no longer in the list of its owner. -/
structure Lost (s : Resources) (k : ResourceSignature) (r : Addr) (s' : Resources) : Prop where
  links : s'.links = s.links.unlink k (s.mem r).owner r
  refs : s'.refs = s.refs

theorem Unmoved.refl (s : Resources) : Unmoved s s := ⟨rfl, rfl⟩

theorem Unmoved.of_enter {m : CKMutex} (h : s.enter m = some s') : Unmoved s s' := by
  obtain ⟨-, rfl⟩ := enter_eq_some h
  exact ⟨rfl, rfl⟩

theorem Unmoved.trans {s'' : Resources} (h : Unmoved s s') (h' : Unmoved s' s'') : Unmoved s s'' :=
  ⟨h'.links.trans h.links, h'.refs.trans h.refs⟩

theorem Unmoved.exit (h : Unmoved s s') (m : CKMutex) : Unmoved s (s'.exit m) := ⟨h.links, h.refs⟩

theorem Unmoved.setNextAlloc (h : Unmoved s s') (r v : Addr) : Unmoved s (s'.setNextAlloc r v) :=
  h.trans ⟨links_setRec_same rfl rfl, refs_setNextAlloc ..⟩

theorem Unmoved.setPrevAlloc (h : Unmoved s s') (r v : Addr) : Unmoved s (s'.setPrevAlloc r v) :=
  h.trans ⟨links_setRec_same rfl rfl, refs_setPrevAlloc ..⟩

/-- The allocator's record, with data of its own. -/
theorem Unmoved.fill {x : CKResource} (hnext : x.next = (s.mem c).next)
    (hprev : x.prev = (s.mem c).prev) (hrefs : refData x = refData (s.mem c)) :
    Unmoved s ((s.alloc c).setRec c x) :=
  ⟨links_setRec_same hnext hprev, field_setRec_same hrefs⟩

theorem Gained.setDescriptor (h : Gained s k owner c s') (resource v : Addr) :
    Gained s k owner c (s'.setDescriptor resource v) :=
  ⟨h.ne_nil, h.links, h.refs⟩

theorem Gained.fill {x : CKResource} (h : Gained s k owner c s') (hnext : x.next = (s'.mem r).next)
    (hprev : x.prev = (s'.mem r).prev) (hrefs : refData x = refData (s'.mem r)) :
    Gained s k owner c (s'.setRec r x) := by
  obtain ⟨sigThread, hsig⟩ := h.refs
  exact ⟨h.ne_nil, (links_setRec_same hnext hprev).trans h.links, sigThread,
    (field_setRec_same hrefs).trans hsig⟩

variable {resource : Addr} {res : Resource} {flags e : DATA} {env : AllocEnv}
  {valid : Addr → Bool}

/-- A record gets its type and its owner, and is put in front. -/
theorem Gained.of_linked {s₁ s₂ : Resources} (h0 : c ≠ NIL) (h₁ : Unmoved s s₁)
    (hs₂ : (s₁.setBasic k owner flags c).enter .resourceAllocLock = some s₂) :
    Gained s k owner c ((s₂.linkResource k owner c).exit .resourceAllocLock) := by
  have h₂ := Unmoved.of_enter hs₂
  refine ⟨h0, ?_, (s₁.mem c).sigThread, ?_⟩
  · have hbasic : (s₁.setBasic k owner flags c).links = s₁.links := links_setRec_same rfl rfl
    show (s₂.linkResource k owner c).links = _
    rw [links_linkResource, h₂.links, hbasic, h₁.links]
  · rw [refs_exit, refs_linkResource, h₂.refs, refs_setBasic, h₁.refs]

/-- **`CKallocIORegion`**. -/
theorem ckAllocIORegion_links
    (h : s.ckAllocIORegion valid resource res owner flags env = some (s', e)) :
    e ≠ 0#32 ∧ Unmoved s s' ∨ e = 0#32 ∧ Gained s .SIGIOREGION owner env.ckres s' := by
  unfold ckAllocIORegion at h
  split at h
  · obtain ⟨rfl, rfl⟩ := Prod.mk.inj (Option.some.inj h)
    exact .inl ⟨by decide, .refl s⟩
  obtain ⟨s₁, hs₁, h⟩ := Option.bind_eq_some_iff.mp h
  have h₁ := Unmoved.of_enter hs₁
  obtain ⟨gap, -, h⟩ := Option.bind_eq_some_iff.mp h
  split at h
  · obtain ⟨rfl, rfl⟩ := Prod.mk.inj (Option.some.inj h)
    exact .inl ⟨by decide, h₁.exit _⟩
  split at h
  · obtain ⟨rfl, rfl⟩ := Prod.mk.inj (Option.some.inj h)
    exact .inl ⟨by decide, h₁⟩
  next h0 =>
  obtain ⟨s₂, hs₂, h⟩ := Option.bind_eq_some_iff.mp h
  obtain ⟨rfl, rfl⟩ := Prod.mk.inj (Option.some.inj h)
  refine .inr ⟨rfl, (Gained.of_linked h0 ?_ hs₂).setDescriptor ..⟩
  -- the list of regions has links of its own
  have hrec := h₁.trans (Unmoved.fill (s := s₁) (c := env.ckres)
    (x := { (s₁.alloc env.ckres).mem env.ckres with
      base := res.base
      limit := res.limit
      nextAlloc := ((s₁.alloc env.ckres).mem gap).nextAlloc }) rfl rfl rfl)
  have hin := (hrec.setNextAlloc gap env.ckres).setPrevAlloc env.ckres gap
  split
  · exact (hin.setPrevAlloc ..).exit _
  · exact hin.exit _

/-- **`CKallocDMA`**. -/
theorem ckAllocDMA_links
    (h : s.ckAllocDMA valid resource res owner flags env = some (s', e)) :
    e ≠ 0#32 ∧ Unmoved s s' ∨ e = 0#32 ∧ Gained s .SIGDMA owner env.ckres s' := by
  unfold ckAllocDMA at h
  split at h
  · obtain ⟨rfl, rfl⟩ := Prod.mk.inj (Option.some.inj h)
    exact .inl ⟨by decide, .refl s⟩
  split at h
  · obtain ⟨rfl, rfl⟩ := Prod.mk.inj (Option.some.inj h)
    exact .inl ⟨by decide, .refl s⟩
  split at h
  · obtain ⟨rfl, rfl⟩ := Prod.mk.inj (Option.some.inj h)
    exact .inl ⟨by decide, .refl s⟩
  split at h
  · obtain ⟨rfl, rfl⟩ := Prod.mk.inj (Option.some.inj h)
    exact .inl ⟨by decide, .refl s⟩
  next h0 =>
  obtain ⟨s₂, hs₂, h⟩ := Option.bind_eq_some_iff.mp h
  obtain ⟨rfl, rfl⟩ := Prod.mk.inj (Option.some.inj h)
  have hmap : Unmoved s ((s.setDMA res.channel true).alloc env.ckres) := ⟨rfl, rfl⟩
  have hg := Gained.of_linked h0 hmap hs₂
  generalize (s₂.linkResource .SIGDMA owner env.ckres).exit .resourceAllocLock = s₃ at hg
  -- the channel is stored into the record last
  refine .inr ⟨rfl, Gained.setDescriptor ?_ ..⟩
  exact hg.fill (x := { s₃.mem env.ckres with channel := res.channel }) rfl rfl rfl

/-- **`CKallocPhysRegion`**. -/
theorem ckAllocPhysRegion_links
    (h : s.ckAllocPhysRegion valid resource owner env = some (s', e)) :
    e ≠ 0#32 ∧ Unmoved s s' ∨ e = 0#32 ∧ Gained s .SIGPHYSREGION owner env.ckres s' := by
  unfold ckAllocPhysRegion at h
  split at h
  · obtain ⟨rfl, rfl⟩ := Prod.mk.inj (Option.some.inj h)
    exact .inl ⟨by decide, .refl s⟩
  split at h
  · obtain ⟨rfl, rfl⟩ := Prod.mk.inj (Option.some.inj h)
    exact .inl ⟨by decide, .refl s⟩
  next h0 =>
  split at h
  · obtain ⟨rfl, rfl⟩ := Prod.mk.inj (Option.some.inj h)
    exact .inl ⟨by decide, rfl, rfl⟩
  obtain ⟨s₂, hs₂, h⟩ := Option.bind_eq_some_iff.mp h
  obtain ⟨rfl, rfl⟩ := Prod.mk.inj (Option.some.inj h)
  have h₂ := Unmoved.of_enter hs₂
  have hrec : Unmoved s s₂ := .trans (Unmoved.fill (c := env.ckres)
    (x := { (s.alloc env.ckres).mem env.ckres with start := env.start, length := 128 })
    rfl rfl rfl) h₂
  generalize hs₃ : (s₂.linkResource .SIGPHYSREGION owner env.ckres).exit .resourceAllocLock = s₃
  have hlinks : s₃.links = s.links.link .SIGPHYSREGION owner env.ckres := by
    rw [← hs₃, ← hrec.links]
    exact links_linkResource s₂ owner env.ckres .SIGPHYSREGION
  have hrefs : s₃.refs = s.refs := by rw [← hs₃, refs_exit, refs_linkResource, hrec.refs]
  -- the type and the owner are stored after the record is in the list
  have hbasic : (s₃.setBasic .SIGPHYSREGION owner (s₃.mem env.ckres).flags env.ckres).links =
      s₃.links := links_setRec_same rfl rfl
  refine .inr ⟨rfl, Gained.setDescriptor ⟨h0, hbasic.trans hlinks, ?_⟩ ..⟩
  exact ⟨_, by rw [refs_setBasic, hrefs]⟩

/-- The part of a release that all four types share. -/
theorem Lost.of_unlinked {s₁ s₂ : Resources} (hr : s.links.prev r ≠ r) (h₁ : Unmoved s s₁)
    (hs₂ : s₁.enter .resourceAllocLock = some s₂) :
    Lost s k r (((s₂.unlinkResource k r).exit .resourceAllocLock).free r) := by
  have h₂ := h₁.trans (.of_enter hs₂)
  have howner : (s₂.mem r).owner = (s.mem r).owner := congrArg (·.2.1) (congrFun h₂.refs r)
  refine ⟨?_, ?_⟩
  · show (s₂.unlinkResource k r).links = _
    rw [links_unlinkResource s₂ r k (by rwa [h₂.links]), h₂.links, howner]
  · rw [refs_free, refs_exit, refs_unlinkResource, h₂.refs]

/-- **`CKfreeIORegion`**. -/
theorem ckFreeIORegion_links (hr : s.links.prev r ≠ r) (h : s.ckFreeIORegion r = some (s', e)) :
    Lost s .SIGIOREGION r s' := by
  obtain ⟨s₁, hs₁, h⟩ := Option.bind_eq_some_iff.mp h
  obtain ⟨s₂, hs₂, h⟩ := Option.bind_eq_some_iff.mp h
  obtain ⟨rfl, -⟩ := Prod.mk.inj (Option.some.inj h)
  have h₁ := (Unmoved.of_enter hs₁).setNextAlloc (s₁.mem r).prevAlloc (s₁.mem r).nextAlloc
  refine .of_unlinked hr ?_ hs₂
  split
  · exact (h₁.setPrevAlloc ..).exit _
  · exact h₁.exit _

/-- **`CKfreeDMA`**. -/
theorem ckFreeDMA_links (hr : s.links.prev r ≠ r) (h : s.ckFreeDMA r = some (s', e)) :
    Lost s .SIGDMA r s' := by
  obtain ⟨s₁, hs₁, h⟩ := Option.bind_eq_some_iff.mp h
  obtain ⟨rfl, -⟩ := Prod.mk.inj (Option.some.inj h)
  have hmap : Unmoved s (s.setDMA (s.mem r).channel false) := ⟨rfl, rfl⟩
  exact .of_unlinked hr hmap hs₁

/-- **`CKfreePhysRegion`**. -/
theorem ckFreePhysRegion_links (hr : s.links.prev r ≠ r)
    (h : s.ckFreePhysRegion r = some (s', e)) : Lost s .SIGPHYSREGION r s' := by
  obtain ⟨s₁, hs₁, h⟩ := Option.bind_eq_some_iff.mp h
  obtain ⟨rfl, -⟩ := Prod.mk.inj (Option.some.inj h)
  exact .of_unlinked hr (.refl s) hs₁

/-- **`CKresourceAllocKernelCode`**: an error moves nothing. -/
theorem ckResourceAlloc_links {signature : Addr → ObjectSignature} (hk : k ≠ .SIGTRAP)
    (h : s.ckResourceAlloc signature k resource res owner flags env = some (s', e)) :
    e ≠ 0#32 ∧ Unmoved s s' ∨ e = 0#32 ∧ Gained s k owner env.ckres s' := by
  unfold ckResourceAlloc at h
  cases k with
  | SIGPHYSREGION => exact ckAllocPhysRegion_links h
  | SIGTRAP => exact absurd rfl hk
  | SIGDMA => exact ckAllocDMA_links h
  | SIGIOREGION => exact ckAllocIORegion_links h

/-- **`CKresourceFreeKernelCode`**. -/
theorem ckResourceFree_links (hk : (s.mem r).typeSignature ≠ .SIGTRAP)
    (hr : s.links.prev r ≠ r) (h : s.ckResourceFree r = some (s', e)) :
    Lost s (s.mem r).typeSignature r s' := by
  unfold ckResourceFree at h
  cases htype : (s.mem r).typeSignature with
  | SIGPHYSREGION =>
      rw [htype] at h
      exact ckFreePhysRegion_links hr h
  | SIGTRAP => exact absurd htype hk
  | SIGDMA =>
      rw [htype] at h
      exact ckFreeDMA_links hr h
  | SIGIOREGION =>
      rw [htype] at h
      exact ckFreeIORegion_links hr h

end Resources

/-! ## Runs -/

/-- A resource that was allocated: its type, its owner and its record. -/
structure Holding where
  type : ResourceSignature
  owner : Addr
  record : Addr
  deriving DecidableEq, Repr

/-- The resources of the Cache Kernel, and an account of those that are live, the newest first. -/
structure Account where
  res : Resources
  live : List Holding

inductive AccountOp where
  | alloc (signature : Addr → ObjectSignature) (type : ResourceSignature) (resource : Addr)
    (res : Resource) (owner : Addr) (flags : DATA) (env : AllocEnv)
  | free (record : Addr)

/-- A call, and what the account says of it. -/
def accountStep (a : Account) : AccountOp → Option Account
  | .alloc signature type resource res owner flags env =>
    (a.res.ckResourceAlloc signature type resource res owner flags env).map fun (s, e) =>
      ⟨s, if e = 0#32 then ⟨type, owner, env.ckres⟩ :: a.live else a.live⟩
  | .free record => (a.res.ckResourceFree record).map fun (s, _) =>
      ⟨s, a.live.filter (·.record ≠ record)⟩

/-- The calls are for I/O regions, DMA channels and regions of physical memory. The allocator
gives out no record that is in use, and what is released is live. -/
def AccountOp.Legal (a : Account) : AccountOp → Prop
  | .alloc _ type _ _ _ _ env => type ≠ .SIGTRAP ∧ env.ckres ∉ a.live.map Holding.record
  | .free record => record ∈ a.live.map Holding.record

instance AccountOp.decidableLegal (a : Account) : (op : AccountOp) → Decidable (op.Legal a)
  | .alloc .. => inferInstanceAs (Decidable (_ ∧ _))
  | .free _ => inferInstanceAs (Decidable (_ ∈ _))

/-- The records of an owner's live resources of a type. -/
def liveOf (live : List Holding) (k : ResourceSignature) (owner : Addr) : List Addr :=
  (live.filter fun h => h.type = k ∧ h.owner = owner).map Holding.record

/-- **The lists are those of the account.** -/
structure Account.Kept (a : Account) : Prop where
  lists : a.res.links.Lists (liveOf a.live)
  nodup : (a.live.map Holding.record).Nodup
  data : ∀ h ∈ a.live, (a.res.mem h.record).typeSignature = h.type ∧
    (a.res.mem h.record).owner = h.owner
  traps : ∀ h ∈ a.live, h.type ≠ .SIGTRAP

theorem mem_liveOf {live : List Holding} {h : Holding} (hh : h ∈ live) :
    h.record ∈ liveOf live h.type h.owner :=
  List.mem_map_of_mem (List.mem_filter.mpr ⟨hh, decide_eq_true ⟨rfl, rfl⟩⟩)

theorem liveOf_subset {live : List Holding} (k : ResourceSignature) (owner : Addr) :
    liveOf live k owner ⊆ live.map Holding.record :=
  List.map_subset _ (List.filter_subset_self _)

theorem liveOf_cons (live : List Holding) (h : Holding) : liveOf (h :: live) = fun k owner =>
    if k = h.type ∧ owner = h.owner then h.record :: liveOf live k owner
    else liveOf live k owner := by
  funext k owner
  unfold liveOf
  have heq : (h.type = k ∧ h.owner = owner) ↔ k = h.type ∧ owner = h.owner :=
    and_congr eq_comm eq_comm
  rw [List.filter_cons]
  by_cases hk : k = h.type ∧ owner = h.owner
  · rw [if_pos hk, if_pos (decide_eq_true (heq.mpr hk)), List.map_cons]
  · rw [if_neg hk, if_neg fun hd => hk (heq.mp (of_decide_eq_true hd))]

theorem liveOf_filter (live : List Holding) (r : Addr) : liveOf (live.filter (·.record ≠ r)) =
    fun k owner => (liveOf live k owner).filter (· ≠ r) := by
  funext k owner
  unfold liveOf
  rw [List.filter_map, List.filter_comm]
  rfl

variable {a a' : Account} {op : AccountOp}

theorem Account.Kept.unmoved {s : Resources} (h : a.Kept) (hu : a.res.Unmoved s) :
    Account.Kept ⟨s, a.live⟩ where
  lists := by
    show s.links.Lists _
    rw [hu.links]
    exact h.lists
  nodup := h.nodup
  data x hx := by
    have hrefs := congrFun hu.refs x.record
    exact ⟨(congrArg (·.1) hrefs).trans (h.data x hx).1,
      (congrArg (·.2.1) hrefs).trans (h.data x hx).2⟩
  traps := h.traps

theorem Account.Kept.gained {s : Resources} {new : Holding} (h : a.Kept)
    (htype : new.type ≠ .SIGTRAP) (hc : new.record ∉ a.live.map Holding.record)
    (hg : a.res.Gained new.type new.owner new.record s) :
    Account.Kept ⟨s, new :: a.live⟩ where
  lists := by
    show s.links.Lists _
    rw [hg.links, liveOf_cons]
    exact h.lists.link (fun k owner hm => hc (liveOf_subset k owner hm)) hg.ne_nil
  nodup := List.nodup_cons.mpr ⟨hc, h.nodup⟩
  data := by
    obtain ⟨sigThread, hrefs⟩ := hg.refs
    have hnew := congrFun hrefs new.record
    rw [update_self] at hnew
    refine List.forall_mem_cons.mpr ⟨⟨congrArg (·.1) hnew, congrArg (·.2.1) hnew⟩, fun x hx => ?_⟩
    have hne : x.record ≠ new.record := fun he => hc (he ▸ List.mem_map_of_mem hx)
    have hold := congrFun hrefs x.record
    rw [update_of_ne hne] at hold
    exact ⟨(congrArg (·.1) hold).trans (h.data x hx).1,
      (congrArg (·.2.1) hold).trans (h.data x hx).2⟩
  traps := List.forall_mem_cons.mpr ⟨htype, h.traps⟩

theorem Account.Kept.lost {s : Resources} {x : Holding} (h : a.Kept) (hx : x ∈ a.live)
    (hl : a.res.Lost x.type x.record s) :
    Account.Kept ⟨s, a.live.filter (·.record ≠ x.record)⟩ where
  lists := by
    show s.links.Lists _
    rw [hl.links, (h.data x hx).2, liveOf_filter]
    exact h.lists.unlink (mem_liveOf hx)
  nodup := (List.filter_sublist.map _).nodup h.nodup
  data y hy := by
    have hrefs := congrFun hl.refs y.record
    have hdata := h.data y (List.mem_of_mem_filter hy)
    exact ⟨(congrArg (·.1) hrefs).trans hdata.1, (congrArg (·.2.1) hrefs).trans hdata.2⟩
  traps y hy := h.traps y (List.mem_of_mem_filter hy)

/-- **One call** keeps the lists. -/
theorem accountStep_kept (h : a.Kept) (hl : op.Legal a) (hs : accountStep a op = some a') :
    a'.Kept := by
  cases op with
  | alloc signature type resource res owner flags env =>
      obtain ⟨⟨s, e⟩, hcall, rfl⟩ := Option.map_eq_some_iff.mp hs
      obtain ⟨htype, hc⟩ := hl
      rcases Resources.ckResourceAlloc_links htype hcall with ⟨he, hu⟩ | ⟨rfl, hg⟩
      · dsimp only
        rw [if_neg he]
        exact h.unmoved hu
      · show Account.Kept ⟨s, ⟨type, owner, env.ckres⟩ :: a.live⟩
        exact h.gained htype hc hg
  | free record =>
      obtain ⟨⟨s, e⟩, hcall, rfl⟩ := Option.map_eq_some_iff.mp hs
      obtain ⟨x, hx, rfl⟩ := List.mem_map.mp hl
      obtain ⟨htype, howner⟩ := h.data x hx
      have hprev := (h.lists.holds x.type x.owner).prev_ne (mem_liveOf hx)
      have hlost := Resources.ckResourceFree_links (htype ▸ h.traps x hx) hprev hcall
      rw [htype] at hlost
      exact h.lost hx hlost

theorem accountAtBoot_kept : Account.Kept ⟨resourcesAtBoot, []⟩ where
  lists :=
    { holds := fun _ _ => Linked.empty (update_self ..)
      apart := nofun }
  nodup := .nil
  data := nofun
  traps := nofun

/-- **The owners' lists.** Whatever was allocated and released since boot, each owner's list of
each type holds the records of its live resources of that type, each once, the newest first. -/
theorem owner_lists_run {ops : List AccountOp}
    (hr : Run accountStep (fun a op => op.Legal a) ⟨resourcesAtBoot, []⟩ ops a) :
    (∀ k owner, a.res.links.Holds k owner (liveOf a.live k owner)) ∧
      (a.live.map Holding.record).Nodup := by
  have h : a.Kept := hr.invariant (fun h hl hs => accountStep_kept h hl hs) accountAtBoot_kept
  exact ⟨h.lists.holds, h.nodup⟩

/-- The object at 32 is a kernel, the others are threads. -/
def oneKernel (v : Addr) : ObjectSignature := if v = 32 then .SIGKERNEL else .SIGTHREAD

def allocDMA (channel : UADDR) (owner ckres : Addr) : AccountOp :=
  .alloc oneKernel .SIGDMA 2000 ⟨channel, 0, NIL, 0, 0, 0⟩ owner 0 ⟨ckres, 0⟩

/-- Thread 64 allocates three channels, thread 96 some ports and the kernel a region, and the
second channel is released. -/
def sixCalls : List AccountOp :=
  [allocDMA 1 64 100, allocDMA 2 64 200,
    .alloc oneKernel .SIGIOREGION 2000 ⟨0, 0, NIL, 0, 0x300, 8⟩ 96 0 ⟨400, 0⟩,
    .alloc oneKernel .SIGPHYSREGION 2000 ⟨0, 0, NIL, 0, 0, 0⟩ 32 0 ⟨500, 0x100000⟩,
    allocDMA 3 64 300, .free 200]

theorem owner_lists_run_six : ∃ a,
    Run accountStep (fun a op => op.Legal a) ⟨resourcesAtBoot, []⟩ sixCalls a ∧
      a.live = [⟨.SIGDMA, 64, 300⟩, ⟨.SIGPHYSREGION, 32, 500⟩, ⟨.SIGIOREGION, 96, 400⟩,
        ⟨.SIGDMA, 64, 100⟩] ∧
      a.res.links.Holds .SIGDMA 64 (liveOf a.live .SIGDMA 64) := by
  obtain ⟨a, hr, hp⟩ := Run.of_exec_any
    (show (exec accountStep (fun a op => op.Legal a) ⟨resourcesAtBoot, []⟩ sixCalls).any
      (fun a => decide (a.live = [⟨.SIGDMA, 64, 300⟩, ⟨.SIGPHYSREGION, 32, 500⟩,
        ⟨.SIGIOREGION, 96, 400⟩, ⟨.SIGDMA, 64, 100⟩])) = true by decide +kernel)
  exact ⟨a, hr, of_decide_eq_true hp, (owner_lists_run hr).1 _ _⟩

end Alliance.CK
