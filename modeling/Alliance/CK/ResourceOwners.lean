import Alliance.CK.ResourceProof

/-!
# The objects that resource records name

A record names its owner, and the record of a trap the thread that is signalled. Allocating
a resource writes both into a fresh record and leaves those of all other records alone;
releasing one writes neither. This holds of all four types and of every call, whether it
succeeds or not, and whatever state the lists are in.
-/

namespace Alliance.CK.Resources

open Function

variable {s s' : Resources} {r c owner : Addr}

/-- The type of a record with the objects it names. -/
def refData (x : CKResource) : ResourceSignature × Addr × Addr :=
  (x.typeSignature, x.owner, x.sigThread)

def refs (s : Resources) : Addr → ResourceSignature × Addr × Addr := s.field refData

section

variable (s : Resources) (r v : Addr) (m : CKMutex) (k : ResourceSignature)

@[simp] theorem refs_setRec (x : CKResource) :
    (s.setRec r x).refs = update s.refs r (refData x) := field_setRec s refData r x

@[simp] theorem refs_setNext : (s.setNext r v).refs = s.refs := field_setRec_same rfl
@[simp] theorem refs_setPrev : (s.setPrev r v).refs = s.refs := field_setRec_same rfl
@[simp] theorem refs_setNtp : (s.setNtp r v).refs = s.refs := field_setRec_same rfl
@[simp] theorem refs_setNextAlloc : (s.setNextAlloc r v).refs = s.refs := field_setRec_same rfl
@[simp] theorem refs_setPrevAlloc : (s.setPrevAlloc r v).refs = s.refs := field_setRec_same rfl
@[simp] theorem refs_setTrapHead (t : UADDR) : (s.setTrapHead t v).refs = s.refs := rfl
@[simp] theorem refs_setDMA (t : UADDR) (b : Bool) : (s.setDMA t b).refs = s.refs := rfl
@[simp] theorem refs_setDescriptor : (s.setDescriptor r v).refs = s.refs := rfl
@[simp] theorem refs_exit : (s.exit m).refs = s.refs := rfl
@[simp] theorem refs_alloc : (s.alloc r).refs = s.refs := rfl
@[simp] theorem refs_free : (s.free r).refs = s.refs := rfl

@[simp] theorem refs_setBasic (flags : DATA) :
    (s.setBasic k v flags r).refs = update s.refs r (k, v, (s.mem r).sigThread) := refs_setRec ..

@[simp] theorem refs_linkResource : (s.linkResource k v r).refs = s.refs :=
  field_linkResource (fun _ _ => rfl) (fun _ _ => rfl) k v

@[simp] theorem refs_unlinkResource : (s.unlinkResource k r).refs = s.refs :=
  field_unlinkResource (fun _ _ => rfl) (fun _ _ => rfl) k

@[simp] theorem allocated_linkResource : (s.linkResource k v r).allocated = s.allocated :=
  (linkResource_rest s k v r).2.2.1

@[simp] theorem allocated_unlinkResource : (s.unlinkResource k r).allocated = s.allocated :=
  (unlinkResource_rest s k r).2.2.1

end

theorem refs_enter {m : CKMutex} (h : s.enter m = some s') :
    s'.refs = s.refs ∧ s'.allocated = s.allocated := by
  obtain ⟨-, rfl⟩ := enter_eq_some h
  exact ⟨rfl, rfl⟩

/-! ## Releasing -/

/-- No record is added, and the records name what they named. -/
def Kept (s s' : Resources) : Prop :=
  s'.refs = s.refs ∧ ∀ r, s'.allocated r = true → s.allocated r = true

theorem Kept.free (hrefs : s'.refs = s.refs) (halloc : s'.allocated = s.allocated) :
    Kept s (s'.free r) := by
  refine ⟨hrefs, fun y hy => ?_⟩
  have hy : update s'.allocated r false y = true := hy
  rw [update_apply] at hy
  split at hy
  · exact absurd hy (by simp)
  · rwa [halloc] at hy

theorem ckFreeIORegion_kept {e : DATA} (h : s.ckFreeIORegion r = some (s', e)) : Kept s s' := by
  obtain ⟨s₁, hs₁, h⟩ := Option.bind_eq_some_iff.mp h
  obtain ⟨hrefs₁, halloc₁⟩ := refs_enter hs₁
  obtain ⟨s₂, hs₂, h⟩ := Option.bind_eq_some_iff.mp h
  obtain ⟨hrefs₂, halloc₂⟩ := refs_enter hs₂
  obtain ⟨rfl, -⟩ := Prod.mk.inj (Option.some.inj h)
  -- the neighbours in the list of regions get new links
  have hkept : s₂.refs = s.refs ∧ s₂.allocated = s.allocated := by
    rw [hrefs₂, halloc₂, ← hrefs₁, ← halloc₁, refs_exit]
    split
    · exact ⟨by simp, rfl⟩
    · exact ⟨by simp, rfl⟩
  refine .free ?_ ?_
  · rw [refs_exit, refs_unlinkResource, hkept.1]
  · exact (allocated_unlinkResource s₂ r _).trans hkept.2

theorem ckFreeDMA_kept {e : DATA} (h : s.ckFreeDMA r = some (s', e)) : Kept s s' := by
  obtain ⟨s₁, hs₁, h⟩ := Option.bind_eq_some_iff.mp h
  obtain ⟨hrefs₁, halloc₁⟩ := refs_enter hs₁
  obtain ⟨rfl, -⟩ := Prod.mk.inj (Option.some.inj h)
  refine .free ?_ ?_
  · rw [refs_exit, refs_unlinkResource, hrefs₁, refs_setDMA]
  · exact (allocated_unlinkResource s₁ r _).trans halloc₁

theorem ckFreeTrap_kept {e : DATA} (h : s.ckFreeTrap r = some (s', e)) : Kept s s' := by
  obtain ⟨s₁, hs₁, h⟩ := Option.bind_eq_some_iff.mp h
  obtain ⟨hrefs₁, halloc₁⟩ := refs_enter hs₁
  have hrefs₂ : (s₁.unlinkResource .SIGTRAP r).refs = s.refs := by
    rw [refs_unlinkResource, hrefs₁]
  have halloc₂ : (s₁.unlinkResource .SIGTRAP r).allocated = s.allocated := by
    rw [allocated_unlinkResource, halloc₁]
  generalize s₁.unlinkResource .SIGTRAP r = s₂ at hrefs₂ halloc₂ h
  simp only at h
  -- wherever the search ends, only a link of the chain is stored
  split at h
  · obtain ⟨rfl, -⟩ := Prod.mk.inj (Option.some.inj h)
    exact .free hrefs₂ halloc₂
  · obtain ⟨pos, -, h⟩ := Option.bind_eq_some_iff.mp h
    obtain ⟨rfl, -⟩ := Prod.mk.inj (Option.some.inj h)
    exact .free ((refs_setNtp _ pos _).trans hrefs₂) halloc₂

theorem ckFreePhysRegion_kept {e : DATA} (h : s.ckFreePhysRegion r = some (s', e)) :
    Kept s s' := by
  obtain ⟨s₁, hs₁, h⟩ := Option.bind_eq_some_iff.mp h
  obtain ⟨hrefs₁, halloc₁⟩ := refs_enter hs₁
  obtain ⟨rfl, -⟩ := Prod.mk.inj (Option.some.inj h)
  refine .free ?_ ?_
  · rw [refs_exit, refs_unlinkResource, hrefs₁]
  · exact (allocated_unlinkResource s₁ r _).trans halloc₁

/-- **`CKresourceFreeKernelCode`** leaves the references of the records alone. -/
theorem ckResourceFree_kept {e : DATA} (h : s.ckResourceFree r = some (s', e)) : Kept s s' := by
  unfold ckResourceFree at h
  split at h
  · exact ckFreePhysRegion_kept h
  · exact ckFreeTrap_kept h
  · exact ckFreeDMA_kept h
  · exact ckFreeIORegion_kept h

/-! ## Allocating -/

/-- A new record of a type names its owner and, if it is a trap's, the thread of the request. -/
def Names (type : ResourceSignature) (owner : Addr) (res : Resource)
    (x : ResourceSignature × Addr × Addr) : Prop :=
  x.1 = type ∧ x.2.1 = owner ∧ (type = .SIGTRAP → x.2.2 = res.sigThread)

/-- The records of `s'` are records of `s`, or name what a request for `owner` says. -/
def Requested (s : Resources) (type : ResourceSignature) (owner : Addr) (res : Resource)
    (s' : Resources) : Prop :=
  ∀ r, s'.allocated r = true →
    (s.allocated r = true ∧ s'.refs r = s.refs r) ∨ Names type owner res (s'.refs r)

variable {type : ResourceSignature} {res : Resource}

theorem Kept.requested (h : Kept s s') : Requested s type owner res s' := fun r hr =>
  .inl ⟨h.2 r hr, congrFun h.1 r⟩

/-- A record that is allocated and given back. -/
theorem Kept.undone (hrefs : s'.refs = (s.alloc c).refs)
    (halloc : s'.allocated = (s.alloc c).allocated) : Kept s (s'.free c) := by
  refine ⟨hrefs, fun y hy => ?_⟩
  have hy : update s'.allocated c false y = true := hy
  rw [update_apply] at hy
  split at hy
  · exact absurd hy (by simp)
  · next hne =>
    rw [halloc] at hy
    exact (update_of_ne hne _ _).symm.trans hy

theorem Requested.refl (s : Resources) : Requested s type owner res s := fun _ hr => .inl ⟨hr, rfl⟩

theorem requested_refused {x e : DATA} (h : some (s, x) = some (s', e)) :
    Requested s type owner res s' := by
  obtain ⟨rfl, -⟩ := Prod.mk.inj (Option.some.inj h)
  exact .refl _

/-- A request that fills in one record. -/
theorem Requested.of_new (hsame : ∀ y, y ≠ c → s'.refs y = s.refs y)
    (halloc : s'.allocated = update s.allocated c true) (hnew : Names type owner res (s'.refs c)) :
    Requested s type owner res s' := by
  intro y hy
  by_cases hyc : y = c
  · exact .inr (hyc ▸ hnew)
  · rw [halloc, update_of_ne hyc] at hy
    exact .inl ⟨hy, hsame y hyc⟩

theorem ckAllocIORegion_requested {validThread : Addr → Bool} {resource : Addr} {flags e : DATA}
    {env : AllocEnv}
    (h : s.ckAllocIORegion validThread resource res owner flags env = some (s', e)) :
    Requested s .SIGIOREGION owner res s' := by
  unfold ckAllocIORegion at h
  split at h
  · exact requested_refused h
  obtain ⟨s₁, hs₁, h⟩ := Option.bind_eq_some_iff.mp h
  obtain ⟨hrefs₁, halloc₁⟩ := refs_enter hs₁
  obtain ⟨gap, -, h⟩ := Option.bind_eq_some_iff.mp h
  split at h
  · obtain ⟨rfl, -⟩ := Prod.mk.inj (Option.some.inj h)
    exact Kept.requested ⟨hrefs₁, fun r hr => by rwa [← halloc₁]⟩
  split at h
  · obtain ⟨rfl, -⟩ := Prod.mk.inj (Option.some.inj h)
    exact Kept.requested ⟨hrefs₁, fun r hr => by rwa [← halloc₁]⟩
  obtain ⟨s₂, hs₂, h⟩ := Option.bind_eq_some_iff.mp h
  obtain ⟨hrefs₂, halloc₂⟩ := refs_enter hs₂
  obtain ⟨rfl, -⟩ := Prod.mk.inj (Option.some.inj h)
  have hrefs : ((s₂.linkResource .SIGIOREGION owner env.ckres).exit .resourceAllocLock).refs =
      s₂.refs := by simp
  refine .of_new (c := env.ckres) (fun y hy => ?_) ?_ ?_
  · rw [refs_setDescriptor, hrefs, hrefs₂, refs_setBasic, update_of_ne hy, refs_exit, ← hrefs₁]
    split <;> simp [hy]
  · show (s₂.linkResource _ _ _).allocated = _
    rw [allocated_linkResource, halloc₂, ← halloc₁]
    split <;> rfl
  · rw [refs_setDescriptor, hrefs, hrefs₂, refs_setBasic, update_self]
    exact ⟨rfl, rfl, nofun⟩

theorem ckAllocDMA_requested {validThread : Addr → Bool} {resource : Addr} {flags e : DATA}
    {env : AllocEnv} (h : s.ckAllocDMA validThread resource res owner flags env = some (s', e)) :
    Requested s .SIGDMA owner res s' := by
  unfold ckAllocDMA at h
  split at h
  · exact requested_refused h
  split at h
  · exact requested_refused h
  split at h
  · exact requested_refused h
  split at h
  · exact requested_refused h
  obtain ⟨s₁, hs₁, h⟩ := Option.bind_eq_some_iff.mp h
  obtain ⟨hrefs₁, halloc₁⟩ := refs_enter hs₁
  obtain ⟨rfl, -⟩ := Prod.mk.inj (Option.some.inj h)
  have hrefs : ((s₁.linkResource .SIGDMA owner env.ckres).exit .resourceAllocLock).refs =
      update s.refs env.ckres (.SIGDMA, owner, (s.mem env.ckres).sigThread) := by
    rw [refs_exit, refs_linkResource, hrefs₁, refs_setBasic]
    rfl
  refine .of_new (c := env.ckres) (fun y hy => ?_) ?_ ?_
  · rw [refs_setDescriptor, refs_setRec, update_of_ne hy, hrefs, update_of_ne hy]
  · exact (allocated_linkResource s₁ _ _ _).trans halloc₁
  · -- the channel is stored into the record last
    rw [refs_setDescriptor, refs_setRec, update_self]
    have hnew := congrFun hrefs env.ckres
    rw [update_self] at hnew
    exact ⟨congrArg (·.1) hnew, congrArg (·.2.1) hnew, nofun⟩

theorem ckAllocTrap_requested {validThread : Addr → Bool} {resource : Addr} {flags e : DATA}
    {env : AllocEnv} (h : s.ckAllocTrap validThread resource res owner flags env = some (s', e)) :
    Requested s .SIGTRAP owner res s' := by
  unfold ckAllocTrap at h
  split at h
  · exact requested_refused h
  split at h
  · exact requested_refused h
  obtain ⟨s₁, hs₁, h⟩ := Option.bind_eq_some_iff.mp h
  obtain ⟨hrefs₁, halloc₁⟩ := refs_enter hs₁
  split at h
  · obtain ⟨rfl, -⟩ := Prod.mk.inj (Option.some.inj h)
    exact (show Kept s ((s₁.exit .resourceAllocLock).free env.ckres) from
      .undone hrefs₁ halloc₁).requested
  · obtain ⟨rfl, -⟩ := Prod.mk.inj (Option.some.inj h)
    generalize hs₂ : s₁.linkResource .SIGTRAP owner env.ckres = s₂
    have hrefs₂ : s₂.refs = s.refs := by rw [← hs₂, refs_linkResource, hrefs₁, refs_alloc]
    refine .of_new (c := env.ckres) (fun y hy => ?_) ?_ ?_
    · rw [refs_setDescriptor, refs_setRec, update_of_ne hy, refs_setBasic, update_of_ne hy,
        refs_exit, refs_setTrapHead, refs_setNtp, hrefs₂]
    · show s₂.allocated = _
      rw [← hs₂, allocated_linkResource]
      exact halloc₁
    · rw [refs_setDescriptor, refs_setRec, update_self]
      refine ⟨?_, ?_, fun _ => rfl⟩
      · simp [refData, setBasic, setRec]
      · simp [refData, setBasic, setRec]

theorem ckAllocPhysRegion_requested {validKernel : Addr → Bool} {resource : Addr} {e : DATA}
    {env : AllocEnv} (h : s.ckAllocPhysRegion validKernel resource owner env = some (s', e)) :
    Requested s .SIGPHYSREGION owner res s' := by
  unfold ckAllocPhysRegion at h
  split at h
  · exact requested_refused h
  split at h
  · exact requested_refused h
  split at h
  · obtain ⟨rfl, -⟩ := Prod.mk.inj (Option.some.inj h)
    exact (Kept.undone rfl rfl).requested
  obtain ⟨s₁, hs₁, h⟩ := Option.bind_eq_some_iff.mp h
  obtain ⟨hrefs₁, halloc₁⟩ := refs_enter hs₁
  obtain ⟨rfl, -⟩ := Prod.mk.inj (Option.some.inj h)
  refine .of_new (c := env.ckres) (fun y hy => ?_) ?_ ?_
  · rw [refs_setDescriptor, refs_setBasic, update_of_ne hy, refs_exit, refs_linkResource, hrefs₁,
      refs_setRec, update_of_ne hy, refs_alloc]
  · exact (allocated_linkResource s₁ _ _ _).trans halloc₁
  · rw [refs_setDescriptor, refs_setBasic, update_self]
    exact ⟨rfl, rfl, nofun⟩

/-- **`CKresourceAllocKernelCode`** adds records that name their owners. -/
theorem ckResourceAlloc_requested {signature : Addr → ObjectSignature}
    {resource : Addr} {flags e : DATA} {env : AllocEnv}
    (h : s.ckResourceAlloc signature type resource res owner flags env = some (s', e)) :
    Requested s type owner res s' := by
  unfold ckResourceAlloc at h
  cases type with
  | SIGPHYSREGION => exact ckAllocPhysRegion_requested h
  | SIGTRAP => exact ckAllocTrap_requested h
  | SIGDMA => exact ckAllocDMA_requested h
  | SIGIOREGION => exact ckAllocIORegion_requested h

end Alliance.CK.Resources
