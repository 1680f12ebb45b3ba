import Alliance.CK.ResourceMemory

/-!
# The mutexes of the resource calls

Every step of a resource call is followed through the log (`Holds`): what the call held before
the step and what it holds after it. All eight calls end with what they started with, on every
path but one: `CKallocIORegion` returns with `IOAllocLock` in hand where it found a gap but no
memory for the record (`resource_calls_balanced`).
-/

namespace Alliance.CK

open Function Lib

inductive ResourceCall where
  | alloc (type : ResourceSignature) (resource : Addr) (res : Resource) (owner : Addr)
      (flags : DATA)
  | free (resource : Addr)
  deriving DecidableEq, Repr

/-- One call, and what it returns. -/
def resourceCall (stublen : UADDR → UADDR) (signature : Addr → ObjectSignature) (m : Machine) :
    ResourceCall → Option (Machine × DATA)
  | .alloc type resource res owner flags =>
      m.ckResourceAlloc stublen signature type resource res owner flags
  | .free resource => m.ckResourceFree resource

/-- The call is for ports that are free, and there is no memory for the record. -/
def ResourceCall.NoMemoryForPorts (signature : Addr → ObjectSignature) (m : Machine) :
    ResourceCall → Prop
  | .alloc .SIGIOREGION _ res owner _ => signature owner = .SIGTHREAD ∧
      (∃ gap, m.res.ckIOfindGap res.base res.limit = some gap ∧ gap ≠ NIL) ∧
      ∃ s, m.memory.ckMemAlloc (ResourceSignature.size .SIGIOREGION) = .ok (s, KL.NIL)
  | .alloc .SIGPHYSREGION .. | .alloc .SIGTRAP .. | .alloc .SIGDMA .. | .free _ => False

namespace Machine

variable {m m' : Machine} {h : List KernelMutex} {k : CKMutex} {sig type : ResourceSignature}
  {size data : UADDR} {owner ckres resource r : Addr} {res : Resource} {flags e : DATA}
  {alignment : Nat} {validThread validKernel : Addr → Bool} {stublen : UADDR → UADDR}

/-! ## Steps -/

theorem holds_enter (he : m.enter k = some m') (hk : .resource k ∉ h) :
    Holds m.log h m'.log (.resource k :: h) := by
  rw [(enter_some he).2.2]
  exact Holds.enter _ hk

theorem holds_exit (m : Machine) (k : CKMutex) (h : List KernelMutex) :
    Holds m.log (.resource k :: h) (m.exit k).log h :=
  Holds.exit _ _ h

theorem holds_tookEvents (log : List KernelEvent) (data size : UADDR)
    (hfl : .CKFreeListLock ∉ h) : Holds log h (tookEvents data size ++ log) h := by
  have h₁ := Holds.enter log hfl
  unfold tookEvents
  by_cases hd : data = KL.NIL
  · rw [if_pos hd]
    exact h₁.trans (Holds.exit _ _ h)
  · rw [if_neg hd]
    exact (h₁.trans (Holds.other _ _ _)).trans (Holds.exit _ _ h)

theorem holds_ckMemFree (hf : m.ckMemFree data size = some m') (hfl : .CKFreeListLock ∉ h) :
    Holds m.log h m'.log h := by
  rw [(ckMemFree_some hf).2]
  exact ((Holds.enter _ hfl).trans (Holds.other _ _ _)).trans (Holds.exit _ _ h)

theorem holds_allocRecord (ha : m.allocRecord sig = some (m', ckres))
    (hfl : .CKFreeListLock ∉ h) : Holds m.log h m'.log h := by
  obtain ⟨_, _, _, _, hlog⟩ := allocRecord_some ha
  rw [hlog]
  exact holds_tookEvents _ _ _ hfl

theorem holds_freeRecord (hf : m.freeRecord ckres size = some m') :
    Holds m.log [] m'.log [] := by
  rw [(freeRecord_some hf).2]
  exact ((Holds.enter _ List.not_mem_nil).trans (Holds.other _ _ _)).trans (Holds.exit _ _ [])

theorem holds_linkLocked (hl : m.linkLocked sig owner ckres = some m') :
    Holds m.log [] m'.log [] := by
  obtain ⟨_, _, _, _, hlog⟩ := linkLocked_some hl
  rw [hlog]
  exact (Holds.enter _ List.not_mem_nil).trans (Holds.exit _ _ [])

theorem holds_unlinkLocked (hl : m.unlinkLocked sig r = some m') : Holds m.log [] m'.log [] := by
  obtain ⟨_, _, _, _, hlog⟩ := unlinkLocked_some hl
  rw [hlog]
  exact (Holds.enter _ List.not_mem_nil).trans (Holds.exit _ _ [])

/-! ## The calls -/

/-- What `CKallocIORegion` holds in the end. -/
theorem ckAllocIORegion_holds
    (hs : m.ckAllocIORegion validThread resource res owner flags = some (m', e)) :
    (validThread owner = true ∧
        (∃ gap, m.res.ckIOfindGap res.base res.limit = some gap ∧ gap ≠ NIL) ∧
        ∃ s, m.memory.ckMemAlloc (ResourceSignature.size .SIGIOREGION) = .ok (s, KL.NIL)) ∧
      Holds m.log [] m'.log [.resource .IOAllocLock] ∨
    ¬ (validThread owner = true ∧
        (∃ gap, m.res.ckIOfindGap res.base res.limit = some gap ∧ gap ≠ NIL) ∧
        ∃ s, m.memory.ckMemAlloc (ResourceSignature.size .SIGIOREGION) = .ok (s, KL.NIL)) ∧
      Balanced m.log m'.log := by
  unfold ckAllocIORegion at hs
  split at hs
  · next hv =>
    obtain ⟨rfl, rfl⟩ := Prod.mk.inj (Option.some.inj hs)
    exact .inr ⟨fun hc => hv hc.1, Holds.refl _ _⟩
  next hv =>
  have hv : validThread owner = true := not_not.mp hv
  obtain ⟨m₁, hm₁, hs⟩ := Option.bind_eq_some_iff.mp hs
  obtain ⟨gap, hgap, hs⟩ := Option.bind_eq_some_iff.mp hs
  have h₁ := holds_enter hm₁ (h := []) List.not_mem_nil
  obtain ⟨hent, hmem₁, _⟩ := enter_some hm₁
  obtain ⟨_, hres₁⟩ := Resources.enter_eq_some hent
  rw [Resources.ckIOfindGap_congr (s := m.res) (by rw [hres₁]) (by rw [hres₁])] at hgap
  split at hs
  · next h0 =>
    obtain ⟨rfl, rfl⟩ := Prod.mk.inj (Option.some.inj hs)
    refine .inr ⟨?_, h₁.trans (holds_exit m₁ .IOAllocLock [])⟩
    rintro ⟨_, ⟨gap', hgap', hne⟩, _⟩
    rw [hgap] at hgap'
    exact hne (h0 ▸ (Option.some.inj hgap').symm)
  next h0 =>
  obtain ⟨⟨m₂, ckres⟩, hm₂, hs⟩ := Option.bind_eq_some_iff.mp hs
  have h₂ := h₁.trans (holds_allocRecord hm₂ (by simp))
  obtain ⟨data, hdata, halloc, _, _⟩ := allocRecord_some hm₂
  rw [hmem₁] at halloc
  dsimp only at hs
  split at hs
  · next hc =>
    -- the mutex is still held
    obtain ⟨rfl, rfl⟩ := Prod.mk.inj (Option.some.inj hs)
    obtain rfl : data = KL.NIL := BitVec.eq_of_toNat_eq (hdata.symm.trans hc)
    exact .inl ⟨⟨hv, ⟨gap, hgap, h0⟩, m₂.memory, halloc⟩, h₂⟩
  next hc =>
  obtain ⟨m₃, hm₃, hs⟩ := Option.bind_eq_some_iff.mp hs
  obtain ⟨rfl, rfl⟩ := Prod.mk.inj (Option.some.inj hs)
  refine .inr ⟨?_, ?_⟩
  · rintro ⟨_, _, s, hnil⟩
    rw [halloc] at hnil
    have hd : data = KL.NIL := congrArg Prod.snd (Except.ok.inj hnil)
    exact hc (by rw [hdata, hd]; rfl)
  · exact (h₂.trans (Holds.exit _ _ [])).trans (holds_linkLocked hm₃)

theorem ckFreeIORegion_balanced (hs : m.ckFreeIORegion r = some (m', e)) :
    Balanced m.log m'.log := by
  obtain ⟨m₁, hm₁, hs⟩ := Option.bind_eq_some_iff.mp hs
  obtain ⟨m₂, hm₂, hs⟩ := Option.bind_eq_some_iff.mp hs
  obtain ⟨m₃, hm₃, hs⟩ := Option.bind_eq_some_iff.mp hs
  obtain ⟨rfl, rfl⟩ := Prod.mk.inj (Option.some.inj hs)
  have h₁ := (holds_enter hm₁ (h := []) List.not_mem_nil).trans (Holds.exit _ _ [])
  exact (h₁.trans (holds_unlinkLocked hm₂)).trans (holds_freeRecord hm₃)

/-- A refusal enters nothing. -/
theorem balanced_refused {x : DATA} (hs : some (m, x) = some (m', e)) : Balanced m.log m'.log := by
  obtain ⟨rfl, rfl⟩ := Prod.mk.inj (Option.some.inj hs)
  exact Holds.refl _ _

theorem ckAllocDMA_balanced
    (hs : m.ckAllocDMA validThread resource res owner flags = some (m', e)) :
    Balanced m.log m'.log := by
  unfold ckAllocDMA at hs
  split at hs
  · exact balanced_refused hs
  split at hs
  · exact balanced_refused hs
  split at hs
  · exact balanced_refused hs
  obtain ⟨⟨m₁, ckres⟩, hm₁, hs⟩ := Option.bind_eq_some_iff.mp hs
  have h₁ := holds_allocRecord hm₁ (h := []) List.not_mem_nil
  dsimp only at hs
  split at hs
  · obtain ⟨rfl, rfl⟩ := Prod.mk.inj (Option.some.inj hs)
    exact h₁
  · obtain ⟨m₂, hm₂, hs⟩ := Option.bind_eq_some_iff.mp hs
    obtain ⟨rfl, rfl⟩ := Prod.mk.inj (Option.some.inj hs)
    have h₂ := holds_linkLocked hm₂
    exact h₁.trans h₂

theorem ckFreeDMA_balanced (hs : m.ckFreeDMA r = some (m', e)) : Balanced m.log m'.log := by
  obtain ⟨m₁, hm₁, hs⟩ := Option.bind_eq_some_iff.mp hs
  obtain ⟨m₂, hm₂, hs⟩ := Option.bind_eq_some_iff.mp hs
  obtain ⟨rfl, rfl⟩ := Prod.mk.inj (Option.some.inj hs)
  exact (holds_unlinkLocked hm₁).trans (holds_freeRecord hm₂)

/-- The stub is allocated with `resourceAllocLock` held. -/
theorem holds_preProcess {trap : UADDR}
    (hs : m.ckPreProcessTrapAlloc stublen trap ckres = some (m', e))
    (hfl : .CKFreeListLock ∉ h) : Holds m.log h m'.log h := by
  obtain ⟨_, _, hlog | ⟨data, hlog⟩⟩ := ckPreProcessTrapAlloc_some hs
  · rw [hlog]
    exact Holds.refl _ _
  · rw [hlog]
    exact holds_tookEvents _ _ _ hfl

theorem ckAllocTrap_balanced
    (hs : m.ckAllocTrap stublen validThread resource res owner flags = some (m', e)) :
    Balanced m.log m'.log := by
  unfold ckAllocTrap at hs
  split at hs
  · exact balanced_refused hs
  obtain ⟨⟨m₁, ckres⟩, hm₁, hs⟩ := Option.bind_eq_some_iff.mp hs
  have h₁ := holds_allocRecord hm₁ (h := []) List.not_mem_nil
  dsimp only at hs
  split at hs
  · obtain ⟨rfl, rfl⟩ := Prod.mk.inj (Option.some.inj hs)
    exact h₁
  obtain ⟨m₂, hm₂, hs⟩ := Option.bind_eq_some_iff.mp hs
  obtain ⟨⟨m₃, error⟩, hm₃, hs⟩ := Option.bind_eq_some_iff.mp hs
  have h₃ := (h₁.trans (holds_enter hm₂ List.not_mem_nil)).trans (holds_preProcess hm₃ (by simp))
  have h₃ := h₃.trans (holds_exit m₃ .resourceAllocLock [])
  dsimp only at hs
  split at hs
  · obtain ⟨m₄, hm₄, hs⟩ := Option.bind_eq_some_iff.mp hs
    obtain ⟨rfl, rfl⟩ := Prod.mk.inj (Option.some.inj hs)
    exact h₃.trans (holds_freeRecord hm₄)
  · obtain ⟨rfl, rfl⟩ := Prod.mk.inj (Option.some.inj hs)
    exact h₃

theorem ckFreeTrap_balanced (hs : m.ckFreeTrap r = some (m', e)) : Balanced m.log m'.log := by
  obtain ⟨m₀, hm₀, hs⟩ := Option.bind_eq_some_iff.mp hs
  obtain ⟨m₁, hm₁, hs⟩ := Option.bind_eq_some_iff.mp hs
  obtain ⟨s, _, hs⟩ := Option.bind_eq_some_iff.mp hs
  obtain ⟨m₂, hm₂, hs⟩ := Option.bind_eq_some_iff.mp hs
  obtain ⟨rfl, rfl⟩ := Prod.mk.inj (Option.some.inj hs)
  have h₀ : Holds m.log [] m₀.log [] := by
    obtain ⟨_, rfl | hf⟩ := ckPostProcessTrapAlloc_some hm₀
    · exact Holds.refl _ _
    · exact holds_ckMemFree hf List.not_mem_nil
  have h₁ := (h₀.trans (holds_enter hm₁ List.not_mem_nil)).trans (Holds.exit _ _ [])
  exact h₁.trans (holds_freeRecord hm₂)

theorem ckAllocPhysRegion_balanced
    (hs : m.ckAllocPhysRegion validKernel resource owner = some (m', e)) :
    Balanced m.log m'.log := by
  unfold ckAllocPhysRegion at hs
  split at hs
  · exact balanced_refused hs
  obtain ⟨⟨m₁, ckres⟩, hm₁, hs⟩ := Option.bind_eq_some_iff.mp hs
  have h₁ := holds_allocRecord hm₁ (h := []) List.not_mem_nil
  dsimp only at hs
  split at hs
  · obtain ⟨rfl, rfl⟩ := Prod.mk.inj (Option.some.inj hs)
    exact h₁
  obtain ⟨⟨m₂, data⟩, hm₂, hs⟩ := Option.bind_eq_some_iff.mp hs
  have h₂ : Holds m.log [] m₂.log [] := by
    rw [(ckMemAllocAlign_some hm₂).2.2]
    exact h₁.trans (holds_tookEvents _ _ _ List.not_mem_nil)
  dsimp only at hs
  split at hs
  · obtain ⟨m₃, hm₃, hs⟩ := Option.bind_eq_some_iff.mp hs
    obtain ⟨rfl, rfl⟩ := Prod.mk.inj (Option.some.inj hs)
    exact h₂.trans (holds_freeRecord hm₃)
  · obtain ⟨m₃, hm₃, hs⟩ := Option.bind_eq_some_iff.mp hs
    obtain ⟨rfl, rfl⟩ := Prod.mk.inj (Option.some.inj hs)
    have h₃ := holds_linkLocked hm₃
    exact h₂.trans h₃

theorem ckFreePhysRegion_balanced (hs : m.ckFreePhysRegion r = some (m', e)) :
    Balanced m.log m'.log := by
  obtain ⟨m₀, hm₀, hs⟩ := Option.bind_eq_some_iff.mp hs
  obtain ⟨m₁, hm₁, hs⟩ := Option.bind_eq_some_iff.mp hs
  obtain ⟨m₂, hm₂, hs⟩ := Option.bind_eq_some_iff.mp hs
  obtain ⟨rfl, rfl⟩ := Prod.mk.inj (Option.some.inj hs)
  have h₀ := holds_ckMemFree hm₀ (h := []) List.not_mem_nil
  exact (h₀.trans (holds_unlinkLocked hm₁)).trans (holds_freeRecord hm₂)

theorem ckResourceFree_balanced (hs : m.ckResourceFree r = some (m', e)) :
    Balanced m.log m'.log := by
  unfold ckResourceFree at hs
  split at hs
  · exact ckFreePhysRegion_balanced hs
  · exact ckFreeTrap_balanced hs
  · exact ckFreeDMA_balanced hs
  · exact ckFreeIORegion_balanced hs

end Machine

variable {m m' : Machine} {c : ResourceCall} {e : DATA} {stublen : UADDR → UADDR}
  {signature : Addr → ObjectSignature}

/-- **The mutexes of the resource calls.** A call that returns has left every mutex it entered,
and no other, unless it found ports and no memory for their record. -/
theorem resource_calls_balanced (h : resourceCall stublen signature m c = some (m', e)) :
    Balanced m.log m'.log ↔ ¬ c.NoMemoryForPorts signature m := by
  cases c with
  | free resource => exact iff_of_true (Machine.ckResourceFree_balanced h) id
  | alloc type resource res owner flags =>
      unfold resourceCall Machine.ckResourceAlloc at h
      cases type with
      | SIGPHYSREGION => exact iff_of_true (Machine.ckAllocPhysRegion_balanced h) id
      | SIGTRAP => exact iff_of_true (Machine.ckAllocTrap_balanced h) id
      | SIGDMA => exact iff_of_true (Machine.ckAllocDMA_balanced h) id
      | SIGIOREGION =>
          rcases Machine.ckAllocIORegion_holds h with ⟨hc, hl⟩ | ⟨hc, hb⟩
          · refine iff_of_false (not_balanced hl) (not_not_intro ?_)
            exact ⟨of_decide_eq_true hc.1, hc.2⟩
          · refine iff_of_true hb fun hn => hc ?_
            exact ⟨decide_eq_true hn.1, hn.2⟩

/-- Nothing is allocated, and this memory is free. -/
def machineWith (s : Memory) : Machine where
  res := resourcesAtBoot
  memory := s
  stub _ := 0#32
  stubsize _ := 0#32
  log := []

/-- The object at 16 is a thread, the one at 32 a kernel. -/
def twoObjects (v : Addr) : ObjectSignature := if v = 16 then .SIGTHREAD else .SIGKERNEL

/-- The thread wants eight ports. -/
def wantPorts : ResourceCall :=
  .alloc .SIGIOREGION 100 ⟨0#32, 0#32, NIL, 0#32, 0x300#32, 8#32⟩ 16 0#32

/-- Memory as after boot: one free entry of 64 pages. -/
def memoryWithPages : Memory :=
  ((memStep memoryAtBoot (.free 0xc0200000#32 0x40000#32))).getD memoryAtBoot

theorem resource_calls_balanced_wantPorts : ∃ m',
    resourceCall (fun _ => 64#32) twoObjects (machineWith memoryWithPages) wantPorts =
      some (m', 0#32) ∧
    (Balanced [] m'.log ↔
      ¬ wantPorts.NoMemoryForPorts twoObjects (machineWith memoryWithPages)) := by
  have hs : (resourceCall (fun _ => 64#32) twoObjects (machineWith memoryWithPages) wantPorts).any
      (fun r => r.2 = 0#32) = true := by decide +kernel
  obtain ⟨⟨m', e⟩, hs, he⟩ := (Option.any_eq_true _ _).mp hs
  obtain rfl : e = 0#32 := of_decide_eq_true he
  exact ⟨m', hs, resource_calls_balanced hs⟩

/-- Without memory the call returns with `IOAllocLock` held. -/
theorem ports_without_memory : ∃ m',
    resourceCall (fun _ => 64#32) twoObjects (machineWith memoryAtBoot) wantPorts =
      some (m', ENOMEM) ∧ ¬ Balanced [] m'.log := by
  have hs : (resourceCall (fun _ => 64#32) twoObjects (machineWith memoryAtBoot) wantPorts).any
      (fun r => r.2 = ENOMEM ∧ heldAfter [] r.1.log = some [.resource .IOAllocLock]) = true := by
    decide +kernel
  obtain ⟨⟨m', e⟩, hs, he⟩ := (Option.any_eq_true _ _).mp hs
  obtain ⟨rfl, hheld⟩ := of_decide_eq_true he
  exact ⟨m', hs, not_balanced ⟨m'.log, (List.append_nil _).symm, hheld⟩⟩

end Alliance.CK
