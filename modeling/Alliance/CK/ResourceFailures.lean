import Alliance.CK.ResourceMutexes
import Alliance.CK.ResourceVectors
import Alliance.KL.FreeListFit
import Alliance.KL.FreeListOrder

/-!
# Allocations that fail

A call for a DMA channel, a trap or a range of ports that returns an error leaves the memory, the
lists of the owners, the map of the channels, the list of the ports, the chains of the traps and
the interrupt table as they were, with one exception. A trap that is refused was given a record
before, which is 48 bytes long, and gives back the 16 bytes of its loader structure; the rest is
lost. `failed_alloc_atomic_iff` says when that happens.
-/

namespace Alliance.CK

open Function
open KL (KLfreeListDescriptor adjustSize)
open KL.KLfreeListDescriptor (InBlock Took Same)

/-- The entries of the free list are the same, with their sizes and their sum. -/
def SameList (s s' : Memory) : Prop :=
  ∀ l, s.CKFreeListDescriptor.Entries l → Same s.CKFreeListDescriptor l s'.CKFreeListDescriptor

/-- The lists, the chains and the map are the same. The links of an owner's list, of the list of
the ports and of a chain are in the records. -/
structure SameResources (s s' : Resources) : Prop where
  head : s'.head = s.head
  mem : s'.mem = s.mem
  trapHeads : s'.trapHeads = s.trapHeads
  dmaAllocationMap : s'.dmaAllocationMap = s.dmaAllocationMap

/-- **Everything is as before.** -/
structure Unchanged (k k' : TrapKernel) : Prop where
  memory : SameList k.machine.memory k'.machine.memory
  resources : SameResources k.machine.res k'.machine.res
  IDT : k'.IDT = k.IDT

/-- A call that returns an error has changed nothing. -/
def FailsAtomically (T : StubTemplates) (signature : Addr → ObjectSignature) (k : TrapKernel)
    (type : ResourceSignature) (resource : Addr) (res : Resource) (owner : Addr) (flags : DATA) :
    Prop :=
  ∀ k' e, k.ckResourceAlloc T signature type resource res owner flags = some (k', e) →
    e ≠ 0#32 → Unchanged k k'

/-- A thread asks for a trap that is refused, and there is memory for the record. -/
def RefusedTrap (signature : Addr → ObjectSignature) (m : Machine) (type : ResourceSignature)
    (res : Resource) (owner : Addr) : Prop :=
  type = .SIGTRAP ∧ signature owner = .SIGTHREAD ∧ Resources.BadTrap res.trap ∧
    m.res.held .resourceAllocLock = false ∧
    ∃ l, m.memory.CKFreeListDescriptor.Entries l ∧
      ∃ e ∈ l, m.memory.CKFreeListDescriptor.HasRoom e (adjustSize type.size).toNat

variable {T : StubTemplates} {signature : Addr → ObjectSignature} {k k' : TrapKernel}
  {m m' m₁ m₂ m₃ : Machine} {type : ResourceSignature} {resource owner ckres : Addr}
  {res : Resource} {flags e : DATA} {s s' : Memory} {size r : UADDR} {l : List UADDR}
  {validThread : Addr → Bool}

/-! ## Memory -/

theorem SameList.refl (s : Memory) : SameList s s := fun _ hl => ⟨hl, fun _ _ => rfl, rfl⟩

theorem ckMemAlloc_took (hlock : s.CKFreeListLock = false)
    (hl : s.CKFreeListDescriptor.Entries l) (h : s.ckMemAlloc size = .ok (s', r)) :
    s'.CKFreeListLock = false ∧
      ∃ l', Took s.CKFreeListDescriptor l s'.CKFreeListDescriptor l' r (adjustSize size) := by
  obtain ⟨d', l', r', hs, ht⟩ := KL.KLfreeListDescriptor.klFreeListMemAlloc_took hl size
  unfold Memory.ckMemAlloc at h
  rw [locked_of_free _ hlock, hs] at h
  obtain ⟨rfl, rfl⟩ := Prod.mk.inj (Except.ok.inj h)
  exact ⟨rfl, l', ht⟩

theorem SameResources.refl (s : Resources) : SameResources s s := ⟨rfl, rfl, rfl, rfl⟩

theorem SameResources.exit {s s' : Resources} (h : SameResources s s') (m : CKMutex) :
    SameResources s (s'.exit m) :=
  ⟨h.head, h.mem, h.trapHeads, h.dmaAllocationMap⟩

namespace Machine

/-- The memory and the resources are the same. -/
def Untouched (m m' : Machine) : Prop := m'.memory = m.memory ∧ SameResources m.res m'.res

theorem untouched_refl (m : Machine) : m.Untouched m := ⟨rfl, .refl _⟩

theorem enter_untouched {b : CKMutex} (h : m.enter b = some m') : m.Untouched m' := by
  obtain ⟨hs, hmem, -⟩ := enter_some h
  obtain ⟨-, hres⟩ := Resources.enter_eq_some hs
  exact ⟨hmem, by rw [hres]; exact ⟨rfl, rfl, rfl, rfl⟩⟩

/-- Without memory for a record nothing has changed. -/
theorem allocRecord_nil (hq : m.memory.Quiet) (h : m.allocRecord type = some (m', NIL)) :
    m'.memory = m.memory ∧ m'.res = m.res := by
  obtain ⟨_, _, _, hres, -⟩ := allocRecord_some h
  obtain ⟨data, hdata, -, htakes⟩ := allocRecord_takes hq h
  rw [if_pos rfl] at hres
  rcases htakes with ⟨-, hmem⟩ | ⟨hne, -⟩
  · exact ⟨hmem, hres⟩
  · exact absurd (BitVec.eq_of_toNat_eq hdata.symm) hne

/-- **`CKallocIORegion`** that fails. -/
theorem ckAllocIORegion_failed (hq : m.memory.Quiet)
    (h : m.ckAllocIORegion validThread resource res owner flags = some (m', e))
    (he : e ≠ 0#32) : m.Untouched m' := by
  unfold ckAllocIORegion at h
  split at h
  · obtain ⟨rfl, rfl⟩ := Prod.mk.inj (Option.some.inj h)
    exact untouched_refl m
  obtain ⟨m₁, hm₁, h⟩ := Option.bind_eq_some_iff.mp h
  obtain ⟨hmem₁, hres₁⟩ := enter_untouched hm₁
  obtain ⟨gap, -, h⟩ := Option.bind_eq_some_iff.mp h
  split at h
  · obtain ⟨rfl, rfl⟩ := Prod.mk.inj (Option.some.inj h)
    exact ⟨hmem₁, hres₁.exit _⟩
  obtain ⟨⟨m₂, ckres⟩, hm₂, h⟩ := Option.bind_eq_some_iff.mp h
  dsimp only at h
  split at h
  · next h0 =>
    subst h0
    obtain ⟨rfl, rfl⟩ := Prod.mk.inj (Option.some.inj h)
    obtain ⟨hmem₂, hres₂⟩ := allocRecord_nil (hmem₁ ▸ hq) hm₂
    exact ⟨hmem₂.trans hmem₁, hres₂ ▸ hres₁⟩
  · obtain ⟨_, _, h⟩ := Option.bind_eq_some_iff.mp h
    exact absurd (Prod.mk.inj (Option.some.inj h)).2.symm he

/-- **`CKallocDMA`** that fails. -/
theorem ckAllocDMA_failed (hq : m.memory.Quiet)
    (h : m.ckAllocDMA validThread resource res owner flags = some (m', e))
    (he : e ≠ 0#32) : m.Untouched m' := by
  unfold ckAllocDMA at h
  split at h
  · obtain ⟨rfl, rfl⟩ := Prod.mk.inj (Option.some.inj h)
    exact untouched_refl m
  split at h
  · obtain ⟨rfl, rfl⟩ := Prod.mk.inj (Option.some.inj h)
    exact untouched_refl m
  split at h
  · obtain ⟨rfl, rfl⟩ := Prod.mk.inj (Option.some.inj h)
    exact untouched_refl m
  next hmap =>
  have hmap : m.res.dmaAllocationMap res.channel = false := Bool.eq_false_iff.mpr hmap
  obtain ⟨⟨m₁, ckres⟩, hm₁, h⟩ := Option.bind_eq_some_iff.mp h
  dsimp only at h
  split at h
  · next h0 =>
    subst h0
    obtain ⟨rfl, rfl⟩ := Prod.mk.inj (Option.some.inj h)
    obtain ⟨hmem₁, hres₁⟩ := allocRecord_nil
      (m := m.onRes (·.setDMA res.channel true)) hq hm₁
    refine ⟨hmem₁, ?_⟩
    show SameResources m.res (m₁.res.setDMA res.channel false)
    rw [hres₁]
    -- the channel was free before
    refine ⟨rfl, rfl, rfl, ?_⟩
    show update (update m.res.dmaAllocationMap res.channel true) res.channel false = _
    rw [update_idem, ← hmap, update_eq_self]
  · obtain ⟨_, _, h⟩ := Option.bind_eq_some_iff.mp h
    exact absurd (Prod.mk.inj (Option.some.inj h)).2.symm he

/-! ## Traps -/

/-- A record that is given back with the size of the loader structure. -/
theorem refused_leaks (hq : m.memory.Quiet) (h₁ : m.allocRecord .SIGTRAP = some (m₁, ckres))
    (h0 : ckres ≠ NIL) (hmem₂ : m₂.memory = m₁.memory)
    (h₃ : m₂.freeRecord ckres TRAPALLOC = some m₃) : ¬ SameList m.memory m₃.memory := by
  obtain ⟨l, hl⟩ := hq.list
  obtain ⟨data, rfl, halloc, -, -⟩ := allocRecord_some h₁
  obtain ⟨hlock₁, l₁, ht⟩ := ckMemAlloc_took hq.lock hl halloc
  rcases ht.taken with ⟨rfl, -⟩ | ⟨hdata, hcount₁, hfree₁, hin⟩
  · exact absurd rfl h0
  -- the first bytes of the record are freed
  have hbytes : ∀ a, InBlock data (adjustSize TRAPALLOC) a → a < KL.ADDRESSES ∧
      ¬ m₁.memory.CKFreeListDescriptor.Free l₁ a := by
    intro a ha
    have hblock : InBlock data (adjustSize ResourceSignature.SIGTRAP.size) a :=
      ⟨ha.1, Nat.lt_of_lt_of_le ha.2 (Nat.add_le_add_left (by decide) _)⟩
    obtain ⟨x, hx, hxa⟩ := hin a hblock
    exact ⟨Nat.lt_of_lt_of_le hxa.2 (hl.bound x hx), fun hf => ((hfree₁ a).mp hf).2 hblock⟩
  obtain ⟨d₃, l₃, hs₃, -, hcount₃, -⟩ := KL.KLfreeListDescriptor.klFreeListMemFree_gives ht.entries
    (ht.entries.freeable hdata (by decide) hbytes)
  obtain ⟨m₃', hm₃', h₃⟩ := Option.bind_eq_some_iff.mp h₃
  obtain rfl := Option.some.inj h₃
  obtain ⟨⟨s, u⟩, hs, hm₃'⟩ := Option.bind_eq_some_iff.mp hm₃'
  obtain rfl := Option.some.inj hm₃'
  have hs := toOption_eq_some hs
  unfold Memory.ckMemFree at hs
  rw [hmem₂, locked_of_free _ hlock₁, BitVec.ofNat_toNat, BitVec.setWidth_eq, hs₃] at hs
  obtain ⟨rfl, -⟩ := Prod.mk.inj (Except.ok.inj hs)
  intro hsame
  have hcount : d₃.FreeMemory = m.memory.CKFreeListDescriptor.FreeMemory := (hsame l hl).count
  rw [hcount₃, hcount₁] at hcount
  have hsizes : adjustSize ResourceSignature.SIGTRAP.size = 48#32 ∧
      adjustSize TRAPALLOC = 24#32 := by decide
  rw [hsizes.1, hsizes.2] at hcount
  bv_omega

/-- A record comes out of an entry that has room for it. -/
theorem allocRecord_room (hq : m.memory.Quiet) {l : List UADDR}
    (hl : m.memory.CKFreeListDescriptor.Entries l) :
    (∃ m₁ ckres, m.allocRecord type = some (m₁, ckres) ∧ ckres ≠ NIL) ↔
      ∃ e ∈ l, m.memory.CKFreeListDescriptor.HasRoom e (adjustSize type.size).toNat := by
  have hcall := locked_of_free (fun d => d.klFreeListMemAlloc .none type.size) hq.lock
  rcases KL.KLfreeListDescriptor.klFreeListMemAlloc_smallest hl type.size with
    ⟨hs, hnone⟩ | ⟨e, ⟨he, hroom, -⟩, left, hs⟩
  · refine iff_of_false ?_ fun ⟨e, he, hroom⟩ => hnone e he hroom
    rintro ⟨m₁, ckres, h, h0⟩
    obtain ⟨data, rfl, halloc, -⟩ := allocRecord_some h
    rw [hs] at hcall
    obtain ⟨-, rfl⟩ := Prod.mk.inj (Except.ok.inj (hcall.symm.trans halloc))
    exact h0 rfl
  · refine iff_of_true ?_ ⟨e, he, hroom⟩
    rw [hs] at hcall
    have hne : e.toNat ≠ NIL := fun h0 => hl.links.ne_nil he (BitVec.eq_of_toNat_eq h0)
    unfold allocRecord ckMemAlloc Memory.ckMemAlloc
    rw [hcall]
    exact ⟨_, _, rfl, hne⟩

/-- The first bytes of a record that was given out can be given back, and they were free before. -/
theorem freeRecord_of_allocRecord (hq : m.memory.Quiet)
    (h₁ : m.allocRecord .SIGTRAP = some (m₁, ckres)) (h0 : ckres ≠ NIL)
    (hmem₂ : m₂.memory = m₁.memory) : ∃ m₃, m₂.freeRecord ckres TRAPALLOC = some m₃ ∧
      m₃.memory.Quiet ∧ ∀ a, m₃.memory.FreeByte a → m.memory.FreeByte a := by
  obtain ⟨data, rfl, hq₁, htakes⟩ := allocRecord_takes hq h₁
  rcases htakes with ⟨rfl, -⟩ | ⟨hdata, hin, hfree⟩
  · exact absurd rfl h0
  have hblock : ∀ a, InBlock data (adjustSize TRAPALLOC) a →
      InBlock data (adjustSize ResourceSignature.SIGTRAP.size) a := fun a ha =>
    ⟨ha.1, Nat.lt_of_lt_of_le ha.2 (Nat.add_le_add_left (by decide) _)⟩
  have hsize : (adjustSize TRAPALLOC).toNat = 24 := by decide
  have hlast : InBlock data (adjustSize TRAPALLOC) (data.toNat + 23) := by
    unfold InBlock
    omega
  have hbound := (hin _ (hblock _ hlast)).bound
  obtain ⟨s₃, hs₃, hq₃, hfree₃⟩ := hq₁.ckMemFree_gives hdata (by decide) (by omega) fun a ha hf =>
    ((hfree a).mp hf).2 (hblock a ha)
  unfold freeRecord ckMemFree
  rw [BitVec.ofNat_toNat, BitVec.setWidth_eq, hmem₂, hs₃]
  refine ⟨_, rfl, hq₃, fun a ha => ?_⟩
  rcases (hfree₃ a).mp ha with ha | ha
  · exact ((hfree a).mp ha).1
  · exact hin a (hblock a ha)

end Machine

/-! ## The calls -/

theorem withMachine_unchanged (h : k.machine.Untouched m) : Unchanged k (k.withMachine m) where
  memory := by
    show SameList _ m.memory
    rw [h.1]
    exact .refl _
  resources := h.2
  IDT := rfl

/-- A trap that is refused with its record allocated. -/
theorem RefusedTrap.leaks (hq : k.machine.memory.Quiet)
    (h : RefusedTrap signature k.machine type res owner) :
    ¬ FailsAtomically T signature k type resource res owner flags := by
  obtain ⟨rfl, howner, hbad, hlock, l, hl, hroom⟩ := h
  obtain ⟨m₁, ckres, hm₁, h0⟩ := (Machine.allocRecord_room hq hl).mpr hroom
  obtain ⟨_, _, _, hres₁, -⟩ := Machine.allocRecord_some hm₁
  have hlock₁ : m₁.res.held .resourceAllocLock = false := by
    rw [hres₁, if_neg h0]
    exact hlock
  obtain ⟨m₂, hm₂⟩ : ∃ m₂, m₁.enter .resourceAllocLock = some m₂ := by
    unfold Machine.enter
    rw [Resources.enter_of_free hlock₁]
    exact ⟨_, rfl⟩
  have hmem₂ : (m₂.exit .resourceAllocLock).memory = m₁.memory := (Machine.enter_some hm₂).2.1
  obtain ⟨m₃, hm₃, -⟩ := Machine.freeRecord_of_allocRecord hq hm₁ h0 hmem₂
  have hpre : (k.withMachine m₂).ckPreProcessTrapAlloc T res.trap ckres =
      some (k.withMachine m₂, EINRESOURCE) := if_pos hbad
  intro hatomic
  have hcall : k.ckResourceAlloc T signature .SIGTRAP resource res owner flags =
      some (k.withMachine m₃, EINRESOURCE) := by
    unfold TrapKernel.ckResourceAlloc TrapKernel.ckAllocTrap
    dsimp only
    rw [if_neg (by simpa using howner), hm₁, Option.bind_some]
    dsimp only
    rw [if_neg h0, hm₂, Option.bind_some, hpre, Option.bind_some]
    dsimp only
    rw [if_pos (by decide)]
    exact Option.map_eq_some_iff.mpr ⟨m₃, hm₃, rfl⟩
  exact Machine.refused_leaks hq hm₁ h0 hmem₂ hm₃
    (hatomic _ _ hcall (by decide)).memory

/-- **Failed allocations.** A call for a DMA channel, a trap or a range of ports that fails leaves
everything as it was, unless it is for a trap that is refused and there was memory for its
record. -/
theorem failed_alloc_atomic_iff (hq : k.machine.memory.Quiet) (htype : type ≠ .SIGPHYSREGION) :
    FailsAtomically T signature k type resource res owner flags ↔
      ¬ RefusedTrap signature k.machine type res owner := by
  constructor
  · intro hatomic hrefused
    exact hrefused.leaks hq hatomic
  intro hrefused k' e h he
  unfold TrapKernel.ckResourceAlloc at h
  cases type with
  | SIGPHYSREGION => exact absurd rfl htype
  | SIGDMA =>
      obtain ⟨⟨m, e'⟩, hm, heq⟩ := Option.map_eq_some_iff.mp h
      obtain ⟨rfl, rfl⟩ := Prod.mk.inj heq
      unfold Machine.ckResourceAlloc at hm
      exact withMachine_unchanged (Machine.ckAllocDMA_failed hq hm he)
  | SIGIOREGION =>
      obtain ⟨⟨m, e'⟩, hm, heq⟩ := Option.map_eq_some_iff.mp h
      obtain ⟨rfl, rfl⟩ := Prod.mk.inj heq
      unfold Machine.ckResourceAlloc at hm
      exact withMachine_unchanged (Machine.ckAllocIORegion_failed hq hm he)
  | SIGTRAP =>
      rcases TrapKernel.ckAllocTrap_cases h with ⟨-, rfl⟩ | ⟨m, hm, -, rfl⟩ |
        ⟨hv, m₁, ckres, m₂, hm₁, h0, hm₂, ⟨hbad, -⟩ | ⟨-, rfl, -⟩⟩
      · exact withMachine_unchanged (m := k'.machine) (Machine.untouched_refl _)
      · obtain ⟨hmem, hres⟩ := Machine.allocRecord_nil hq hm
        exact withMachine_unchanged ⟨hmem, hres ▸ .refl _⟩
      · -- the record was allocated
        obtain ⟨l, hl⟩ := hq.list
        obtain ⟨_, _, _, hres₁, -⟩ := Machine.allocRecord_some hm₁
        rw [if_neg h0] at hres₁
        have hfree := (Resources.enter_eq_some (Machine.enter_some hm₂).1).1
        rw [hres₁] at hfree
        exact absurd ⟨rfl, of_decide_eq_true hv, hbad, hfree, l, hl,
          (Machine.allocRecord_room hq hl).mp ⟨m₁, ckres, hm₁, h0⟩⟩ hrefused
      · exact absurd rfl he

/-- The interrupt table designates `handler` everywhere, and nothing is allocated. -/
def trapKernelWith (s : Memory) (handler : UADDR) : TrapKernel where
  machine := machineWith s
  IDT _ := ⟨handler.setWidth 16, KCODE, D_PRESENT + D_TRAP + D_DPL3, (handler >>> 16).setWidth 16⟩
  retrostub _ := 0#32
  IRQMaskMaster := 0xfb#8
  IRQMaskSlave := 0xff#8
  stubs := []

def someTemplates : StubTemplates := ⟨64#32, 64#32, 64#32, 0xc0101000#32, by decide⟩

/-- Without memory a thread that asks for a channel gets an error, and nothing else happens. -/
theorem failed_alloc_atomic_iff_boot :
    FailsAtomically someTemplates twoObjects (trapKernelWith memoryAtBoot 0xc0102000#32) .SIGDMA 100
        ⟨1#32, 0#32, NIL, 0#32, 0#32, 0#32⟩ 16 0#32 ↔
      ¬ RefusedTrap twoObjects (machineWith memoryAtBoot) .SIGDMA
        ⟨1#32, 0#32, NIL, 0#32, 0#32, 0#32⟩ 16 :=
  failed_alloc_atomic_iff ⟨rfl, [], KL.KLfreeListDescriptor.freeListAtBoot_entries⟩ (by decide)

/-- A request for the timer's vector. -/
def timerTrap : Resource := ⟨0#32, 0x68#32, 16, 1#32, 0#32, 0#32⟩

/-- A thread asks for the vector of the timer, with 96 bytes free. It gets an error, and 72 bytes
are left. -/
theorem refused_trap_leaks : ∃ d, KL.freeListAtBoot.freeAll [(0x1000#32, 96#32)] = some d ∧
    d.FreeMemory = 96#32 ∧
    (∃ k', (trapKernelWith ⟨d, false⟩ 0xc0102000#32).ckResourceAlloc someTemplates twoObjects
        .SIGTRAP 100 timerTrap 16 0#32 = some (k', EINRESOURCE) ∧
      k'.machine.memory.CKFreeListDescriptor.FreeMemory = 72#32) ∧
    ¬ FailsAtomically someTemplates twoObjects (trapKernelWith ⟨d, false⟩ 0xc0102000#32) .SIGTRAP
      100 timerTrap 16 0#32 := by
  obtain ⟨d, hd, hl, hp⟩ := KL.KLfreeListDescriptor.freeAll_boot [(0x1000#32, 96#32)]
    (l := [0x1000#32]) (fun d => decide (d.FreeMemory = 96#32 ∧ (d.sizeOf 0x1000#32).toNat = 96 ∧
      ((trapKernelWith ⟨d, false⟩ 0xc0102000#32).ckResourceAlloc someTemplates twoObjects .SIGTRAP
        100 timerTrap 16 0#32).any (fun r => r.2 = EINRESOURCE ∧
          r.1.machine.memory.CKFreeListDescriptor.FreeMemory = 72#32) = true))
    (by decide) (by decide) (by decide +kernel)
  obtain ⟨hcount, hsize, hcall⟩ := of_decide_eq_true hp
  obtain ⟨⟨k', e⟩, hcall, hk'⟩ := (Option.any_eq_true _ _).mp hcall
  obtain ⟨rfl, hcount'⟩ := of_decide_eq_true hk'
  refine ⟨d, hd, hcount, ⟨k', hcall, hcount'⟩, RefusedTrap.leaks ⟨rfl, _, hl⟩ ?_⟩
  refine ⟨rfl, by decide, by decide, rfl, _, hl, _, .head _, .inr ?_⟩
  show 48 + 24 ≤ (d.sizeOf 0x1000#32).toNat
  rw [hsize]
  decide

end Alliance.CK
