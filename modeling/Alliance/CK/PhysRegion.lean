import Alliance.CK.ResourceMutexes
import Alliance.Lib.Run

/-!
# Regions of physical memory

`CKallocPhysRegion` keeps the physical address of the block it takes, and `CKfreePhysRegion`
hands this address to the allocator, which knows the block by its linear address. The two are
never the same, so what is freed is never the block that was taken. Nor does the allocation see
that there was no block: the physical address of `NIL` is not `NIL`.

What the allocator does for a region would be right is `RegionContract`: it keeps it where no
region comes about, and only there (`region_contract`).
-/

namespace Alliance.CK

open Function Lib

def takenBlock : KernelEvent → Option (UADDR × UADDR)
  | .other (.taken data size) => some (data, size)
  | _ => none

def freedBlock : KernelEvent → Option (UADDR × UADDR)
  | .other (.freed data size) => some (data, size)
  | _ => none

/-- The blocks that the allocator gave out, the last one first. -/
def blocksTaken (log : List KernelEvent) : List (UADDR × UADDR) := log.filterMap takenBlock

/-- The blocks that the allocator was given, the last one first. -/
def blocksFreed (log : List KernelEvent) : List (UADDR × UADDR) := log.filterMap freedBlock

inductive MachineOp where
  | resource (c : ResourceCall)
  | memory (c : MemCall)
  deriving DecidableEq, Repr

/-- A resource call, or a memory call by another part of the Cache Kernel. -/
def machineStep (stublen : UADDR → UADDR) (signature : Addr → ObjectSignature) (m : Machine) :
    MachineOp → Option Machine
  | .resource c => (resourceCall stublen signature m c).map Prod.fst
  | .memory c => (memStep m.memory c).map fun s => { m with memory := s }

/-- The step does not free the record. -/
def MachineOp.Spares (r : Addr) : MachineOp → Prop
  | .resource (.free res) => res ≠ r
  | .memory (.free data _) | .memory (.freePages data _) => data.toNat ≠ r
  | _ => True

/-- The bytes that are free are the same. -/
def SameFree (s s' : Memory) : Prop :=
  ∀ l, s.CKFreeListDescriptor.Entries l → ∃ l', s'.CKFreeListDescriptor.Entries l' ∧
    ∀ a, s'.CKFreeListDescriptor.Free l' a ↔ s.CKFreeListDescriptor.Free l a

namespace Machine

/-- The owner may have a region, there is memory for its record, and then the search for an
aligned block ends with `data`. -/
def FindsBlock (validKernel : Addr → Bool) (m : Machine) (owner : Addr) (data : UADDR) : Prop :=
  validKernel owner = true ∧ ∃ m₁ ckres s, m.allocRecord .SIGPHYSREGION = some (m₁, ckres) ∧
    ckres ≠ NIL ∧ m₁.memory.ckMemAllocAlign PAGEBLOCKSIZE PAGEBLOCKBITS = .ok (s, data)

/-- What a region's allocation and release owe the allocator: the release gives back exactly the
blocks that the allocation took, whatever happens in between, and without an aligned block the
allocation fails and changes nothing. -/
structure RegionContract (stublen : UADDR → UADDR) (signature : Addr → ObjectSignature)
    (validKernel : Addr → Bool) (m : Machine) (resource owner : Addr) : Prop where
  returned : ∀ m₁ tr₁, m.ckAllocPhysRegion validKernel resource owner = some (m₁, 0#32) →
    m₁.log = tr₁ ++ m.log → ∀ ops m₂,
      Run (machineStep stublen signature) (fun _ op => op.Spares (m₁.res.descriptor resource))
        m₁ ops m₂ →
      ∃ m₃ tr₃, m₂.ckFreePhysRegion (m₁.res.descriptor resource) = some (m₃, 0#32) ∧
        m₃.log = tr₃ ++ m₂.log ∧ blocksFreed tr₃ = (blocksTaken tr₁).reverse
  refused : m.FindsBlock validKernel owner KL.NIL →
    ∃ m', m.ckAllocPhysRegion validKernel resource owner = some (m', ENOMEM) ∧
      m'.res.head = m.res.head ∧ SameFree m.memory m'.memory

variable {m m' : Machine} {validKernel : Addr → Bool} {owner resource r : Addr} {data size : UADDR}
  {tr past : List KernelEvent} {e : DATA} {stublen : UADDR → UADDR}
  {signature : Addr → ObjectSignature}

/-! ## The log of the two calls -/

theorem phys_ne (data : UADDR) : phys data ≠ data := by
  unfold phys
  intro h
  have h : (data - 0xc0000000#32).toNat = data.toNat := congrArg BitVec.toNat h
  rw [BitVec.toNat_sub] at h
  have := data.isLt
  simp only [BitVec.toNat_ofNat] at h
  omega

theorem blocksTaken_tookEvents : blocksTaken (tookEvents data size) =
    if data = KL.NIL then [] else [(data, size)] := by
  unfold tookEvents
  split <;> rfl

/-- A region comes about: the physical address of what the search ended with is not 0. -/
def GetsRegion (validKernel : Addr → Bool) (m : Machine) (owner : Addr) : Prop :=
  ∃ data, m.FindsBlock validKernel owner data ∧ phys data ≠ 0#32

/-- An allocation that succeeds: what it took, and what the record says. -/
theorem ckAllocPhysRegion_zero
    (h : m.ckAllocPhysRegion validKernel resource owner = some (m', 0#32)) :
    ∃ data rec, m.FindsBlock validKernel owner data ∧ phys data ≠ 0#32 ∧ rec ≠ KL.NIL ∧
      m'.res.descriptor resource = rec.toNat ∧
      (m'.res.mem rec.toNat).start = (phys data).toNat ∧
      ∀ tr, m'.log = tr ++ m.log →
        blocksTaken tr = (if data = KL.NIL then [] else [(data, PAGEBLOCKSIZE)]) ++
          [(rec, ResourceSignature.size .SIGPHYSREGION)] := by
  unfold ckAllocPhysRegion at h
  split at h
  · have he : ENOVALIDTHREAD = 0#32 := congrArg Prod.snd (Option.some.inj h)
    exact absurd he (by decide)
  next hv =>
  obtain ⟨⟨m₁, ckres⟩, hm₁, h⟩ := Option.bind_eq_some_iff.mp h
  dsimp only at h
  split at h
  · have he : ENOMEM = 0#32 := congrArg Prod.snd (Option.some.inj h)
    exact absurd he (by decide)
  next hc =>
  obtain ⟨⟨m₂, data⟩, hm₂, h⟩ := Option.bind_eq_some_iff.mp h
  obtain ⟨hres₂, halloc₂, hlog₂⟩ := ckMemAllocAlign_some hm₂
  dsimp only at h
  split at h
  · obtain ⟨m₃, _, h⟩ := Option.bind_eq_some_iff.mp h
    have he : ENOMEM = 0#32 := congrArg Prod.snd (Option.some.inj h)
    exact absurd he (by decide)
  next h0 =>
  obtain ⟨m₃, hm₃, h⟩ := Option.bind_eq_some_iff.mp h
  obtain rfl := congrArg Prod.fst (Option.some.inj h)
  obtain ⟨rec, rfl, _, _, hlog₁⟩ := allocRecord_some hm₁
  obtain ⟨s₃, hs₃, hres₃, _, hlog₃⟩ := linkLocked_some hm₃
  have hnil : rec ≠ KL.NIL := fun hr => hc (by rw [hr]; rfl)
  refine ⟨data, rec, ⟨not_not.mp hv, m₁, _, _, hm₁, hc, halloc₂⟩, h0, hnil, ?_, ?_, ?_⟩
  · exact update_self ..
  · -- linking the record and setting its header leave the start alone
    obtain ⟨_, hs₃⟩ := Resources.enter_eq_some hs₃
    have hlink := congrFun (Resources.field_linkResource (s := s₃) (c := rec.toNat)
      (f := fun x => x.start) (fun _ _ => rfl) (fun _ _ => rfl) .SIGPHYSREGION owner) rec.toNat
    have hbasic := congrFun (Resources.field_setRec_same (s := m₃.res) (r := rec.toNat)
      (f := fun x => x.start)
      (x := { m₃.res.mem rec.toNat with
        typeSignature := .SIGPHYSREGION, owner := owner, flags := (m₃.res.mem rec.toNat).flags })
      rfl) rec.toNat
    refine hbasic.trans ?_
    rw [hres₃]
    refine hlink.trans ?_
    rw [hs₃]
    show (update m₂.res.mem rec.toNat _ rec.toNat).start = _
    rw [update_self]
  · intro tr htr
    have htr : m₃.log = tr ++ m.log := htr
    rw [hlog₃] at htr
    change .exit (.resource .resourceAllocLock) :: .enter (.resource .resourceAllocLock) ::
      m₂.log = tr ++ m.log at htr
    rw [hlog₂, hlog₁, ← List.append_assoc] at htr
    have htr := @List.append_cancel_right _ (_ :: _ :: (_ ++ _)) _ _ htr
    rw [← htr]
    show blocksTaken (tookEvents data PAGEBLOCKSIZE ++ tookEvents rec _) = _
    unfold blocksTaken
    rw [List.filterMap_append]
    exact (congrArg₂ (· ++ ·) blocksTaken_tookEvents blocksTaken_tookEvents).trans
      (by rw [if_neg hnil])

/-- A release: the blocks that the allocator was given. -/
theorem ckFreePhysRegion_freed (h : m.ckFreePhysRegion r = some (m', e))
    (hlog : m'.log = tr ++ m.log) : blocksFreed tr =
      [(BitVec.ofNat 32 r, ResourceSignature.size .SIGPHYSREGION),
        (BitVec.ofNat 32 (m.res.mem r).start, PAGEBLOCKSIZE)] := by
  obtain ⟨m₁, hm₁, h⟩ := Option.bind_eq_some_iff.mp h
  obtain ⟨m₂, hm₂, h⟩ := Option.bind_eq_some_iff.mp h
  obtain ⟨m₃, hm₃, h⟩ := Option.bind_eq_some_iff.mp h
  obtain ⟨rfl, rfl⟩ := Prod.mk.inj (Option.some.inj h)
  obtain ⟨_, _, _, _, hlog₂⟩ := unlinkLocked_some hm₂
  rw [(freeRecord_some hm₃).2, hlog₂, (ckMemFree_some hm₁).2] at hlog
  have htr := @List.append_cancel_right _ [_, _, _, _, _, _, _, _] _ _ hlog
  rw [← htr]
  rfl

theorem linkLocked_of_free (h : m.res.held .resourceAllocLock = false) (sig : ResourceSignature)
    (owner ckres : Addr) : ∃ m', m.linkLocked sig owner ckres = some m' := by
  unfold linkLocked enter
  rw [Resources.enter_of_free h]
  exact ⟨_, rfl⟩

/-- A region comes about for a caller that finds `resourceAllocLock` free. -/
theorem GetsRegion.succeeds (h : m.GetsRegion validKernel owner)
    (hlock : m.res.held .resourceAllocLock = false) (resource : Addr) :
    ∃ m', m.ckAllocPhysRegion validKernel resource owner = some (m', 0#32) := by
  obtain ⟨data, ⟨hv, m₁, ckres, s, hm₁, hc, halloc⟩, h0⟩ := h
  obtain ⟨_, _, _, hres₁, hlog₁⟩ := allocRecord_some hm₁
  unfold ckAllocPhysRegion
  rw [if_neg (not_not_intro hv), hm₁]
  simp only [Option.bind_eq_bind, Option.bind_some]
  rw [if_neg hc]
  unfold ckMemAllocAlign
  rw [halloc]
  simp only [Except.toOption, Option.bind_eq_bind, Option.bind_some]
  rw [if_neg h0]
  have hheld : m₁.res.held .resourceAllocLock = false := by
    rw [hres₁, if_neg hc]
    exact hlock
  have hlock₂ : (({ m₁ with memory := s, log := tookEvents data PAGEBLOCKSIZE ++ m₁.log } :
      Machine).onRes fun r => r.setRec ckres
        { r.mem ckres with start := (phys data).toNat, length := 128 }).res.held
      .resourceAllocLock = false := hheld
  obtain ⟨m₃, hm₃⟩ := linkLocked_of_free hlock₂ .SIGPHYSREGION owner ckres
  rw [hm₃]
  exact ⟨_, rfl⟩

end Machine

variable {m : Machine} {validKernel : Addr → Bool} {owner resource : Addr}
  {stublen : UADDR → UADDR} {signature : Addr → ObjectSignature}

/-- A region that comes about is not given back. -/
theorem Machine.GetsRegion.breaks (hg : m.GetsRegion validKernel owner)
    (hlock : m.res.held .resourceAllocLock = false) :
    ¬ m.RegionContract stublen signature validKernel resource owner := by
  intro hc
  obtain ⟨m₁, hm₁⟩ := hg.succeeds hlock resource
  obtain ⟨tr₁, htr₁, _⟩ := Machine.ckAllocPhysRegion_balanced hm₁
  obtain ⟨data, rec, _, _, _, hdesc, hstart, htaken⟩ := Machine.ckAllocPhysRegion_zero hm₁
  -- the release comes right after the allocation
  obtain ⟨m₃, tr₃, hm₃, htr₃, heq⟩ := hc.returned m₁ tr₁ hm₁ htr₁ [] m₁ (.nil m₁)
  rw [hdesc] at hm₃
  rw [Machine.ckFreePhysRegion_freed hm₃ htr₃, htaken tr₁ htr₁, hstart] at heq
  split at heq
  · exact absurd (congrArg List.length heq) (by simp)
  · have hd : BitVec.ofNat 32 (phys data).toNat = data := by simpa using heq
    rw [BitVec.ofNat_toNat, BitVec.setWidth_eq] at hd
    exact Machine.phys_ne data hd

/-- **Regions of physical memory.** The allocation and the release of a region keep their
contract where no region comes about, and only there. -/
theorem region_contract (hlock : m.res.held .resourceAllocLock = false) :
    m.RegionContract stublen signature validKernel resource owner ↔
      ¬ m.GetsRegion validKernel owner := by
  constructor
  · intro hc hg
    exact hg.breaks hlock hc
  · intro hn
    constructor
    · intro m₁ tr₁ hm₁
      obtain ⟨data, _, hfind, h0, _⟩ := Machine.ckAllocPhysRegion_zero hm₁
      exact absurd ⟨data, hfind, h0⟩ hn
    · intro hnil
      exact absurd ⟨KL.NIL, hnil, by decide⟩ hn

/-- The kernels of `twoObjects`. -/
def isKernel (v : Addr) : Bool := decide (twoObjects v = .SIGKERNEL)

theorem region_contract_withPages :
    (machineWith memoryWithPages).RegionContract (fun _ => 64#32) twoObjects isKernel 100 32 ↔
      ¬ (machineWith memoryWithPages).GetsRegion isKernel 32 :=
  region_contract rfl

/-- One free page, in which no aligned block is. -/
def memoryWithPage : Memory :=
  (memStep memoryAtBoot (.free 0xc0200000#32 0x1000#32)).getD memoryAtBoot

/-- The block at `0xc0220000` is taken, and `0x220000` is freed. -/
theorem region_freed_elsewhere :
    (∃ m₁ m₃, (machineWith memoryWithPages).ckAllocPhysRegion isKernel 100 32 =
        some (m₁, 0#32) ∧
      m₁.ckFreePhysRegion (m₁.res.descriptor 100) = some (m₃, 0#32) ∧
      blocksTaken m₃.log = [(0xc0220000#32, 0x20000#32), (0xc0200000#32, 28#32)] ∧
      blocksFreed m₃.log = [(0xc0200000#32, 28#32), (0x220000#32, 0x20000#32)]) ∧
    ¬ (machineWith memoryWithPages).RegionContract (fun _ => 64#32) twoObjects isKernel 100 32 := by
  have hs : ((machineWith memoryWithPages).ckAllocPhysRegion isKernel 100 32).any (fun r =>
      r.2 = 0#32 ∧ (r.1.ckFreePhysRegion (r.1.res.descriptor 100)).any fun q => q.2 = 0#32 ∧
        blocksTaken q.1.log = [(0xc0220000#32, 0x20000#32), (0xc0200000#32, 28#32)] ∧
        blocksFreed q.1.log = [(0xc0200000#32, 28#32), (0x220000#32, 0x20000#32)]) = true := by
    decide +kernel
  obtain ⟨⟨m₁, e₁⟩, hm₁, hs⟩ := (Option.any_eq_true _ _).mp hs
  obtain ⟨rfl, hs⟩ := of_decide_eq_true hs
  obtain ⟨⟨m₃, e₃⟩, hm₃, hs⟩ := (Option.any_eq_true _ _).mp hs
  obtain ⟨rfl, htaken, hfreed⟩ := of_decide_eq_true hs
  refine ⟨⟨m₁, m₃, hm₁, hm₃, htaken, hfreed⟩, ?_⟩
  obtain ⟨data, _, hfind, h0, _⟩ := Machine.ckAllocPhysRegion_zero hm₁
  exact Machine.GetsRegion.breaks ⟨data, hfind, h0⟩ rfl

/-- Where no aligned block is, the allocation succeeds all the same. -/
example :
    ∃ m', (machineWith memoryWithPage).ckAllocPhysRegion isKernel 100 32 = some (m', 0#32) ∧
      blocksTaken m'.log = [(0xc0200000#32, 28#32)] := by
  have hs : ((machineWith memoryWithPage).ckAllocPhysRegion isKernel 100 32).any (fun r =>
      r.2 = 0#32 ∧ blocksTaken r.1.log = [(0xc0200000#32, 28#32)]) = true := by
    decide +kernel
  obtain ⟨⟨m₁, e₁⟩, hm₁, hs⟩ := (Option.any_eq_true _ _).mp hs
  obtain ⟨rfl, htaken⟩ := of_decide_eq_true hs
  exact ⟨m₁, hm₁, htaken⟩

end Alliance.CK
