import Alliance.CK.MemoryHeld
import Alliance.CK.ResourceFailures
import Alliance.CK.ResourceTraps

/-!
# The memory of the traps

The record of each trap allocation holds a block of memory, and so does the stub of each trap
that has one; `Held` says that nobody else does. An allocation puts the record before the others
of its trap (`Pushed`), which share the stub, and a release of the newest takes it out (`Popped`).
What a call does beside is said once for allocations (`ckAllocTrap_stubs`) and once for releases
(`ckFreeTrap_stubs`).
-/

namespace Alliance.CK

open Function Lib Resources
open KL (adjustSize)

/-- Who holds memory: a record, and the stub of a trap. -/
inductive Holder where
  | record (r : Addr)
  | stub (trap : UADDR)

namespace Machine

def Holds (m : Machine) : Holder → Prop
  | .record r => m.res.allocated r = true
  | .stub v => m.res.trapHeads v ≠ NIL

/-- The stub of a trap is that of its newest allocator. -/
def blockOf (m : Machine) : Holder → UADDR × UADDR
  | .record r => (BitVec.ofNat 32 r, ResourceSignature.SIGTRAP.size)
  | .stub v => (m.stub (m.res.trapHeads v), m.stubsize (m.res.trapHeads v))

/-! ## Stubs in a call -/

variable {m m' : Machine} {sig : ResourceSignature} {ckres : Addr} {data size : UADDR}

def SameStubs (m m' : Machine) : Prop := m'.stub = m.stub ∧ m'.stubsize = m.stubsize

theorem SameStubs.trans {m₁ m₂ m₃ : Machine} (h : m₁.SameStubs m₂) (h' : m₂.SameStubs m₃) :
    m₁.SameStubs m₃ := ⟨h'.1.trans h.1, h'.2.trans h.2⟩

theorem allocRecord_stubs (h : m.allocRecord sig = some (m', ckres)) : m.SameStubs m' := by
  obtain ⟨⟨m₁, data⟩, hm, h⟩ := Option.bind_eq_some_iff.mp h
  obtain ⟨⟨s, _⟩, _, hm⟩ := Option.bind_eq_some_iff.mp hm
  obtain ⟨rfl, rfl⟩ := Prod.mk.inj (Option.some.inj hm)
  obtain ⟨rfl, -⟩ := Prod.mk.inj (Option.some.inj h)
  split <;> exact ⟨rfl, rfl⟩

theorem enter_stubs {b : CKMutex} (h : m.enter b = some m') : m.SameStubs m' := by
  obtain ⟨_, _, h⟩ := Option.bind_eq_some_iff.mp h
  obtain rfl := Option.some.inj h
  exact ⟨rfl, rfl⟩

theorem ckMemAllocAlign_stubs {alignment : Nat}
    (h : m.ckMemAllocAlign size alignment = some (m', data)) : m.SameStubs m' := by
  obtain ⟨_, _, h⟩ := Option.bind_eq_some_iff.mp h
  obtain ⟨rfl, -⟩ := Prod.mk.inj (Option.some.inj h)
  exact ⟨rfl, rfl⟩

theorem ckMemFree_ok (h : m.ckMemFree data size = some m') :
    m.memory.ckMemFree data size = .ok (m'.memory, ()) ∧ m.SameStubs m' := by
  obtain ⟨⟨s, u⟩, hs, h⟩ := Option.bind_eq_some_iff.mp h
  obtain rfl := Option.some.inj h
  exact ⟨toOption_eq_some hs, rfl, rfl⟩

theorem freeRecord_ok (h : m.freeRecord ckres size = some m') :
    m.memory.ckMemFree (BitVec.ofNat 32 ckres) size = .ok (m'.memory, ()) ∧ m.SameStubs m' := by
  obtain ⟨m₁, hm, h⟩ := Option.bind_eq_some_iff.mp h
  obtain rfl := Option.some.inj h
  obtain ⟨hs, hsame⟩ := ckMemFree_ok hm
  exact ⟨hs, hsame⟩

end Machine

/-! ## The chains -/

namespace Resources.TrapChains

variable {s : Resources} {chains : UADDR → List Addr} {v : UADDR} {r : Addr}

/-- The newest allocation of a trap is live. -/
theorem head_live (h : TrapChains s chains) (h0 : s.trapHeads v ≠ NIL) :
    s.allocated (s.trapHeads v) = true ∧ s.trap (s.trapHeads v) = v := by
  refine (h.mem v _).mp ?_
  have hc := h.chained v
  cases hl : chains v with
  | nil =>
      rw [hl] at hc
      exact absurd hc h0
  | cons x l =>
      rw [hl] at hc
      rw [hc.1]
      exact .head _

/-- A trap with a live allocation has a newest one. -/
theorem head_ne_nil (h : TrapChains s chains) (hr : s.allocated r = true) :
    s.trapHeads (s.trap r) ≠ NIL := by
  have hm := (h.mem (s.trap r) r).mpr ⟨hr, rfl⟩
  have hc := h.chained (s.trap r)
  cases hl : chains (s.trap r) with
  | nil =>
      rw [hl] at hm
      exact absurd hm List.not_mem_nil
  | cons x l =>
      rw [hl] at hc
      rw [hc.1]
      exact hc.2.1

/-- The allocation after the newest one is live. -/
theorem next_live (h : TrapChains s chains) (hlive : s.allocated r = true)
    (hhead : s.trapHeads (s.trap r) = r) (h0 : s.ntp r ≠ NIL) :
    s.allocated (s.ntp r) = true ∧ s.trap (s.ntp r) = s.trap r := by
  refine (h.mem (s.trap r) _).mp ?_
  have hm := (h.mem (s.trap r) r).mpr ⟨hlive, rfl⟩
  have hc := h.chained (s.trap r)
  rw [hhead] at hc
  cases hl : chains (s.trap r) with
  | nil =>
      rw [hl] at hm
      exact absurd hm List.not_mem_nil
  | cons x l =>
      rw [hl] at hc
      obtain ⟨rfl, -, hc⟩ := hc
      cases l with
      | nil => exact absurd hc h0
      | cons y l =>
          rw [hc.1]
          exact .tail _ (.head _)

end Resources.TrapChains

/-! ## The holders -/

namespace Machine

variable {m m' : Machine} {c ckres : Addr} {stub size : UADDR} {v : UADDR}

/-- The same holders, with no more bytes free. -/
theorem held_mono (h : Held m.memory m.Holds m.blockOf) (hq : m'.memory.Quiet)
    (hfree : ∀ a, m'.memory.FreeByte a → m.memory.FreeByte a)
    (halloc : m'.res.allocated = m.res.allocated) (hheads : m'.res.trapHeads = m.res.trapHeads)
    (hs : m.SameStubs m') : Held m'.memory m'.Holds m'.blockOf := by
  refine h.mono hq hfree (fun i hi => ?_) fun i _ => ?_
  · cases i with
    | record r =>
        change m'.res.allocated r = true at hi
        rwa [halloc] at hi
    | stub v =>
        change m'.res.trapHeads v ≠ NIL at hi
        rwa [hheads] at hi
  · cases i with
    | record r => rfl
    | stub v =>
        show (m'.stub (m'.res.trapHeads v), m'.stubsize (m'.res.trapHeads v)) = _
        rw [hs.1, hs.2, hheads]
        rfl

/-- A record that is allocated is a new holder. -/
theorem held_allocRecord (h : Held m.memory m.Holds m.blockOf)
    (hm : m.allocRecord .SIGTRAP = some (m', ckres)) (h0 : ckres ≠ NIL) :
    m.res.allocated ckres = false ∧ Held m'.memory m'.Holds m'.blockOf := by
  obtain ⟨data, hdata, hq, htakes⟩ := allocRecord_takes h.quiet hm
  obtain ⟨_, _, _, hres, -⟩ := allocRecord_some hm
  obtain ⟨hstub, hsize⟩ := allocRecord_stubs hm
  rw [if_neg h0] at hres
  have hnil : data ≠ KL.NIL := fun hd => h0 (by rw [hdata, hd]; rfl)
  have hblock : (BitVec.ofNat 32 ckres, ResourceSignature.SIGTRAP.size) =
      (data, ResourceSignature.SIGTRAP.size) := by
    rw [hdata, BitVec.ofNat_toNat, BitVec.setWidth_eq]
  refine ⟨Bool.eq_false_iff.mpr fun hlive => ?_, ?_⟩
  · have hholds : m.Holds (.record ckres) := hlive
    exact h.fresh htakes hnil hholds hblock
  · refine h.took (i := .record ckres) hq htakes hnil (by decide) (fun j hj => ?_) hblock
      fun j _ _ => ?_
    · cases j with
      | record r =>
          by_cases hr : r = ckres
          · exact .inl (congrArg Holder.record hr)
          · refine .inr ?_
            change m'.res.allocated r = true at hj
            rw [hres] at hj
            exact (update_of_ne hr ..).symm.trans hj
      | stub v =>
          refine .inr ?_
          change m'.res.trapHeads v ≠ NIL at hj
          rw [hres] at hj
          exact hj
    · cases j with
      | record r => rfl
      | stub v =>
          show (m'.stub (m'.res.trapHeads v), m'.stubsize (m'.res.trapHeads v)) = _
          rw [hstub, hsize, hres]
          rfl

/-- A record of the machine is put before the others of its trap. -/
structure Pushed (m : Machine) (c : Addr) (v : UADDR) (m' : Machine) : Prop where
  allocated : m'.res.allocated = m.res.allocated
  trapHeads : m'.res.trapHeads = update m.res.trapHeads v c
  other : ∀ w, m.res.trapHeads w ≠ NIL → m.res.trapHeads w ≠ c
  same : ∀ r, r ≠ c → m'.stub r = m.stub r ∧ m'.stubsize r = m.stubsize r

/-- The other traps have the stubs that they had. -/
theorem Pushed.stub_other (h : Pushed m c v m') (w : UADDR) (hw : w ≠ v)
    (hlive : m'.Holds (.stub w)) :
    m.Holds (.stub w) ∧ m'.blockOf (.stub w) = m.blockOf (.stub w) := by
  have hhead : m'.res.trapHeads w = m.res.trapHeads w := by rw [h.trapHeads, update_of_ne hw]
  change m'.res.trapHeads w ≠ NIL at hlive
  rw [hhead] at hlive
  obtain ⟨hstub, hsize⟩ := h.same _ (h.other w hlive)
  refine ⟨hlive, ?_⟩
  show (m'.stub (m'.res.trapHeads w), m'.stubsize (m'.res.trapHeads w)) = _
  rw [hhead, hstub, hsize]
  rfl

theorem Pushed.record (h : Pushed m c v m') (r : Addr) (hlive : m'.Holds (.record r)) :
    m.Holds (.record r) := by
  change m'.res.allocated r = true at hlive
  rwa [h.allocated] at hlive

/-- A record that shares the stub takes no memory. -/
theorem Pushed.held_shared (h : Pushed m c v m') (hheld : Held m.memory m.Holds m.blockOf)
    (hmem : m'.memory = m.memory) (hlive : m.res.trapHeads v ≠ NIL)
    (hstub : m'.stub c = m.stub (m.res.trapHeads v) ∧
      m'.stubsize c = m.stubsize (m.res.trapHeads v)) :
    Held m'.memory m'.Holds m'.blockOf := by
  refine hheld.mono (hmem ▸ hheld.quiet) (fun a ha => hmem ▸ ha) (fun i hi => ?_) fun i hi => ?_
  · cases i with
    | record r => exact h.record r hi
    | stub w =>
        by_cases hw : w = v
        · exact hw ▸ hlive
        · exact (h.stub_other w hw hi).1
  · cases i with
    | record r => rfl
    | stub w =>
        by_cases hw : w = v
        · subst hw
          show (m'.stub (m'.res.trapHeads w), m'.stubsize (m'.res.trapHeads w)) = _
          rw [h.trapHeads, update_self, hstub.1, hstub.2]
          rfl
        · exact (h.stub_other w hw hi).2

/-- A stub of its own is a new holder. -/
theorem Pushed.held_generated (h : Pushed m c v m') (hheld : Held m.memory m.Holds m.blockOf)
    (hq : m'.memory.Quiet) (ht : m.memory.Takes m'.memory stub (adjustSize size))
    (hne : stub ≠ KL.NIL) (hsize : adjustSize size ≠ 0#32)
    (hstub : m'.stub c = stub ∧ m'.stubsize c = size) : Held m'.memory m'.Holds m'.blockOf := by
  refine hheld.took (i := .stub v) hq ht hne hsize (fun j hj => ?_) ?_ fun j hj hlive => ?_
  · cases j with
    | record r => exact .inr (h.record r hj)
    | stub w =>
        by_cases hw : w = v
        · exact .inl (congrArg Holder.stub hw)
        · exact .inr (h.stub_other w hw hj).1
  · show (m'.stub (m'.res.trapHeads v), m'.stubsize (m'.res.trapHeads v)) = _
    rw [h.trapHeads, update_self, hstub.1, hstub.2]
  · cases j with
    | record r => rfl
    | stub w => exact (h.stub_other w (fun hw => hj (congrArg Holder.stub hw)) hlive).2

/-- The newest record of a trap is taken out. -/
structure Popped (m : Machine) (r : Addr) (m' : Machine) : Prop where
  live : m.res.allocated r = true
  newest : m.res.trapHeads (m.res.trap r) = r
  ne_nil : r ≠ NIL
  allocated : m'.res.allocated = update m.res.allocated r false
  trapHeads : m'.res.trapHeads = update m.res.trapHeads (m.res.trap r) (m.res.ntp r)
  same : m.SameStubs m'

namespace Popped

variable {r : Addr} {s : Memory}

theorem record (h : Popped m r m') {x : Addr} (hx : m'.Holds (.record x)) :
    Holder.record x ≠ .record r ∧ m.Holds (.record x) := by
  change m'.res.allocated x = true at hx
  rw [h.allocated] at hx
  by_cases hxr : x = r
  · rw [hxr, update_self] at hx
    exact absurd hx Bool.false_ne_true
  · rw [update_of_ne hxr] at hx
    exact ⟨fun he => hxr (Holder.record.inj he), hx⟩

theorem head_other (h : Popped m r m') {w : UADDR} (hw : w ≠ m.res.trap r) :
    m'.res.trapHeads w = m.res.trapHeads w := by
  rw [h.trapHeads, update_of_ne hw]

theorem head_self (h : Popped m r m') : m'.res.trapHeads (m.res.trap r) = m.res.ntp r := by
  rw [h.trapHeads, update_self]

theorem blockOf_other (h : Popped m r m') {w : UADDR} (hw : w ≠ m.res.trap r) :
    m'.blockOf (.stub w) = m.blockOf (.stub w) := by
  show (m'.stub (m'.res.trapHeads w), m'.stubsize (m'.res.trapHeads w)) = _
  rw [h.head_other hw, h.same.1, h.same.2]
  rfl

/-- Its trap had a stub. -/
theorem holds_stub (h : Popped m r m') : m.Holds (.stub (m.res.trap r)) :=
  fun h0 => h.ne_nil (h.newest ▸ h0)

/-- Only the record is given back. -/
theorem held_left (h : Popped m r m') (hheld : Held m.memory m.Holds m.blockOf)
    (hnext : m.stub (m.res.ntp r) = m.stub r ∧ m.stubsize (m.res.ntp r) = m.stubsize r)
    (hmem : m.memory.ckMemFree (BitVec.ofNat 32 r) ResourceSignature.SIGTRAP.size =
      .ok (m'.memory, ())) : Held m'.memory m'.Holds m'.blockOf := by
  refine hheld.gave (i := .record r) h.live hmem (fun j hj => ?_) fun j hj => ?_
  · cases j with
    | record x => exact h.record hj
    | stub w =>
        refine ⟨fun he => (by cases he), ?_⟩
        by_cases hw : w = m.res.trap r
        · exact hw ▸ h.holds_stub
        · change m'.res.trapHeads w ≠ NIL at hj
          rwa [h.head_other hw] at hj
  · cases j with
    | record x => rfl
    | stub w =>
        by_cases hw : w = m.res.trap r
        · subst hw
          show (m'.stub (m'.res.trapHeads _), m'.stubsize (m'.res.trapHeads _)) =
            (m.stub (m.res.trapHeads _), m.stubsize (m.res.trapHeads _))
          rw [h.head_self, h.newest, h.same.1, h.same.2, hnext.1, hnext.2]
        · exact h.blockOf_other hw

/-- The stub is given back, and then the record. -/
theorem held_discarded (h : Popped m r m') (hheld : Held m.memory m.Holds m.blockOf)
    (hlast : m.res.ntp r = NIL)
    (hfreed : m.memory.ckMemFree (m.stub r) (m.stubsize r) = .ok (s, ()))
    (hmem : s.ckMemFree (BitVec.ofNat 32 r) ResourceSignature.SIGTRAP.size =
      .ok (m'.memory, ())) : Held m'.memory m'.Holds m'.blockOf := by
  have hblock : m.blockOf (.stub (m.res.trap r)) = (m.stub r, m.stubsize r) := by
    show (m.stub (m.res.trapHeads (m.res.trap r)), _) = _
    rw [h.newest]
  have hheld₁ : Held s (fun j => j ≠ .stub (m.res.trap r) ∧ m.Holds j) m.blockOf := by
    refine hheld.gave h.holds_stub ?_ (fun j hj => hj) fun _ _ => rfl
    rw [hblock]
    exact hfreed
  have hlive : (Holder.record r ≠ .stub (m.res.trap r)) ∧ m.Holds (.record r) :=
    ⟨fun he => (by cases he), h.live⟩
  -- the trap has no stub any more
  have hother : ∀ w, m'.Holds (.stub w) → w ≠ m.res.trap r := by
    intro w hj hw
    subst hw
    exact hj (h.head_self.trans hlast)
  refine hheld₁.gave (i := .record r) hlive hmem (fun j hj => ?_) fun j hj => ?_
  · cases j with
    | record x =>
        obtain ⟨hx, hl⟩ := h.record hj
        exact ⟨hx, fun he => (by cases he), hl⟩
    | stub w =>
        have hw := hother w hj
        change m'.res.trapHeads w ≠ NIL at hj
        rw [h.head_other hw] at hj
        exact ⟨fun he => (by cases he), fun he => hw (Holder.stub.inj he), hj⟩
  · cases j with
    | record x => rfl
    | stub w => exact h.blockOf_other (hother w hj)

end Popped

end Machine

/-! ## One call -/

namespace TrapKernel

variable {T : StubTemplates} {k k' k₀ : TrapKernel} {r resource owner c : Addr} {res : Resource}
  {flags e : DATA} {validThread : Addr → Bool} {v : UADDR}

/-- There is memory for the stub of a first allocator, besides its record. -/
def GetsStub (T : StubTemplates) (k : TrapKernel) (trap : UADDR) : Prop :=
  k.machine.res.trapHeads trap = NIL → ∀ s₁ rec s₂ stub,
    k.machine.memory.ckMemAlloc ResourceSignature.SIGTRAP.size = .ok (s₁, rec) →
      s₁.ckMemAllocAlign (T.stublen trap) 4 = .ok (s₂, stub) → stub ≠ KL.NIL

/-- A call that changed nothing about the traps. -/
structure SameTraps (k k' : TrapKernel) : Prop where
  data : k'.machine.res.field trapData = k.machine.res.field trapData
  trapHeads : k'.machine.res.trapHeads = k.machine.res.trapHeads
  allocated : k'.machine.res.allocated = k.machine.res.allocated
  records : k.machine.res.records ≤ k'.machine.res.records
  held : k'.machine.res.held = k.machine.res.held
  same : k.machine.SameStubs k'.machine
  IDT : k'.IDT = k.IDT
  retrostub : k'.retrostub = k.retrostub
  stubs : k'.stubs = k.stubs

/-- The record of a new allocation, and the stub that it has. -/
structure StubAdded (k : TrapKernel) (c : Addr) (v : UADDR) (k' : TrapKernel) : Prop where
  ne_nil : c ≠ NIL
  fresh : k.machine.res.allocated c = false
  accepted : ¬ BadTrap v
  added : TrapAdded k.machine.res c v k'.machine.res
  stub : ∀ r, r ≠ c → k'.machine.stub r = k.machine.stub r ∧
    k'.machine.stubsize r = k.machine.stubsize r
  retrostub : ∀ r, r ≠ c → k'.retrostub r = k.retrostub r

/-- A further allocator has the stub of the newest one. -/
structure StubShared (k : TrapKernel) (c : Addr) (v : UADDR) (k' : TrapKernel) : Prop where
  live : k.machine.res.trapHeads v ≠ NIL
  stub : k'.machine.stub c = k.machine.stub (k.machine.res.trapHeads v) ∧
    k'.machine.stubsize c = k.machine.stubsize (k.machine.res.trapHeads v)
  retrostub : k'.retrostub c = k.retrostub (k.machine.res.trapHeads v)
  IDT : k'.IDT = k.IDT
  stubs : k'.stubs = k.stubs

/-- A first allocator has a stub of its own. -/
structure StubGenerated (k : TrapKernel) (c : Addr) (v : UADDR) (k' : TrapKernel) : Prop where
  idle : k.machine.res.trapHeads v = NIL
  handler : (k'.IDT v).handler = k'.machine.stub c
  gates : ∀ w, w ≠ v → k'.IDT w = k.IDT w
  saved : ¬ IsIRQ v → k'.retrostub c = 0#32
  stubs : k'.stubs = .generated v (k'.machine.stub c) :: k.stubs

/-- The record is allocated and the mutex is held. -/
structure RecordReady (k : TrapKernel) (c : Addr) (m : Machine) : Prop where
  ne_nil : c ≠ NIL
  fresh : k.machine.res.allocated c = false
  allocated : m.res.allocated = update k.machine.res.allocated c true
  trapHeads : m.res.trapHeads = k.machine.res.trapHeads
  same : k.machine.SameStubs m
  held : Held m.memory m.Holds m.blockOf

theorem recordReady {m₁ m₂ : Machine}
    (hheld : Held k.machine.memory k.machine.Holds k.machine.blockOf)
    (hm₁ : k.machine.allocRecord .SIGTRAP = some (m₁, c)) (h0 : c ≠ NIL)
    (hm₂ : m₁.enter .resourceAllocLock = some m₂) : RecordReady k c m₂ := by
  obtain ⟨hfresh, hheld₁⟩ := Machine.held_allocRecord hheld hm₁ h0
  obtain ⟨_, _, _, hres₁, -⟩ := Machine.allocRecord_some hm₁
  rw [if_neg h0] at hres₁
  obtain ⟨hs₂, hmem₂, -⟩ := Machine.enter_some hm₂
  have hres₂ := (Resources.enter_eq_some hs₂).2
  refine
    { ne_nil := h0
      fresh := hfresh
      allocated := by rw [hres₂, hres₁]; rfl
      trapHeads := by rw [hres₂, hres₁]; rfl
      same := (Machine.allocRecord_stubs hm₁).trans (Machine.enter_stubs hm₂)
      held := Machine.held_mono hheld₁ ?_ (fun a ha => hmem₂ ▸ ha) ?_ ?_
        (Machine.enter_stubs hm₂) }
  · exact hmem₂ ▸ hheld₁.quiet
  · rw [hres₂]
  · rw [hres₂]

namespace RecordReady

variable {m m' : Machine} {k₂ : TrapKernel} {stub : UADDR} {chains : UADDR → List Addr}

/-- The record goes before the others of its trap. -/
theorem pushed (hr : RecordReady k c m) (hchains : TrapChains k.machine.res chains)
    (ha : TrapAdded k.machine.res c v m'.res)
    (hs : ∀ r, r ≠ c → m'.stub r = k.machine.stub r ∧ m'.stubsize r = k.machine.stubsize r) :
    m.Pushed c v m' where
  allocated := ha.allocated.trans hr.allocated.symm
  trapHeads := ha.trapHeads.trans (by rw [hr.trapHeads])
  other w hw he := by
    rw [hr.trapHeads] at hw he
    have hlive := (hchains.head_live hw).1
    rw [he, hr.fresh] at hlive
    exact Bool.false_ne_true hlive
  same r hne := by
    rw [hr.same.1, hr.same.2]
    exact hs r hne

/-- A record that shares the stub. -/
theorem shared (hr : RecordReady k c m) (hchains : TrapChains k.machine.res chains)
    (hb : ¬ BadTrap v) (hlive : k.machine.res.trapHeads v ≠ NIL)
    (hk : k₂ = ((k.withMachine m).setStub c (m.stub (m.res.trapHeads v))
      (m.stubsize (m.res.trapHeads v))).setRetrostub c (k.retrostub (m.res.trapHeads v)))
    (hmem : m'.memory = k₂.machine.memory) (hstub : k₂.machine.SameStubs m')
    (ha : TrapAdded k.machine.res c v m'.res) :
    Held m'.memory m'.Holds m'.blockOf ∧ StubAdded k c v (k₂.withMachine m') ∧
      StubShared k c v (k₂.withMachine m') := by
  rw [hr.trapHeads, hr.same.1, hr.same.2] at hk
  subst hk
  have hself : m'.stub c = k.machine.stub (k.machine.res.trapHeads v) ∧
      m'.stubsize c = k.machine.stubsize (k.machine.res.trapHeads v) := by
    rw [hstub.1, hstub.2]
    exact ⟨update_self .., update_self ..⟩
  have hother : ∀ r, r ≠ c → m'.stub r = k.machine.stub r ∧
      m'.stubsize r = k.machine.stubsize r := by
    intro r hne
    rw [hstub.1, hstub.2, ← hr.same.1, ← hr.same.2]
    exact ⟨update_of_ne hne .., update_of_ne hne ..⟩
  refine ⟨(hr.pushed hchains ha hother).held_shared hr.held hmem ?_ ?_,
    ⟨hr.ne_nil, hr.fresh, hb, ha, hother, fun r hne => update_of_ne hne ..⟩,
    ⟨hlive, hself, update_self .., rfl, rfl⟩⟩
  · rwa [hr.trapHeads]
  · rwa [hr.trapHeads, hr.same.1, hr.same.2]

/-- A record that gets a stub of its own. -/
theorem generated (hr : RecordReady k c m) (hchains : TrapChains k.machine.res chains)
    (hb : ¬ BadTrap v) (hidle : k.machine.res.trapHeads v = NIL) {m₃ : Machine}
    (hm₃ : m.ckMemAllocAlign (T.stublen v) 4 = some (m₃, stub)) (hne : stub ≠ KL.NIL)
    (hin : Installed T (k.withMachine m) v c m₃ stub k₂)
    (hmem : m'.memory = k₂.machine.memory) (hstub : k₂.machine.SameStubs m')
    (ha : TrapAdded k.machine.res c v m'.res) :
    Held m'.memory m'.Holds m'.blockOf ∧ StubAdded k c v (k₂.withMachine m') ∧
      StubGenerated k c v (k₂.withMachine m') := by
  obtain ⟨-, halign, -⟩ := Machine.ckMemAllocAlign_some hm₃
  obtain ⟨hstub₃, hsize₃⟩ := hr.same.trans (Machine.ckMemAllocAlign_stubs hm₃)
  obtain ⟨s, stub', hs, hq₃, htakes⟩ :=
    hr.held.quiet.ckMemAllocAlign_takes 4 (T.stublen_short v)
  obtain ⟨rfl, rfl⟩ := Prod.mk.inj (Except.ok.inj (hs.symm.trans halign))
  have hmem' : m'.memory = m₃.memory := by
    rw [hmem, hin.machine]
    rfl
  have hstub' : m'.stub = update k.machine.stub c stub' := by
    rw [hstub.1, hin.machine, ← hstub₃]
    rfl
  have hsize' : m'.stubsize = update k.machine.stubsize c (T.stublen v) := by
    rw [hstub.2, hin.machine, ← hsize₃]
    rfl
  have hself : m'.stub c = stub' := by rw [hstub', update_self]
  have hother : ∀ r, r ≠ c → m'.stub r = k.machine.stub r ∧
      m'.stubsize r = k.machine.stubsize r := by
    intro r hne
    rw [hstub', hsize', update_of_ne hne, update_of_ne hne]
    exact ⟨rfl, rfl⟩
  have hbyte := and_byte_of_accepted hb
  refine ⟨(hr.pushed hchains ha hother).held_generated hr.held (hmem' ▸ hq₃) (hmem' ▸ htakes) hne
      (T.stublen_short v) ⟨hself, ?_⟩,
    ⟨hr.ne_nil, hr.fresh, hb, ha, hother, hin.retrostub⟩,
    ⟨hidle, ?_, fun w hw => ?_, hin.saved, ?_⟩⟩
  · rw [hsize', update_self]
  · rw [← hbyte]
    exact hin.handler.trans hself.symm
  · exact hin.gates w (by rwa [hbyte])
  · exact hin.stubs.trans (by rw [← hself]; rfl)

end RecordReady

/-- **What an allocation does** about the stubs. -/
theorem ckAllocTrap_stubs {chains : UADDR → List Addr}
    (hchains : TrapChains k.machine.res chains)
    (hheld : Held k.machine.memory k.machine.Holds k.machine.blockOf)
    (hgets : k.GetsStub T res.trap)
    (h : k.ckAllocTrap T validThread resource res owner flags = some (k', e)) :
    Held k'.machine.memory k'.machine.Holds k'.machine.blockOf ∧
      (SameTraps k k' ∨ ∃ c, StubAdded k c res.trap k' ∧
        (StubShared k c res.trap k' ∨ StubGenerated k c res.trap k')) := by
  obtain ⟨env, hres, henv⟩ := Machine.ckAllocTrap_res (ckAllocTrap_machine h)
  rcases ckAllocTrap_cases h with ⟨-, rfl⟩ | ⟨m, hm, -, rfl⟩ |
    ⟨hv, m₁, c, m₂, hm₁, h0, hm₂, hcase⟩
  · exact ⟨hheld, .inl ⟨rfl, rfl, rfl, le_rfl, rfl, ⟨rfl, rfl⟩, rfl, rfl, rfl⟩⟩
  · obtain ⟨hmem, hres⟩ := Machine.allocRecord_nil hheld.quiet hm
    have hs := Machine.allocRecord_stubs hm
    refine ⟨Machine.held_mono hheld ?_ ?_ ?_ ?_ hs, .inl ?_⟩
    · exact hmem ▸ hheld.quiet
    · exact fun a ha => hmem ▸ ha
    · exact congrArg Resources.allocated hres
    · exact congrArg Resources.trapHeads hres
    · refine ⟨?_, ?_, ?_, ?_, ?_, hs, rfl, rfl, rfl⟩ <;> simp only [withMachine, hres, le_rfl]
  have hr := recordReady hheld hm₁ h0 hm₂
  obtain rfl := henv m₁ c hv hm₁
  have hcases := Resources.ckAllocTrap_cases (fun _ => hr.fresh) hres
  have hmem₂ := (Machine.enter_some hm₂).2.1
  rcases hcase with ⟨-, rfl, m₃, hm₃, rfl⟩ | ⟨hb, rfl, k₂, hk₂, rfl⟩
  · -- the trap is refused
    have hexit : (m₂.exit .resourceAllocLock).memory = m₁.memory := hmem₂
    obtain ⟨m₃', hm₃', hq₃, hfree₃⟩ :=
      Machine.freeRecord_of_allocRecord hheld.quiet hm₁ h0 hexit
    obtain rfl := Option.some.inj (hm₃.symm.trans hm₃')
    rcases hcases with ⟨-, hdata, hheads, halloc, hrecords, hlocks⟩ | ⟨he, -⟩
    · have hs : k.machine.SameStubs m₃ := hr.same.trans (Machine.freeRecord_ok hm₃).2
      exact ⟨Machine.held_mono hheld hq₃ hfree₃ halloc hheads hs,
        .inl ⟨hdata, hheads, halloc, hrecords, hlocks, hs, rfl, rfl, rfl⟩⟩
    · exact absurd he (by decide)
  rcases hcases with ⟨he, -⟩ | ⟨-, -, hadded⟩
  · exact absurd rfl he
  have hfill : (fillTrap k₂.machine resource res owner flags env.ckres).memory =
      k₂.machine.memory ∧
      k₂.machine.SameStubs (fillTrap k₂.machine resource res owner flags env.ckres) :=
    ⟨rfl, rfl, rfl⟩
  rcases ckPreProcessTrapAlloc_accepted hk₂ hb with ⟨hlive, hk⟩ | ⟨hidle, m₃, stub, hm₃, hin⟩
  · change m₂.res.trapHeads res.trap ≠ NIL at hlive
    rw [hr.trapHeads] at hlive
    obtain ⟨hheld', hadd, hshared⟩ := hr.shared hchains hb hlive hk hfill.1 hfill.2 hadded
    exact ⟨hheld', .inr ⟨_, hadd, .inl hshared⟩⟩
  · change m₂.res.trapHeads res.trap = NIL at hidle
    rw [hr.trapHeads] at hidle
    have hne : stub ≠ KL.NIL := by
      obtain ⟨_, _, hmem₁, -⟩ := Machine.allocRecord_some hm₁
      obtain ⟨-, halign, -⟩ := Machine.ckMemAllocAlign_some hm₃
      change m₂.memory.ckMemAllocAlign _ _ = _ at halign
      rw [hmem₂] at halign
      exact hgets hidle _ _ _ _ hmem₁ halign
    obtain ⟨hheld', hadd, hgen⟩ :=
      hr.generated hchains hb hidle hm₃ hne hin hfill.1 hfill.2 hadded
    exact ⟨hheld', .inr ⟨_, hadd, .inr hgen⟩⟩

/-- The newest record of a trap is taken out of its chain. -/
structure StubReleased (k : TrapKernel) (r : Addr) (k' : TrapKernel) : Prop where
  removed : TrapRemoved k.machine.res r k'.machine.res
  same : k.machine.SameStubs k'.machine
  retrostub : k'.retrostub = k.retrostub

/-- Other allocators have the stub still. -/
structure StubLeft (k : TrapKernel) (r : Addr) (k' : TrapKernel) : Prop where
  next : k.machine.res.ntp r ≠ NIL
  IDT : k'.IDT = k.IDT
  stubs : k'.stubs = k.stubs

/-- The last allocator discards the stub. -/
structure StubDiscarded (k : TrapKernel) (r : Addr) (k' : TrapKernel) : Prop where
  last : k.machine.res.ntp r = NIL
  handler : ¬ IsIRQ (k.machine.res.trap r) →
    (k'.IDT (k.machine.res.trap r)).handler = k.retrostub r
  gates : ∀ w, w ≠ k.machine.res.trap r → k'.IDT w = k.IDT w
  stubs : k'.stubs = .discarded (k.machine.res.trap r) (k.machine.stub r) :: k.stubs

/-- What follows the stub in a release. -/
theorem ckFreeTrap_frame (h : k.ckFreeTrap T r = some (k', e)) : ∃ k₁,
    k.ckPostProcessTrapAlloc T r = some k₁ ∧ k'.IDT = k₁.IDT ∧ k'.retrostub = k₁.retrostub ∧
      k'.stubs = k₁.stubs ∧ k₁.machine.SameStubs k'.machine ∧
      k₁.machine.memory.ckMemFree (BitVec.ofNat 32 r) ResourceSignature.SIGTRAP.size =
        .ok (k'.machine.memory, ()) := by
  obtain ⟨k₁, hk₁, h⟩ := Option.bind_eq_some_iff.mp h
  obtain ⟨m₂, hm₂, h⟩ := Option.bind_eq_some_iff.mp h
  obtain ⟨s, -, h⟩ := Option.bind_eq_some_iff.mp h
  obtain ⟨m₃, hm₃, he⟩ := Option.map_eq_some_iff.mp h
  obtain ⟨rfl, -⟩ := Prod.mk.inj he
  obtain ⟨hmem, hsame⟩ := Machine.freeRecord_ok hm₃
  refine ⟨k₁, hk₁, rfl, rfl, rfl, (Machine.enter_stubs hm₂).trans hsame, ?_⟩
  rw [← (Machine.enter_some hm₂).2.1]
  exact hmem

/-- **What a release does** about the stubs. -/
theorem ckFreeTrap_stubs (hheld : Held k.machine.memory k.machine.Holds k.machine.blockOf)
    (hlive : k.machine.res.allocated r = true)
    (hhead : k.machine.res.trapHeads (k.machine.res.trap r) = r) (hr : r ≠ NIL)
    (hb : ¬ BadTrap (k.machine.res.trap r))
    (hnext : k.machine.res.ntp r ≠ NIL →
      k.machine.stub (k.machine.res.ntp r) = k.machine.stub r ∧
        k.machine.stubsize (k.machine.res.ntp r) = k.machine.stubsize r)
    (h : k.ckFreeTrap T r = some (k', e)) :
    Held k'.machine.memory k'.machine.Holds k'.machine.blockOf ∧ StubReleased k r k' ∧
      (StubLeft k r k' ∨ StubDiscarded k r k') := by
  have hremoved := ckFreeTrap_removed hhead (Machine.ckFreeTrap_res (ckFreeTrap_machine h))
  obtain ⟨k₁, hk₁, hIDT, hretro, hstubs, hsame₁, hmem⟩ := ckFreeTrap_frame h
  have hpopped : k.machine.SameStubs k'.machine → k.machine.Popped r k'.machine := fun hs =>
    ⟨hlive, hhead, hr, hremoved.allocated, hremoved.trapHeads, hs⟩
  rcases ckPostProcessTrapAlloc_cases hk₁ with ⟨⟨-, hlast⟩, hun⟩ | ⟨hnot, rfl⟩
  · obtain ⟨hfreed, hsame₀⟩ := Machine.ckMemFree_ok hun.machine
    have hsame := hsame₀.trans hsame₁
    refine ⟨(hpopped hsame).held_discarded hheld hlast hfreed hmem,
      ⟨hremoved, hsame, hretro.trans hun.retrostub⟩, .inr ⟨hlast, fun hirq => ?_, fun w hw => ?_,
        hstubs.trans hun.stubs⟩⟩
    · rw [hIDT, ← hun.handler hirq]
      show (k₁.IDT (k.machine.res.trap r)).handler =
        (k₁.IDT (k.machine.res.trap r &&& 0xff#32)).handler
      rw [and_byte_of_accepted hb]
    · rw [hIDT]
      refine hun.gates w ?_
      show w ≠ k.machine.res.trap r &&& 0xff#32
      rwa [and_byte_of_accepted hb]
  · have hne : k₁.machine.res.ntp r ≠ NIL := fun h0 => hnot ⟨hhead, h0⟩
    exact ⟨(hpopped hsame₁).held_left hheld (hnext hne) hmem, ⟨hremoved, hsame₁, hretro⟩,
      .inl ⟨hne, hIDT, hstubs⟩⟩

end TrapKernel

end Alliance.CK
