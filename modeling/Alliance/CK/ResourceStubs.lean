import Alliance.CK.ResourceHolders

/-!
# The stubs of the traps

All allocators of a trap share one stub, which the first of them gets and the last of them
discards, as long as the newest allocation is released first. So whatever the threads allocate
and release in this order, each stub is discarded once (`trap_release_run`).

The handler that was there before is another matter: the halves of its address are joined by `&`
and not by `|`, so what is saved is 0, and that is what the last allocator puts back.
-/

namespace Alliance.CK

open Function Lib Resources

/-- The calls that allocate and release traps. -/
inductive TrapCall where
  | alloc (validThread : Addr → Bool) (resource : Addr) (res : Resource) (owner : Addr)
    (flags : DATA)
  | free (res : Addr)

def trapCall (T : StubTemplates) (k : TrapKernel) : TrapCall → Option TrapKernel
  | .alloc validThread resource res owner flags =>
    (k.ckAllocTrap T validThread resource res owner flags).map Prod.fst
  | .free res => (k.ckFreeTrap T res).map Prod.fst

/-- What is released is the newest live allocation of its vector. -/
def TrapCall.Newest (k : TrapKernel) : TrapCall → Prop
  | .alloc .. => True
  | .free res => k.machine.res.allocated res = true ∧
      k.machine.res.trapHeads (k.machine.res.trap res) = res

def TrapCall.GetsStub (T : StubTemplates) (k : TrapKernel) : TrapCall → Prop
  | .alloc _ _ res _ _ => k.GetsStub T res.trap
  | .free _ => True

def StubEvent.trap : StubEvent → UADDR
  | .generated trap _ => trap
  | .discarded trap _ => trap

/-- What happened to the stubs of a trap, the last event first. -/
def TrapKernel.stubsOf (k : TrapKernel) (v : UADDR) : List StubEvent :=
  k.stubs.filter fun ev => ev.trap = v

/-- Each stub of the trap was discarded, once, before the next one was generated. -/
inductive Discarded (v : UADDR) : List StubEvent → Prop
  | nil : Discarded v []
  | cons {stub : UADDR} {l : List StubEvent} : Discarded v l →
      Discarded v (.discarded v stub :: .generated v stub :: l)

/-! ## What holds between two calls -/

namespace TrapKernel

/-- **The stubs between two calls**: `k₀` is where the run began. -/
structure Kept (k₀ k : TrapKernel) : Prop where
  held : Held k.machine.memory k.machine.Holds k.machine.blockOf
  chains : ∃ chains, TrapChains k.machine.res chains
  accepted : ∀ r, k.machine.res.allocated r = true → ¬ BadTrap (k.machine.res.trap r)
  shared : ∀ r, k.machine.res.allocated r = true →
    k.machine.stub r = k.machine.stub (k.machine.res.trapHeads (k.machine.res.trap r)) ∧
      k.machine.stubsize r =
        k.machine.stubsize (k.machine.res.trapHeads (k.machine.res.trap r))
  saved : ∀ r, k.machine.res.allocated r = true → ¬ IsIRQ (k.machine.res.trap r) →
    k.retrostub r = 0#32
  busy : ∀ v, k.machine.res.trapHeads v ≠ NIL →
    (k.IDT v).handler = k.machine.stub (k.machine.res.trapHeads v) ∧
      ∃ l, k.stubsOf v = .generated v (k.machine.stub (k.machine.res.trapHeads v)) :: l ∧
        Discarded v l
  idle : ∀ v, k.machine.res.trapHeads v = NIL → Discarded v (k.stubsOf v)
  handler : ∀ v, k.machine.res.trapHeads v = NIL → ¬ IsIRQ v →
    k.stubsOf v = [] ∧ (k.IDT v).handler = (k₀.IDT v).handler ∨
      k.stubsOf v ≠ [] ∧ (k.IDT v).handler = 0#32

variable {T : StubTemplates} {k₀ k k' : TrapKernel} {c r : Addr} {v w : UADDR} {e : DATA}
  {ev : StubEvent}

theorem stubsOf_same (h : k'.stubs = k.stubs) : k'.stubsOf v = k.stubsOf v :=
  congrArg (List.filter _) h

theorem stubsOf_self (h : k'.stubs = ev :: k.stubs) (hv : ev.trap = v) :
    k'.stubsOf v = ev :: k.stubsOf v := by
  unfold stubsOf
  rw [h]
  exact List.filter_cons_of_pos (by exact decide_eq_true hv)

theorem stubsOf_other (h : k'.stubs = ev :: k.stubs) (hv : ev.trap ≠ v) :
    k'.stubsOf v = k.stubsOf v := by
  unfold stubsOf
  rw [h]
  exact List.filter_cons_of_neg fun hn => hv (of_decide_eq_true hn)

theorem StubDiscarded.stubsOf (h : StubDiscarded k r k') : k'.stubsOf (k.machine.res.trap r) =
    .discarded (k.machine.res.trap r) (k.machine.stub r) :: k.stubsOf (k.machine.res.trap r) :=
  stubsOf_self h.stubs rfl

namespace Kept

/-- The kernel in which no trap was ever allocated. -/
theorem start (hq : k₀.machine.memory.Quiet) (h : k₀.machine.res.NoTraps)
    (hs : k₀.stubs = []) : Kept k₀ k₀ := by
  have hdead : ∀ r, k₀.machine.res.allocated r ≠ true := fun r hr => by
    rw [h.allocated r] at hr
    exact Bool.false_ne_true hr
  have hstubs : ∀ v, k₀.stubsOf v = [] := fun v => by
    unfold stubsOf
    rw [hs]
    rfl
  refine
    { held := .none hq fun i hi => ?_
      chains := ⟨_, h.chains⟩
      accepted := fun r hr => absurd hr (hdead r)
      shared := fun r hr => absurd hr (hdead r)
      saved := fun r hr => absurd hr (hdead r)
      busy := fun v hv => absurd (h.trapHeads v) hv
      idle := fun v _ => hstubs v ▸ .nil
      handler := fun v _ _ => .inl ⟨hstubs v, rfl⟩ }
  cases i with
  | record r => exact hdead r hi
  | stub v => exact hi (h.trapHeads v)

/-- A call that changed nothing about the traps. -/
theorem same (h : Kept k₀ k) (hs : SameTraps k k')
    (hheld : Held k'.machine.memory k'.machine.Holds k'.machine.blockOf) : Kept k₀ k' := by
  obtain ⟨chains, hchains⟩ := h.chains
  have htrap : ∀ r, k'.machine.res.trap r = k.machine.res.trap r := fun r =>
    trap_of_trapData (congrFun hs.data r)
  have hstubs : ∀ v, k'.stubsOf v = k.stubsOf v := fun v => stubsOf_same hs.stubs
  obtain ⟨hstub, hsize⟩ := hs.same
  refine
    { held := hheld
      chains := ⟨chains, hchains.same hs.data hs.trapHeads hs.allocated hs.records hs.held⟩
      accepted := fun r hr => ?_
      shared := fun r hr => ?_
      saved := fun r hr => ?_
      busy := fun v hv => ?_
      idle := fun v hv => ?_
      handler := fun v hv => ?_ }
  · rw [hs.allocated] at hr
    rw [htrap]
    exact h.accepted r hr
  · rw [hs.allocated] at hr
    rw [htrap, hs.trapHeads, hstub, hsize]
    exact h.shared r hr
  · rw [hs.allocated] at hr
    rw [htrap, hs.retrostub]
    exact h.saved r hr
  · rw [hs.trapHeads] at hv
    rw [hs.trapHeads, hs.IDT, hstub, hstubs]
    exact h.busy v hv
  · rw [hs.trapHeads] at hv
    rw [hstubs]
    exact h.idle v hv
  · rw [hs.trapHeads] at hv
    rw [hstubs, hs.IDT]
    exact h.handler v hv

/-- A new record, which shares the stub of its trap if there is one. -/
theorem added (h : Kept k₀ k) (ha : StubAdded k c v k')
    (hheld : Held k'.machine.memory k'.machine.Holds k'.machine.blockOf)
    (hstub : k.machine.res.trapHeads v ≠ NIL →
      k'.machine.stub c = k.machine.stub (k.machine.res.trapHeads v) ∧
        k'.machine.stubsize c = k.machine.stubsize (k.machine.res.trapHeads v))
    (hsaved : ¬ IsIRQ v → k'.retrostub c = 0#32)
    (hgates : ∀ w, w ≠ v → k'.IDT w = k.IDT w) (hstubs : ∀ w, w ≠ v → k'.stubsOf w = k.stubsOf w)
    (hbusy : (k'.IDT v).handler = k'.machine.stub c ∧
      ∃ l, k'.stubsOf v = .generated v (k'.machine.stub c) :: l ∧ Discarded v l) :
    Kept k₀ k' := by
  obtain ⟨chains, hchains⟩ := h.chains
  have hself : k'.machine.res.trapHeads v = c := by rw [ha.added.trapHeads, update_self]
  have hother : ∀ w, w ≠ v → k'.machine.res.trapHeads w = k.machine.res.trapHeads w := by
    intro w hw
    rw [ha.added.trapHeads, update_of_ne hw]
  have hold : ∀ r, r ≠ c → k'.machine.res.allocated r = true →
      k.machine.res.allocated r = true ∧ k'.machine.res.trap r = k.machine.res.trap r := by
    intro r hr hl
    rw [ha.added.allocated, update_of_ne hr] at hl
    exact ⟨hl, trap_of_trapData (ha.added.same r hr)⟩
  have hne : ∀ w, k.machine.res.trapHeads w ≠ NIL → k.machine.res.trapHeads w ≠ c := by
    intro w hw he
    have hlive := (hchains.head_live hw).1
    rw [he, ha.fresh] at hlive
    exact Bool.false_ne_true hlive
  refine
    { held := hheld
      chains := ⟨_, hchains.added ha.added ha.fresh ha.ne_nil⟩
      accepted := fun r hr => ?_
      shared := fun r hr => ?_
      saved := fun r hr hirq => ?_
      busy := fun w hw => ?_
      idle := fun w hw => ?_
      handler := fun w hw hirq => ?_ }
  · by_cases hrc : r = c
    · rw [hrc, ha.added.trap]
      exact ha.accepted
    · obtain ⟨hl, htrap⟩ := hold r hrc hr
      rw [htrap]
      exact h.accepted r hl
  · by_cases hrc : r = c
    · rw [hrc, ha.added.trap, hself]
      exact ⟨rfl, rfl⟩
    · obtain ⟨hl, htrap⟩ := hold r hrc hr
      have hlive := hchains.head_ne_nil hl
      rw [htrap, (ha.stub r hrc).1, (ha.stub r hrc).2]
      by_cases hv : k.machine.res.trap r = v
      · rw [hv] at hlive ⊢
        rw [hself, (hstub hlive).1, (hstub hlive).2, ← hv]
        exact h.shared r hl
      · obtain ⟨hs, hsize⟩ := ha.stub _ (hne _ hlive)
        rw [hother _ hv, hs, hsize]
        exact h.shared r hl
  · by_cases hrc : r = c
    · rw [hrc, ha.added.trap] at hirq
      exact hrc ▸ hsaved hirq
    · obtain ⟨hl, htrap⟩ := hold r hrc hr
      rw [htrap] at hirq
      rw [ha.retrostub r hrc]
      exact h.saved r hl hirq
  · by_cases hv : w = v
    · subst hv
      rw [hself]
      exact hbusy
    · rw [hother w hv] at hw ⊢
      rw [hgates w hv, hstubs w hv, (ha.stub _ (hne w hw)).1]
      exact h.busy w hw
  · have hv : w ≠ v := fun he => ha.ne_nil (by rw [← hself, ← he, hw])
    rw [hother w hv] at hw
    rw [hstubs w hv]
    exact h.idle w hw
  · have hv : w ≠ v := fun he => ha.ne_nil (by rw [← hself, ← he, hw])
    rw [hother w hv] at hw
    rw [hstubs w hv, hgates w hv]
    exact h.handler w hw hirq

/-- A further allocator. -/
theorem stubShared (h : Kept k₀ k) (ha : StubAdded k c v k') (hs : StubShared k c v k')
    (hheld : Held k'.machine.memory k'.machine.Holds k'.machine.blockOf) : Kept k₀ k' := by
  obtain ⟨chains, hchains⟩ := h.chains
  obtain ⟨hlive, htrap⟩ := hchains.head_live hs.live
  refine h.added ha hheld (fun _ => hs.stub) (fun hirq => ?_) (fun w _ => congrFun hs.IDT w)
    (fun w _ => stubsOf_same hs.stubs) ?_
  · rw [hs.retrostub]
    exact h.saved _ hlive (htrap.symm ▸ hirq)
  · rw [hs.IDT, hs.stub.1, stubsOf_same hs.stubs]
    exact h.busy v hs.live

/-- A first allocator. -/
theorem stubGenerated (h : Kept k₀ k) (ha : StubAdded k c v k') (hs : StubGenerated k c v k')
    (hheld : Held k'.machine.memory k'.machine.Holds k'.machine.blockOf) : Kept k₀ k' :=
  h.added ha hheld (fun hn => absurd hs.idle hn) hs.saved hs.gates
    (fun _ hw => stubsOf_other hs.stubs fun he => hw he.symm)
    ⟨hs.handler, _, stubsOf_self hs.stubs rfl, h.idle v hs.idle⟩

/-- The newest record is released. -/
theorem released (h : Kept k₀ k) (hr : StubReleased k r k')
    (hhead : k.machine.res.trapHeads (k.machine.res.trap r) = r)
    (hlive : k.machine.res.allocated r = true)
    (hheld : Held k'.machine.memory k'.machine.Holds k'.machine.blockOf)
    (hcase : StubLeft k r k' ∨ StubDiscarded k r k') : Kept k₀ k' := by
  obtain ⟨chains, hchains⟩ := h.chains
  have hchains' := hchains.removed hr.removed hlive hhead
  have htrap : ∀ x, k'.machine.res.trap x = k.machine.res.trap x := fun x =>
    trap_of_trapData (congrFun hr.removed.same x)
  have hself : k'.machine.res.trapHeads (k.machine.res.trap r) = k.machine.res.ntp r := by
    rw [hr.removed.trapHeads, update_self]
  have hother : ∀ w, w ≠ k.machine.res.trap r →
      k'.machine.res.trapHeads w = k.machine.res.trapHeads w := by
    intro w hw
    rw [hr.removed.trapHeads, update_of_ne hw]
  have hold : ∀ x, k'.machine.res.allocated x = true → k.machine.res.allocated x = true := by
    intro x hx
    rw [hr.removed.allocated] at hx
    by_cases hxr : x = r
    · rw [hxr, update_self] at hx
      exact absurd hx Bool.false_ne_true
    · rwa [update_of_ne hxr] at hx
  obtain ⟨hstub, hsize⟩ := hr.same
  -- the newest record that is left shares the stub
  have hnext : ∀ w, k'.machine.res.trapHeads w ≠ NIL →
      k.machine.stub (k'.machine.res.trapHeads w) =
        k.machine.stub (k.machine.res.trapHeads w) ∧
      k.machine.stubsize (k'.machine.res.trapHeads w) =
        k.machine.stubsize (k.machine.res.trapHeads w) := by
    intro w hw
    obtain ⟨hl, hv⟩ := hchains'.head_live hw
    rw [htrap] at hv
    have hs := h.shared _ (hold _ hl)
    rwa [hv] at hs
  have hbusy := h.busy (k.machine.res.trap r)
  rw [hhead] at hbusy
  have hnil : r ≠ NIL := fun h0 => hchains.head_ne_nil hlive (hhead.trans h0)
  have hrest : (∀ w, w ≠ k.machine.res.trap r → k'.IDT w = k.IDT w) ∧
      ∀ w, w ≠ k.machine.res.trap r → k'.stubsOf w = k.stubsOf w := by
    rcases hcase with hleft | hdis
    · exact ⟨fun w _ => congrFun hleft.IDT w, fun w _ => stubsOf_same hleft.stubs⟩
    · exact ⟨hdis.gates, fun w hw => stubsOf_other hdis.stubs fun he => hw he.symm⟩
  obtain ⟨hgates, hstubs⟩ := hrest
  refine
    { held := hheld
      chains := ⟨_, hchains'⟩
      accepted := fun x hx => ?_
      shared := fun x hx => ?_
      saved := fun x hx hirq => ?_
      busy := fun w hw => ?_
      idle := fun w hw => ?_
      handler := fun w hw hirq => ?_ }
  · rw [htrap]
    exact h.accepted x (hold x hx)
  · have hw := hchains'.head_ne_nil hx
    obtain ⟨hs, hsz⟩ := hnext _ hw
    rw [hstub, hsize, hs, hsz, htrap]
    exact h.shared x (hold x hx)
  · rw [htrap] at hirq
    rw [hr.retrostub]
    exact h.saved x (hold x hx) hirq
  · by_cases hv : w = k.machine.res.trap r
    · subst hv
      rw [hstub, (hnext _ hw).1, hhead]
      rcases hcase with hleft | hdis
      · rw [hleft.IDT, stubsOf_same hleft.stubs]
        exact hbusy hnil
      · exact absurd (hself.trans hdis.last) hw
    · rw [hother w hv] at hw ⊢
      rw [hgates w hv, hstubs w hv, hstub]
      exact h.busy w hw
  · by_cases hv : w = k.machine.res.trap r
    · subst hv
      rcases hcase with hleft | hdis
      · exact absurd (hself.symm.trans hw) hleft.next
      · obtain ⟨-, l, hl, hdone⟩ := hbusy hnil
        rw [hdis.stubsOf, hl]
        exact .cons hdone
    · rw [hother w hv] at hw
      rw [hstubs w hv]
      exact h.idle w hw
  · by_cases hv : w = k.machine.res.trap r
    · subst hv
      rcases hcase with hleft | hdis
      · exact absurd (hself.symm.trans hw) hleft.next
      · refine .inr ⟨?_, (hdis.handler hirq).trans (h.saved r hlive hirq)⟩
        rw [hdis.stubsOf]
        exact List.cons_ne_nil _ _
    · rw [hother w hv] at hw
      rw [hstubs w hv, hgates w hv]
      exact h.handler w hw hirq

/-- **One call** keeps this. -/
theorem step {call : TrapCall} (h : Kept k₀ k) (hn : call.Newest k) (hg : call.GetsStub T k)
    (hs : trapCall T k call = some k') : Kept k₀ k' := by
  obtain ⟨chains, hchains⟩ := h.chains
  cases call with
  | alloc validThread resource res owner flags =>
      obtain ⟨⟨_, e⟩, hcall, rfl⟩ := Option.map_eq_some_iff.mp hs
      obtain ⟨hheld, hsame | ⟨c, ha, hshared | hgen⟩⟩ := ckAllocTrap_stubs hchains h.held hg hcall
      · exact h.same hsame hheld
      · exact h.stubShared ha hshared hheld
      · exact h.stubGenerated ha hgen hheld
  | free r =>
      obtain ⟨⟨_, e⟩, hcall, rfl⟩ := Option.map_eq_some_iff.mp hs
      obtain ⟨hlive, hhead⟩ := hn
      have hnil : r ≠ NIL := fun h0 => hchains.head_ne_nil hlive (hhead.trans h0)
      have hnext : k.machine.res.ntp r ≠ NIL →
          k.machine.stub (k.machine.res.ntp r) = k.machine.stub r ∧
            k.machine.stubsize (k.machine.res.ntp r) = k.machine.stubsize r := by
        intro hne
        obtain ⟨hl, htrap⟩ := hchains.next_live hlive hhead hne
        have hshared := h.shared _ hl
        rwa [htrap, hhead] at hshared
      obtain ⟨hheld, hr, hcase⟩ :=
        ckFreeTrap_stubs h.held hlive hhead hnil (h.accepted r hlive) hnext hcall
      exact h.released hr hhead hlive hheld hcase

end Kept

end TrapKernel

/-! ## Runs -/

theorem run_kept {T : StubTemplates} {k₀ k : TrapKernel} {calls : List TrapCall}
    (hq : k₀.machine.memory.Quiet) (h0 : k₀.machine.res.NoTraps) (hs : k₀.stubs = [])
    (hr : Run (trapCall T) (fun k c => c.Newest k ∧ c.GetsStub T k) k₀ calls k) : k₀.Kept k :=
  hr.invariant (fun h hc hs => h.step hc.1 hc.2 hs) (.start hq h0 hs)

/-- A trap with a live allocation has a newest one. -/
theorem TrapKernel.Kept.head_ne_nil {k₀ k : TrapKernel} (h : k₀.Kept k) {r : Addr}
    (hr : k.machine.res.allocated r = true) :
    k.machine.res.trapHeads (k.machine.res.trap r) ≠ NIL := by
  obtain ⟨chains, hchains⟩ := h.chains
  exact hchains.head_ne_nil hr

/-- **Traps that are released.** In every run in which there is memory for the stubs and the
newest allocation of a trap is released first, each stub of a trap is discarded once, when the last
allocation is released, and not before. The handler that was there before any of this is put back
if and only if it was at address 0, or the trap was never allocated. -/
theorem trap_release_run {T : StubTemplates} {k₀ k : TrapKernel} {calls : List TrapCall}
    (hq : k₀.machine.memory.Quiet) (h0 : k₀.machine.res.NoTraps) (hs : k₀.stubs = [])
    (hr : Run (trapCall T) (fun k c => c.Newest k ∧ c.GetsStub T k) k₀ calls k) (v : UADDR) :
    ((∀ r, k.machine.res.allocated r = true → k.machine.res.trap r ≠ v) →
      Discarded v (k.stubsOf v) ∧
        (¬ IsIRQ v → ((k.IDT v).handler = (k₀.IDT v).handler ↔
          (k₀.IDT v).handler = 0#32 ∨ k.stubsOf v = []))) ∧
    ∀ r, k.machine.res.allocated r = true → k.machine.res.trap r = v →
      (k.IDT v).handler = k.machine.stub r ∧
        ∃ l, k.stubsOf v = .generated v (k.machine.stub r) :: l ∧ Discarded v l := by
  have h := run_kept hq h0 hs hr
  obtain ⟨chains, hchains⟩ := h.chains
  constructor
  · intro hnone
    have hnil : k.machine.res.trapHeads v = NIL := by
      by_contra hne
      obtain ⟨hl, hv⟩ := hchains.head_live hne
      exact hnone _ hl hv
    refine ⟨h.idle v hnil, fun hirq => ?_⟩
    rcases h.handler v hnil hirq with ⟨hnever, hsame⟩ | ⟨hever, hzero⟩
    · exact iff_of_true hsame (.inr hnever)
    · rw [hzero, eq_comm]
      exact (or_iff_left hever).symm
  · intro r hl hv
    subst hv
    rw [(h.shared r hl).1]
    exact h.busy _ (h.head_ne_nil hl)

/-- A thread asks for vector 0x30. -/
def wantVector : TrapCall :=
  .alloc (fun v => decide (twoObjects v = .SIGTHREAD)) 100 ⟨0#32, 0x30#32, 16, 1#32, 0#32, 0#32⟩ 16
    0#32

/-- The kernel with this free memory and `0xc0102000` as the handler of all vectors. -/
def vectorKernel (d : KL.KLfreeListDescriptor) : TrapKernel :=
  trapKernelWith ⟨d, false⟩ 0xc0102000#32

/-- There is memory for the stub, and after the release the handler of the vector is at 0. -/
def losesHandler (d : KL.KLfreeListDescriptor) : Bool :=
  ((Memory.ckMemAlloc ⟨d, false⟩ ResourceSignature.SIGTRAP.size).toOption.any fun x =>
    (x.1.ckMemAllocAlign (someTemplates.stublen 0x30#32) 4).toOption.any fun y =>
      decide (y.2 ≠ KL.NIL)) &&
  (trapCall someTemplates (vectorKernel d) wantVector).any fun k =>
    decide (k.machine.res.allocated (k.machine.res.trapHeads 0x30#32) = true ∧
      k.machine.res.trap (k.machine.res.trapHeads 0x30#32) = 0x30#32) &&
    (trapCall someTemplates k (.free (k.machine.res.trapHeads 0x30#32))).any fun k =>
      decide ((k.IDT 0x30#32).handler = 0#32 ∧ k.machine.res.trapHeads 0x30#32 = NIL ∧
        k.stubsOf 0x30#32 ≠ [])

/-- With 1024 bytes free, and `0xc0102000` as the handler of all vectors, the thread allocates the
vector and releases it. -/
theorem vector_released : ∃ (k₀ k : TrapKernel) (r : Addr),
    k₀.machine.memory.Quiet ∧ k₀.machine.res.NoTraps ∧ k₀.stubs = [] ∧
      Run (trapCall someTemplates) (fun k c => c.Newest k ∧ c.GetsStub someTemplates k) k₀
        [wantVector, .free r] k ∧
      (k₀.IDT 0x30#32).handler = 0xc0102000#32 ∧ (k.IDT 0x30#32).handler = 0#32 ∧
      k.machine.res.trapHeads 0x30#32 = NIL ∧ k.stubsOf 0x30#32 ≠ [] := by
  obtain ⟨d, -, hl, hp⟩ := KL.KLfreeListDescriptor.freeAll_boot [(0x1000#32, 1024#32)]
    (l := [0x1000#32]) losesHandler (by decide) (by decide) (by decide +kernel)
  obtain ⟨hgets, hp⟩ := (Bool.and_eq_true _ _).mp hp
  obtain ⟨k₁, hk₁, hp⟩ := (Option.any_eq_true _ _).mp hp
  obtain ⟨hlive, hfree⟩ := (Bool.and_eq_true _ _).mp hp
  obtain ⟨k, hk, hend⟩ := (Option.any_eq_true _ _).mp hfree
  obtain ⟨hlive, htrap⟩ := of_decide_eq_true hlive
  obtain ⟨hhandler, hnil, hstubs⟩ := of_decide_eq_true hend
  have hbefore : ((vectorKernel d).IDT 0x30#32).handler = 0xc0102000#32 := by
    show (0xc0102000#32 >>> 16).setWidth 16 ++ (0xc0102000#32).setWidth 16 = 0xc0102000#32
    decide
  refine ⟨vectorKernel d, k, _, ⟨rfl, _, hl⟩, ⟨fun _ => rfl, fun _ => rfl, rfl⟩, rfl,
    .cons ⟨trivial, fun _ s₁ rec s₂ stub h₁ h₂ => ?_⟩ hk₁
      (.cons ⟨⟨hlive, by rw [htrap]⟩, trivial⟩ hk (.nil k)), hbefore, hhandler, hnil, hstubs⟩
  change Memory.ckMemAlloc ⟨d, false⟩ _ = _ at h₁
  change s₁.ckMemAllocAlign (someTemplates.stublen 0x30#32) 4 = _ at h₂
  rw [h₁] at hgets
  change (s₁.ckMemAllocAlign (someTemplates.stublen 0x30#32) 4).toOption.any _ = true at hgets
  rw [h₂] at hgets
  exact of_decide_eq_true hgets

/-- Nothing is left of the vector after that. -/
theorem trap_release_run_vector : ∃ (k₀ k : TrapKernel) (r : Addr),
    Run (trapCall someTemplates) (fun k c => c.Newest k ∧ c.GetsStub someTemplates k) k₀
        [wantVector, .free r] k ∧
      Discarded 0x30#32 (k.stubsOf 0x30#32) ∧
      ((k.IDT 0x30#32).handler = (k₀.IDT 0x30#32).handler ↔
        (k₀.IDT 0x30#32).handler = 0#32 ∨ k.stubsOf 0x30#32 = []) := by
  obtain ⟨k₀, k, r, hq, h0, hs, hr, -, -, hnil, -⟩ := vector_released
  have hnone : ∀ x, k.machine.res.allocated x = true → k.machine.res.trap x ≠ 0x30#32 :=
    fun x hx hv => (run_kept hq h0 hs hr).head_ne_nil hx (hv.symm ▸ hnil)
  obtain ⟨hdone, hhandler⟩ := (trap_release_run hq h0 hs hr 0x30#32).1 hnone
  exact ⟨k₀, k, r, hr, hdone, hhandler (by decide)⟩

/-- The allocation of a vector by one thread, and its release: the handler is not put back. -/
theorem released_vector_at_zero : ∃ (k₀ k : TrapKernel) (r : Addr),
    k₀.machine.memory.Quiet ∧ k₀.machine.res.NoTraps ∧ k₀.stubs = [] ∧
      Run (trapCall someTemplates) (fun k c => c.Newest k ∧ c.GetsStub someTemplates k) k₀
        [wantVector, .free r] k ∧
      (∀ x, k.machine.res.allocated x = true → k.machine.res.trap x ≠ 0x30#32) ∧
      ¬ IsIRQ 0x30#32 ∧ (k.IDT 0x30#32).handler ≠ (k₀.IDT 0x30#32).handler := by
  obtain ⟨k₀, k, r, hq, h0, hs, hr, hbefore, hafter, hnil, -⟩ := vector_released
  refine ⟨k₀, k, r, hq, h0, hs, hr, fun x hx hv => ?_, by decide, ?_⟩
  · exact (run_kept hq h0 hs hr).head_ne_nil hx (hv.symm ▸ hnil)
  · rw [hbefore, hafter]
    decide

end Alliance.CK
