import Alliance.CK.ResourceProof
import Alliance.Lib.DList
import Alliance.Lib.Run

/-!
# The chains of trap allocations

`trapHeads` of a vector heads a chain of its allocations, the newest first. Allocating
pushes onto it. Releasing the newest one pops it; releasing any other runs the search loop
of `CKfreeTrap`, whose condition is the wrong way round, so it stops one record too early or
too late, and the record stays in the chain or takes others with it.
-/

namespace Alliance.CK

open Function Lib

namespace Resources

variable {s s' : Resources} {r c : Addr}

/-! ## The chains -/

/-- What `CKfreeTrap` and the forwarding of interrupts read of a record. -/
def trapData (x : CKResource) : UADDR × Addr × Addr × DATA :=
  (x.trap, x.ntp, x.sigThread, x.priority)

def ntp (s : Resources) (r : Addr) : Addr := (s.mem r).ntp

def trap (s : Resources) (r : Addr) : UADDR := (s.mem r).trap

/-- The signal that a live allocation is sent. -/
def signalOf (s : Resources) (r : Addr) : Addr × DATA := ((s.mem r).sigThread, (s.mem r).priority)

theorem ntp_of_trapData (h : s'.field trapData r = s.field trapData r) : s'.ntp r = s.ntp r :=
  congrArg (·.2.1) h

theorem trap_of_trapData (h : s'.field trapData r = s.field trapData r) : s'.trap r = s.trap r :=
  congrArg (·.1) h

/-- **The trap chains** hold the live allocations of their vectors. -/
structure TrapChains (s : Resources) (chains : UADDR → List Addr) : Prop where
  chained : ∀ v, Chained NIL s.ntp (s.trapHeads v) (chains v)
  nodup : ∀ v, (chains v).Nodup
  mem : ∀ v r, r ∈ chains v ↔ s.allocated r = true ∧ s.trap r = v
  bound : ∀ v, (chains v).length ≤ s.records
  unlocked : s.held .resourceAllocLock = false

/-- An allocation of a trap. -/
structure TrapAdded (s : Resources) (c : Addr) (t : UADDR) (s' : Resources) : Prop where
  trapHeads : s'.trapHeads = update s.trapHeads t c
  ntp : s'.ntp c = s.trapHeads t
  trap : s'.trap c = t
  same : ∀ y, y ≠ c → s'.field trapData y = s.field trapData y
  allocated : s'.allocated = update s.allocated c true
  records : s'.records = s.records + 1
  held : s'.held = s.held

/-- **`CKallocTrap`** allocates, or fails and changes nothing about the traps. -/
theorem ckAllocTrap_cases {validThread : Addr → Bool} {resource owner : Addr} {res : Resource}
    {flags e : DATA} {env : AllocEnv} (hc : env.ckres ≠ NIL → s.allocated env.ckres = false)
    (h : s.ckAllocTrap validThread resource res owner flags env = some (s', e)) :
    (e ≠ 0#32 ∧ s'.field trapData = s.field trapData ∧ s'.trapHeads = s.trapHeads ∧
      s'.allocated = s.allocated ∧ s.records ≤ s'.records ∧ s'.held = s.held) ∨
    (e = 0#32 ∧ env.ckres ≠ NIL ∧ TrapAdded s env.ckres res.trap s') := by
  unfold ckAllocTrap at h
  split at h
  · obtain ⟨rfl, rfl⟩ := Prod.mk.inj (Option.some.inj h)
    exact .inl ⟨by decide, rfl, rfl, rfl, le_rfl, rfl⟩
  split at h
  · obtain ⟨rfl, rfl⟩ := Prod.mk.inj (Option.some.inj h)
    exact .inl ⟨by decide, rfl, rfl, rfl, le_rfl, rfl⟩
  next h0 =>
  obtain ⟨s₁, hs₁, h⟩ := Option.bind_eq_some_iff.mp h
  obtain ⟨hfree, rfl⟩ := enter_eq_some hs₁
  have hfree : s.held .resourceAllocLock = false := hfree
  split at h
  · obtain ⟨rfl, rfl⟩ := Prod.mk.inj (Option.some.inj h)
    refine .inl ⟨by decide, rfl, rfl, ?_, Nat.le_succ _, exit_held hfree⟩
    show update (update s.allocated env.ckres true) env.ckres false = s.allocated
    rw [update_idem, ← hc h0, update_eq_self]
  · obtain ⟨rfl, rfl⟩ := Prod.mk.inj (Option.some.inj h)
    refine .inr ⟨rfl, h0, ?_⟩
    generalize hs₁ : ({ s.alloc env.ckres with
      held := update (s.alloc env.ckres).held .resourceAllocLock true } : Resources) = s₁
    obtain ⟨hheads, hheld, halloc, hrec⟩ := linkResource_rest s₁ .SIGTRAP owner env.ckres
    have hdata : (s₁.linkResource .SIGTRAP owner env.ckres).field trapData = s.field trapData :=
      (field_linkResource (fun _ _ => rfl) (fun _ _ => rfl) _ _).trans (by rw [← hs₁]; rfl)
    generalize s₁.linkResource .SIGTRAP owner env.ckres = s₂ at hheads hheld halloc hrec hdata
    have hheads₂ : s₂.trapHeads = s.trapHeads := hheads.trans (by rw [← hs₁]; rfl)
    refine
      { trapHeads := ?_
        ntp := ?_
        trap := ?_
        same := fun y hy => ?_
        allocated := halloc.trans (by rw [← hs₁]; rfl)
        records := hrec.trans (by rw [← hs₁]; rfl)
        held := ?_ }
    · show update s₂.trapHeads res.trap env.ckres = _
      rw [hheads₂]
    · simp [Resources.ntp, setDescriptor, setRec, setBasic, exit, setTrapHead, setNtp, hheads₂]
    · simp [Resources.trap, setDescriptor, setRec]
    · exact (field_setRec_of_ne _ _ hy).trans ((field_setRec_of_ne _ _ hy).trans
        ((field_setRec_of_ne _ _ hy).trans (congrFun hdata y)))
    · show update s₂.held .resourceAllocLock false = s.held
      rw [hheld, ← hs₁]
      exact exit_held hfree

/-- The owner's list has no part in the chain. -/
theorem unlinkResource_trapData (s : Resources) (r : Addr) :
    (s.unlinkResource .SIGTRAP r).field trapData = s.field trapData :=
  field_unlinkResource (fun _ _ => rfl) (fun _ _ => rfl) _

theorem unlinked_trapHead (s : Resources) (r : Addr) :
    (s.unlinkResource .SIGTRAP r).trapHeads ((s.unlinkResource .SIGTRAP r).mem r).trap =
      s.trapHeads (s.trap r) := by
  rw [(unlinkResource_rest s .SIGTRAP r).1]
  exact congrArg s.trapHeads (trap_of_trapData (congrFun (unlinkResource_trapData s r) r))

/-- A release of the newest allocation of a vector. -/
structure TrapRemoved (s : Resources) (r : Addr) (s' : Resources) : Prop where
  trapHeads : s'.trapHeads = update s.trapHeads (s.trap r) (s.ntp r)
  same : s'.field trapData = s.field trapData
  allocated : s'.allocated = update s.allocated r false
  records : s'.records = s.records
  held : s'.held = s.held

/-- **`CKfreeTrap`** of the newest allocation. -/
theorem ckFreeTrap_removed {e : DATA} (hhead : s.trapHeads (s.trap r) = r)
    (h : s.ckFreeTrap r = some (s', e)) : TrapRemoved s r s' := by
  unfold ckFreeTrap at h
  obtain ⟨s₁, hs₁, h⟩ := Option.bind_eq_some_iff.mp h
  obtain ⟨hfree, hs₁⟩ := enter_eq_some hs₁
  obtain ⟨hheads, hheld, halloc, hrec⟩ := unlinkResource_rest s₁ .SIGTRAP r
  have hdata : (s₁.unlinkResource .SIGTRAP r).field trapData = s.field trapData :=
    (unlinkResource_trapData s₁ r).trans (by rw [hs₁]; rfl)
  simp only at h
  rw [if_pos ((unlinked_trapHead s₁ r).trans (by rw [hs₁]; exact hhead))] at h
  generalize s₁.unlinkResource .SIGTRAP r = s₂ at hheads hheld halloc hrec hdata h
  have htrap : s₂.trap r = s.trap r := trap_of_trapData (congrFun hdata r)
  have hntp : s₂.ntp r = s.ntp r := ntp_of_trapData (congrFun hdata r)
  have hheads₂ : s₂.trapHeads = s.trapHeads := hheads.trans (by rw [hs₁])
  obtain ⟨rfl, -⟩ := Prod.mk.inj (Option.some.inj h)
  refine ⟨?_, hdata, ?_, hrec.trans (by rw [hs₁]), ?_⟩
  · show update s₂.trapHeads (s₂.trap r) (s₂.ntp r) = _
    rw [hheads₂, htrap, hntp]
  · show update s₂.allocated r false = _
    rw [halloc, hs₁]
  · show update s₂.held .resourceAllocLock false = s.held
    rw [hheld, hs₁]
    exact exit_held hfree

/-- The search stops at an allocation that is not before `r`. -/
theorem findBefore_ntp {n : ℕ} {p pos : Addr} (h : s.findBefore r n p = some pos) :
    s.ntp pos ≠ r := by
  induction n generalizing p with
  | zero => exact absurd h (by simp [findBefore])
  | succ n ih =>
    unfold findBefore at h
    split at h
    · exact ih h
    · next hne =>
      obtain rfl := Option.some.inj h
      exact hne

/-- **`CKfreeTrap`** of any other allocation leaves the link to it. -/
theorem ckFreeTrap_before {q : Addr} {e : DATA} (hq : s.ntp q = r)
    (hhead : s.trapHeads (s.trap r) ≠ r) (h : s.ckFreeTrap r = some (s', e)) : s'.ntp q = r := by
  unfold ckFreeTrap at h
  obtain ⟨s₁, hs₁, h⟩ := Option.bind_eq_some_iff.mp h
  obtain ⟨-, hs₁⟩ := enter_eq_some hs₁
  have hdata : (s₁.unlinkResource .SIGTRAP r).field trapData = s.field trapData :=
    (unlinkResource_trapData s₁ r).trans (by rw [hs₁]; rfl)
  simp only at h
  rw [if_neg fun hh => hhead ((by rw [unlinked_trapHead, hs₁] at hh; exact hh))] at h
  generalize s₁.unlinkResource .SIGTRAP r = s₂ at hdata h
  have hq₂ : s₂.ntp q = r := (ntp_of_trapData (congrFun hdata q)).trans hq
  obtain ⟨pos, hpos, h⟩ := Option.bind_eq_some_iff.mp h
  obtain ⟨rfl, -⟩ := Prod.mk.inj (Option.some.inj h)
  have hne : q ≠ pos := fun he => findBefore_ntp hpos (he ▸ hq₂)
  show ((update s₂.mem pos _) q).ntp = r
  rw [update_of_ne hne]
  exact hq₂

/-! ## One call -/

/-- Nothing about the traps has changed. -/
theorem TrapChains.same {chains : UADDR → List Addr} (h : TrapChains s chains)
    (hd : s'.field trapData = s.field trapData) (hh : s'.trapHeads = s.trapHeads)
    (ha : s'.allocated = s.allocated) (hr : s.records ≤ s'.records)
    (hh' : s'.held = s.held) : TrapChains s' chains where
  chained v := by
    rw [hh]
    exact (h.chained v).congr fun y _ => ntp_of_trapData (congrFun hd y)
  nodup := h.nodup
  mem v r := by rw [ha, trap_of_trapData (congrFun hd r)]; exact h.mem v r
  bound v := (h.bound v).trans hr
  unlocked := hh' ▸ h.unlocked

/-- An allocation is pushed onto the chain of its vector. -/
theorem TrapChains.added {chains : UADDR → List Addr} {t : UADDR} (h : TrapChains s chains)
    (ha : TrapAdded s c t s') (hc : s.allocated c = false) (h0 : c ≠ NIL) :
    TrapChains s' (update chains t (c :: chains t)) := by
  have hnot : ∀ v, c ∉ chains v := fun v hm => by
    have := ((h.mem v c).mp hm).1
    rw [hc] at this
    exact absurd this (by simp)
  have hold : ∀ v, Chained NIL s'.ntp (s.trapHeads v) (chains v) := fun v =>
    (h.chained v).congr fun y hy => ntp_of_trapData (ha.same y fun he => hnot v (he ▸ hy))
  refine ⟨fun v => ?_, fun v => ?_, fun v r => ?_, fun v => ?_, ha.held ▸ h.unlocked⟩
  · rw [ha.trapHeads]
    by_cases hv : v = t
    · subst hv
      rw [update_self, update_self]
      exact ⟨rfl, h0, ha.ntp ▸ hold v⟩
    · rw [update_of_ne hv, update_of_ne hv]
      exact hold v
  · by_cases hv : v = t
    · subst hv
      rw [update_self]
      exact List.nodup_cons.mpr ⟨hnot v, h.nodup v⟩
    · rw [update_of_ne hv]
      exact h.nodup v
  · by_cases hr : r = c
    · subst hr
      rw [ha.allocated, update_self, ha.trap]
      by_cases hv : v = t
      · subst hv; simp
      · simp [hv, Ne.symm hv, hnot]
    · rw [ha.allocated, update_of_ne hr, trap_of_trapData (ha.same r hr), ← h.mem]
      by_cases hv : v = t
      · subst hv; simp [hr]
      · simp [hv]
  · rw [ha.records]
    by_cases hv : v = t
    · subst hv
      rw [update_self]
      exact Nat.succ_le_succ (h.bound v)
    · rw [update_of_ne hv]
      exact (h.bound v).trans (Nat.le_succ _)

/-- The newest allocation is popped from its chain, and is in no other. -/
theorem TrapChains.removed {chains : UADDR → List Addr} (h : TrapChains s chains)
    (hr : TrapRemoved s r s') (hlive : s.allocated r = true)
    (hhead : s.trapHeads (s.trap r) = r) : TrapChains s' fun v => (chains v).erase r := by
  have hold : ∀ p l, Chained NIL s.ntp p l → Chained NIL s'.ntp p l := fun p l hl =>
    hl.congr fun y _ => ntp_of_trapData (congrFun hr.same y)
  have hmem : ∀ v : UADDR, r ∈ chains v → v = s.trap r := fun v hm => ((h.mem v r).mp hm).2.symm
  refine ⟨fun v => ?_, fun v => (h.nodup v).erase r, fun v y => ?_, fun v => ?_,
    hr.held ▸ h.unlocked⟩
  · rw [hr.trapHeads]
    by_cases hv : v = s.trap r
    · subst hv
      rw [update_self]
      have hc := h.chained (s.trap r)
      rw [hhead] at hc
      cases hl : chains (s.trap r) with
      | nil =>
        rw [hl] at hc
        have := (h.mem (s.trap r) r).mpr ⟨hlive, rfl⟩
        rw [hl] at this
        exact absurd this List.not_mem_nil
      | cons x l =>
        rw [hl] at hc
        obtain rfl : r = x := hc.1
        rw [List.erase_cons_head]
        exact hold _ _ hc.2.2
    · rw [update_of_ne hv, List.erase_of_not_mem fun hm => hv (hmem v hm)]
      exact hold _ _ (h.chained v)
  · rw [(h.nodup v).mem_erase_iff, h.mem, hr.allocated, update_apply,
      trap_of_trapData (congrFun hr.same y)]
    by_cases hy : y = r
    · simp [hy]
    · simp [hy]
  · rw [hr.records]
    exact (List.length_erase_le).trans (h.bound v)

/-- An allocation that is not the newest has one before it. -/
theorem TrapChains.before {chains : UADDR → List Addr} (h : TrapChains s chains)
    (hlive : s.allocated r = true) (hhead : s.trapHeads (s.trap r) ≠ r) :
    ∃ l q l', chains (s.trap r) = l ++ q :: r :: l' := by
  obtain ⟨a, l', hl⟩ := List.append_of_mem ((h.mem (s.trap r) r).mpr ⟨hlive, rfl⟩)
  have hc := h.chained (s.trap r)
  rw [hl] at hc ⊢
  rcases List.eq_nil_or_concat a with rfl | ⟨l, q, rfl⟩
  · exact absurd hc.1 hhead
  · exact ⟨l, q, l', by simp⟩

/-- The forwarding of an interrupt goes down the chain. -/
theorem forwardFrom_chained {l : List Addr} (n : Nat) : ∀ p, Chained NIL s.ntp p l →
    l.length < n → s.forwardFrom n p = some (l.map s.signalOf) := by
  induction l generalizing n with
  | nil =>
    intro p hp hn
    obtain ⟨n, rfl⟩ : ∃ k, n = k + 1 := ⟨n - 1, by omega⟩
    rw [forwardFrom, if_pos (show p = NIL from hp)]
    rfl
  | cons x l ih =>
    intro p hp hn
    obtain ⟨n, rfl⟩ : ∃ k, n = k + 1 := ⟨n - 1, by omega⟩
    obtain ⟨rfl, h0, hp⟩ := hp
    have hrest : s.forwardFrom n (s.mem p).ntp = some (l.map s.signalOf) :=
      ih n _ hp (by simpa using hn)
    rw [forwardFrom, if_neg h0, hrest]
    rfl

end Resources

open Resources

/-! ## Runs -/

/-- The calls that allocate and release traps. -/
inductive TrapOp where
  | alloc (validThread : Addr → Bool) (resource : Addr) (res : Resource) (owner : Addr)
    (flags : DATA) (env : AllocEnv)
  | free (res : Addr)

def trapStep (s : Resources) : TrapOp → Option Resources
  | .alloc validThread resource res owner flags env =>
    (s.ckAllocTrap validThread resource res owner flags env).map Prod.fst
  | .free res => (s.ckFreeTrap res).map Prod.fst

/-- A record is allocated where none is, and what is released is live. -/
def TrapOp.Legal (s : Resources) : TrapOp → Prop
  | .alloc _ _ _ _ _ env => env.ckres ≠ NIL → s.allocated env.ckres = false
  | .free res => s.allocated res = true

/-- What is released is the newest allocation of its vector. -/
def TrapOp.Newest (s : Resources) : TrapOp → Prop
  | .alloc .. => True
  | .free res => s.trapHeads (s.trap res) = res

instance TrapOp.decidableLegal (s : Resources) : (op : TrapOp) → Decidable (op.Legal s)
  | .alloc _ _ _ _ _ env => inferInstanceAs (Decidable (env.ckres ≠ NIL → _ = false))
  | .free _ => inferInstanceAs (Decidable (_ = _))

instance TrapOp.decidableNewest (s : Resources) : (op : TrapOp) → Decidable (op.Newest s)
  | .alloc .. => inferInstanceAs (Decidable True)
  | .free _ => inferInstanceAs (Decidable (_ = _))

/-- **One call** keeps the chains. -/
theorem trapStep_chains {s s' : Resources} {op : TrapOp} {chains : UADDR → List Addr}
    (h : TrapChains s chains) (hl : op.Legal s) (hn : op.Newest s) (hs : trapStep s op = some s') :
    ∃ chains', TrapChains s' chains' := by
  cases op with
  | alloc validThread resource res owner flags env =>
    obtain ⟨e, hs⟩ := map_fst_eq_some hs
    rcases ckAllocTrap_cases hl hs with ⟨-, hd, hh, ha, hr, hh'⟩ | ⟨-, h0, ha⟩
    · exact ⟨chains, h.same hd hh ha hr hh'⟩
    · exact ⟨_, h.added ha (hl h0) h0⟩
  | free r =>
    obtain ⟨e, hs⟩ := map_fst_eq_some hs
    exact ⟨_, h.removed (ckFreeTrap_removed hn hs) hl hn⟩

/-- **Every call returns.** -/
theorem trapStep_isSome {s : Resources} {op : TrapOp} (hfree : s.held .resourceAllocLock = false)
    (hn : op.Newest s) : (trapStep s op).isSome := by
  cases op with
  | alloc validThread resource res owner flags env =>
    simp only [trapStep, Option.isSome_map, ckAllocTrap]
    split
    · rfl
    split
    · rfl
    rw [enter_of_free (show (s.alloc env.ckres).held .resourceAllocLock = false from hfree)]
    simp only [Option.bind_eq_bind, Option.bind_some]
    split <;> rfl
  | free r =>
    simp only [trapStep, Option.isSome_map, ckFreeTrap]
    obtain ⟨s₁, hs₁⟩ : ∃ s₁, s.enter .resourceAllocLock = some s₁ := ⟨_, enter_of_free hfree⟩
    have hhead : s₁.trapHeads (s₁.trap r) = r := by
      rw [(enter_eq_some hs₁).2]
      exact hn
    rw [hs₁]
    simp only [Option.bind_eq_bind, Option.bind_some]
    rw [if_pos ((unlinked_trapHead s₁ r).trans hhead)]
    rfl

/-- No traps are allocated. -/
structure Resources.NoTraps (s : Resources) : Prop where
  trapHeads : ∀ v, s.trapHeads v = NIL
  allocated : ∀ r, s.allocated r = false
  unlocked : s.held .resourceAllocLock = false

theorem Resources.NoTraps.chains {s : Resources} (h : s.NoTraps) : TrapChains s fun _ => [] where
  chained v := h.trapHeads v
  nodup _ := .nil
  mem v r := by simp [h.allocated r]
  bound _ := Nat.zero_le _
  unlocked := h.unlocked

theorem erase_between {l l' : List Addr} {q r : Addr} (h : (l ++ q :: r :: l').Nodup) :
    (l ++ q :: r :: l').erase r = l ++ q :: l' ∧ r ∉ l' := by
  obtain ⟨-, hb, hdisj⟩ := List.nodup_append.mp h
  have hrl : r ∉ l := fun hm => hdisj r hm r (.tail _ (.head _)) rfl
  have hqr : q ≠ r := fun he => (List.nodup_cons.mp hb).1 (he ▸ .head _)
  refine ⟨?_, (List.nodup_cons.mp (List.nodup_cons.mp hb).2).1⟩
  rw [List.erase_append_right _ hrl, List.erase_cons_tail (by simpa using hqr),
    List.erase_cons_head]

/-- The allocation before the released one is left with its link. -/
theorem trapStep_free_before {s s' : Resources} {q r : Addr} (hq : s.ntp q = r)
    (hhead : s.trapHeads (s.trap r) ≠ r) (hs : trapStep s (.free r) = some s') :
    s'.ntp q = r := by
  obtain ⟨e, hs⟩ := map_fst_eq_some hs
  exact ckFreeTrap_before hq hhead hs

/-- **Every run that releases the newest allocation first** keeps the chain of every vector:
it holds the vector's live allocations, each once, and an interrupt signals them in its
order. A further release takes the released one out and keeps the others in order if and only
if it is the newest of its vector. -/
theorem trap_chain_run {s₀ s : Resources} {ops : List TrapOp} (h0 : s₀.NoTraps)
    (hr : Run trapStep (fun s op => op.Legal s ∧ op.Newest s) s₀ ops s) :
    (∀ v, ∃ l, Chained NIL s.ntp (s.trapHeads v) l ∧ l.Nodup ∧
        (∀ r, r ∈ l ↔ s.allocated r = true ∧ s.trap r = v) ∧
        s.ckForwardGlobalInterrupt v = some (l.map s.signalOf)) ∧
      (∀ r s', r ≠ NIL → s.allocated r = true → trapStep s (.free r) = some s' →
        ((∀ v l, Chained NIL s.ntp (s.trapHeads v) l →
          Chained NIL s'.ntp (s'.trapHeads v) (l.erase r)) ↔ s.trapHeads (s.trap r) = r)) ∧
      ∀ op : TrapOp, op.Legal s → op.Newest s → (trapStep s op).isSome := by
  obtain ⟨chains, h⟩ : ∃ chains, TrapChains s chains :=
    hr.invariant (I := fun s => ∃ chains, TrapChains s chains)
      (fun ⟨_, h⟩ hl hs => trapStep_chains h hl.1 hl.2 hs) ⟨_, h0.chains⟩
  refine ⟨fun v => ⟨chains v, h.chained v, h.nodup v, h.mem v, ?_⟩, fun r s' hnil hlive hs =>
    ⟨fun hkeeps => ?_, fun hhead v l hl => ?_⟩, fun op _ hn => trapStep_isSome h.unlocked hn⟩
  · exact forwardFrom_chained _ _ (h.chained v) (Nat.lt_succ_of_le (h.bound v))
  · by_contra hhead
    -- the allocation before the released one keeps its link, which is to the released one
    obtain ⟨l, q, l', hl⟩ := h.before hlive hhead
    have hc := h.chained (s.trap r)
    have hnd := h.nodup (s.trap r)
    have hc' := hkeeps (s.trap r) _ hc
    rw [hl] at hc hnd hc'
    have hq : s'.ntp q = r := trapStep_free_before hc.after.1 hhead hs
    obtain ⟨herase, hnot⟩ := erase_between hnd
    rw [herase] at hc'
    have hbad := hc'.after
    rw [hq] at hbad
    cases l' with
    | nil => exact hnil hbad
    | cons y l' => exact hnot (hbad.1 ▸ List.mem_cons_self)
  · obtain ⟨e, hs⟩ := map_fst_eq_some hs
    obtain rfl := hl.unique (h.chained v)
    exact (h.removed (ckFreeTrap_removed hhead hs) hlive hhead).chained v

/-- Thread 64 allocates vector 0x30 for a signal of priority 5. -/
def allocTrap30 (ckres : Addr) : TrapOp :=
  .alloc (fun v => decide (v = 64)) 40
    { channel := 0, trap := 0x30#32, sigThread := 64, priority := 5, base := 0, limit := 0 }
    64 0 { ckres := ckres, start := 0 }

theorem trap_chain_run_two : ∃ s, Run trapStep (fun s op => op.Legal s ∧ op.Newest s)
      resourcesAtBoot [allocTrap30 100, allocTrap30 200] s ∧
    (∃ l, Chained NIL s.ntp (s.trapHeads 0x30#32) l ∧ l.Nodup ∧
      (∀ r, r ∈ l ↔ s.allocated r = true ∧ s.trap r = 0x30#32) ∧
      s.ckForwardGlobalInterrupt 0x30#32 = some (l.map s.signalOf)) := by
  obtain ⟨s, hr, -⟩ := Run.of_exec_any
    (show (exec trapStep (fun s op => op.Legal s ∧ op.Newest s) resourcesAtBoot
      [allocTrap30 100, allocTrap30 200]).any (fun _ => true) = true by decide +kernel)
  exact ⟨s, hr, (trap_chain_run ⟨fun _ => rfl, fun _ => rfl, rfl⟩ hr).1 _⟩

/-- Two allocations of one vector, the older one released first: its record stays in the
chain, and an interrupt goes on through it. -/
theorem ckFreeTrap_keeps_freed : ∃ s, Run trapStep (fun s op => op.Legal s) resourcesAtBoot
      [allocTrap30 100, allocTrap30 200, .free 100] s ∧
    s.allocated 100 = false ∧ Chained NIL s.ntp (s.trapHeads 0x30#32) [200, 100] ∧
    s.ckForwardGlobalInterrupt 0x30#32 = some [(64, 5), (64, 5)] := by
  obtain ⟨s, hr, hp⟩ := Run.of_exec_any
    (show (exec trapStep (fun s op => op.Legal s) resourcesAtBoot
      [allocTrap30 100, allocTrap30 200, .free 100]).any
        (fun s => decide (s.allocated 100 = false ∧
          Chained NIL s.ntp (s.trapHeads 0x30#32) [200, 100] ∧
          s.ckForwardGlobalInterrupt 0x30#32 = some [(64, 5), (64, 5)])) = true by decide +kernel)
  exact ⟨s, hr, of_decide_eq_true hp⟩

end Alliance.CK
