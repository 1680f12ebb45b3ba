import Alliance.CK.FailedCaching
import Alliance.CK.SchedMembership

/-!
# Room in the fixed tables

The object manager and the scheduler together: a load adds edges to the dependency table, and a
call that makes a thread runnable adds an event to a heap. Neither `CKaddObjectDep` nor `CKsiftup`
looks whether its array is full, and none of their callers does. `KernelOp.Room` says of every
operation when what it adds has room; an operation that has none writes behind the array
(`tables_run`).
-/

namespace Alliance.CK

open Function Lib

structure Kernel where
  objects : ObjectManager
  sched : Sched

/-- A load, with what it gets from outside, or a call of the scheduler. -/
inductive KernelOp where
  | cache (signature : ObjectSignature) (object : Addr) (u : UserObject) (flags : UDATA)
    (env : LoadEnv)
  | call (op : SchedOp)

/-- A new thread is known to the scheduler when its load has gone through. -/
def Kernel.cached (s : Kernel) (signature : ObjectSignature) (object : Addr) (u : UserObject)
    (env : LoadEnv) (r : ObjectManager × DATA) : Kernel where
  objects := r.1
  sched :=
    if signature = .SIGTHREAD ∧ r.2 = 0#32 then
      ckLoadThread s.sched env.ckobject object u.quantum u.defer (r.1.interruptable object)
    else s.sched

def Kernel.scheduled (s : Kernel) (sched : Sched) : Kernel :=
  ⟨{ s.objects with currtask := sched.currtask }, sched⟩

def kernelStep (s : Kernel) : KernelOp → Option Kernel
  | .cache signature object u flags env =>
    (s.objects.ckCacheObject signature object u flags env).map (s.cached signature object u env)
  | .call op => (schedStep s.sched op).map s.scheduled

/-- The scheduling part of loading and unloading. -/
def SchedOp.Caches : SchedOp → Prop
  | .loadThread .. | .unloadThread _ => True
  | _ => False

/-- The allocator gives a thread memory in which no thread is, and the scheduler is called as in
`Sched`, by other calls than those that load and unload. -/
def KernelOp.Legal (s : Kernel) : KernelOp → Prop
  | .cache signature object u _ env => signature = .SIGTHREAD → env.ckobject ≠ NIL →
      SchedOp.Legal s.sched (.loadThread env.ckobject object u.quantum u.defer 0)
  | .call op => op.Legal s.sched ∧ ¬ op.Caches

namespace ObjectManager

/-- The load goes through up to its edges. -/
def Accepts (s : ObjectManager) (signature : ObjectSignature) (u : UserObject) (flags : UDATA)
    (env : LoadEnv) : Prop :=
  flags &&& OFLOCKED = 0#32 ∧ env.ckobject ≠ NIL ∧
    match signature with
    | .SIGTHREAD => (u.addressSpace ≠ NIL ∧ s.ckValidAddrSpc u.addressSpace) ∧
        (u.quantum ≠ 0#32 ∧ u.defer ≠ 0#32) ∧ ¬ s.BadKernel u.parentKernel ∧ env.error = 0#32
    | .SIGADDRSPC => ¬ s.BadKernel u.parentKernel ∧ env.error = 0#32
    | .SIGKERNEL => (u.addrSpace ≠ NIL ∧ s.ckValidAddrSpc u.addrSpace) ∧ u.sigHandler ≠ NIL ∧
        env.error = 0#32
    | .SIGSHMEM => env.shMem ≠ NIL

/-- The number of edges that the load adds. -/
def newEdges (s : ObjectManager) (signature : ObjectSignature) (u : UserObject) : Nat :=
  match signature with
  | .SIGTHREAD => if s.parentKernelFor u.parentKernel ≠ NIL then 2 else 1
  | .SIGADDRSPC => if s.parentKernelFor u.parentKernel ≠ NIL then 1 else 0
  | .SIGKERNEL => 0
  | .SIGSHMEM => 1

end ObjectManager

/-- What the operation adds to a table has room in it. -/
def KernelOp.Room (s : Kernel) : KernelOp → Prop
  | .cache signature _ u flags env => s.objects.Accepts signature u flags env →
      s.objects.odg.lastDep + s.objects.newEdges signature u ≤ MAXDEPS
  | .call op => op.Fits s.sched

/-- The last used pointers are inside their arrays. -/
structure Kernel.InTables (s : Kernel) : Prop where
  lastDep : s.objects.odg.lastDep ≤ MAXDEPS
  heapLast : ∀ ht, s.sched.heaps.used ht ≤ MAXEVENTS

/-! ## Adding edges -/

theorem makeRoom_lastDep (g : ODG) (parent : Addr) (n : Nat) :
    (makeRoom g parent n).1.lastDep = g.lastDep := by
  induction n generalizing g with
  | zero => rfl
  | succ n ih =>
    rw [makeRoom]
    split
    · rw [ih, ODG.lastDep_setDep]
      split
      · rw [ODG.lastDep_setFirst]
      · rfl
    · rfl

theorem ckAddObjectDep_room (g : ODG) (p c : Addr) :
    (g.lastDep < MAXDEPS ∧ ∃ g', ckAddObjectDep g p c = some g' ∧ g'.lastDep = g.lastDep + 1) ∨
      (MAXDEPS ≤ g.lastDep ∧ ckAddObjectDep g p c = none) := by
  unfold ckAddObjectDep
  split
  · next hlt =>
    refine .inl ⟨hlt, _, rfl, ?_⟩
    split
    · rw [ODG.lastDep_setFirst, ODG.lastDep_setDep, makeRoom_lastDep, ODG.lastDep_setDependencies,
        ODG.lastDep_setLastDep]
    · rw [ODG.lastDep_setDep, makeRoom_lastDep, ODG.lastDep_setDependencies,
        ODG.lastDep_setLastDep]
  · next hlt => exact .inr ⟨Nat.le_of_not_lt hlt, rfl⟩

/-- Adding edges one by one goes on until the table is full. -/
theorem foldlM_ckAddObjectDep_room (c : Addr) (ps : List Addr) (g : ODG)
    (hg : g.lastDep ≤ MAXDEPS) :
    (g.lastDep + ps.length ≤ MAXDEPS ∧ ∃ g',
        ps.foldlM (fun g p => ckAddObjectDep g p c) g = some g' ∧
        g'.lastDep = g.lastDep + ps.length) ∨
      (MAXDEPS < g.lastDep + ps.length ∧
        ps.foldlM (fun g p => ckAddObjectDep g p c) g = none) := by
  induction ps generalizing g with
  | nil => exact .inl ⟨hg, g, rfl, rfl⟩
  | cons p ps ih =>
    rw [List.foldlM_cons, List.length_cons]
    rcases ckAddObjectDep_room g p c with ⟨hlt, g₁, hg₁, hlast⟩ | ⟨hge, hnone⟩
    · rw [hg₁]
      simp only [Option.bind_eq_bind, Option.bind_some]
      rcases ih g₁ (by omega) with ⟨hle, g', hg', hlast'⟩ | ⟨hgt, hnone⟩
      · exact .inl ⟨by omega, g', hg', by omega⟩
      · exact .inr ⟨by omega, hnone⟩
    · rw [hnone]
      exact .inr ⟨by omega, rfl⟩

namespace ObjectManager

variable {s : ObjectManager} {k : ObjectSignature} {object c : Addr} {u : UserObject}
  {flags : UDATA} {env : LoadEnv}

/-- Linking a header does not touch what a load reads. -/
theorem linkObject_same (s : ObjectManager) (k : ObjectSignature) (object : Addr) (flags : UDATA)
    (c : Addr) :
    (s.linkObject k object flags c).odg.lastDep = s.odg.lastDep ∧
      (s.linkObject k object flags c).body = s.body ∧
      (s.linkObject k object flags c).currtask = s.currtask := by
  unfold linkObject
  dsimp only
  split <;> exact ⟨rfl, rfl, rfl⟩

theorem parentKernelFor_linkObject (s : ObjectManager) (k : ObjectSignature) (object : Addr)
    (flags : UDATA) (c kernel : Addr) :
    (s.linkObject k object flags c).parentKernelFor kernel = s.parentKernelFor kernel := by
  obtain ⟨-, hbody, hcurr⟩ := linkObject_same s k object flags c
  rw [parentKernelFor, parentKernelFor, hbody, hcurr]

/-- What a load comes to that is accepted on the condition `p` and then adds `n` edges. -/
inductive LoadOutcome (s : ObjectManager) (p : Prop) (n : Nat) :
    Option (ObjectManager × DATA) → Prop
  | refused (s' : ObjectManager) (e : DATA) : ¬ p → e ≠ 0#32 →
      s'.odg.lastDep = s.odg.lastDep → LoadOutcome s p n (some (s', e))
  | done (s' : ObjectManager) : p → s.odg.lastDep + n ≤ MAXDEPS →
      s'.odg.lastDep = s.odg.lastDep + n → LoadOutcome s p n (some (s', 0#32))
  | full : p → MAXDEPS < s.odg.lastDep + n → LoadOutcome s p n none

variable {p : Prop} {n : Nat} {e : DATA} {r : Option (ObjectManager × DATA)}

/-- A check that fails. -/
theorem LoadOutcome.ite {b : Prop} [Decidable b] (hp : b → ¬ p) (he : e ≠ 0#32)
    (h : ¬ b → LoadOutcome s p n r) : LoadOutcome s p n (if b then some (s, e) else r) := by
  by_cases hb : b
  · rw [if_pos hb]
    exact .refused s e (hp hb) he rfl
  · rw [if_neg hb]
    exact h hb

/-- The end of a load, from the state `s₁` in which its header is filled in. -/
theorem finishLoad_outcome {s₁ : ObjectManager} (hlast : s₁.odg.lastDep = s.odg.lastDep)
    (h : s.odg.lastDep ≤ MAXDEPS) (hp : p ↔ e = 0#32)
    (hn : ((s₁.body c).parents k).length = n) :
    LoadOutcome s p n (s₁.finishLoad k object c e) := by
  by_cases he : e = 0#32
  · subst he
    rw [finishLoad, if_neg (by simp), addDeps, Option.map_map]
    rcases foldlM_ckAddObjectDep_room c ((s₁.body c).parents k) s₁.odg (hlast ▸ h) with
      ⟨hle, g', hg', hlast'⟩ | ⟨hgt, hnone⟩
    · rw [hn, hlast] at hle hlast'
      rw [hg']
      exact .done _ (hp.mpr rfl) hle hlast'
    · rw [hn, hlast] at hgt
      rw [hnone]
      exact .full (hp.mpr rfl) hgt
  · rw [finishLoad_of_ne he]
    exact .refused _ e (fun h0 => he (hp.mp h0)) he hlast

theorem ckLoadThreadObject_outcome (h : s.odg.lastDep ≤ MAXDEPS) :
    LoadOutcome s (s.Accepts .SIGTHREAD u flags env) (s.newEdges .SIGTHREAD u)
      (s.ckLoadThreadObject object u flags env) := by
  unfold ckLoadThreadObject
  refine .ite (fun hb ha => hb ha.1) (by decide) fun hflags => ?_
  refine .ite (fun hb ha => hb.elim ha.2.2.1.1 fun hn => hn ha.2.2.1.2) (by decide) fun haddr => ?_
  refine .ite (fun hb ha => hb.elim ha.2.2.2.1.1 ha.2.2.2.1.2) (by decide) fun hparms => ?_
  refine .ite (fun hb ha => ha.2.2.2.2.1 hb) (by decide) fun hker => ?_
  refine .ite (fun hb ha => ha.2.1 hb) (by decide) fun hnil => ?_
  dsimp only
  refine finishLoad_outcome (linkObject_same s .SIGTHREAD object flags env.ckobject).1 h ?_ ?_
  · refine ⟨fun ha => ha.2.2.2.2.2, fun he => ⟨not_not.mp hflags, hnil, ?_, ?_, hker, he⟩⟩
    · exact ⟨fun h0 => haddr (.inl h0), not_not.mp fun h0 => haddr (.inr h0)⟩
    · exact ⟨fun h0 => hparms (.inl h0), fun h0 => hparms (.inr h0)⟩
  · dsimp only [setInterruptable, setBody]
    rw [update_self, parentKernelFor_linkObject]
    unfold newEdges ObjectBody.parents
    dsimp only
    split <;> rfl

theorem ckLoadAddrSpcObject_outcome (h : s.odg.lastDep ≤ MAXDEPS) :
    LoadOutcome s (s.Accepts .SIGADDRSPC u flags env) (s.newEdges .SIGADDRSPC u)
      (s.ckLoadAddrSpcObject object u flags env) := by
  unfold ckLoadAddrSpcObject
  refine .ite (fun hb ha => hb ha.1) (by decide) fun hflags => ?_
  refine .ite (fun hb ha => ha.2.2.1 hb) (by decide) fun hker => ?_
  refine .ite (fun hb ha => ha.2.1 hb) (by decide) fun hnil => ?_
  dsimp only
  refine finishLoad_outcome (linkObject_same s .SIGADDRSPC object flags env.ckobject).1 h ?_ ?_
  · exact ⟨fun ha => ha.2.2.2, fun he => ⟨not_not.mp hflags, hnil, hker, he⟩⟩
  · dsimp only [setInterruptable, setBody]
    rw [update_self, parentKernelFor_linkObject]
    unfold newEdges ObjectBody.parents
    dsimp only
    split <;> rfl

theorem ckLoadKernelObject_outcome (h : s.odg.lastDep ≤ MAXDEPS) :
    LoadOutcome s (s.Accepts .SIGKERNEL u flags env) (s.newEdges .SIGKERNEL u)
      (s.ckLoadKernelObject object u flags env) := by
  unfold ckLoadKernelObject
  refine .ite (fun hb ha => hb ha.1) (by decide) fun hflags => ?_
  refine .ite (fun hb ha => hb.elim ha.2.2.1.1 fun hn => hn ha.2.2.1.2) (by decide) fun haddr => ?_
  refine .ite (fun hb ha => ha.2.2.2.1 hb) (by decide) fun hhandler => ?_
  refine .ite (fun hb ha => ha.2.1 hb) (by decide) fun hnil => ?_
  dsimp only
  refine finishLoad_outcome (linkObject_same s .SIGKERNEL object flags env.ckobject).1 h ?_ rfl
  refine ⟨fun ha => ha.2.2.2.2, fun he => ⟨not_not.mp hflags, hnil, ?_, hhandler, he⟩⟩
  exact ⟨fun h0 => haddr (.inl h0), not_not.mp fun h0 => haddr (.inr h0)⟩

theorem ckLoadSHMemObject_outcome (h : s.odg.lastDep ≤ MAXDEPS) :
    LoadOutcome s (s.Accepts .SIGSHMEM u flags env) (s.newEdges .SIGSHMEM u)
      (s.ckLoadSHMemObject object flags env) := by
  unfold ckLoadSHMemObject
  refine .ite (fun hb ha => hb ha.1) (by decide) fun hflags => ?_
  refine .ite (fun hb ha => ha.2.1 hb) (by decide) fun hnil => ?_
  dsimp only
  have hlast := (linkObject_same s .SIGSHMEM object flags env.ckobject).1
  by_cases hshm : env.shMem = NIL
  · rw [if_pos hshm, if_pos hshm]
    exact finishLoad_outcome hlast h ⟨fun ha => absurd hshm ha.2.2, fun he => absurd he (by decide)⟩
      rfl
  · rw [if_neg hshm, if_neg hshm]
    exact finishLoad_outcome hlast h ⟨fun _ => rfl, fun _ => ⟨not_not.mp hflags, hnil, hshm⟩⟩ rfl

/-- **A load and the dependency table.** A load that is not accepted reports an error and adds
nothing; one that is accepted adds its edges, as long as they have room. -/
theorem ckCacheObject_room (h : s.odg.lastDep ≤ MAXDEPS) (k : ObjectSignature) (object : Addr)
    (u : UserObject) (flags : UDATA) (env : LoadEnv) :
    LoadOutcome s (s.Accepts k u flags env) (s.newEdges k u)
      (s.ckCacheObject k object u flags env) := by
  cases k with
  | SIGTHREAD => exact ckLoadThreadObject_outcome h
  | SIGADDRSPC => exact ckLoadAddrSpcObject_outcome h
  | SIGKERNEL => exact ckLoadKernelObject_outcome h
  | SIGSHMEM => exact ckLoadSHMemObject_outcome h

end ObjectManager

/-! ## Runs -/

variable {s s' : Kernel} {op : KernelOp} {ops : List KernelOp}

/-- What operations that find room keep. -/
structure Kernel.Sound (s : Kernel) : Prop where
  lastDep : s.objects.odg.lastDep ≤ MAXDEPS
  members : s.sched.Members

theorem Kernel.Sound.inTables (h : s.Sound) : s.InTables := ⟨h.lastDep, h.members.room⟩

/-- **One operation** stays in the tables if and only if it finds room. -/
theorem kernelStep_room (h : s.Sound) (hl : op.Legal s) :
    (op.Room s ∧ ∃ s', kernelStep s op = some s' ∧ s'.Sound) ∨
      (¬ op.Room s ∧ kernelStep s op = none) := by
  cases op with
  | cache k object u flags env =>
    have hload := ObjectManager.ckCacheObject_room h.lastDep k object u flags env
    rw [kernelStep]
    generalize s.objects.ckCacheObject k object u flags env = r at hload
    cases hload with
    | refused o e hp he hlast =>
      refine .inl ⟨fun ha => absurd ha hp, _, rfl, hlast.trans_le h.lastDep, ?_⟩
      rw [Kernel.cached]
      dsimp only
      rw [if_neg fun hk => he hk.2]
      exact h.members
    | done o hp hroom hlast =>
      refine .inl ⟨fun _ => hroom, _, rfl, hlast.trans_le hroom, ?_⟩
      rw [Kernel.cached]
      dsimp only
      split
      · next hk =>
        obtain ⟨hfree, hidle, hzombie⟩ := hl hk.1 hp.2.1
        exact h.members.loadThread (by simpa using hfree) hidle hzombie
      · exact h.members
    | full hp hfull => exact .inr ⟨fun hroom => absurd (hroom hp) (Nat.not_le.mpr hfull), rfl⟩
  | call op =>
    rw [kernelStep]
    by_cases hfit : op.Fits s.sched
    · obtain ⟨sched, hs, hm⟩ := schedStep_members h.members hl.1 hfit
      rw [hs]
      exact .inl ⟨hfit, s.scheduled sched, rfl, h.lastDep, hm⟩
    · rw [schedStep_none h.members hl.1 hfit]
      exact .inr ⟨hfit, rfl⟩

/-- The Cache Kernel when the scheduler starts. -/
def kernelAtBoot : Kernel where
  objects := { objectManagerAtBoot with currtask := idleLoop }
  sched := schedAtBoot

theorem kernelAtBoot_sound : kernelAtBoot.Sound := ⟨Nat.zero_le _, schedAtBoot_atBoot.members⟩

theorem kernelStep_sound (h : s.Sound) (hl : op.Legal s) (hs : kernelStep s op = some s') :
    s'.Sound := by
  rcases kernelStep_room h hl with ⟨_, s₁, hs₁, h₁⟩ | ⟨_, hnone⟩
  · rw [hs₁] at hs
    exact Option.some.inj hs ▸ h₁
  · rw [hnone] at hs
    exact absurd hs (by simp)

/-- **The fixed tables over runs.** From boot, in every run of loads and scheduler calls whose
operations find room, the last used pointers stay inside their arrays; and a further operation
stays inside them if and only if it finds room. One that does not is not refused. -/
theorem tables_run
    (hr : Run kernelStep (fun s op => op.Legal s ∧ op.Room s) kernelAtBoot ops s) :
    s.InTables ∧ ∀ op : KernelOp, op.Legal s →
      ((∃ s', kernelStep s op = some s' ∧ s'.InTables) ↔ op.Room s) := by
  have hsound : s.Sound :=
    hr.invariant (fun h hl hs => kernelStep_sound h hl.1 hs) kernelAtBoot_sound
  refine ⟨hsound.inTables, fun op hl => ?_⟩
  rcases kernelStep_room hsound hl with ⟨hroom, s', hs', h'⟩ | ⟨hroom, hnone⟩
  · exact ⟨fun _ => hroom, fun _ => ⟨s', hs', h'.inTables⟩⟩
  · refine ⟨fun ⟨s', hs', _⟩ => ?_, fun hr => absurd hr hroom⟩
    rw [hnone] at hs'
    exact absurd hs' (by simp)

/-- A thread in an address space is made running. -/
def runThread : List KernelOp :=
  [.cache .SIGADDRSPC 1000 ⟨NIL, NIL, 0, 0, NIL, NIL⟩ 0 ⟨64, 0, 1⟩,
    .cache .SIGTHREAD 1200 ⟨64, NIL, 1, 1, NIL, NIL⟩ 0 ⟨192, 0, 1⟩,
    .call (.setThreadState 192 .running)]

theorem tables_run_runThread : ∃ s,
    Run kernelStep (fun s op => op.Legal s ∧ op.Room s) kernelAtBoot runThread s ∧ s.InTables ∧
      ((∃ s', kernelStep s (.call (.setThreadState 192 .idle)) = some s' ∧ s'.InTables) ↔
        KernelOp.Room s (.call (.setThreadState 192 .idle))) := by
  have hr : Run kernelStep (fun s op => op.Legal s ∧ op.Room s) kernelAtBoot runThread _ :=
    .cons ⟨nofun, fun _ => by decide⟩ rfl
      (.cons ⟨fun _ _ => ⟨by decide, by decide, by decide⟩, fun _ => by decide⟩ rfl
        (.cons ⟨⟨by show _ = true; decide, id⟩, fun _ => by decide⟩ rfl (.nil _)))
  obtain ⟨htables, hroom⟩ := tables_run hr
  exact ⟨_, hr, htables, hroom _ ⟨by show _ = true; decide, id⟩⟩

/-! ## A table that is full -/

namespace ObjectManager

theorem signature_linkObject (s : ObjectManager) (k : ObjectSignature) (object : Addr)
    (flags : UDATA) {c v : Addr} (hv : v ≠ c) :
    (s.linkObject k object flags c).signature v = s.signature v := by
  have hnew : ((s.setAllocated c true).setHeader c ⟨k, flags, object, NIL, s.objHead k, 0, 0⟩).signature
      v = s.signature v :=
    congrArg ObjectHeader.objectSignature (update_of_ne hv _ _)
  unfold linkObject
  dsimp only
  split
  · rw [← hnew]
    exact congrFun (SameBut.setNext _ _ _).signature v
  · exact hnew

/-- Loading an address space leaves the other headers' kinds alone. -/
theorem signature_ckLoadAddrSpcObject {s s' : ObjectManager} {object v : Addr} {u : UserObject}
    {flags : UDATA} {env : LoadEnv} {e : DATA}
    (hs : s.ckLoadAddrSpcObject object u flags env = some (s', e)) (hv : v ≠ env.ckobject) :
    s'.signature v = s.signature v := by
  have hrefused : ∀ {x : DATA}, some (s, x) = some (s', e) → s'.signature v = s.signature v := by
    intro x hx
    obtain rfl := congrArg Prod.fst (Option.some.inj hx)
    rfl
  unfold ckLoadAddrSpcObject at hs
  split at hs
  · exact hrefused hs
  split at hs
  · exact hrefused hs
  split at hs
  · exact hrefused hs
  dsimp only at hs
  rw [← signature_linkObject s .SIGADDRSPC object flags hv]
  by_cases he : env.error = 0#32
  · rw [he] at hs
    exact congrFun (finishLoad_zero hs).2.2.2 v
  · rw [finishLoad_of_ne he] at hs
    obtain rfl := congrArg Prod.fst (Option.some.inj hs)
    rfl

end ObjectManager

/-- An address space with a kernel in it. -/
def kernelInSpace : List KernelOp :=
  [.cache .SIGADDRSPC 1000 ⟨NIL, NIL, 0, 0, NIL, NIL⟩ 0 ⟨64, 0, 1⟩,
    .cache .SIGKERNEL 1100 ⟨NIL, NIL, 0, 0, 64, 9⟩ 0 ⟨128, 0, 1⟩]

/-- The address of the `n`-th address space of the kernel. -/
def nthAddrSpc (n : Nat) : Addr := 4096 + 64 * n

/-- Load the `n`-th address space of the kernel at 128. -/
def loadAddrSpc (n : Nat) : KernelOp :=
  .cache .SIGADDRSPC 1000 ⟨NIL, 128, 0, 0, NIL, NIL⟩ 0 ⟨nthAddrSpc n, 0, 1⟩

theorem loadAddrSpc_legal (s : Kernel) (n : Nat) : (loadAddrSpc n).Legal s := nofun

/-- The load is accepted and has one edge to add. -/
theorem loadAddrSpc_accepts {o : ObjectManager} (n : Nat) (h : o.signature 128 = .SIGKERNEL) :
    o.Accepts .SIGADDRSPC ⟨NIL, 128, 0, 0, NIL, NIL⟩ 0 ⟨nthAddrSpc n, 0, 1⟩ ∧
      o.newEdges .SIGADDRSPC ⟨NIL, 128, 0, 0, NIL, NIL⟩ = 1 := by
  have hnth : nthAddrSpc n ≠ NIL := Nat.ne_of_gt (show 0 < 4096 + 64 * n by omega)
  have hkernel : o.parentKernelFor 128 = 128 := if_pos (by decide)
  refine ⟨⟨by decide, hnth, fun hb => hb.2.2 h, rfl⟩, ?_⟩
  show (if o.parentKernelFor 128 ≠ NIL then 1 else 0) = 1
  rw [hkernel]
  rfl

/-- As many address spaces as the table has slots can be loaded. -/
theorem loads_addrSpcs (n : Nat) : n ≤ MAXDEPS → ∃ s,
    Run kernelStep (fun s op => op.Legal s) kernelAtBoot
      (kernelInSpace ++ (List.range n).map loadAddrSpc) s ∧
    s.Sound ∧ s.objects.odg.lastDep = n ∧ s.objects.signature 128 = .SIGKERNEL := by
  induction n with
  | zero =>
    intro _
    have hr : Run kernelStep (fun s op => op.Legal s) kernelAtBoot kernelInSpace _ :=
      .cons nofun rfl (.cons nofun rfl (.nil _))
    refine ⟨_, hr, ?_, by decide, by decide⟩
    exact hr.invariant (fun h hl hs => kernelStep_sound h hl hs) kernelAtBoot_sound
  | succ n ih =>
    intro hn
    obtain ⟨s, hr, hsound, hlast, hkernel⟩ := ih (by omega)
    obtain ⟨haccepts, hedges⟩ := loadAddrSpc_accepts n hkernel
    have hload := ObjectManager.ckCacheObject_room hsound.lastDep .SIGADDRSPC 1000
      ⟨NIL, 128, 0, 0, NIL, NIL⟩ 0 ⟨nthAddrSpc n, 0, 1⟩
    generalize ho : s.objects.ckCacheObject .SIGADDRSPC 1000 ⟨NIL, 128, 0, 0, NIL, NIL⟩ 0
      ⟨nthAddrSpc n, 0, 1⟩ = r at hload
    cases hload with
    | refused o e hp _ _ => exact absurd haccepts hp
    | done o _ _ hlast' =>
      have hs : kernelStep s (loadAddrSpc n) = some (s.cached .SIGADDRSPC 1000
          ⟨NIL, 128, 0, 0, NIL, NIL⟩ ⟨nthAddrSpc n, 0, 1⟩ (o, 0#32)) :=
        congrArg (Option.map _) ho
      have hne : 128 ≠ nthAddrSpc n := Nat.ne_of_lt (show 128 < 4096 + 64 * n by omega)
      refine ⟨_, ?_, kernelStep_sound hsound (loadAddrSpc_legal s n) hs, ?_, ?_⟩
      · rw [List.range_succ, List.map_append, ← List.append_assoc]
        exact hr.snoc (loadAddrSpc_legal s n) hs
      · show o.odg.lastDep = n + 1
        rw [hlast', hlast, hedges]
      · exact (ObjectManager.signature_ckLoadAddrSpcObject ho hne).trans hkernel
    | full _ hfull =>
      rw [hlast, hedges] at hfull
      exact absurd hfull (Nat.not_lt.mpr hn)

/-- One more address space than the table has slots writes behind it. -/
theorem dependency_table_overflows : ∃ s,
    Run kernelStep (fun s op => op.Legal s) kernelAtBoot
      (kernelInSpace ++ (List.range MAXDEPS).map loadAddrSpc) s ∧
    s.objects.odg.lastDep = MAXDEPS ∧ (loadAddrSpc MAXDEPS).Legal s ∧
    kernelStep s (loadAddrSpc MAXDEPS) = none := by
  obtain ⟨s, hr, hsound, hlast, hkernel⟩ := loads_addrSpcs MAXDEPS le_rfl
  refine ⟨s, hr, hlast, loadAddrSpc_legal s _, ?_⟩
  rcases kernelStep_room hsound (loadAddrSpc_legal s MAXDEPS) with ⟨hroom, _⟩ | ⟨_, hnone⟩
  · obtain ⟨haccepts, hedges⟩ := loadAddrSpc_accepts MAXDEPS hkernel
    have hle := hroom haccepts
    rw [hlast, hedges] at hle
    exact absurd hle (Nat.not_succ_le_self MAXDEPS)
  · exact hnone

end Alliance.CK
