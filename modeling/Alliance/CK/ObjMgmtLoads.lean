import Alliance.CK.GraphRuns
import Alliance.CK.ObjMgmtUncache

/-!
# States built by loads

A load links a fresh header into its peer list and adds an edge from every object the new
one depends on. What it depends on was validated, or is what the running thread depends on,
so every reference that an edge stands for leads to a loaded object of the right kind:
`Built`. The one exception is the owner of shared memory, which may be one of the
scheduler's own two threads.
-/

namespace Alliance.CK

open Function Lib

/-! ## Adding edges -/

theorem Inserted.mem {e x : EDGE} {es es' : List EDGE} (h : Inserted e es es') :
    x ∈ es' ↔ x = e ∨ x ∈ es := by
  obtain ⟨xs, ys, rfl, rfl⟩ := h
  simp only [List.mem_append, List.mem_cons]
  tauto

theorem Inserted.nodup {e : EDGE} {es es' : List EDGE} (h : Inserted e es es')
    (hn : es.Nodup) (he : e ∉ es) : es'.Nodup := by
  obtain ⟨xs, ys, rfl, rfl⟩ := h
  exact List.nodup_middle.mpr (List.nodup_cons.mpr ⟨he, hn⟩)

/-- Adding edges to a new child, one by one. -/
theorem foldlM_ckAddObjectDep_edges (c : Addr) (ps : List Addr) :
    ∀ g g' : ODG, g.Indexed → g.edges.Nodup → (∀ p ∈ ps, p ≠ g.before) → ps.Nodup →
      (∀ p ∈ ps, (⟨p, c⟩ : EDGE) ∉ g.edges) →
      ps.foldlM (fun g p => ckAddObjectDep g p c) g = some g' →
      g'.Indexed ∧ g'.header = g.header ∧ g'.before = g.before ∧ g'.edges.Nodup ∧
        ∀ e, e ∈ g'.edges ↔ e ∈ g.edges ∨ e.child = c ∧ e.parent ∈ ps := by
  induction ps with
  | nil =>
    intro g g' hg hn _ _ _ hs
    obtain rfl : g = g' := Option.some.inj hs
    exact ⟨hg, rfl, rfl, hn, fun e => by simp⟩
  | cons p ps ih =>
    intro g g' hg hn hb hps hnew hs
    rw [List.foldlM_cons] at hs
    obtain ⟨g₁, h₁, hs⟩ := Option.bind_eq_some_iff.mp hs
    obtain ⟨hins, hi, hb₁, hh⟩ := ckAddObjectDep_spec hg (hb p (.head _)) h₁
    obtain ⟨hp, hps⟩ := List.nodup_cons.mp hps
    obtain ⟨hi', hh', hb', hn', hmem⟩ := ih g₁ g' hi (hins.nodup hn (hnew p (.head _)))
      (fun q hq => hb₁ ▸ hb q (.tail _ hq)) hps
      (fun q hq hm => by
        rcases hins.mem.mp hm with he | hm
        · obtain rfl : q = p := congrArg EDGE.parent he
          exact hp hq
        · exact hnew q (.tail _ hq) hm) hs
    refine ⟨hi', hh'.trans hh, hb'.trans hb₁, hn', fun e => ?_⟩
    have hx : e = ⟨p, c⟩ ↔ e.parent = p ∧ e.child = c := EDGE.ext_iff
    rw [hmem, hins.mem, hx, List.mem_cons]
    tauto

namespace ObjectManager

variable {s s' : ObjectManager} {peers : ObjectSignature → List Addr}
  {k : ObjectSignature} {c v : Addr}

/-! ## Linking a header -/

/-- What `linkObject` leaves in the headers, for a new object `c`. -/
structure LinkedIn (s : ObjectManager) (k : ObjectSignature) (c : Addr) (s' : ObjectManager) :
    Prop where
  oda : s'.odg.oda = s.odg.oda
  lastDep : s'.odg.lastDep = s.odg.lastDep
  before : s'.odg.before = s.odg.before
  dependencies : s'.odg.dependencies = update s.odg.dependencies c 0
  firstDependency : ∀ y, y ≠ c → s'.odg.firstDependency y = s.odg.firstDependency y
  signature : s'.signature = update s.signature c k
  flags : ∀ y, y ≠ c → s'.flags y = s.flags y
  next : s'.next c = NIL ∧ ∀ y, y ≠ NIL → y ≠ c →
    s'.next y = if y = s.objHead k then c else s.next y
  prev : s'.prev = update s.prev c (s.objHead k)
  objHead : s'.objHead = update s.objHead k c
  body : ∀ y, y ≠ c → s'.body y = s.body y
  currtask : s'.currtask = s.currtask
  allocated : s'.allocated = update s.allocated c true

theorem linkObject_linkedIn (s : ObjectManager) (k : ObjectSignature) (object : Addr)
    (fl : UDATA) (hc : c ≠ s.objHead k) : LinkedIn s k c (s.linkObject k object fl c) := by
  unfold linkObject
  simp only
  generalize hx : (ObjectHeader.mk k fl object NIL (s.objHead k) 0 0) = x
  generalize hs₁ : (s.setAllocated c true).setHeader c x = s₁
  have key : ∀ {β : Type} (f : ObjectHeader → β),
      (fun y => f (s₁.odg.vertex y)) = update (fun y => f (s.odg.vertex y)) c (f x) := by
    intro β f
    subst hs₁
    funext y
    by_cases hy : y = c
    · subst hy
      simp [setHeader, setAllocated]
    · simp [setHeader, setAllocated, hy]
  have hnext : s₁.next = update s.next c NIL := by
    rw [show NIL = x.nextObject by rw [← hx]]
    exact key ObjectHeader.nextObject
  have hprev : s₁.prev = update s.prev c (s.objHead k) := by
    rw [show s.objHead k = x.prevObject by rw [← hx]]
    exact key ObjectHeader.prevObject
  have hsig : s₁.signature = update s.signature c k := by
    rw [show k = x.objectSignature by rw [← hx]]
    exact key ObjectHeader.objectSignature
  have hdep : s₁.odg.dependencies = update s.odg.dependencies c 0 := by
    rw [show 0 = x.dependencies by rw [← hx]]
    exact key ObjectHeader.dependencies
  have hhead : s₁.objHead = s.objHead := by rw [← hs₁]; rfl
  generalize hs₂ : (if s.objHead k ≠ NIL then s₁.setNext (s.objHead k) c else s₁) = s₂
  have hsame : SameBut s₁ s₂ := by
    rw [← hs₂]
    split
    · exact .setNext _ _ _
    · exact .refl s₁
  have hhead₂ : s₂.objHead = s.objHead := by rw [← hs₂, ← hhead]; split <;> rfl
  have hprev₂ : s₂.prev = s₁.prev := by rw [← hs₂]; split <;> simp
  have hnext₂ : ∀ y, y ≠ NIL → s₂.next y = if y = s.objHead k then c else s₁.next y := by
    intro y hy
    rw [← hs₂]
    split
    · rw [next_setNext, update_apply]
    · next h =>
      rw [if_neg]
      exact fun he => h fun h0 => hy (he.trans h0)
  have hc₂ : s₂.next c = NIL := by
    rw [← hs₂]
    split
    · rw [next_setNext, update_of_ne hc, hnext, update_self]
    · rw [hnext, update_self]
  exact
    { oda := hsame.oda.trans (by rw [← hs₁]; rfl)
      lastDep := hsame.lastDep.trans (by rw [← hs₁]; rfl)
      before := hsame.before.trans (by rw [← hs₁]; rfl)
      dependencies := hsame.dependencies.trans hdep
      firstDependency := fun y hy => (congrFun hsame.firstDependency y).trans
        ((congrFun (key ObjectHeader.firstDependency) y).trans (update_of_ne hy _ _))
      signature := hsame.signature.trans hsig
      flags := fun y hy => (congrFun hsame.flags y).trans
        ((congrFun (key ObjectHeader.flags) y).trans (update_of_ne hy _ _))
      next := ⟨hc₂, fun y hy hyc => (hnext₂ y hy).trans (by rw [hnext, update_of_ne hyc])⟩
      prev := hprev₂.trans hprev
      objHead := by
        show update s₂.objHead k c = _
        rw [hhead₂]
      body := fun y _ => congrFun (hsame.body.trans (by rw [← hs₁]; rfl)) y
      currtask := hsame.currtask.trans (by rw [← hs₁]; rfl)
      allocated := hsame.allocated.trans (by rw [← hs₁]; rfl) }

/-- The new object is the head of its peer list; the other lists are as they were. -/
theorem LinkedIn.peers_update (h : LinkedIn s k c s') (hl : ∀ k, s.Peers k (peers k))
    (hc : ∀ k, c ∉ peers k) (h0 : c ≠ NIL) (hdisj : ∀ k', k' ≠ k → ∀ y ∈ peers k', y ∉ peers k) :
    ∀ k', s'.Peers k' (update peers k (c :: peers k) k') := by
  intro k'
  have hne0 : ∀ {k y}, y ∈ peers k → y ≠ NIL := fun hy he => (hl _).nil_notMem (he ▸ hy)
  by_cases hk : k' = k
  · subst hk
    rw [update_self]
    refine Linked.insert (a := NIL) [] (hl k') rfl ?_ h0 (fun y _ => ?_) fun y hy => ?_
    · simpa using ⟨h0, hc k'⟩
    · by_cases hy0 : y = NIL
      · subst hy0
        rw [fwd_nil, h.objHead, update_self, if_neg (Ne.symm h0), if_pos rfl]
      · rw [fwd_of_ne _ _ hy0, fwd_nil, h.prev, update_apply, if_neg hy0, fwd_of_ne _ _ hy0]
    · have hy0 : y ≠ NIL := by
        rcases List.mem_cons.mp hy with rfl | hy
        · exact h0
        · exact hne0 hy
      rw [fwd_nil]
      by_cases hyc : y = c
      · rw [if_pos hyc, hyc, h.next.1]
      · rw [if_neg hyc, h.next.2 y hy0 hyc]
  · rw [update_of_ne hk]
    refine (hl k').congr (fun y hy => ?_) fun y hy => ?_
    · rcases List.mem_cons.mp hy with rfl | hy
      · rw [fwd_nil, fwd_nil, h.objHead, update_of_ne hk]
      · rw [fwd_of_ne _ _ (hne0 hy), fwd_of_ne _ _ (hne0 hy), h.prev,
          update_of_ne fun he : y = c => hc k' (he ▸ hy)]
    · rw [h.next.2 y (hne0 hy) fun he : y = c => hc k' (he ▸ hy), if_neg]
      intro he
      have := (hl k).fwd_mem (x := NIL) (.head _)
      rw [fwd_nil, ← he] at this
      rcases List.mem_cons.mp this with h | h
      · exact hne0 hy h
      · exact hdisj k' hk y hy h

/-! ## The invariant of loads -/

/-- The two threads of the scheduler that are no objects. -/
def Special (v : Addr) : Prop := v = idleLoop ∨ v = zombietask

/-- The objects that an object of kind `k` has edges from are loaded and of their kinds. -/
def Backed (s : ObjectManager) (b : ObjectBody) : ObjectSignature → Prop
  | .SIGTHREAD => (s.Loaded b.addressSpace ∧ s.signature b.addressSpace = .SIGADDRSPC) ∧
      (b.parentKernel ≠ NIL → s.Loaded b.parentKernel ∧ s.signature b.parentKernel = .SIGKERNEL)
  | .SIGADDRSPC =>
      b.parentKernel ≠ NIL → s.Loaded b.parentKernel ∧ s.signature b.parentKernel = .SIGKERNEL
  | .SIGKERNEL => True
  | .SIGSHMEM => (s.Loaded b.owner ∧ s.signature b.owner = .SIGTHREAD) ∨ Special b.owner

/-- The running thread: none yet, one of the scheduler's own, or a loaded thread. -/
def Runs (s : ObjectManager) (v : Addr) : Prop :=
  v = NIL ∨ Special v ∨ s.Loaded v ∧ s.signature v = .SIGTHREAD

/-- **The invariant of loads.** -/
structure Built (s : ObjectManager) (peers : ObjectSignature → List Addr) : Prop where
  managed : Managed s peers
  backed : ∀ v, s.Loaded v → s.Backed (s.body v) (s.signature v)
  complete : ∀ v, s.Loaded v → ∀ p ∈ (s.body v).parents (s.signature v),
    (⟨p, v⟩ : EDGE) ∈ s.odg.edges
  runs : s.Runs s.currtask
  special : ∀ v, Special v → ¬ s.Loaded v ∧ v ≠ s.odg.before ∧ (s.body v).parentKernel = NIL
  before : ∀ v, s.Loaded v → v ≠ s.odg.before

/-- A parent is loaded, of a higher kind than its child, or one of the scheduler's threads. -/
theorem Backed.parents {b : ObjectBody} (h : s.Backed b k) {p : Addr} (hp : p ∈ b.parents k) :
    (s.Loaded p ∧ k.rank < (s.signature p).rank) ∨ Special p := by
  have hkernel : ∀ {q}, s.Loaded q ∧ s.signature q = .SIGKERNEL → k ≠ .SIGKERNEL →
      s.Loaded q ∧ k.rank < (s.signature q).rank := by
    rintro q ⟨hq, hk⟩ hne
    rw [hk]
    exact ⟨hq, by cases k <;> simp_all [ObjectSignature.rank]⟩
  cases k with
  | SIGTHREAD =>
    rcases List.mem_cons.mp hp with rfl | hp
    · exact .inl ⟨h.1.1, by rw [h.1.2]; decide⟩
    · split at hp
      · next hne =>
        obtain rfl := List.mem_singleton.mp hp
        exact .inl (hkernel (h.2 hne) (by decide))
      · simp at hp
  | SIGADDRSPC =>
    simp only [ObjectBody.parents] at hp
    split at hp
    · next hne =>
      obtain rfl := List.mem_singleton.mp hp
      exact .inl (hkernel (h hne) (by decide))
    · simp at hp
  | SIGKERNEL => simp [ObjectBody.parents] at hp
  | SIGSHMEM =>
    obtain rfl := List.mem_singleton.mp hp
    rcases h with ⟨hl, hk⟩ | h
    · exact .inl ⟨hl, by rw [hk]; decide⟩
    · exact .inr h

theorem Backed.nodup {b : ObjectBody} (h : s.Backed b k) : (b.parents k).Nodup := by
  cases k with
  | SIGTHREAD =>
    simp only [ObjectBody.parents]
    split
    · next hne =>
      -- an address space is not a kernel
      refine List.nodup_cons.mpr ⟨fun hm => ?_, List.nodup_singleton _⟩
      have := (h.2 hne).2
      rw [← List.mem_singleton.mp hm, h.1.2] at this
      exact absurd this (by decide)
    · exact List.nodup_singleton _
  | SIGADDRSPC => simp only [ObjectBody.parents]; split <;> simp
  | SIGKERNEL => exact .nil
  | SIGSHMEM => exact List.nodup_singleton _

/-- Being backed survives where the loaded objects stay loaded, with their kinds. -/
theorem Backed.mono {b : ObjectBody} (h : s.Backed b k)
    (hl : ∀ v ∈ b.parents k, s.Loaded v → s'.Loaded v ∧ s'.signature v = s.signature v) :
    s'.Backed b k := by
  have key : ∀ {v κ}, v ∈ b.parents k → s.Loaded v ∧ s.signature v = κ →
      s'.Loaded v ∧ s'.signature v = κ := fun hm hv =>
    ⟨(hl _ hm hv.1).1, (hl _ hm hv.1).2.trans hv.2⟩
  cases k with
  | SIGTHREAD =>
    refine ⟨key (.head _) h.1, fun hne => key (.tail _ ?_) (h.2 hne)⟩
    rw [if_pos hne]
    exact .head _
  | SIGADDRSPC =>
    refine fun hne => key ?_ (h hne)
    simp only [ObjectBody.parents, if_pos hne, List.mem_singleton]
  | SIGKERNEL => trivial
  | SIGSHMEM => exact h.imp_left fun hv => key (.head _) hv

theorem LinkedIn.setBody (h : LinkedIn s k c s') (b : ObjectBody) :
    LinkedIn s k c (s'.setBody c b) :=
  ⟨h.oda, h.lastDep, h.before, h.dependencies, h.firstDependency, h.signature, h.flags, h.next,
    h.prev, h.objHead, fun y hy => (update_of_ne hy _ _).trans (h.body y hy), h.currtask,
    h.allocated⟩

theorem LinkedIn.setInterruptable (h : LinkedIn s k c s') (object : Addr) (u : UDATA) :
    LinkedIn s k c (s'.setInterruptable object u) :=
  ⟨h.oda, h.lastDep, h.before, h.dependencies, h.firstDependency, h.signature, h.flags, h.next,
    h.prev, h.objHead, h.body, h.currtask, h.allocated⟩

theorem LinkedIn.loaded (h : LinkedIn s k c s') : s'.Loaded v ↔ v = c ∨ s.Loaded v := by
  rw [Loaded, h.allocated, update_apply]
  by_cases hv : v = c
  · simp [hv]
  · simp [hv, Loaded]

theorem LinkedIn.edges (h : LinkedIn s k c s') : s'.odg.edges = s.odg.edges := by
  rw [ODG.edges, ODG.edges, h.lastDep, h.oda]

/-- A header that is no parent can be filled in. -/
theorem LinkedIn.indexed (h : LinkedIn s k c s') (hi : s.odg.Indexed)
    (hc : ∀ e ∈ s.odg.edges, e.parent ≠ c) : s'.odg.Indexed where
  sorted i j hij hj := by
    rw [h.lastDep] at hj
    rw [ODG.parent, ODG.parent, h.oda]
    exact hi.sorted i j hij hj
  counted v := by
    rw [h.dependencies, h.edges, update_apply]
    split
    · next hv =>
      refine (List.countP_eq_zero.mpr fun e he => ?_).symm
      simpa [hv] using hc e he
    · exact hi.counted v
  indexed v i hlt hs := by
    rw [h.lastDep] at hlt
    have hst := (ODG.starts_congr v h.before fun j _ => by rw [h.oda]).mp hs
    rw [h.firstDependency v, hi.indexed v i hlt hst]
    exact hst.1 ▸ hc _ (ODG.mem_edges.mpr ⟨i, hlt, rfl⟩)
  before i hlt := by
    rw [h.lastDep] at hlt
    rw [ODG.parent, h.oda, h.before]
    exact hi.before i hlt

theorem Built.parent (h : Built s peers) {e : EDGE} (he : e ∈ s.odg.edges) :
    (s.Loaded e.parent ∧ (s.signature e.child).rank < (s.signature e.parent).rank) ∨
      Special e.parent :=
  (h.backed _ (h.managed.child e he)).parents (h.managed.parent e he)

/-- What a load leaves: a new object `c` of kind `k` with the fields `b`, at the head of its
peers and with an edge from each of its parents. The address space of a kernel is no parent,
and the owner of shared memory is the running thread. -/
structure Entered (s : ObjectManager) (peers : ObjectSignature → List Addr) (k : ObjectSignature)
    (c : Addr) (b : ObjectBody) (s' : ObjectManager) : Prop where
  free : s.Free c
  backed : s.Backed b k
  addrSpace : k = .SIGKERNEL → s.Loaded b.addrSpace
  owner : k = .SIGSHMEM → b.owner = s.currtask
  loaded : ∀ v, s'.Loaded v ↔ v = c ∨ s.Loaded v
  signature : s'.signature = update s.signature c k
  body : ∀ v, v ≠ c → s'.body v = s.body v
  new : s'.body c = b
  currtask : s'.currtask = s.currtask
  before : s'.odg.before = s.odg.before
  indexed : s'.odg.Indexed
  nodup : s'.odg.edges.Nodup
  edges : ∀ e, e ∈ s'.odg.edges ↔ e ∈ s.odg.edges ∨ e.child = c ∧ e.parent ∈ b.parents k
  linked : ∀ k', s'.Peers k' (update peers k (c :: peers k) k')

theorem Built.peer_ne (h : Built s peers) (hc : s.Free c) (k : ObjectSignature) : c ∉ peers k :=
  fun hm => hc.free ((h.managed.mem k c).mp hm).1

theorem Built.peers_disjoint (h : Built s peers) {k k' : ObjectSignature} (hk : k' ≠ k) :
    ∀ y ∈ peers k', y ∉ peers k := fun y hy hy' =>
  hk (((h.managed.mem k' y).mp hy).2.symm.trans ((h.managed.mem k y).mp hy').2)

/-- A parent is not the new object, and not the word before the table. -/
theorem Built.parents_ne (h : Built s peers) (hc : s.Free c) {b : ObjectBody} (hb : s.Backed b k)
    {p : Addr} (hp : p ∈ b.parents k) : p ≠ c ∧ p ≠ s.odg.before := by
  rcases hb.parents hp with ⟨hlp, -⟩ | hsp
  · exact ⟨fun he => hc.free (he ▸ hlp), h.before p hlp⟩
  · refine ⟨?_, (h.special p hsp).2.1⟩
    rintro rfl
    exact hsp.elim hc.idle hc.zombie

/-- A load that went through enters the new object. -/
theorem Built.entered {s₁ : ObjectManager} {object : Addr} {b : ObjectBody} {e : DATA}
    (h : Built s peers) (hc : s.Free c) (hl : LinkedIn s k c s₁) (hs₁ : s₁.body c = b)
    (hs : s₁.finishLoad k object c 0#32 = some (s', e)) (hb : s.Backed b k)
    (haddr : k = .SIGKERNEL → s.Loaded b.addrSpace)
    (howner : k = .SIGSHMEM → b.owner = s.currtask) : Entered s peers k c b s' := by
  subst hs₁
  obtain ⟨g', hg', rfl⟩ : ∃ g', ((s₁.body c).parents k).foldlM (fun g p => ckAddObjectDep g p c)
      s₁.odg = some g' ∧ s' = (s₁.setODG g').setSelf object c := by
    rw [finishLoad, if_neg (by simp), addDeps, Option.map_map] at hs
    obtain ⟨g', hg', hs'⟩ := Option.map_eq_some_iff.mp hs
    exact ⟨g', hg', (congrArg Prod.fst hs').symm⟩
  have hchild : ∀ e ∈ s.odg.edges, e.child ≠ c := fun e he hec =>
    hc.free (hec ▸ h.managed.child e he)
  obtain ⟨hi, hh, hbef, hn, hmem⟩ := foldlM_ckAddObjectDep_edges c _ s₁.odg g'
    (hl.indexed h.managed.indexed fun e he =>
      (h.parents_ne hc (h.backed _ (h.managed.child e he)) (h.managed.parent e he)).1)
    (hl.edges ▸ h.managed.nodup) (fun p hp => hl.before ▸ (h.parents_ne hc hb hp).2) hb.nodup
    (fun p _ hp => hchild _ (hl.edges ▸ hp) rfl) hg'
  rw [hl.edges] at hmem
  obtain ⟨hsig, -, -, -, -⟩ := setODG_header (s := s₁) hh
  exact
    { free := hc
      backed := hb
      addrSpace := haddr
      owner := howner
      loaded := fun v => hl.loaded
      signature := hsig.trans hl.signature
      body := hl.body
      new := rfl
      currtask := hl.currtask
      before := hbef.trans hl.before
      indexed := hi
      nodup := hn
      edges := hmem
      linked := fun k' => Peers.setODG (s := s₁) (hl.peers_update h.managed.linked
        (h.peer_ne hc) hc.nil (fun _ hk' => h.peers_disjoint hk') k') hh }

section

variable {b : ObjectBody}

theorem Entered.old (hs : Entered s peers k c b s') (hv : s.Loaded v) :
    s'.Loaded v ∧ s'.signature v = s.signature v ∧ s'.body v = s.body v := by
  have hne : v ≠ c := fun he => hs.free.free (he ▸ hv)
  exact ⟨(hs.loaded v).mpr (.inr hv), by rw [hs.signature, update_of_ne hne], hs.body v hne⟩

/-- **A load** that went through keeps the invariant, if what the new object depends on is
there. -/
theorem Entered.built (hs : Entered s peers k c b s') (h : Built s peers) :
    Built s' (update peers k (c :: peers k)) := by
  have hc := hs.free
  have hsig : s'.signature c = k := by rw [hs.signature, update_self]
  have hspecial : ∀ v, Special v → ¬ s'.Loaded v ∧ v ≠ c := by
    intro v hv
    have hvc : v ≠ c := by
      rintro rfl
      exact hv.elim hc.idle hc.zombie
    exact ⟨fun hlv => ((hs.loaded v).mp hlv).elim hvc (h.special v hv).1, hvc⟩
  have hkept : ∀ p, s.Loaded p → s'.Loaded p ∧ s'.signature p = s.signature p := fun p hp =>
    ⟨(hs.old hp).1, (hs.old hp).2.1⟩
  have hbacked : ∀ v, s'.Loaded v → s'.Backed (s'.body v) (s'.signature v) := by
    intro v hv
    rcases (hs.loaded v).mp hv with rfl | hv
    · rw [hs.new, hsig]
      exact hs.backed.mono fun p _ hp => hkept p hp
    · obtain ⟨-, hsv, hbv⟩ := hs.old hv
      rw [hbv, hsv]
      exact (h.backed v hv).mono fun p _ hp => hkept p hp
  have hparents : ∀ e ∈ s'.odg.edges,
      s'.Loaded e.child ∧ e.parent ∈ (s'.body e.child).parents (s'.signature e.child) := by
    intro e he
    rcases (hs.edges e).mp he with he | ⟨hec, hp⟩
    · obtain ⟨hlc, hsc, hbc⟩ := hs.old (h.managed.child e he)
      rw [hbc, hsc]
      exact ⟨hlc, h.managed.parent e he⟩
    · rw [hec, hs.new, hsig]
      exact ⟨(hs.loaded c).mpr (.inl rfl), hp⟩
  have hmem : ∀ k' v, v ∈ update peers k (c :: peers k) k' ↔
      s'.Loaded v ∧ s'.signature v = k' := by
    intro k' v
    rw [hs.loaded]
    by_cases hv : v = c
    · subst hv
      rw [hsig]
      by_cases hk : k' = k
      · subst hk; simp
      · simp [hk, h.peer_ne hc k', Ne.symm hk]
    · have hupd : v ∈ update peers k (c :: peers k) k' ↔ v ∈ peers k' := by
        by_cases hk : k' = k
        · subst hk; simp [hv]
        · rw [update_of_ne hk]
      rw [hupd, hs.signature, update_of_ne hv, h.managed.mem]
      simp [hv]
  refine ⟨⟨hs.indexed, hs.linked, hmem, hs.nodup, fun e he => (hparents e he).1,
    fun e he => (hparents e he).2, fun e he hlp => ?_⟩, hbacked, fun v hv p hp => ?_, ?_,
    fun v hv => ?_, fun v hv => ?_⟩
  · rcases (hbacked _ (hparents e he).1).parents (hparents e he).2 with h' | hsp
    · exact h'.2
    · exact absurd hlp (hspecial _ hsp).1
  · refine (hs.edges _).mpr ?_
    rcases (hs.loaded v).mp hv with rfl | hv
    · rw [hs.new, hsig] at hp
      exact .inr ⟨rfl, hp⟩
    · obtain ⟨-, hsv, hbv⟩ := hs.old hv
      rw [hbv, hsv] at hp
      exact .inl (h.complete v hv p hp)
  · rw [hs.currtask]
    exact h.runs.imp_right (.imp_right fun hv =>
      ⟨(hkept _ hv.1).1, (hkept _ hv.1).2.trans hv.2⟩)
  · exact ⟨(hspecial v hv).1, hs.before ▸ (h.special v hv).2.1,
      hs.body v (hspecial v hv).2 ▸ (h.special v hv).2.2⟩
  · rw [hs.before]
    rcases (hs.loaded v).mp hv with rfl | hv
    · exact hc.before
    · exact h.before v hv

end

/-- The parent kernel of a new object is a loaded kernel, if it has one. -/
theorem Built.parentKernelFor {kernel : Addr} (h : Built s peers)
    (hd : kernel = ownKernel ∨ s.Descriptor kernel) (hbad : ¬ s.BadKernel kernel)
    (hq : s.parentKernelFor kernel ≠ NIL) :
    s.Loaded (s.parentKernelFor kernel) ∧ s.signature (s.parentKernelFor kernel) = .SIGKERNEL := by
  revert hq
  unfold ObjectManager.parentKernelFor
  split
  · next hown =>
    intro hq
    have hvalid : s.ckValidKernel kernel := by
      by_contra hv
      exact hbad ⟨hq, hown, hv⟩
    exact ⟨(hd.resolve_left hown).resolve_left hq, hvalid⟩
  · split
    · next hcur =>
      intro hq
      rcases h.runs with hnil | hsp | ⟨hl, hk⟩
      · exact absurd hnil hcur
      · exact absurd (h.special _ hsp).2.2 hq
      · have := h.backed _ hl
        rw [hk] at this
        exact this.2 hq
    · exact fun hq => absurd rfl hq

theorem Built.ne_currtask (h : Built s peers) (hc : s.Free c) : s.currtask ≠ c := by
  rintro rfl
  rcases h.runs with h0 | hsp | hl
  · exact hc.nil h0
  · exact hsp.elim hc.idle hc.zombie
  · exact hc.free hl.1

/-- A fresh header is linked in front of the ones there are. -/
theorem Built.linkObject (h : Built s peers) (hc : s.Free c) (k : ObjectSignature)
    (object : Addr) (fl : UDATA) : LinkedIn s k c (s.linkObject k object fl c) := by
  refine linkObject_linkedIn s k object fl fun he => ?_
  have hm := (h.managed.linked k).fwd_mem (x := NIL) (.head _)
  rw [fwd_nil, ← he] at hm
  rcases List.mem_cons.mp hm with h0 | hm
  · exact hc.nil h0
  · exact hc.free ((h.managed.mem k c).mp hm).1

/-- Linking the header does not change which kernel the new object gets. -/
theorem LinkedIn.parentKernelFor (h : LinkedIn s k c s') (hc : s.currtask ≠ c) (kernel : Addr) :
    s'.parentKernelFor kernel = s.parentKernelFor kernel := by
  rw [ObjectManager.parentKernelFor, ObjectManager.parentKernelFor, h.currtask, h.body _ hc]

end ObjectManager

/-! ## Every load keeps the invariant -/

open ObjectManager

/-- **What a load does**: nothing, where it is refused; else it enters a new object. -/
theorem ckCacheObject_entered {s s' : ObjectManager} {peers : ObjectSignature → List Addr}
    {k : ObjectSignature} {object : Addr} {u : UserObject} {fl : UDATA} {env : LoadEnv} {e : DATA}
    (h : Built s peers) (hl : (LoadOp.cache k object u fl env).Legal s)
    (hs : s.ckCacheObject k object u fl env = some (s', e)) :
    s' = s ∨ ∃ b, Entered s peers k env.ckobject b s' := by
  obtain ⟨hc, herr, hshm, hda, hdk, hds, hcur⟩ := hl
  have hrefused : ∀ {x : DATA}, some (s, x) = some (s', e) → s' = s := fun hx =>
    (congrArg Prod.fst (Option.some.inj hx)).symm
  cases k with
  | SIGTHREAD =>
    simp only [ckCacheObject, ckLoadThreadObject] at hs
    split at hs
    · exact .inl (hrefused hs)
    split at hs
    · exact .inl (hrefused hs)
    next hsp =>
    split at hs
    · exact .inl (hrefused hs)
    split at hs
    · exact .inl (hrefused hs)
    next hker =>
    split at hs
    · exact .inl (hrefused hs)
    next h0 =>
    rw [herr] at hs
    have hfree := hc.resolve_left h0
    have hlink := h.linkObject hfree .SIGTHREAD object fl
    rw [hlink.parentKernelFor (h.ne_currtask hfree)] at hs
    simp only [not_or, not_not] at hsp
    exact .inr ⟨_, h.entered hfree ((hlink.setBody _).setInterruptable _ _) (update_self _ _ _) hs
      ⟨⟨hda.resolve_left hsp.1, hsp.2⟩, h.parentKernelFor hdk hker⟩ nofun nofun⟩
  | SIGADDRSPC =>
    simp only [ckCacheObject, ckLoadAddrSpcObject] at hs
    split at hs
    · exact .inl (hrefused hs)
    split at hs
    · exact .inl (hrefused hs)
    next hker =>
    split at hs
    · exact .inl (hrefused hs)
    next h0 =>
    rw [herr] at hs
    have hfree := hc.resolve_left h0
    have hlink := h.linkObject hfree .SIGADDRSPC object fl
    rw [hlink.parentKernelFor (h.ne_currtask hfree)] at hs
    exact .inr ⟨_, h.entered hfree (hlink.setBody _) (update_self _ _ _) hs
      (h.parentKernelFor hdk hker) nofun nofun⟩
  | SIGKERNEL =>
    simp only [ckCacheObject, ckLoadKernelObject] at hs
    split at hs
    · exact .inl (hrefused hs)
    split at hs
    · exact .inl (hrefused hs)
    next hsp =>
    split at hs
    · exact .inl (hrefused hs)
    split at hs
    · exact .inl (hrefused hs)
    next h0 =>
    rw [herr] at hs
    have hfree := hc.resolve_left h0
    have hlink := h.linkObject hfree .SIGKERNEL object fl
    exact .inr ⟨_, h.entered hfree (hlink.setBody _) (update_self _ _ _) hs trivial
      (fun _ => hds.resolve_left fun h0 => hsp (.inl h0)) nofun⟩
  | SIGSHMEM =>
    simp only [ckCacheObject, ckLoadSHMemObject, if_neg hshm] at hs
    split at hs
    · exact .inl (hrefused hs)
    split at hs
    · exact .inl (hrefused hs)
    next h0 =>
    have hfree := hc.resolve_left h0
    have hlink := h.linkObject hfree .SIGSHMEM object fl
    rw [hlink.currtask] at hs
    exact .inr ⟨_, h.entered hfree (hlink.setBody _) (update_self _ _ _) hs
      (h.runs.resolve_left (hcur rfl)).symm nofun fun _ => rfl⟩

/-- Switching to another thread. -/
theorem ObjectManager.Built.dispatch {s : ObjectManager} {peers : ObjectSignature → List Addr}
    {thread : Addr}
    (h : Built s peers) (hl : (LoadOp.dispatch thread).Legal s) :
    Built { s with currtask := thread } peers := by
  refine ⟨h.managed.setCurrtask thread, h.backed, h.complete, ?_, h.special, h.before⟩
  rcases hl with hl | hl
  · exact .inr (.inr hl)
  · exact .inr (.inl hl)

/-- **One load** keeps the invariant. A load that is refused changes nothing. -/
theorem loadStep_built {s s' : ObjectManager} {peers : ObjectSignature → List Addr} {op : LoadOp}
    (h : Built s peers) (hl : op.Legal s) (hs : loadStep s op = some s') :
    ∃ peers', Built s' peers' := by
  cases op with
  | dispatch thread =>
    obtain rfl := Option.some.inj hs
    exact ⟨peers, h.dispatch hl⟩
  | cache k object u fl env =>
    obtain ⟨⟨s'', e⟩, hcache, rfl⟩ := Option.map_eq_some_iff.mp hs
    rcases ckCacheObject_entered h hl hcache with rfl | ⟨b, hent⟩
    · exact ⟨peers, h⟩
    · exact ⟨_, hent.built h⟩

theorem ObjectManager.Boot.built {s : ObjectManager} (h : s.Boot) : Built s fun _ => [] where
  managed :=
    { indexed := h.odg.indexed
      linked := fun k => .empty (by rw [fwd_nil]; exact h.objHead k)
      mem := fun k v => by simp [h.allocated v]
      nodup := by rw [ODG.edges, h.odg.lastDep]; exact .nil
      child := fun e he => by simp [ODG.edges, h.odg.lastDep] at he
      parent := fun e he => by simp [ODG.edges, h.odg.lastDep] at he
      rank := fun e he => by simp [ODG.edges, h.odg.lastDep] at he }
  backed v hv := absurd hv (h.allocated v)
  complete v hv := absurd hv (h.allocated v)
  runs := .inl h.currtask
  special v hv := by
    rcases hv with rfl | rfl
    · exact ⟨h.allocated _, h.idle_before, h.idle⟩
    · exact ⟨h.allocated _, h.zombie_before, h.zombie⟩
  before v hv := absurd hv (h.allocated v)

/-- **Every state built by loads** is in order. -/
theorem loads_built {s₀ s : ObjectManager} {ops : List LoadOp} (h0 : s₀.Boot)
    (hr : Run loadStep (fun s op => op.Legal s) s₀ ops s) : ∃ peers, Built s peers :=
  hr.invariant (I := fun s => ∃ peers, Built s peers)
    (fun ⟨_, h⟩ hl hs => loadStep_built h hl hs) ⟨_, h0.built⟩

/-- The object manager of the Cache Kernel when it starts. -/
def objectManagerAtBoot : ObjectManager where
  odg := odaAtBoot
  body _ := ⟨NIL, NIL, NIL, NIL, NIL⟩
  objHead _ := NIL
  self _ := NIL
  interruptable _ := 0
  currtask := NIL
  allocated _ := false
  unloaded := []

theorem objectManagerAtBoot_boot : objectManagerAtBoot.Boot where
  odg := ⟨rfl, fun _ => rfl⟩
  objHead _ := rfl
  allocated _ := Bool.false_ne_true
  currtask := rfl
  idle := rfl
  zombie := rfl
  idle_before := by decide
  zombie_before := by decide

/-- An address space with a kernel in it, and a thread of both. -/
def loadThree : List LoadOp :=
  [.cache .SIGADDRSPC 1000 ⟨NIL, NIL, 0, 0, NIL, NIL⟩ 0 ⟨64, 0, 1⟩,
    .cache .SIGKERNEL 1100 ⟨NIL, NIL, 0, 0, 64, 9⟩ 0 ⟨128, 0, 1⟩,
    .cache .SIGTHREAD 1200 ⟨64, 128, 1, 1, NIL, NIL⟩ 0 ⟨192, 0, 1⟩,
    .dispatch idleLoop]

/-- The kernel of `loadThree` reaches its thread. -/
theorem reaches_loadThree {v : Addr} :
    Reaches [⟨64, 192⟩, ⟨128, 192⟩] 128 v ↔ v = 128 ∨ v = 192 := by
  constructor
  · intro h
    induction h with
    | refl => exact .inl rfl
    | tail _ he ih =>
      rcases ih with rfl | rfl
      · simp at he
        exact .inr he
      · simp at he
  · rintro (rfl | rfl)
    · exact .refl
    · exact .single (by simp)

end Alliance.CK
