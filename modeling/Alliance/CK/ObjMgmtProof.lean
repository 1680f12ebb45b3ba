import Alliance.CK.ObjMgmt
import Alliance.Lib.DList

/-!
# Unloading one object

The peer lists are doubly linked lists whose head is the newest object, with
`prevObject` as the forward link. `Managed` says that the four of them hold the loaded
objects by kind, that the dependency table is in order, and that every edge leads from an
object of a higher kind to a loaded object that names it as a parent.

Unloading an object that has no dependants keeps all that, takes the object from its list
and its edges from the table, and changes nothing else (`retire_unloaded`). `Unloaded` is
what unloading any number of objects one after the other does.
-/

namespace Alliance.CK

open Function Lib

/-- Only the slots and what the headers say about them matter to the index. -/
theorem ODG.Indexed.congr {g g' : ODG} (h : g.Indexed) (ho : g'.oda = g.oda)
    (hl : g'.lastDep = g.lastDep) (hb : g'.before = g.before)
    (hd : g'.dependencies = g.dependencies) (hf : g'.firstDependency = g.firstDependency) :
    g'.Indexed where
  sorted i j hij hj := by
    rw [hl] at hj
    rw [ODG.parent, ODG.parent, ho]
    exact h.sorted i j hij hj
  counted v := by
    rw [hd, ODG.edges, hl, ho]
    exact h.counted v
  indexed v i hlt hs := by
    rw [hl] at hlt
    rw [hf]
    exact h.indexed v i hlt ((ODG.starts_congr v hb fun j _ => by rw [ho]).mp hs)
  before i hlt := by
    rw [hl] at hlt
    rw [ODG.parent, ho, hb]
    exact h.before i hlt

/-- An object without dependants is no parent. -/
theorem ODG.Indexed.no_child {g : ODG} (h : g.Indexed) {v : Addr} (h0 : g.dependencies v = 0)
    {e : EDGE} (he : e ∈ g.edges) : e.parent ≠ v := by
  intro hp
  have hpos := List.countP_pos_iff (p := fun e => e.parent = v).mpr ⟨e, he, decide_eq_true hp⟩
  rw [← h.counted, h0] at hpos
  exact absurd hpos (lt_irrefl 0)

namespace ObjectManager

variable {s s' s'' : ObjectManager}

/-! ## Stores into the headers -/

section

variable (s : ObjectManager) (v w : Addr) (k : ObjectSignature)

@[simp] theorem next_setNext : (s.setNext v w).next = update s.next v w := by
  funext u
  by_cases h : u = v
  · subst h; simp [next, setNext, setHeader]
  · simp [next, setNext, setHeader, h]

@[simp] theorem prev_setNext : (s.setNext v w).prev = s.prev := by
  funext u
  by_cases h : u = v
  · subst h; simp [prev, setNext, setHeader]
  · simp [prev, setNext, setHeader, h]

@[simp] theorem next_setPrev : (s.setPrev v w).next = s.next := by
  funext u
  by_cases h : u = v
  · subst h; simp [next, setPrev, setHeader]
  · simp [next, setPrev, setHeader, h]

@[simp] theorem prev_setPrev : (s.setPrev v w).prev = update s.prev v w := by
  funext u
  by_cases h : u = v
  · subst h; simp [prev, setPrev, setHeader]
  · simp [prev, setPrev, setHeader, h]

end

/-- Everything of the object manager but the links of the peer lists is the same. -/
structure SameBut (s s' : ObjectManager) : Prop where
  oda : s'.odg.oda = s.odg.oda
  lastDep : s'.odg.lastDep = s.odg.lastDep
  before : s'.odg.before = s.odg.before
  dependencies : s'.odg.dependencies = s.odg.dependencies
  firstDependency : s'.odg.firstDependency = s.odg.firstDependency
  signature : s'.signature = s.signature
  flags : s'.flags = s.flags
  objectData : s'.objectData = s.objectData
  body : s'.body = s.body
  self : s'.self = s.self
  currtask : s'.currtask = s.currtask
  allocated : s'.allocated = s.allocated
  unloaded : s'.unloaded = s.unloaded

namespace SameBut

theorem refl (s : ObjectManager) : SameBut s s :=
  ⟨rfl, rfl, rfl, rfl, rfl, rfl, rfl, rfl, rfl, rfl, rfl, rfl, rfl⟩

theorem trans (h : SameBut s s') (h' : SameBut s' s'') : SameBut s s'' where
  oda := h'.oda.trans h.oda
  lastDep := h'.lastDep.trans h.lastDep
  before := h'.before.trans h.before
  dependencies := h'.dependencies.trans h.dependencies
  firstDependency := h'.firstDependency.trans h.firstDependency
  signature := h'.signature.trans h.signature
  flags := h'.flags.trans h.flags
  objectData := h'.objectData.trans h.objectData
  body := h'.body.trans h.body
  self := h'.self.trans h.self
  currtask := h'.currtask.trans h.currtask
  allocated := h'.allocated.trans h.allocated
  unloaded := h'.unloaded.trans h.unloaded

/-- A header is stored that differs from the old one in its links only. -/
theorem setHeader (s : ObjectManager) (v : Addr) {x : ObjectHeader}
    (h : x = { s.odg.vertex v with nextObject := x.nextObject, prevObject := x.prevObject }) :
    SameBut s (s.setHeader v x) := by
  have key : ∀ {β : Type} (f : ObjectHeader → β), f x = f (s.odg.vertex v) →
      (fun u => f ((s.setHeader v x).odg.vertex u)) = fun u => f (s.odg.vertex u) := by
    intro β f hf
    funext u
    by_cases hu : u = v
    · subst hu
      simp [ObjectManager.setHeader, hf]
    · simp [ObjectManager.setHeader, hu]
  exact ⟨rfl, rfl, rfl, key ObjectHeader.dependencies (by rw [h]),
    key ObjectHeader.firstDependency (by rw [h]), key ObjectHeader.objectSignature (by rw [h]),
    key ObjectHeader.flags (by rw [h]), key ObjectHeader.objectData (by rw [h]),
    rfl, rfl, rfl, rfl, rfl⟩

theorem setNext (s : ObjectManager) (v w : Addr) : SameBut s (s.setNext v w) := setHeader s v rfl

theorem setPrev (s : ObjectManager) (v w : Addr) : SameBut s (s.setPrev v w) := setHeader s v rfl

theorem setHead (s : ObjectManager) (k : ObjectSignature) (v : Addr) :
    SameBut s (s.setHead k v) :=
  ⟨rfl, rfl, rfl, rfl, rfl, rfl, rfl, rfl, rfl, rfl, rfl, rfl, rfl⟩

theorem edges (h : SameBut s s') : s'.odg.edges = s.odg.edges := by
  rw [ODG.edges, ODG.edges, h.lastDep, h.oda]

theorem indexed (h : SameBut s s') (hi : s.odg.Indexed) : s'.odg.Indexed :=
  hi.congr h.oda h.lastDep h.before h.dependencies h.firstDependency

end SameBut

/-! ## The peer lists -/

/-- The forward links of a peer list, with the list's head behind `NIL`. -/
def fwd (s : ObjectManager) (k : ObjectSignature) : Addr → Addr := update s.prev NIL (s.objHead k)

/-- The peers of a kind, from the newest on. -/
def Peers (s : ObjectManager) (k : ObjectSignature) (ps : List Addr) : Prop :=
  Linked NIL NIL (s.fwd k) s.next ps

@[simp] theorem fwd_nil (s : ObjectManager) (k : ObjectSignature) : s.fwd k NIL = s.objHead k := by
  simp [fwd]

theorem fwd_of_ne (s : ObjectManager) (k : ObjectSignature) {v : Addr} (h : v ≠ NIL) :
    s.fwd k v = s.prev v := by simp [fwd, h]

/-- What `unlinkObject` leaves in the links and the heads. -/
structure Unlinked (s : ObjectManager) (k : ObjectSignature) (o : Addr) (s' : ObjectManager) :
    Prop where
  same : SameBut s s'
  next : ∀ y, y ≠ NIL → s'.next y = if y = s.prev o then s.next o else s.next y
  prev : ∀ y, y ≠ NIL → s'.prev y = if y = s.next o then s.prev o else s.prev y
  head : s'.objHead k = if NIL = s.next o then s.prev o else s.objHead k
  heads : ∀ k', k' ≠ k → s'.objHead k' = s.objHead k'

theorem unlinkObject_unlinked (s : ObjectManager) (k : ObjectSignature) {o : Addr}
    (ho : s.prev o ≠ o) : Unlinked s k o (s.unlinkObject k o) := by
  unfold unlinkObject
  -- the first store does not touch the links of `o` that the second test reads
  generalize hs₁ : (if s.prev o ≠ NIL then s.setNext (s.prev o) (s.next o) else s) = s₁
  have hsame : SameBut s s₁ := by
    rw [← hs₁]
    split
    · exact .setNext _ _ _
    · exact .refl s
  have hprev : s₁.prev = s.prev := by rw [← hs₁]; split <;> simp
  have hhead : s₁.objHead = s.objHead := by rw [← hs₁]; split <;> rfl
  have hnext : ∀ y, y ≠ NIL → s₁.next y = if y = s.prev o then s.next o else s.next y := by
    intro y hy
    rw [← hs₁]
    split
    · rw [next_setNext, update_apply]
    · next h =>
      rw [if_neg]
      exact fun he => h fun h0 => hy (he.trans h0)
  have hnexto : s₁.next o = s.next o := by
    rw [← hs₁]
    split
    · rw [next_setNext, update_of_ne (Ne.symm ho)]
    · rfl
  simp only [hprev, hnexto]
  by_cases hq : s.next o = NIL
  · rw [if_neg (not_not.mpr hq)]
    refine ⟨hsame.trans (.setHead _ _ _), hnext, fun y hy => ?_, ?_, fun k' hk' => ?_⟩
    · rw [if_neg (hq ▸ hy)]
      exact congrFun hprev y
    · rw [if_pos hq.symm]
      exact update_self _ _ _
    · exact (update_of_ne hk' _ _).trans (congrFun hhead k')
  · rw [if_pos hq]
    refine ⟨hsame.trans (.setPrev _ _ _), fun y hy => ?_, fun y _ => ?_, ?_, fun k' _ => ?_⟩
    · rw [next_setPrev]
      exact hnext y hy
    · rw [prev_setPrev, update_apply, hprev]
    · rw [if_neg (Ne.symm hq)]
      exact congrFun hhead k
    · exact congrFun hhead k'

theorem Unlinked.fwd {k : ObjectSignature} {o : Addr} (h : Unlinked s k o s') (ho : o ≠ NIL)
    (y : Addr) : s'.fwd k y = if y = s.next o then s.fwd k o else s.fwd k y := by
  rw [fwd_of_ne s k ho]
  by_cases hy : y = NIL
  · subst hy
    rw [fwd_nil, fwd_nil]
    exact h.head
  · rw [fwd_of_ne _ _ hy, fwd_of_ne _ _ hy]
    exact h.prev y hy

/-- The list of the object's kind loses the object. -/
theorem Unlinked.peers {k : ObjectSignature} {o : Addr} {ps : List Addr}
    (h : Unlinked s k o s') (hp : s.Peers k ps) (ho : o ∈ ps) :
    s'.Peers k (ps.filter (· ∉ [o])) := by
  have h0 : o ≠ NIL := fun he => hp.nil_notMem (he ▸ ho)
  obtain ⟨as, bs, rfl⟩ := List.append_of_mem ho
  have hn := (List.nodup_cons.mp hp.nodup).2
  have hfilter : (as ++ o :: bs).filter (· ∉ [o]) = as ++ bs := by
    have hall : (as ++ bs).filter (· ∉ [o]) = as ++ bs :=
      List.filter_eq_self.mpr fun y hy => by simpa using ((mem_remove hn).mp hy).2
    rwa [List.filter_append, List.filter_cons_of_neg (by simp), ← List.filter_append]
  rw [hfilter]
  refine Linked.unlink hp (fun y _ => h.fwd h0 y) fun y hy => ?_
  have hy0 : y ≠ NIL := fun hn => Linked.nil_notMem_remove hp (hn ▸ hy)
  rw [h.next y hy0, fwd_of_ne s k h0]

/-- The other lists do not lose anything. -/
theorem Unlinked.peers_other {k k' : ObjectSignature} {o : Addr} {ps ps' : List Addr}
    (h : Unlinked s k o s') (hp : s.Peers k ps) (ho : o ∈ ps) (hp' : s.Peers k' ps')
    (hk : k' ≠ k) (hdisj : ∀ y ∈ ps', y ∉ ps) : s'.Peers k' ps' := by
  have h0 : o ≠ NIL := fun he => hp.nil_notMem (he ▸ ho)
  have hne0 : ∀ {y}, y ∈ ps' → y ≠ NIL := fun hy he => hp'.nil_notMem (he ▸ hy)
  have hnot : ∀ {y w}, y ∈ ps' → w ∈ NIL :: ps → y ≠ w := by
    rintro y w hy hw rfl
    rcases List.mem_cons.mp hw with rfl | hw
    · exact hne0 hy rfl
    · exact hdisj y hy hw
  refine hp'.congr (fun y hy => ?_) fun y hy => ?_
  · rcases List.mem_cons.mp hy with rfl | hy
    · rw [fwd_nil, fwd_nil, h.heads k' hk]
    · rw [fwd_of_ne _ _ (hne0 hy), fwd_of_ne _ _ (hne0 hy), h.prev y (hne0 hy),
        if_neg (hnot hy (hp.bwd_mem ho))]
  · rw [h.next y (hne0 hy), if_neg]
    have := hp.fwd_mem (.tail _ ho)
    rw [fwd_of_ne s k h0] at this
    exact hnot hy this

end ObjectManager

/-! ## Removing the edges to an object -/

/-- An edge that is in the table once is filtered out by removing it. -/
theorem Inserted.filter_ne {e : EDGE} {es es' : List EDGE} (h : Inserted e es' es)
    (hn : es.Nodup) : es' = es.filter (· ≠ e) := by
  obtain ⟨xs, ys, rfl, rfl⟩ := h
  obtain ⟨-, hny, hdisj⟩ := List.nodup_append.mp hn
  rw [List.filter_append, List.filter_cons_of_neg (by simp)]
  congr 1
  · exact (List.filter_eq_self.mpr fun y hy => by simpa using hdisj y hy e (.head _)).symm
  · exact (List.filter_eq_self.mpr fun y hy => by
      simpa using fun he : y = e => (List.nodup_cons.mp hny).1 (he ▸ hy)).symm

/-- `CKremoveDepSearch` in a table without double edges. -/
theorem ckRemoveDepSearch_edges {g : ODG} (hg : g.Indexed) (hn : g.edges.Nodup) (p c : Addr) :
    (ckRemoveDepSearch g p c).Indexed ∧ (ckRemoveDepSearch g p c).header = g.header ∧
      (ckRemoveDepSearch g p c).edges = g.edges.filter (· ≠ ⟨p, c⟩) := by
  rcases ckRemoveDepSearch_spec hg p c with ⟨k, hk, -, hlt, heq⟩ | ⟨hnot, heq⟩
  · obtain ⟨hrem, hi, hh⟩ := ckRemoveObjectDep_spec hg hlt
    rw [heq]
    exact ⟨hi, hh, hk ▸ hrem.inserted.filter_ne hn⟩
  · rw [heq]
    refine ⟨hg, rfl, (List.filter_eq_self.mpr fun e he => ?_).symm⟩
    simpa using fun h : e = ⟨p, c⟩ => hnot (h ▸ he)

/-- Removing the edges from a list of parents, one by one. -/
theorem foldl_ckRemoveDepSearch_edges (c : Addr) (ps : List Addr) :
    ∀ g : ODG, g.Indexed → g.edges.Nodup →
      (ps.foldl (fun g p => ckRemoveDepSearch g p c) g).Indexed ∧
        (ps.foldl (fun g p => ckRemoveDepSearch g p c) g).header = g.header ∧
        (ps.foldl (fun g p => ckRemoveDepSearch g p c) g).edges =
          g.edges.filter (fun e => ¬ (e.child = c ∧ e.parent ∈ ps)) := by
  induction ps with
  | nil => exact fun g hg _ => ⟨hg, rfl, (List.filter_eq_self.mpr fun e _ => by simp).symm⟩
  | cons p ps ih =>
      intro g hg hn
      obtain ⟨hi, hh, he⟩ := ckRemoveDepSearch_edges hg hn p c
      obtain ⟨hi', hh', he'⟩ := ih _ hi (he ▸ hn.filter _)
      refine ⟨hi', hh'.trans hh, ?_⟩
      rw [List.foldl_cons, he', he, List.filter_filter]
      refine List.filter_congr fun e _ => ?_
      have hx : e = ⟨p, c⟩ ↔ e.parent = p ∧ e.child = c := EDGE.ext_iff
      simp only [hx, List.mem_cons, ne_eq, ← Bool.decide_and, decide_eq_decide]
      tauto

/-! ## Unloading one object -/

/-- The kinds by what may depend on them: on shared memory nothing does. -/
def ObjectSignature.rank : ObjectSignature → Nat
  | .SIGKERNEL => 3
  | .SIGADDRSPC => 2
  | .SIGTHREAD => 1
  | .SIGSHMEM => 0

/-- The edges that are left when the objects of `l` are gone. -/
def edgesWithout (es : List EDGE) (l : List Addr) : List EDGE :=
  es.filter fun e => e.parent ∉ l ∧ e.child ∉ l

namespace ObjectManager

variable {s s' s'' : ObjectManager}

/-- What unloading relies on: the table is in order, the peer lists hold the loaded objects,
and an edge leads to a loaded object that names its parent, from one of a higher kind. -/
structure Managed (s : ObjectManager) (peers : ObjectSignature → List Addr) : Prop where
  indexed : s.odg.Indexed
  linked : ∀ k, s.Peers k (peers k)
  mem : ∀ k v, v ∈ peers k ↔ s.Loaded v ∧ s.signature v = k
  nodup : s.odg.edges.Nodup
  child : ∀ e ∈ s.odg.edges, s.Loaded e.child
  parent : ∀ e ∈ s.odg.edges, e.parent ∈ (s.body e.child).parents (s.signature e.child)
  rank : ∀ e ∈ s.odg.edges, s.Loaded e.parent →
    (s.signature e.child).rank < (s.signature e.parent).rank

/-- The objects of `l` were unloaded, each once and in this order, and nothing else was. -/
structure Unloaded (s : ObjectManager) (peers : ObjectSignature → List Addr) (l : List Addr)
    (s' : ObjectManager) : Prop where
  managed : Managed s' fun k => (peers k).filter (· ∉ l)
  edges : s'.odg.edges = edgesWithout s.odg.edges l
  log : s'.unloaded = s.unloaded ++ l
  nodup : l.Nodup
  wereLoaded : ∀ v ∈ l, s.Loaded v
  loaded : ∀ v, s'.Loaded v ↔ s.Loaded v ∧ v ∉ l
  signature : s'.signature = s.signature
  flags : s'.flags = s.flags
  objectData : s'.objectData = s.objectData
  body : s'.body = s.body
  currtask : s.currtask ∉ l → s'.currtask = s.currtask

variable {peers : ObjectSignature → List Addr} {l l' : List Addr}

/-- Unloading nothing. -/
theorem Unloaded.nil (h : Managed s peers) : Unloaded s peers [] s where
  managed := by simpa using h
  edges := by simp [edgesWithout]
  log := (List.append_nil _).symm
  nodup := .nil
  wereLoaded v hv := by simp at hv
  loaded v := by simp
  signature := rfl
  flags := rfl
  objectData := rfl
  body := rfl
  currtask _ := rfl

/-- Unloading some objects and then some more. -/
theorem Unloaded.append (h : Unloaded s peers l s')
    (h' : Unloaded s' (fun k => (peers k).filter (· ∉ l)) l' s'') :
    Unloaded s peers (l ++ l') s'' where
  managed := by
    have hm := h'.managed
    have hfilter : (fun k => ((peers k).filter (· ∉ l)).filter (· ∉ l')) =
        fun k => (peers k).filter (· ∉ l ++ l') := by
      funext k
      rw [List.filter_filter]
      refine List.filter_congr fun v _ => ?_
      simp only [List.mem_append, ← Bool.decide_and, decide_eq_decide]
      tauto
    rwa [hfilter] at hm
  edges := by
    rw [h'.edges, h.edges, edgesWithout, edgesWithout, edgesWithout, List.filter_filter]
    refine List.filter_congr fun e _ => ?_
    simp only [List.mem_append, ← Bool.decide_and, decide_eq_decide]
    tauto
  log := by rw [h'.log, h.log, List.append_assoc]
  nodup := List.nodup_append.mpr ⟨h.nodup, h'.nodup, fun v hv w hw he =>
    ((h.loaded w).mp (h'.wereLoaded w hw)).2 (he ▸ hv)⟩
  wereLoaded v hv := by
    rcases List.mem_append.mp hv with hv | hv
    · exact h.wereLoaded v hv
    · exact ((h.loaded v).mp (h'.wereLoaded v hv)).1
  loaded v := by rw [h'.loaded, h.loaded, List.mem_append]; tauto
  signature := h'.signature.trans h.signature
  flags := h'.flags.trans h.flags
  objectData := h'.objectData.trans h.objectData
  body := h'.body.trans h.body
  currtask hc := by
    have hl := h.currtask fun hm => hc (List.mem_append_left _ hm)
    exact Eq.trans (h'.currtask fun hm => hc (List.mem_append_right _ (hl ▸ hm))) hl


/-- What is left after some objects are gone is in order. -/
theorem Managed.without (h : Managed s peers) (hi : s'.odg.Indexed)
    (hl : ∀ k, s'.Peers k ((peers k).filter (· ∉ l)))
    (he : s'.odg.edges = edgesWithout s.odg.edges l)
    (hloaded : ∀ v, s'.Loaded v ↔ s.Loaded v ∧ v ∉ l) (hsig : s'.signature = s.signature)
    (hbody : s'.body = s.body) : Managed s' fun k => (peers k).filter (· ∉ l) := by
  have hmem : ∀ {e}, e ∈ s'.odg.edges → e ∈ s.odg.edges ∧ e.parent ∉ l ∧ e.child ∉ l := by
    intro e hm
    rw [he] at hm
    simpa [edgesWithout] using hm
  refine ⟨hi, hl, fun k v => ?_, ?_, fun e hm => ?_, fun e hm => ?_, fun e hm hp => ?_⟩
  · rw [List.mem_filter, h.mem, hloaded, hsig, decide_eq_true_eq]
    tauto
  · rw [he]
    exact h.nodup.filter _
  · exact (hloaded _).mpr ⟨h.child e (hmem hm).1, (hmem hm).2.2⟩
  · rw [hbody, hsig]
    exact h.parent e (hmem hm).1
  · rw [hsig]
    exact h.rank e (hmem hm).1 ((hloaded _).mp hp).1

/-- A peer is not its own neighbour. -/
theorem Peers.prev_ne {k : ObjectSignature} {ps : List Addr} {o : Addr} (h : s.Peers k ps)
    (ho : o ∈ ps) : s.prev o ≠ o := by
  intro he
  have h0 : o ≠ NIL := fun h0 => h.nil_notMem (h0 ▸ ho)
  obtain ⟨as, bs, rfl⟩ := List.append_of_mem ho
  have hn := (List.nodup_cons.mp h.nodup).2
  have hx := (h.split (x := o)).2.2.1
  rw [fwd_of_ne s k h0, he] at hx
  cases bs with
  | nil => exact h0 hx
  | cons b bs =>
      obtain rfl : o = b := hx
      exact (List.nodup_cons.mp (List.nodup_append.mp hn).2.1).1 (.head _)

/-- The links and the signatures are read off the headers that the table operations keep. -/
theorem setODG_header {g : ODG} (h : g.header = s.odg.header) :
    (s.setODG g).signature = s.signature ∧ (s.setODG g).flags = s.flags ∧
      (s.setODG g).objectData = s.objectData ∧ (s.setODG g).next = s.next ∧
      (s.setODG g).prev = s.prev := by
  have key : ∀ {β : Type} (f : ObjectHeader → β), (∀ x, f x.unindexed = f x) →
      (fun v => f (g.vertex v)) = fun v => f (s.odg.vertex v) := by
    intro β f hf
    funext v
    rw [← hf, ← hf (s.odg.vertex v)]
    exact congrArg f (congrFun h v)
  exact ⟨key ObjectHeader.objectSignature fun _ => rfl, key ObjectHeader.flags fun _ => rfl,
    key ObjectHeader.objectData fun _ => rfl, key ObjectHeader.nextObject fun _ => rfl,
    key ObjectHeader.prevObject fun _ => rfl⟩

theorem Peers.setODG {k : ObjectSignature} {ps : List Addr} {g : ODG} (hp : s.Peers k ps)
    (h : g.header = s.odg.header) : (s.setODG g).Peers k ps := by
  obtain ⟨-, -, -, hnext, hprev⟩ := setODG_header h
  have hfwd : (s.setODG g).fwd k = s.fwd k := by rw [ObjectManager.fwd, hprev]; rfl
  rw [Peers, hfwd, hnext]
  exact hp

/-- What the four unload functions have in common keeps the manager in order, on an object
without dependants; and it leaves the running thread alone. -/
theorem Managed.retire {o : Addr} (h : Managed s peers) (ho : s.Loaded o)
    (hdep : s.odg.dependencies o = 0) :
    Unloaded s peers [o] (s.retire (s.signature o) o) ∧
      (s.retire (s.signature o) o).currtask = s.currtask := by
  unfold ObjectManager.retire
  simp only
  generalize hk : s.signature o = k
  have hmem : o ∈ peers k := (h.mem k o).mpr ⟨ho, hk⟩
  -- no edge leads from `o`, and all that lead to it are searched for
  obtain ⟨hi, hh, hedges⟩ := foldl_ckRemoveDepSearch_edges o ((s.body o).parents k) s.odg
    h.indexed h.nodup
  have hnot : ∀ e ∈ s.odg.edges, e.parent ≠ o := fun e he => h.indexed.no_child hdep he
  generalize hs₁ : s.removeDeps ((s.body o).parents k) o = s₁
  obtain ⟨hsig, hflags, hdata, hnext, hprev⟩ := setODG_header (s := s) hh
  have hs₁' : s₁ = s.setODG _ := hs₁.symm
  rw [← hs₁'] at hsig hflags hdata hnext hprev
  have hun := unlinkObject_unlinked s₁ k (o := o) (by rw [hprev]; exact (h.linked k).prev_ne hmem)
  generalize s₁.unlinkObject k o = s₂ at hun
  have hedges₂ : s₂.odg.edges = edgesWithout s.odg.edges [o] := by
    rw [hun.same.edges, hs₁', edgesWithout]
    refine Eq.trans hedges (List.filter_congr fun e he => ?_)
    have hp : e.child = o → e.parent ∈ (s.body o).parents k := by
      intro hc
      have := h.parent e he
      rwa [hc, hk] at this
    have hne := hnot e he
    simp only [List.mem_singleton, decide_eq_decide]
    exact ⟨fun hc => ⟨hne, fun hco => hc ⟨hco, hp hco⟩⟩, fun hc hco => hc.2 hco.1⟩
  have hpeers₁ : ∀ k', s₁.Peers k' (peers k') := fun k' => hs₁' ▸ (h.linked k').setODG hh
  have hpeers₂ : ∀ k', s₂.Peers k' ((peers k').filter (· ∉ [o])) := by
    intro k'
    by_cases hk' : k' = k
    · subst hk'
      exact hun.peers (hpeers₁ k') hmem
    · have hdisj : ∀ y ∈ peers k', y ∉ peers k := fun y hy hy' =>
        hk' (((h.mem k' y).mp hy).2.symm.trans ((h.mem k y).mp hy').2)
      have hne : ∀ y ∈ peers k', y ≠ o := fun y hy he => hdisj y hy (he ▸ hmem)
      rw [List.filter_eq_self.mpr fun y hy => by simpa using hne y hy]
      exact hun.peers_other (hpeers₁ k) hmem (hpeers₁ k') hk' hdisj
  have hloaded : ∀ v, update s₂.allocated o false v = true ↔ s.Loaded v ∧ v ∉ [o] := by
    intro v
    rw [hun.same.allocated, hs₁', update_apply, List.mem_singleton]
    by_cases hv : v = o
    · simp [hv]
    · simp only [hv, if_false, not_false_eq_true, and_true]
      exact Iff.rfl
  have hi₂ : s₂.odg.Indexed := hun.same.indexed (hs₁' ▸ hi)
  have hcur : s₂.currtask = s.currtask := hun.same.currtask.trans (by rw [hs₁']; rfl)
  exact ⟨
    { managed := h.without hi₂ hpeers₂ hedges₂ hloaded (hun.same.signature.trans hsig)
        (hun.same.body.trans (by rw [hs₁']; rfl))
      edges := hedges₂
      log := by
        show s₂.unloaded ++ [o] = _
        rw [hun.same.unloaded, hs₁']
        rfl
      nodup := List.nodup_singleton o
      wereLoaded := fun v hv => by rwa [List.mem_singleton.mp hv]
      loaded := hloaded
      signature := hun.same.signature.trans hsig
      flags := hun.same.flags.trans hflags
      objectData := hun.same.objectData.trans hdata
      body := hun.same.body.trans (by rw [hs₁']; rfl)
      currtask := fun _ => hcur }, hcur⟩

/-- The running thread is no part of what the manager keeps in order. -/
theorem Managed.setCurrtask (h : Managed s peers) (v : Addr) :
    Managed { s with currtask := v } peers :=
  ⟨h.1, h.2, h.3, h.4, h.5, h.6, h.7⟩

/-- When the running thread was unloaded, another one takes its place. -/
theorem Unloaded.setCurrtask (h : Unloaded s peers l s') (hc : s.currtask ∈ l) (v : Addr) :
    Unloaded s peers l { s' with currtask := v } where
  managed := h.managed.setCurrtask v
  edges := h.edges
  log := h.log
  nodup := h.nodup
  wereLoaded := h.wereLoaded
  loaded := h.loaded
  signature := h.signature
  flags := h.flags
  objectData := h.objectData
  body := h.body
  currtask hn := absurd hc hn

/-- **Unloading an object** without dependants; only the running thread does not return from
it. -/
theorem Managed.unloadSwitch {o : Addr} (h : Managed s peers) (ho : s.Loaded o)
    (hdep : s.odg.dependencies o = 0) :
    Unloaded s peers [o] (s.unloadSwitch o).1 ∧
      ((s.unloadSwitch o).2 = some 0#32 ∨ o = s.currtask ∧ (s.unloadSwitch o).2 = none) := by
  obtain ⟨hret, hcur⟩ := h.retire ho hdep
  unfold ObjectManager.unloadSwitch
  cases hk : s.signature o with
  | SIGTHREAD =>
    rw [hk] at hret hcur
    simp only [ckUnloadThreadObject, hcur]
    split
    · next he =>
      -- the record of the current task is all that differs
      exact ⟨hret.setCurrtask (List.mem_singleton.mpr he) zombietask, .inr ⟨he.symm, rfl⟩⟩
    · exact ⟨hret, .inl rfl⟩
  | SIGADDRSPC =>
    rw [hk] at hret
    exact ⟨hret, .inl rfl⟩
  | SIGKERNEL =>
    rw [hk] at hret
    exact ⟨hret, .inl rfl⟩
  | SIGSHMEM =>
    rw [hk] at hret
    exact ⟨hret, .inl rfl⟩

end ObjectManager

end Alliance.CK
