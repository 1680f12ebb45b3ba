import Alliance.CK.ObjMgmtLocked
import Alliance.CK.ResourceOwners

/-!
# References between objects and resources

Objects name the objects they depend on, and resource records their owners and the threads
they signal. Uncaching an object takes everything with it that an edge leads to. So a
reference stays good as long as an edge stands behind it: those of threads, address spaces
and shared memory have one. The address space of a kernel has none, and no record of a
resource has: what they name may go first.
-/

namespace Alliance.CK

open Function Lib

/-! ## What unloading keeps -/

theorem closeGap_rest (g : ODG) (k : Nat) :
    (closeGap g k).before = g.before ∧ (closeGap g k).header = g.header := by
  fun_induction closeGap g k with
  | case1 g k h g' hs ih => exact ⟨ih.1.trans rfl, ih.2.trans (by simp [g'])⟩
  | case2 g k h g' hs ih => exact ⟨ih.1.trans rfl, ih.2.trans (by simp [g'])⟩
  | case3 g k h => exact ⟨rfl, rfl⟩

theorem ckRemoveDepSearch_rest (g : ODG) (p c : Addr) :
    (ckRemoveDepSearch g p c).before = g.before ∧
      (ckRemoveDepSearch g p c).header = g.header := by
  unfold ckRemoveDepSearch
  split
  · obtain ⟨hb, hh⟩ := closeGap_rest (g.setDependencies (g.parent _) _) _
    exact ⟨hb, hh.trans (by simp)⟩
  · exact ⟨rfl, rfl⟩

namespace ObjectManager

variable {s s' : ObjectManager} {peers : ObjectSignature → List Addr} {l : List Addr}
  {x v : Addr}

/-- A relation that every unloading of one object is in holds of a whole cascade. -/
theorem unloadDependants_keeps {R : ObjectManager → ObjectManager → Prop} (hrefl : ∀ s, R s s)
    (htrans : ∀ {a b c}, R a b → R b c → R a c)
    {unload : ObjectManager → Addr → Option (ObjectManager × Option DATA)} {stop : Bool}
    (hun : ∀ s c r, unload s c = some r → R s r.1) (m : Nat) :
    ∀ s e r, unloadDependants unload stop x m s e = some r → R s r.1 := by
  induction m with
  | zero =>
    intro s e r hs
    rw [unloadDependants] at hs
    exact absurd hs (by simp)
  | succ m ih =>
    intro s e r hs
    rw [unloadDependants] at hs
    split at hs
    · obtain rfl := Option.some.inj hs
      exact hrefl s
    · obtain ⟨⟨s₁, e₁⟩, h₁, hs⟩ := Option.bind_eq_some_iff.mp hs
      have hR := hun _ _ _ h₁
      cases e₁ with
      | none =>
        obtain rfl := Option.some.inj hs
        exact hR
      | some error =>
        simp only at hs
        split at hs
        · obtain rfl := Option.some.inj hs
          exact hR
        · exact htrans hR (ih s₁ error r hs)

theorem ckUnloadObject_keeps {R : ObjectManager → ObjectManager → Prop} (hrefl : ∀ s, R s s)
    (htrans : ∀ {a b c}, R a b → R b c → R a c) (hsw : ∀ s o, R s (s.unloadSwitch o).1) (n : Nat) :
    ∀ s x r, ckUnloadObject n s x = some r → R s r.1 := by
  induction n with
  | zero =>
    intro s x r hs
    rw [ckUnloadObject] at hs
    exact absurd hs (by simp)
  | succ n ih =>
    intro s x r hs
    rw [ckUnloadObject] at hs
    split at hs
    · obtain rfl := Option.some.inj hs
      exact hrefl s
    · obtain ⟨r₁, h₁, hs⟩ := Option.bind_eq_some_iff.mp hs
      have hR := unloadDependants_keeps hrefl htrans ih _ _ _ _ h₁
      split at hs
      · obtain rfl := Option.some.inj hs
        exact htrans hR (hsw r₁.1 x)
      · obtain rfl := Option.some.inj hs
        exact hR

theorem ckUnCacheObject_keeps {R : ObjectManager → ObjectManager → Prop} (hrefl : ∀ s, R s s)
    (htrans : ∀ {a b c}, R a b → R b c → R a c) (hsw : ∀ s o, R s (s.unloadSwitch o).1) {n : Nat}
    {r : ObjectManager × Option DATA} (hs : ckUnCacheObject n s x = some r) : R s r.1 := by
  rw [ckUnCacheObject] at hs
  split at hs
  · obtain rfl := Option.some.inj hs
    exact hrefl s
  · obtain ⟨r₁, h₁, hs⟩ := Option.bind_eq_some_iff.mp hs
    have hR := unloadDependants_keeps hrefl htrans
      (ckUnloadObject_keeps hrefl htrans hsw n) _ _ _ _ h₁
    split at hs
    · obtain rfl := Option.some.inj hs
      exact htrans hR (hsw r₁.1 x)
    · obtain rfl := Option.some.inj hs
      exact hR

/-- The word before the table is not written, and the running thread is one afterwards if it
was one before. -/
def Goes (s s' : ObjectManager) : Prop :=
  s'.odg.before = s.odg.before ∧ (s.Runs s.currtask → s'.Runs s'.currtask)

theorem unlinkObject_same (s : ObjectManager) (k : ObjectSignature) (o : Addr) :
    SameBut s (s.unlinkObject k o) := by
  unfold unlinkObject
  generalize hs₁ : (if s.prev o ≠ NIL then s.setNext (s.prev o) (s.next o) else s) = s₁
  have hsame : SameBut s s₁ := by
    rw [← hs₁]
    split
    · exact .setNext _ _ _
    · exact .refl s
  simp only
  split
  · exact hsame.trans (.setPrev _ _ _)
  · exact hsame.trans (.setHead _ _ _)

/-- What the object that goes leaves behind, whatever the lists and the table look like. -/
theorem retire_rest (s : ObjectManager) (k : ObjectSignature) (o : Addr) :
    (s.retire k o).odg.before = s.odg.before ∧ (s.retire k o).signature = s.signature ∧
      (s.retire k o).currtask = s.currtask ∧
      (s.retire k o).allocated = update s.allocated o false := by
  have hdeps : ∀ (ps : List Addr) (g : ODG),
      (ps.foldl (fun g p => ckRemoveDepSearch g p o) g).before = g.before ∧
        (ps.foldl (fun g p => ckRemoveDepSearch g p o) g).header = g.header := by
    intro ps
    induction ps with
    | nil => exact fun g => ⟨rfl, rfl⟩
    | cons p ps ih =>
      intro g
      obtain ⟨hb, hh⟩ := ckRemoveDepSearch_rest g p o
      exact ⟨(ih _).1.trans hb, (ih _).2.trans hh⟩
  obtain ⟨hb, hh⟩ := hdeps ((s.body o).parents k) s.odg
  have hsame := unlinkObject_same (s.removeDeps ((s.body o).parents k) o) k o
  simp only [retire]
  -- the list is behind: only the two ends of the object are stored after it
  generalize unlinkObject _ k o = u at hsame ⊢
  refine ⟨hsame.before.trans hb, hsame.signature.trans (setODG_header hh).1, hsame.currtask, ?_⟩
  exact congrArg (update · o false) hsame.allocated

theorem retire_goes (s : ObjectManager) (k : ObjectSignature) (o : Addr)
    (hcur : s.signature o = .SIGTHREAD → s.currtask ≠ o) : Goes s (s.retire k o) := by
  obtain ⟨hb, hsig, hc, halloc⟩ := retire_rest s k o
  refine ⟨hb, fun hr => ?_⟩
  rw [hc]
  refine hr.imp_right (.imp_right fun ⟨hl, hk⟩ => ⟨?_, hsig ▸ hk⟩)
  have hne : s.currtask ≠ o := fun he => hcur (by rw [← he, hk]) he
  rw [Loaded, halloc, update_of_ne hne]
  exact hl

theorem unloadSwitch_goes (s : ObjectManager) (o : Addr) : Goes s (s.unloadSwitch o).1 := by
  unfold unloadSwitch
  cases hk : s.signature o with
  | SIGTHREAD =>
    obtain ⟨hb, -, hc, -⟩ := retire_rest s .SIGTHREAD o
    simp only [ckUnloadThreadObject, hc]
    split
    · exact ⟨hb, fun _ => .inr (.inl (.inr rfl))⟩
    · next hne => exact retire_goes s _ o fun _ => hne
  | SIGADDRSPC => exact retire_goes s _ o fun h => absurd (hk.symm.trans h) (by decide)
  | SIGKERNEL => exact retire_goes s _ o fun h => absurd (hk.symm.trans h) (by decide)
  | SIGSHMEM => exact retire_goes s _ o fun h => absurd (hk.symm.trans h) (by decide)

theorem ckUnCacheObject_goes {n : Nat} {r : ObjectManager × Option DATA}
    (hs : ckUnCacheObject n s x = some r) : Goes s r.1 :=
  ckUnCacheObject_keeps (fun _ => ⟨rfl, id⟩)
    (fun h h' => ⟨h'.1.trans h.1, fun hr => h'.2 (h.2 hr)⟩) unloadSwitch_goes hs

/-- **The invariant of loads survives** where objects went with all that depends on them. -/
theorem Built.unloaded (h : Built s peers) (hu : Unloaded s peers l s')
    (hcl : ∀ e ∈ s.odg.edges, e.parent ∈ l → e.child ∈ l) (hg : Goes s s') :
    Built s' fun k => (peers k).filter (· ∉ l) := by
  -- what is left has its parents
  have hpar : ∀ v, s'.Loaded v → ∀ p ∈ (s.body v).parents (s.signature v), p ∉ l := by
    intro v hv p hp hpl
    obtain ⟨hv, hvl⟩ := (hu.loaded v).mp hv
    exact hvl (hcl _ (h.complete v hv p hp) hpl)
  refine ⟨hu.managed, fun v hv => ?_, fun v hv p hp => ?_, hg.2 h.runs, fun v hv => ?_,
    fun v hv => ?_⟩
  · rw [hu.body, hu.signature]
    refine (h.backed v ((hu.loaded v).mp hv).1).mono fun p hp hlp => ?_
    exact ⟨(hu.loaded p).mpr ⟨hlp, hpar v hv p hp⟩, by rw [hu.signature]⟩
  · rw [hu.body, hu.signature] at hp
    rw [hu.edges]
    obtain ⟨hlv, hvl⟩ := (hu.loaded v).mp hv
    exact mem_edgesWithout.mpr ⟨h.complete v hlv p hp, hpar v hv p hp, hvl⟩
  · rw [hg.1, hu.body, hu.loaded]
    obtain ⟨hl, hb, hk⟩ := h.special v hv
    exact ⟨fun hlv => hl hlv.1, hb, hk⟩
  · rw [hg.1]
    exact h.before v ((hu.loaded v).mp hv).1

end ObjectManager

/-! ## Objects and resources together -/

structure System where
  objects : ObjectManager
  resources : Resources

/-- The calls on objects and resources, where `n` bounds the recursion of an uncaching, and the
scheduler switching to another thread between two of them. -/
inductive SystemOp where
  | load (op : LoadOp)
  | uncache (n : Nat) (object : Addr)
  | resourceAlloc (type : ResourceSignature) (resource : Addr) (res : Resource) (owner : Addr)
    (flags : DATA) (env : AllocEnv)
  | resourceFree (resource : Addr)

def systemStep (s : System) : SystemOp → Option System
  | .load op => (loadStep s.objects op).map fun o => { s with objects := o }
  | .uncache n object =>
    (s.objects.ckUnCacheObject n object).map fun r => { s with objects := r.1 }
  | .resourceAlloc type resource res owner flags env =>
    (s.resources.ckResourceAlloc s.objects.signature type resource res owner flags env).map
      fun r => { s with resources := r.1 }
  | .resourceFree resource =>
    (s.resources.ckResourceFree resource).map fun r => { s with resources := r.1 }

/-- The objects that a loaded object names: its parents, and a kernel its address space. -/
def ObjectBody.references (b : ObjectBody) (k : ObjectSignature) : List Addr :=
  b.parents k ++ if k = .SIGKERNEL then [b.addrSpace] else []

/-- The objects that a record names: its owner, and a trap the thread that is signalled. -/
def CKResource.references (x : CKResource) : List Addr :=
  x.owner :: if x.typeSignature = .SIGTRAP then [x.sigThread] else []

/-- **No reference dangles**: what a loaded object or a live record names is loaded. -/
structure System.NoDangling (s : System) : Prop where
  objects : ∀ v, s.objects.Loaded v →
    ∀ p ∈ (s.objects.body v).references (s.objects.signature v), s.objects.Loaded p
  resources : ∀ r, s.resources.allocated r = true →
    ∀ p ∈ (s.resources.mem r).references, s.objects.Loaded p

/-- The descriptors that a call is given are those of loaded objects; and the loads are legal. -/
def SystemOp.Legal (s : System) : SystemOp → Prop
  | .load op => op.Legal s.objects
  | .uncache _ object => s.objects.Loaded object
  | .resourceAlloc _ _ _ owner _ _ => s.objects.Loaded owner
  | .resourceFree resource => s.resources.allocated resource = true

instance SystemOp.decidableLegal (s : System) : (op : SystemOp) → Decidable (op.Legal s)
  | .load _ => inferInstanceAs (Decidable (LoadOp.Legal _ _))
  | .uncache _ _ => inferInstanceAs (Decidable (ObjectManager.Loaded _ _))
  | .resourceAlloc .. => inferInstanceAs (Decidable (ObjectManager.Loaded _ _))
  | .resourceFree _ => inferInstanceAs (Decidable (_ = _))

/-- What no edge stands behind is left alone: shared memory is loaded by a loaded thread and
not by one of the scheduler's own, a trap signals a loaded thread, and an object that is
uncached reaches none that a live record names, and no address space of a kernel that stays. A
kernel stays unless it is the object itself and the call comes to its end. -/
def SystemOp.Spares (s : System) : SystemOp → Prop
  | .load (.cache signature _ _ _ _) => signature = .SIGSHMEM → s.objects.Loaded s.objects.currtask
  | .load (.dispatch _) => True
  | .uncache _ x => ¬ s.objects.Locked x → ∀ v, Reaches s.objects.odg.edges x v →
      (∀ r, s.resources.allocated r = true → v ∉ (s.resources.mem r).references) ∧
      ∀ k, s.objects.Loaded k → s.objects.signature k = .SIGKERNEL →
        (s.objects.body k).addrSpace = v →
          k = x ∧ ¬ Reaches s.objects.odg.edges x s.objects.currtask
  | .resourceAlloc type _ res _ _ _ => type = .SIGTRAP → s.objects.Loaded res.sigThread
  | .resourceFree _ => True

/-- Nothing is loaded and nothing is allocated. -/
structure System.Boot (s : System) : Prop where
  objects : s.objects.Boot
  resources : ∀ r, s.resources.allocated r = false

/-- **The invariant**: that of loads, and no reference dangles. -/
def System.Sound (s : System) : Prop := (∃ peers, s.objects.Built peers) ∧ s.NoDangling

/-! ## Each call keeps the references -/

open ObjectManager

section

variable {s s' : System} {peers : ObjectSignature → List Addr}

theorem ObjectBody.mem_references {b : ObjectBody} {k : ObjectSignature} {p : Addr} :
    p ∈ b.references k ↔ p ∈ b.parents k ∨ k = .SIGKERNEL ∧ p = b.addrSpace := by
  unfold references
  split
  · next hk => simp [hk]
  · next hk => simp [hk]

/-- What a new object names is loaded. -/
theorem ObjectManager.Entered.references {s s' : ObjectManager} {k : ObjectSignature} {c : Addr}
    {b : ObjectBody} (h : Entered s peers k c b s')
    (hshm : k = .SIGSHMEM → s.Loaded s.currtask) : ∀ p ∈ b.references k, s.Loaded p := by
  intro p hp
  rcases ObjectBody.mem_references.mp hp with hp | ⟨hk, rfl⟩
  · by_cases hk : k = .SIGSHMEM
    · subst hk
      rw [List.mem_singleton.mp hp, h.owner rfl]
      exact hshm rfl
    · have hb := h.backed
      cases k with
      | SIGSHMEM => exact absurd rfl hk
      | SIGKERNEL => exact absurd hp List.not_mem_nil
      | SIGADDRSPC =>
        simp only [ObjectBody.parents] at hp
        split at hp
        · next hne => exact List.mem_singleton.mp hp ▸ (hb hne).1
        · exact absurd hp List.not_mem_nil
      | SIGTHREAD =>
        rcases List.mem_cons.mp hp with rfl | hp
        · exact hb.1.1
        · split at hp
          · next hne => exact List.mem_singleton.mp hp ▸ (hb.2 hne).1
          · exact absurd hp List.not_mem_nil
  · exact h.addrSpace hk

/-- Objects that are loaded stay loaded, and name what they named. -/
theorem System.NoDangling.entered {o' : ObjectManager} {k : ObjectSignature} {c : Addr}
    {b : ObjectBody} (h : s.NoDangling) (hent : Entered s.objects peers k c b o')
    (hshm : k = .SIGSHMEM → s.objects.Loaded s.objects.currtask) :
    System.NoDangling { s with objects := o' } where
  objects v hv p hp := by
    refine (hent.loaded p).mpr (.inr ?_)
    rcases (hent.loaded v).mp hv with rfl | hv
    · rw [show (_ : System).objects = o' from rfl, hent.new, hent.signature, update_self] at hp
      exact hent.references hshm p hp
    · obtain ⟨-, hsv, hbv⟩ := hent.old hv
      rw [show (_ : System).objects = o' from rfl, hbv, hsv] at hp
      exact h.objects v hv p hp
  resources r hr p hp := (hent.loaded p).mpr (.inr (h.resources r hr p hp))

theorem loadStep_sound {op : LoadOp} {o' : ObjectManager} (h : s.Sound) (hl : op.Legal s.objects)
    (hsp : (SystemOp.load op).Spares s) (hs : loadStep s.objects op = some o') :
    System.Sound { s with objects := o' } := by
  obtain ⟨⟨peers, hb⟩, hd⟩ := h
  refine ⟨loadStep_built hb hl hs, ?_⟩
  cases op with
  | dispatch thread =>
    obtain rfl := Option.some.inj hs
    exact ⟨hd.objects, hd.resources⟩
  | cache k object u fl env =>
    obtain ⟨⟨s'', e⟩, hcache, rfl⟩ := Option.map_eq_some_iff.mp hs
    rcases ckCacheObject_entered hb hl hcache with rfl | ⟨b, hent⟩
    · exact hd
    · exact hd.entered hent hsp

/-- **Uncaching** keeps the references, if it spares what no edge stands behind. -/
theorem uncache_sound {n : Nat} {x : Addr} {r : ObjectManager × Option DATA} (h : s.Sound)
    (hx : s.objects.Loaded x) (hsp : (SystemOp.uncache n x).Spares s)
    (hs : s.objects.ckUnCacheObject n x = some r) : System.Sound { s with objects := r.1 } := by
  obtain ⟨⟨peers, hb⟩, hd⟩ := h
  by_cases hlock : s.objects.Locked x
  · rw [ckUnCacheObject, if_pos hlock] at hs
    obtain rfl := Option.some.inj hs
    exact ⟨⟨peers, hb⟩, hd⟩
  obtain ⟨l, hcall, hend⟩ := ckUnCacheObject_called hb.managed hx hlock hs
  have hu := hcall.unloaded
  have hcl := hcall.cleared.closed
  have hspare := fun v hv => hsp hlock v (hcall.reached v hv)
  refine ⟨⟨_, hb.unloaded hu hcl (ckUnCacheObject_goes hs)⟩, fun v hv p hp => ?_,
    fun w hw p hp => ?_⟩
  · obtain ⟨hv, hvl⟩ := (hu.loaded v).mp hv
    rw [show (_ : System).objects = r.1 from rfl, hu.body, hu.signature] at hp
    refine (hu.loaded p).mpr ⟨hd.objects v hv p hp, fun hpl => ?_⟩
    rcases ObjectBody.mem_references.mp hp with hp | ⟨hk, rfl⟩
    · exact hvl (hcl _ (hb.complete v hv p hp) hpl)
    · -- a kernel whose address space goes is the object itself, and it goes as well
      obtain ⟨rfl, hcur⟩ := (hspare _ hpl).2 v hv hk rfl
      exact hvl (hend.resolve_left fun hm => hcur (hcall.reached _ hm))
  · exact (hu.loaded p).mpr ⟨hd.resources w hw p hp, fun hpl => (hspare p hpl).1 w hw hp⟩

theorem references_of_refs {a b : Resources} {w : Addr} (h : a.refs w = b.refs w) :
    (a.mem w).references = (b.mem w).references := by
  have htype : (a.mem w).typeSignature = (b.mem w).typeSignature := congrArg (·.1) h
  have howner : (a.mem w).owner = (b.mem w).owner := congrArg (·.2.1) h
  have hthread : (a.mem w).sigThread = (b.mem w).sigThread := congrArg (·.2.2) h
  rw [CKResource.references, CKResource.references, htype, howner, hthread]

theorem resourceAlloc_sound {type : ResourceSignature} {resource owner : Addr} {res : Resource}
    {flags : DATA} {env : AllocEnv} {r : Resources × DATA} (h : s.Sound)
    (hl : s.objects.Loaded owner) (hsp : type = .SIGTRAP → s.objects.Loaded res.sigThread)
    (hs : s.resources.ckResourceAlloc s.objects.signature type resource res owner flags env =
      some r) : System.Sound { s with resources := r.1 } := by
  refine ⟨h.1, h.2.objects, fun w hw p hp => ?_⟩
  rcases Resources.ckResourceAlloc_requested hs w hw with ⟨hw', hrefs⟩ | ⟨htype, howner, hthread⟩
  · exact h.2.resources w hw' p (references_of_refs hrefs ▸ hp)
  · rcases List.mem_cons.mp hp with rfl | hp
    · have howner : (r.1.mem w).owner = owner := howner
      rw [howner]
      exact hl
    · split at hp
      · next htrap =>
        have hk : type = .SIGTRAP := htype.symm.trans htrap
        have hthread : (r.1.mem w).sigThread = res.sigThread := hthread hk
        rw [List.mem_singleton.mp hp, hthread]
        exact hsp hk
      · exact absurd hp List.not_mem_nil

theorem resourceFree_sound {resource : Addr} {r : Resources × DATA} (h : s.Sound)
    (hs : s.resources.ckResourceFree resource = some r) :
    System.Sound { s with resources := r.1 } := by
  obtain ⟨hrefs, halloc⟩ := Resources.ckResourceFree_kept hs
  refine ⟨h.1, h.2.objects, fun w hw p hp => h.2.resources w (halloc w hw) p ?_⟩
  exact references_of_refs (congrFun hrefs w) ▸ hp

/-- **One call** keeps the references. -/
theorem systemStep_sound {op : SystemOp} (h : s.Sound) (hl : op.Legal s) (hsp : op.Spares s)
    (hs : systemStep s op = some s') : s'.Sound := by
  cases op with
  | load op =>
    obtain ⟨o', ho, rfl⟩ := Option.map_eq_some_iff.mp hs
    exact loadStep_sound h hl hsp ho
  | uncache n object =>
    obtain ⟨r, hr, rfl⟩ := Option.map_eq_some_iff.mp hs
    exact uncache_sound h hl hsp hr
  | resourceAlloc type resource res owner flags env =>
    obtain ⟨r, hr, rfl⟩ := Option.map_eq_some_iff.mp hs
    exact resourceAlloc_sound h hl hsp hr
  | resourceFree resource =>
    obtain ⟨r, hr, rfl⟩ := Option.map_eq_some_iff.mp hs
    exact resourceFree_sound h hr

end

theorem System.Boot.sound {s : System} (h : s.Boot) : s.Sound :=
  ⟨⟨_, h.objects.built⟩, fun v hv => absurd hv (h.objects.allocated v),
    fun r hr => absurd hr (by simp [h.resources r])⟩

def systemAtBoot : System := ⟨objectManagerAtBoot, resourcesAtBoot⟩

theorem systemAtBoot_boot : systemAtBoot.Boot := ⟨objectManagerAtBoot_boot, fun _ => rfl⟩

/-- Loads alone, none of them of shared memory, are a run of the system. -/
theorem run_of_loads {o o' : ObjectManager} {r : Resources} {ops : List LoadOp}
    (hr : Run loadStep (fun s op => op.Legal s) o ops o')
    (hshm : ∀ object u fl env, .cache .SIGSHMEM object u fl env ∉ ops) :
    Run systemStep (fun s op => op.Legal s ∧ op.Spares s) ⟨o, r⟩ (ops.map .load) ⟨o', r⟩ := by
  induction hr with
  | nil _ => exact .nil _
  | @cons o o₁ o' op ops hC hs _ ih =>
    refine .cons ⟨hC, ?_⟩ (by rw [systemStep, hs]; rfl)
      (ih fun object u fl env hm => hshm object u fl env (.tail _ hm))
    cases op with
    | dispatch _ => trivial
    | cache k object u fl env =>
      rintro rfl
      exact absurd (.head _) (hshm object u fl env)

/-- The trap 0x30 for the thread 192 of `loadThree`. -/
def trapFor : SystemOp :=
  .resourceAlloc .SIGTRAP 2000 ⟨0, 0x30, 192, 1, 0, 0⟩ 192 0 ⟨300, 0⟩

/-- The trap is allocated and released. -/
theorem trapFor_released {signature : Addr → ObjectSignature}
    (h : signature 192 = .SIGTHREAD) : ∃ r r' : Resources, ∃ e e' : DATA,
      resourcesAtBoot.ckResourceAlloc signature .SIGTRAP 2000 ⟨0, 0x30, 192, 1, 0, 0⟩ 192 0
        ⟨300, 0⟩ = some (r, e) ∧ r.allocated 300 = true ∧
      r.ckResourceFree 300 = some (r', e') ∧ ∀ w, r'.allocated w = false := by
  have halloc : (resourcesAtBoot.ckResourceAlloc signature .SIGTRAP 2000
      ⟨0, 0x30, 192, 1, 0, 0⟩ 192 0 ⟨300, 0⟩) = (resourcesAtBoot.ckAllocTrap (fun _ => true) 2000
      ⟨0, 0x30, 192, 1, 0, 0⟩ 192 0 ⟨300, 0⟩) := by
    simp [Resources.ckResourceAlloc, Resources.ckAllocTrap, h]
  rw [halloc]
  refine ⟨_, _, _, _, rfl, rfl, rfl, fun w => ?_⟩
  show update (update (fun _ => false) 300 true) 300 false w = false
  by_cases hw : w = 300
  · simp [hw]
  · simp [hw]

end Alliance.CK
