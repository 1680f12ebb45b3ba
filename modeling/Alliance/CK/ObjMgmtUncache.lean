import Alliance.CK.ObjMgmtProof
import Mathlib.Logic.Relation

/-!
# Uncaching an object with all that depends on it

The loop over the dependants of `x` unloads the child of the first edge of `x`, with
everything it reaches. That takes away all edges into and out of the unloaded objects and
so at least the edge the round started from; what `x` reaches over the edges that are left
is what it reached before and is still loaded. At the end `x` has no edge and is itself
unloaded.

The recursion ends because every edge leads to an object of a lower kind, the loop because
every round takes an edge from the table.
-/

namespace Alliance.CK

open Function Lib

/-- `v` is `x`, or depends on it over some edges. -/
def Reaches (es : List EDGE) (x v : Addr) : Prop :=
  Relation.ReflTransGen (fun a b => (⟨a, b⟩ : EDGE) ∈ es) x v

/-! ## What is reached -/

section

variable {es : List EDGE} {l : List Addr} {x v : Addr}

theorem mem_edgesWithout {e : EDGE} :
    e ∈ edgesWithout es l ↔ e ∈ es ∧ e.parent ∉ l ∧ e.child ∉ l := by
  simp [edgesWithout]

theorem Reaches.of_without (h : Reaches (edgesWithout es l) x v) : Reaches es x v := by
  induction h with
  | refl => exact .refl
  | tail _ he ih => exact ih.tail (mem_edgesWithout.mp he).1

/-- What is reached outside a closed set is reached around it. -/
theorem Reaches.without (hcl : ∀ e ∈ es, e.parent ∈ l → e.child ∈ l)
    (h : Reaches es x v) (hv : v ∉ l) : Reaches (edgesWithout es l) x v := by
  induction h with
  | refl => exact .refl
  | tail _ he ih =>
      have hb := fun hb => hv (hcl _ he hb)
      exact (ih hb).tail (mem_edgesWithout.mpr ⟨he, hb, hv⟩)

end

namespace ObjectManager

variable {s s' : ObjectManager} {peers : ObjectSignature → List Addr} {l : List Addr}
  {x c v : Addr}

/-- What a loaded object reaches is loaded and of no higher kind. -/
theorem Managed.reaches (h : Managed s peers) (hx : s.Loaded x) (hr : Reaches s.odg.edges x v) :
    s.Loaded v ∧ (s.signature v).rank ≤ (s.signature x).rank := by
  induction hr with
  | refl => exact ⟨hx, le_rfl⟩
  | tail _ he ih => exact ⟨h.child _ he, (h.rank _ he ih.1).le.trans ih.2⟩

/-- The child of the first edge of an object that has one. -/
theorem Managed.first (h : Managed s peers) (hx : s.odg.dependencies x ≠ 0) :
    (⟨x, (s.odg.oda (s.odg.firstDependency x)).child⟩ : EDGE) ∈ s.odg.edges := by
  have hpos := Nat.pos_of_ne_zero hx
  obtain ⟨hlt, hp⟩ := (h.indexed.slot_iff x (i := s.odg.firstDependency x) hpos).mpr
    ⟨le_rfl, by omega⟩
  exact ODG.mem_edges.mpr ⟨_, hlt, EDGE.ext hp rfl⟩

/-! ## The recursion -/

/-- Nothing that `x` reaches is locked or the running thread. -/
def Unloadable (s : ObjectManager) (x : Addr) : Prop :=
  ∀ v, Reaches s.odg.edges x v → ¬ s.Locked v ∧ v ≠ s.currtask

/-- A call succeeds and unloads exactly the objects in `R`. -/
def Unloads (s : ObjectManager) (peers : ObjectSignature → List Addr) (R : Addr → Prop)
    (r : Option (ObjectManager × Option DATA)) : Prop :=
  ∃ s' l, r = some (s', some 0#32) ∧ Unloaded s peers l s' ∧ ∀ v, v ∈ l ↔ R v

theorem Unloadable.unloaded (h : Unloadable s x) (hu : Unloaded s peers l s')
    (hl : ∀ v ∈ l, Reaches s.odg.edges x v) : Unloadable s' x := by
  intro v hv
  rw [hu.edges] at hv
  rw [Locked, hu.flags, hu.currtask fun hm => (h _ (hl _ hm)).2 rfl]
  exact h v hv.of_without

theorem Unloadable.child (h : Unloadable s x) (he : (⟨x, c⟩ : EDGE) ∈ s.odg.edges) :
    Unloadable s c :=
  fun v hv => h v (hv.head he)

theorem Unloaded.lastDep_lt (h : Unloaded s peers l s') {e : EDGE} (he : e ∈ s.odg.edges)
    (hl : e.child ∈ l) : s'.odg.lastDep < s.odg.lastDep := by
  rw [← ODG.length_edges, ← ODG.length_edges, h.edges, edgesWithout]
  exact List.length_filter_lt_length_iff_exists.mpr ⟨e, he, by simp [hl]⟩

/-- **The loop over the dependants** unloads everything that the object reaches but the
object itself. By induction on the rounds left, of which there are enough for one an edge. -/
theorem unloadDependants_unloads
    (unload : ObjectManager → Addr → Option (ObjectManager × Option DATA)) (stop : Bool) (r d : Nat)
    (hun : ∀ s peers c, Managed s peers → s.Loaded c → (s.signature c).rank < r →
      s.odg.lastDep ≤ d → Unloadable s c → Unloads s peers (Reaches s.odg.edges c) (unload s c))
    (m : Nat) : ∀ s peers, Managed s peers → s.Loaded x → (s.signature x).rank = r →
      s.odg.lastDep ≤ d → s.odg.lastDep < m → Unloadable s x →
      ∃ s' l, unloadDependants unload stop x m s 0#32 = some (s', some 0#32) ∧
        Unloaded s peers l s' ∧ (∀ v, v ∈ l ↔ Reaches s.odg.edges x v ∧ v ≠ x) ∧
        s'.odg.dependencies x = 0 := by
  induction m with
  | zero => exact fun s _ _ _ _ _ hm => absurd hm (Nat.not_lt_zero _)
  | succ m ih =>
    intro s peers h hx hr hd hm hfree
    rw [unloadDependants]
    by_cases h0 : s.odg.dependencies x = 0
    · rw [if_pos h0]
      refine ⟨s, [], rfl, .nil h, fun v => ⟨fun hv => absurd hv List.not_mem_nil, ?_⟩, h0⟩
      rintro ⟨hv, hne⟩
      -- a path away from `x` would start with an edge of `x`
      rcases hv.cases_head with rfl | ⟨c, he, -⟩
      · exact absurd rfl hne
      · exact absurd rfl (h.indexed.no_child h0 he)
    · rw [if_neg h0]
      have he := h.first h0
      generalize (s.odg.oda (s.odg.firstDependency x)).child = c at he
      have hlow : (s.signature c).rank < (s.signature x).rank := h.rank _ he hx
      obtain ⟨s₁, l₁, hs₁, hu₁, hl₁⟩ :=
        hun s peers c h (h.child _ he) (hr ▸ hlow) hd (hfree.child he)
      have hcl : ∀ e ∈ s.odg.edges, e.parent ∈ l₁ → e.child ∈ l₁ := fun e hm hp =>
        (hl₁ _).mpr (((hl₁ _).mp hp).tail hm)
      have hxl : x ∉ l₁ := fun hm =>
        absurd (h.reaches (h.child _ he) ((hl₁ x).mp hm)).2 (Nat.not_le.mpr hlow)
      have hlt := hu₁.lastDep_lt he ((hl₁ c).mpr .refl)
      obtain ⟨s₂, l₂, hs₂, hu₂, hl₂, hdep⟩ := ih s₁ _ hu₁.managed
        ((hu₁.loaded x).mpr ⟨hx, hxl⟩) (hu₁.signature ▸ hr) (by omega) (by omega)
        (hfree.unloaded hu₁ fun v hv => ((hl₁ v).mp hv).head he)
      refine ⟨s₂, l₁ ++ l₂, ?_, hu₁.append hu₂, fun v => ?_, hdep⟩
      · rw [hs₁, Option.bind_some]
        simp only [ne_eq, not_true_eq_false, and_false, if_false]
        exact hs₂
      · rw [List.mem_append, hl₁, hl₂, hu₁.edges]
        constructor
        · rintro (hv | ⟨hv, hne⟩)
          · exact ⟨hv.head he, fun hvx => hxl ((hl₁ x).mpr (hvx ▸ hv))⟩
          · exact ⟨hv.of_without, hne⟩
        · rintro ⟨hv, hne⟩
          by_cases hvl : v ∈ l₁
          · exact .inl ((hl₁ v).mp hvl)
          · exact .inr ⟨hv.without hcl hvl, hne⟩

/-- After the loop the object itself is unloaded. -/
theorem unloadSwitch_unloads (hx : s.Loaded x) (hfree : Unloadable s x)
    (hu : Unloaded s peers l s') (hl : ∀ v, v ∈ l ↔ Reaches s.odg.edges x v ∧ v ≠ x)
    (hdep : s'.odg.dependencies x = 0) :
    Unloads s peers (Reaches s.odg.edges x) (some (s'.unloadSwitch x)) := by
  have hxl : x ∉ l := fun hm => ((hl x).mp hm).2 rfl
  obtain ⟨hret, hres⟩ := hu.managed.unloadSwitch ((hu.loaded x).mpr ⟨hx, hxl⟩) hdep
  have hcur : x ≠ s'.currtask := by
    rw [hu.currtask fun hm => (hfree _ ((hl _).mp hm).1).2 rfl]
    exact (hfree x .refl).2
  refine ⟨_, l ++ [x], congrArg some (Prod.ext rfl (hres.resolve_right fun h => hcur h.1)),
    hu.append hret, ?_⟩
  intro v
  rw [List.mem_append, hl, List.mem_singleton]
  constructor
  · rintro (hv | rfl)
    · exact hv.1
    · exact .refl
  · intro hv
    by_cases hvx : v = x
    · exact .inr hvx
    · exact .inl ⟨hv, hvx⟩

/-- **`CKunloadObject`** unloads what its object reaches, on a stack that is deep enough. -/
theorem ckUnloadObject_unloads (n : Nat) : ∀ s peers x, Managed s peers → s.Loaded x →
    (s.signature x).rank + s.odg.lastDep < n → Unloadable s x →
    Unloads s peers (Reaches s.odg.edges x) (ckUnloadObject n s x) := by
  induction n with
  | zero => exact fun s _ x _ _ hn => absurd hn (Nat.not_lt_zero _)
  | succ n ih =>
    intro s peers x h hx hn hfree
    obtain ⟨s', l, hs', hu, hl, hdep⟩ := unloadDependants_unloads (x := x)
      (ckUnloadObject n) true (s.signature x).rank s.odg.lastDep
      (fun s₁ peers₁ c h₁ hc hr hd hf => ih s₁ peers₁ c h₁ hc (by omega) hf)
      (n + 1) s peers h hx rfl le_rfl (by omega) hfree
    rw [ckUnloadObject, if_neg (hfree x .refl).1, hs', Option.bind_some, if_pos rfl]
    exact unloadSwitch_unloads hx hfree hu hl hdep

/-- **`CKunCacheObjectKernelCode`** unloads what its object reaches. -/
theorem ckUnCacheObject_unloads {n : Nat} (h : Managed s peers) (hx : s.Loaded x)
    (hn : (s.signature x).rank + s.odg.lastDep ≤ n) (hfree : Unloadable s x) :
    Unloads s peers (Reaches s.odg.edges x) (ckUnCacheObject n s x) := by
  obtain ⟨s', l, hs', hu, hl, hdep⟩ := unloadDependants_unloads (x := x)
    (ckUnloadObject n) false (s.signature x).rank s.odg.lastDep
    (fun s₁ peers₁ c h₁ hc hr hd hf => ckUnloadObject_unloads n s₁ peers₁ c h₁ hc (by omega) hf)
    (n + 1) s peers h hx rfl le_rfl (by omega) hfree
  rw [ckUnCacheObject, if_neg (hfree x .refl).1, hs', Option.bind_some, if_pos rfl]
  exact unloadSwitch_unloads hx hfree hu hl hdep

/-! ## The bound on the recursion -/

/-- More rounds, and a callee that returns at least as often, do not change a result. -/
theorem unloadDependants_mono
    {f g : ObjectManager → Addr → Option (ObjectManager × Option DATA)} {stop : Bool}
    {r : ObjectManager × Option DATA} (hfg : ∀ s c r, f s c = some r → g s c = some r) (n : Nat) :
    ∀ m s e, n ≤ m → unloadDependants f stop x n s e = some r →
      unloadDependants g stop x m s e = some r := by
  induction n with
  | zero =>
    intro m s e _ h
    rw [unloadDependants] at h
    exact absurd h (by simp)
  | succ n ih =>
    intro m s e hm h
    obtain ⟨m, rfl⟩ : ∃ k, m = k + 1 := ⟨m - 1, by omega⟩
    rw [unloadDependants] at h ⊢
    split
    · next h0 => rwa [if_pos h0] at h
    · next h0 =>
      rw [if_neg h0] at h
      obtain ⟨r₁, h₁, h⟩ := Option.bind_eq_some_iff.mp h
      rw [hfg _ _ _ h₁, Option.bind_some]
      cases he : r₁.2 with
      | none => simpa [he] using h
      | some e' =>
        simp only [he] at h ⊢
        split
        · next hc => rwa [if_pos hc] at h
        · next hc =>
          rw [if_neg hc] at h
          exact ih m _ _ (by omega) h

theorem ckUnloadObject_mono (n : Nat) : ∀ m s x r, n ≤ m → ckUnloadObject n s x = some r →
    ckUnloadObject m s x = some r := by
  induction n with
  | zero =>
    intro m s x r _ h
    rw [ckUnloadObject] at h
    exact absurd h (by simp)
  | succ n ih =>
    intro m s x r hm h
    obtain ⟨m, rfl⟩ : ∃ k, m = k + 1 := ⟨m - 1, by omega⟩
    rw [ckUnloadObject] at h ⊢
    split
    · next hl => rwa [if_pos hl] at h
    · next hl =>
      rw [if_neg hl] at h
      obtain ⟨r₁, h₁, h⟩ := Option.bind_eq_some_iff.mp h
      rw [unloadDependants_mono (fun s c r => ih m s c r (by omega)) (n + 1) (m + 1) _ _ hm h₁,
        Option.bind_some]
      exact h

theorem ckUnCacheObject_mono {n m : Nat} {r : ObjectManager × Option DATA} (hm : n ≤ m)
    (h : ckUnCacheObject n s x = some r) : ckUnCacheObject m s x = some r := by
  rw [ckUnCacheObject] at h ⊢
  split
  · next hl => rwa [if_pos hl] at h
  · next hl =>
    rw [if_neg hl] at h
    obtain ⟨r₁, h₁, h⟩ := Option.bind_eq_some_iff.mp h
    rw [unloadDependants_mono (fun s c r => ckUnloadObject_mono n m s c r hm) (n + 1) (m + 1) _ _
      (by omega) h₁, Option.bind_some]
    exact h

end ObjectManager

end Alliance.CK
