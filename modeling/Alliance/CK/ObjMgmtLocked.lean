import Alliance.CK.ObjMgmtLoads

/-!
# Uncaching what a locked object depends on

`CKunloadObject` refuses a locked object and passes the error on; what it unloaded until
then stays unloaded. `CKunCacheObjectKernelCode` does not look at the error before its loop
has ended, and the loop ends when the object has no dependants. With a locked object among
them it always has one: what was unloaded is closed under dependencies and holds no locked
object, so the way to the locked one is still there.
-/

namespace Alliance.CK

open Function Lib

namespace ObjectManager

variable {s s' s'' : ObjectManager} {peers peers' : ObjectSignature → List Addr}
  {l l' : List Addr} {x v : Addr} {r : Nat}

/-- Objects that went with all that depends on them, of kinds below `r` and not locked. -/
structure Cleared (s : ObjectManager) (r : Nat) (l : List Addr) : Prop where
  unlocked : ∀ v ∈ l, ¬ s.Locked v
  closed : ∀ e ∈ s.odg.edges, e.parent ∈ l → e.child ∈ l
  rank : ∀ v ∈ l, (s.signature v).rank < r

theorem Cleared.nil (s : ObjectManager) (r : Nat) : Cleared s r [] :=
  ⟨fun _ h => absurd h List.not_mem_nil, fun _ _ h => absurd h List.not_mem_nil,
    fun _ h => absurd h List.not_mem_nil⟩

theorem Cleared.append (h : Cleared s r l) (hu : Unloaded s peers l s') (h' : Cleared s' r l')
    (hu' : Unloaded s' peers' l' s'') : Cleared s r (l ++ l') where
  unlocked v hv := by
    rcases List.mem_append.mp hv with hv | hv
    · exact h.unlocked v hv
    · have := h'.unlocked v hv
      rwa [Locked, hu.flags] at this
  closed e he hp := by
    by_cases hc : e.child ∈ l
    · exact List.mem_append_left _ hc
    rcases List.mem_append.mp hp with hp | hp
    · exact absurd (h.closed e he hp) hc
    · -- the edge was still there when its parent went
      have hpl : e.parent ∉ l := ((hu.loaded _).mp (hu'.wereLoaded _ hp)).2
      have he' : e ∈ s'.odg.edges := hu.edges ▸ mem_edgesWithout.mpr ⟨he, hpl, hc⟩
      exact List.mem_append_right _ (h'.closed e he' hp)
  rank v hv := by
    rcases List.mem_append.mp hv with hv | hv
    · exact h.rank v hv
    · exact hu.signature ▸ h'.rank v hv

theorem Cleared.mono {r' : Nat} (h : Cleared s r l) (hr : r ≤ r') : Cleared s r' l :=
  ⟨h.unlocked, h.closed, fun v hv => (h.rank v hv).trans_le hr⟩

/-- An object goes when its dependants have gone and it is not locked. -/
theorem Cleared.snoc (h : Cleared s (s.signature x).rank l) (hu : Unloaded s peers l s')
    (hx : ¬ s.Locked x) (hdep : s'.odg.dependencies x = 0) :
    Cleared s ((s.signature x).rank + 1) (l ++ [x]) where
  unlocked v hv := by
    rcases List.mem_append.mp hv with hv | hv
    · exact h.unlocked v hv
    · exact List.mem_singleton.mp hv ▸ hx
  closed e he hp := by
    by_cases hc : e.child ∈ l
    · exact List.mem_append_left _ hc
    rcases List.mem_append.mp hp with hp | hp
    · exact absurd (h.closed e he hp) hc
    · have hpx : e.parent = x := List.mem_singleton.mp hp
      have hxl : x ∉ l := fun hm => absurd (h.rank x hm) (lt_irrefl _)
      have he' : e ∈ s'.odg.edges :=
        hu.edges ▸ mem_edgesWithout.mpr ⟨he, hpx ▸ hxl, hc⟩
      exact absurd hpx (hu.managed.indexed.no_child hdep he')
  rank v hv := by
    rcases List.mem_append.mp hv with hv | hv
    · exact (h.rank v hv).trans (Nat.lt_succ_self _)
    · rw [List.mem_singleton.mp hv]
      exact Nat.lt_succ_self _

/-- How a call on `x` ends: it does not return, and then the running thread is gone; or it says
whether `x` is. -/
def Ends (s : ObjectManager) (x : Addr) (l : List Addr) : Option DATA → Prop
  | none => s.currtask ∈ l
  | some error => error = 0#32 ↔ x ∈ l

/-- **What a call on `x` does**, however it ends: it unloads objects that `x` reaches and that
are not locked, each with all that depends on it. -/
structure Called (s : ObjectManager) (peers : ObjectSignature → List Addr) (x : Addr)
    (s' : ObjectManager) (e : Option DATA) (l : List Addr) : Prop where
  unloaded : Unloaded s peers l s'
  cleared : Cleared s ((s.signature x).rank + 1) l
  reached : ∀ v ∈ l, Reaches s.odg.edges x v
  ends : Ends s x l e

/-- How the loop over the dependants of `x` ends. -/
def LoopEnds (s : ObjectManager) (x : Addr) (l : List Addr) (stop : Bool) (s' : ObjectManager) :
    Option DATA → Prop
  | none => s.currtask ∈ l
  | some error => (error = 0#32 → s'.odg.dependencies x = 0) ∧ (error ≠ 0#32 → stop = true)

/-- What the loop over the dependants unloads, however it ends, given what one call does. A
call that fails leaves its object, so the loop that goes on after an error has not ended. -/
theorem unloadDependants_called
    {unload : ObjectManager → Addr → Option (ObjectManager × Option DATA)} {stop : Bool} {r : Nat}
    (hun : ∀ s peers c s' e, Managed s peers → s.Loaded c → unload s c = some (s', e) →
      ∃ l, Called s peers c s' e l)
    (m : Nat) : ∀ s peers s' e e₀, Managed s peers → s.Loaded x → (s.signature x).rank = r →
      (e₀ ≠ 0#32 → s.odg.dependencies x ≠ 0) →
      unloadDependants unload stop x m s e₀ = some (s', e) →
      ∃ l, Unloaded s peers l s' ∧ Cleared s r l ∧ (∀ v ∈ l, Reaches s.odg.edges x v) ∧
        LoopEnds s x l stop s' e := by
  induction m with
  | zero =>
    intro s peers s' e e₀ _ _ _ _ hs
    rw [unloadDependants] at hs
    exact absurd hs (by simp)
  | succ m ih =>
    intro s peers s' e e₀ h hx hr he₀ hs
    rw [unloadDependants] at hs
    by_cases h0 : s.odg.dependencies x = 0
    · rw [if_pos h0] at hs
      obtain ⟨rfl, rfl⟩ := Prod.mk.inj (Option.some.inj hs)
      exact ⟨[], .nil h, .nil s r, fun v hv => absurd hv List.not_mem_nil,
        fun _ => h0, fun hne => absurd h0 (he₀ hne)⟩
    · rw [if_neg h0] at hs
      have he := h.first h0
      obtain ⟨⟨s₁, e₁⟩, h₁, hs⟩ := Option.bind_eq_some_iff.mp hs
      generalize (s.odg.oda (s.odg.firstDependency x)).child = c at he h₁
      have hlow : (s.signature c).rank < r := hr ▸ h.rank _ he hx
      obtain ⟨l₁, hcall⟩ := hun s peers c s₁ e₁ h (h.child _ he) h₁
      have hu₁ := hcall.unloaded
      have hc₁ := hcall.cleared.mono hlow
      have hreach₁ : ∀ v ∈ l₁, Reaches s.odg.edges x v := fun v hv => (hcall.reached v hv).head he
      cases e₁ with
      | none =>
        obtain ⟨rfl, rfl⟩ := Prod.mk.inj (Option.some.inj hs)
        exact ⟨l₁, hu₁, hc₁, hreach₁, hcall.ends⟩
      | some error =>
        simp only at hs
        split at hs
        · next herr =>
          obtain ⟨rfl, rfl⟩ := Prod.mk.inj (Option.some.inj hs)
          exact ⟨l₁, hu₁, hc₁, hreach₁, fun h => absurd h herr.2, fun _ => herr.1⟩
        · have hxl : x ∉ l₁ := fun hm => absurd (hc₁.rank x hm) (by omega)
          -- after an error the edge to `c` is still there
          have hrest : error ≠ 0#32 → s₁.odg.dependencies x ≠ 0 := fun hne h0₁ =>
            hu₁.managed.indexed.no_child h0₁ (hu₁.edges ▸
              mem_edgesWithout.mpr ⟨he, hxl, fun hm => hne (hcall.ends.mpr hm)⟩) rfl
          obtain ⟨l₂, hu₂, hc₂, hreach₂, hends⟩ := ih s₁ _ s' e error hu₁.managed
            ((hu₁.loaded x).mpr ⟨hx, hxl⟩) (hu₁.signature ▸ hr) hrest hs
          refine ⟨l₁ ++ l₂, hu₁.append hu₂, hc₁.append hu₁ hc₂ hu₂, fun v hv => ?_, ?_⟩
          · rcases List.mem_append.mp hv with hv | hv
            · exact hreach₁ v hv
            · have := hreach₂ v hv
              rw [hu₁.edges] at this
              exact this.of_without
          · cases e with
            | none =>
              by_cases hcur : s.currtask ∈ l₁
              · exact List.mem_append_left _ hcur
              · exact List.mem_append_right _ (hu₁.currtask hcur ▸ hends)
            | some error' => exact hends

/-- The end of both calls: the object itself, when its dependants are gone. -/
theorem unloadSwitch_called {e e' : Option DATA} {stop : Bool} (hx : s.Loaded x)
    (hlock : ¬ s.Locked x)
    (h₁ : ∃ l, Unloaded s peers l s' ∧ Cleared s (s.signature x).rank l ∧
      (∀ v ∈ l, Reaches s.odg.edges x v) ∧ LoopEnds s x l stop s' e)
    (hs : (if e = some 0#32 then some (s'.unloadSwitch x) else some (s', e)) = some (s'', e')) :
    ∃ l, Called s peers x s'' e' l ∧ (stop = false → ∀ error, e' = some error → error = 0#32) := by
  obtain ⟨l, hu, hc, hreach, hends⟩ := h₁
  have hxl : x ∉ l := fun hm => absurd (hc.rank x hm) (lt_irrefl _)
  split at hs
  · next h0 =>
    subst h0
    have hdep := hends.1 rfl
    obtain ⟨hret, hres⟩ := hu.managed.unloadSwitch ((hu.loaded x).mpr ⟨hx, hxl⟩) hdep
    rw [Option.some.inj hs] at hret hres
    refine ⟨l ++ [x], ⟨hu.append hret, hc.snoc hu hlock hdep, fun v hv => ?_, ?_⟩, ?_⟩
    · rcases List.mem_append.mp hv with hv | hv
      · exact hreach v hv
      · exact List.mem_singleton.mp hv ▸ .refl
    · rcases hres with hres | ⟨hcur, hres⟩
      · obtain rfl : e' = some 0#32 := hres
        exact ⟨fun _ => List.mem_append_right _ (.head _), fun _ => rfl⟩
      · obtain rfl : e' = none := hres
        by_cases hm : s.currtask ∈ l
        · exact List.mem_append_left _ hm
        · rw [hcur, hu.currtask hm]
          exact List.mem_append_right _ (.head _)
    · rintro - error rfl
      rcases hres with hres | ⟨-, hres⟩
      · exact Option.some.inj hres
      · exact absurd hres (by simp)
  · next h0 =>
    obtain ⟨rfl, rfl⟩ := Prod.mk.inj (Option.some.inj hs)
    refine ⟨l, ⟨hu, hc.mono (Nat.le_succ _), hreach, ?_⟩, ?_⟩
    · cases e with
      | none => exact hends
      | some error => exact ⟨fun h => absurd (congrArg some h) h0, fun hm => absurd hm hxl⟩
    · rintro hstop error rfl
      by_contra hne
      exact absurd (hends.2 hne) (by simp [hstop])

/-- **What a call of `CKunloadObject` does.** -/
theorem ckUnloadObject_called (n : Nat) : ∀ s peers x s' e, Managed s peers → s.Loaded x →
    ckUnloadObject n s x = some (s', e) → ∃ l, Called s peers x s' e l := by
  induction n with
  | zero =>
    intro s peers x s' e _ _ hs
    rw [ckUnloadObject] at hs
    exact absurd hs (by simp)
  | succ n ih =>
    intro s peers x s' e h hx hs
    rw [ckUnloadObject] at hs
    split at hs
    · obtain ⟨rfl, rfl⟩ := Prod.mk.inj (Option.some.inj hs)
      exact ⟨[], .nil h, .nil s _, fun v hv => absurd hv List.not_mem_nil,
        fun h => absurd h (by decide), fun h => absurd h List.not_mem_nil⟩
    next hlock =>
    obtain ⟨⟨s₁, e₁⟩, h₁, hs⟩ := Option.bind_eq_some_iff.mp hs
    obtain ⟨l, hcall, -⟩ := unloadSwitch_called hx hlock (unloadDependants_called ih (n + 1) s peers
      s₁ e₁ _ h hx rfl (fun h => absurd rfl h) h₁) hs
    exact ⟨l, hcall⟩

/-- **What a call of `CKunCacheObjectKernelCode` does** on an object that is not locked: it
does not return, and the running thread is gone, or the object is. -/
theorem ckUnCacheObject_called {n : Nat} {e : Option DATA} (h : Managed s peers)
    (hx : s.Loaded x) (hlock : ¬ s.Locked x) (hs : ckUnCacheObject n s x = some (s', e)) :
    ∃ l, Called s peers x s' e l ∧ (s.currtask ∈ l ∨ x ∈ l) := by
  rw [ckUnCacheObject, if_neg hlock] at hs
  obtain ⟨⟨s₁, e₁⟩, h₁, hs⟩ := Option.bind_eq_some_iff.mp hs
  obtain ⟨l, hcall, herr⟩ := unloadSwitch_called hx hlock (unloadDependants_called
    (ckUnloadObject_called n) (n + 1) s peers s₁ e₁ _ h hx rfl (fun h => absurd rfl h) h₁) hs
  refine ⟨l, hcall, ?_⟩
  have hends := hcall.ends
  cases e with
  | none => exact .inl hends
  | some error => exact .inr (hends.mp (herr rfl error rfl))

/-- The loop of `CKunCacheObjectKernelCode` over an object that reaches a locked one does not
end: in every round the locked object is still reached. -/
theorem unloadDependants_locked {n : Nat} {w : Addr} (m : Nat) :
    ∀ s peers s' e e₀, Managed s peers → s.Loaded x → Reaches s.odg.edges x w → w ≠ x →
      s.Locked w → unloadDependants (ckUnloadObject n) false x m s e₀ = some (s', e) →
      e = none := by
  induction m with
  | zero =>
    intro s peers s' e e₀ _ _ _ _ _ hs
    rw [unloadDependants] at hs
    exact absurd hs (by simp)
  | succ m ih =>
    intro s peers s' e e₀ h hx hw hne hlock hs
    have h0 : s.odg.dependencies x ≠ 0 := by
      intro h0
      rcases hw.cases_head with rfl | ⟨c, he, -⟩
      · exact hne rfl
      · exact h.indexed.no_child h0 he rfl
    rw [unloadDependants, if_neg h0] at hs
    have he := h.first h0
    obtain ⟨⟨s₁, e₁⟩, h₁, hs⟩ := Option.bind_eq_some_iff.mp hs
    generalize (s.odg.oda (s.odg.firstDependency x)).child = c at he h₁
    obtain ⟨l₁, hcall⟩ := ckUnloadObject_called n s peers c s₁ e₁ h (h.child _ he) h₁
    have hu₁ := hcall.unloaded
    have hc₁ := hcall.cleared
    cases e₁ with
    | none => exact (Prod.mk.inj (Option.some.inj hs)).2.symm
    | some error =>
      simp only [Bool.false_eq_true, false_and, if_false] at hs
      have hlow : (s.signature c).rank < (s.signature x).rank := h.rank _ he hx
      have hxl : x ∉ l₁ := fun hm => absurd (hc₁.rank x hm) (by omega)
      have hwl : w ∉ l₁ := fun hm => hc₁.unlocked w hm hlock
      refine ih s₁ _ s' e _ hu₁.managed ((hu₁.loaded x).mpr ⟨hx, hxl⟩) ?_ hne ?_ hs
      · rw [hu₁.edges]
        exact hw.without hc₁.closed hwl
      · rwa [Locked, hu₁.flags]

/-- **A call that reaches a locked object** from one that is not does not return. -/
theorem ckUnCacheObject_locked {n : Nat} {w : Addr} {e : Option DATA} (h : Managed s peers)
    (hx : s.Loaded x) (hw : Reaches s.odg.edges x w) (hlock : s.Locked w) (hxl : ¬ s.Locked x)
    (hs : ckUnCacheObject n s x = some (s', e)) : e = none := by
  rw [ckUnCacheObject, if_neg hxl] at hs
  obtain ⟨⟨s₁, e₁⟩, h₁, hs⟩ := Option.bind_eq_some_iff.mp hs
  obtain rfl := unloadDependants_locked (n + 1) s peers s₁ e₁ _ h hx hw
    (fun he => hxl (he ▸ hlock)) hlock h₁
  rw [if_neg (by simp)] at hs
  exact (Prod.mk.inj (Option.some.inj hs)).2.symm

end ObjectManager

open ObjectManager

/-- The call ends, says `ELOCKED` and leaves the objects, edges and links as they were. -/
def RefusesLocked (s : ObjectManager) (x : Addr) : Prop :=
  ∃ s', (∃ n, ∀ m, n ≤ m → ckUnCacheObject m s x = some (s', some ELOCKED)) ∧
    s'.allocated = s.allocated ∧ s'.odg.edges = s.odg.edges ∧ s'.next = s.next ∧
    s'.prev = s.prev ∧ s'.objHead = s.objHead

/-- **Locked dependants** are refused exactly where the uncached object itself is locked. -/
theorem locked_uncache_iff {s : ObjectManager} {peers : ObjectSignature → List Addr} {x : Addr}
    (h : Managed s peers) (hx : s.Loaded x)
    (hw : ∃ v, Reaches s.odg.edges x v ∧ s.Locked v) : RefusesLocked s x ↔ s.Locked x := by
  obtain ⟨w, hw, hlock⟩ := hw
  constructor
  · rintro ⟨s', ⟨n, hn⟩, -⟩
    by_cases hxl : s.Locked x
    · exact hxl
    · exact absurd (ckUnCacheObject_locked h hx hw hlock hxl (hn n le_rfl)) (by simp)
  · intro hxl
    exact ⟨s, ⟨0, fun m _ => by rw [ckUnCacheObject, if_pos hxl]⟩, rfl, rfl, rfl, rfl, rfl⟩

/-! ## A locked thread -/

/-- The flags of a header are stored. -/
def ObjectManager.setFlags (s : ObjectManager) (v : Addr) (fl : UDATA) : ObjectManager :=
  s.setHeader v { s.odg.vertex v with flags := fl }

/-- Locking an object keeps the manager in order. -/
theorem ObjectManager.Managed.setFlags {s : ObjectManager} {peers : ObjectSignature → List Addr}
    (h : Managed s peers) (v : Addr) (fl : UDATA) : Managed (s.setFlags v fl) peers := by
  have key : ∀ {β : Type} (f : ObjectHeader → β),
      f { s.odg.vertex v with flags := fl } = f (s.odg.vertex v) →
      (fun u => f ((s.setFlags v fl).odg.vertex u)) = fun u => f (s.odg.vertex u) := by
    intro β f hf
    funext u
    by_cases hu : u = v
    · subst hu
      simp [ObjectManager.setFlags, ObjectManager.setHeader, hf]
    · simp [ObjectManager.setFlags, ObjectManager.setHeader, hu]
  have hnext : (s.setFlags v fl).next = s.next := key ObjectHeader.nextObject rfl
  have hprev : (s.setFlags v fl).prev = s.prev := key ObjectHeader.prevObject rfl
  have hsig : (s.setFlags v fl).signature = s.signature := key ObjectHeader.objectSignature rfl
  refine ⟨h.indexed.congr rfl rfl rfl (key ObjectHeader.dependencies rfl)
    (key ObjectHeader.firstDependency rfl), fun k => ?_, fun k u => ?_, h.nodup, h.child,
    fun e he => ?_, fun e he hl => ?_⟩
  · have hfwd : (s.setFlags v fl).fwd k = s.fwd k := by rw [fwd, hprev]; rfl
    rw [Peers, hfwd, hnext]
    exact h.linked k
  · rw [hsig]
    exact h.mem k u
  · rw [hsig]
    exact h.parent e he
  · rw [hsig]
    exact h.rank e he hl

/-- After `loadThree` and with its thread 192 locked, the kernel 128 reaches it. -/
theorem loadThree_locked : ∃ s peers, Run loadStep (fun s op => op.Legal s) objectManagerAtBoot
    loadThree s ∧ Managed (s.setFlags 192 OFLOCKED) peers ∧
    (s.setFlags 192 OFLOCKED).Loaded 128 ∧ ¬ (s.setFlags 192 OFLOCKED).Locked 128 ∧
    (s.setFlags 192 OFLOCKED).Locked 192 ∧
    Reaches (s.setFlags 192 OFLOCKED).odg.edges 128 192 := by
  have hexec : (exec loadStep (fun s op => op.Legal s) objectManagerAtBoot loadThree).any
      (fun s => decide (s.Loaded 128 ∧ s.odg.edges = [⟨64, 192⟩, ⟨128, 192⟩] ∧
        ¬ (s.setFlags 192 OFLOCKED).Locked 128 ∧ (s.setFlags 192 OFLOCKED).Locked 192)) =
      true := by
    decide +kernel
  obtain ⟨s, hr, hp⟩ := Run.of_exec_any hexec
  obtain ⟨hx, hedges, h128, h192⟩ := of_decide_eq_true hp
  obtain ⟨peers, h⟩ := loads_built objectManagerAtBoot_boot hr
  refine ⟨s, peers, hr, h.managed.setFlags _ _, hx, h128, h192, .single ?_⟩
  rw [show (s.setFlags 192 OFLOCKED).odg.edges = s.odg.edges from rfl, hedges]
  exact .tail _ (.head _)

/-- Uncaching a kernel whose thread is locked does not end in a refusal. -/
theorem locked_uncache_hangs : ∃ s, Run loadStep (fun s op => op.Legal s) objectManagerAtBoot
    loadThree s ∧ (s.setFlags 192 OFLOCKED).Locked 192 ∧
    Reaches (s.setFlags 192 OFLOCKED).odg.edges 128 192 ∧
    ¬ RefusesLocked (s.setFlags 192 OFLOCKED) 128 := by
  obtain ⟨s, peers, hr, h, hx, hxl, hlock, hw⟩ := loadThree_locked
  refine ⟨s, hr, hlock, hw, ?_⟩
  rintro ⟨s', ⟨n, hn⟩, -⟩
  exact absurd (ckUnCacheObject_locked h hx hw hlock hxl (hn n le_rfl)) (by simp)

/-- The kernel of that state and its thread, uncached. -/
theorem locked_uncache_iff_two : ∃ s : ObjectManager,
    (RefusesLocked s 128 ↔ s.Locked 128) ∧ (RefusesLocked s 192 ↔ s.Locked 192) := by
  obtain ⟨s, peers, -, h, hx, -, hlock, hw⟩ := loadThree_locked
  have h192 : (s.setFlags 192 OFLOCKED).Loaded 192 := (h.reaches hx hw).1
  exact ⟨_, locked_uncache_iff h hx ⟨192, hw, hlock⟩, locked_uncache_iff h h192 ⟨192, .refl, hlock⟩⟩

end Alliance.CK
