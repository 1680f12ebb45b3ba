import Alliance.CK.ShMemLists

/-!
# Who may attach shared memory

`CKshMemAttach` asks whether the running thread is on the list of the invited, and
`CKshMemDetach` puts it back there, so a thread that attaches has an invitation behind it
(`call_attaches`). Whose invitation that is depends on `CKshMemInvite`, the only call of
those that are for the owner which does not ask for it.

`AttachedByRight` is about the whole log: each attachment in it has an invitation by the
owner in its past. If only owners invite, it holds (`shMem_rights_run`).
-/

namespace Alliance.CK

open Function Lib

/-- The owner of an object since it was last loaded. -/
def ownerOf (object : Addr) : List ShMemEvent → Option Addr
  | [] => none
  | .loaded o owner :: past => if o = object then some owner else ownerOf object past
  | _ :: past => ownerOf object past

/-- The owner of the object has invited the thread. -/
def InvitedByOwner (object thread : Addr) (log : List ShMemEvent) : Prop :=
  ∃ i ∈ invitations object log, some i.inviter = ownerOf object log ∧ i.thread = thread

/-- The calls that map the pages of the object. -/
def ShMemCall.Attaches : ShMemCall → Prop
  | .attach .. | .remap .. => True
  | _ => False

/-- Every thread that attached an object was invited by its owner before. -/
def AttachedByRight (log : List ShMemEvent) : Prop :=
  ∀ later past caller c, log = later ++ .called caller c 0#32 :: past → c.Attaches →
    InvitedByOwner c.object caller past

/-- An invitation to an object is by its owner. -/
def ShMemOp.ByOwner (m : ShMem) : ShMemOp → Prop
  | .call (.invite object _ _) => ∀ smo ∈ m.shMem object, m.currtask = smo.owner
  | _ => True

instance ShMemOp.decidableByOwner (m : ShMem) : (op : ShMemOp) → Decidable (op.ByOwner m)
  | .call (.invite object _ _) =>
    inferInstanceAs (Decidable (∀ smo ∈ m.shMem object, m.currtask = smo.owner))
  | .dispatch _ | .load _ | .unload _ _ | .header _ _ | .rest _ _ _ => .isTrue trivial
  | .call (.setRange _ _ _) | .call (.attach _ _ _ _) | .call (.detach _)
  | .call (.remap _ _ _ _) | .call (.notify _) => .isTrue trivial

/-- The log knows the owners, and the threads on the lists were invited by them. -/
structure ShMem.Rights (m : ShMem) (L : Addr → ShMemList → List Addr) : Prop where
  owner : ∀ {o smo}, m.shMem o = some smo → ownerOf o m.log = some smo.owner
  invited : ∀ {o n}, n ∈ nodesOf L o → InvitedByOwner o (m.node n).thread m.log
  attached : AttachedByRight m.log

variable {m m' : ShMem} {L L' : Addr → ShMemList → List Addr} {o : Addr} {op : ShMemOp}
  {a b log : List ShMemEvent}

/-! ## The log -/

theorem Effects.ownerOf (h : Effects a b) (o : Addr) : ownerOf o b = ownerOf o a := by
  obtain ⟨es, rfl, hes⟩ := h
  induction es with
  | nil => rfl
  | cons e es ih =>
      have he := hes e (.head _)
      have ih := ih fun e' he' => hes e' (.tail _ he')
      cases e with
      | loaded _ _ => exact he.elim
      | called _ _ _ => exact he.elim
      | sent _ _ _ => exact ih
      | freedNode _ => exact ih
      | freedRecord _ => exact ih

theorem Effects.invitedByOwner (h : Effects a b) {o thread : Addr} :
    InvitedByOwner o thread b ↔ InvitedByOwner o thread a := by
  unfold InvitedByOwner
  rw [h.invitations, h.ownerOf]

/-- A later call takes no invitation back. -/
theorem InvitedByOwner.called {thread : Addr} (h : InvitedByOwner o thread log) (caller : Addr)
    (c : ShMemCall) (r : DATA) : InvitedByOwner o thread (.called caller c r :: log) := by
  obtain ⟨i, hi, hown, ht⟩ := h
  refine ⟨i, ?_, hown, ht⟩
  cases c with
  | invite o' thread' node =>
      rw [invitations]
      split
      · exact .tail _ hi
      · exact hi
  | _ => exact hi

/-- An event that is no attachment. -/
theorem AttachedByRight.cons {e : ShMemEvent} (h : AttachedByRight log)
    (he : ∀ caller c, e = .called caller c 0#32 → c.Attaches →
      InvitedByOwner c.object caller log) : AttachedByRight (e :: log) := by
  intro later past caller c hlog hc
  cases later with
  | nil =>
      obtain ⟨rfl, rfl⟩ := List.cons.inj hlog
      exact he caller c rfl hc
  | cons e' later => exact h later past caller c (List.cons.inj hlog).2 hc

theorem AttachedByRight.effects (h : AttachedByRight a) (heff : Effects a b) :
    AttachedByRight b := by
  obtain ⟨es, rfl, hes⟩ := heff
  induction es with
  | nil => exact h
  | cons e es ih =>
      refine (ih fun e' he' => hes e' (.tail _ he')).cons fun caller c he _ => ?_
      have heff := hes e (.head _)
      rw [he] at heff
      exact heff.elim

/-! ## One step -/

open ShMem in
/-- **An attachment has a node behind it**: the thread was on one of the object's lists. -/
theorem call_attaches {c : ShMemCall} (h : m.Lists L) (hs : m.call c = some (m', 0#32))
    (hc : c.Attaches) : ∃ n ∈ nodesOf L c.object, (m.node n).thread = m.currtask := by
  cases c with
  | invite o thread node => exact hc.elim
  | setRange o logicalAddr size => exact hc.elim
  | attach o logAddr size pageTables =>
      obtain ⟨_, _, hn⟩ := ckShMemAttach_moved h hs
      exact hn rfl
  | detach o => exact hc.elim
  | remap o logAddr size pageTables =>
      obtain ⟨_, _, hn⟩ := ckShMemRemap_moved h hs
      exact hn rfl
  | notify o => exact hc.elim

theorem owner_of_map {smo : ShMemRecord} (h : ∀ o, (m'.shMem o).map ShMemRecord.owner =
    (m.shMem o).map ShMemRecord.owner) (hs : m'.shMem o = some smo) :
    ∃ smo', m.shMem o = some smo' ∧ smo'.owner = smo.owner := by
  have hmap := h o
  rw [hs, Option.map_some] at hmap
  exact Option.map_eq_some_iff.mp hmap.symm

open ShMem in
theorem shMemStep_rights (h : m.Lists L) (hr : m.Rights L) (hl : op.Legal m) (ho : op.ByOwner m)
    (hs : shMemStep m op = some m') : ∃ L', m'.Lists L' ∧ m'.Rights L' := by
  cases op with
  | dispatch thread =>
      obtain rfl := Option.some.inj hs
      exact ⟨L, h.frame rfl rfl rfl rfl, hr.owner, hr.invited, hr.attached⟩
  | call c =>
      obtain ⟨⟨m₁, r⟩, hcall, rfl⟩ := Option.map_eq_some_iff.mp hs
      -- the log after the effects of the call, and the attachment if it was one
      have hattached : ∀ {log}, Effects m.log log →
          AttachedByRight (.called m.currtask c r :: log) := by
        intro log heff
        refine (hr.attached.effects heff).cons fun caller c' he hc => ?_
        cases he
        obtain ⟨n, hn, ht⟩ := call_attaches h hcall hc
        exact heff.invitedByOwner.mpr (ht ▸ hr.invited hn)
      obtain ⟨o, thread, node, L', rfl, rfl, hi⟩ | ⟨_, L', hm⟩ := call_cases h hl hcall
      · refine ⟨L', hi.lists.frame rfl rfl rfl rfl, fun hs => ?_, fun {o' n} hn => ?_,
          hattached hi.log⟩
        · obtain ⟨smo', hs', heq⟩ := owner_of_map hi.owner hs
          exact (hi.log.ownerOf _).trans (heq ▸ hr.owner hs')
        · by_cases hnode : n = node ∧ o' = o
          · -- the new node: its invitation is the call itself, which is by the owner
            obtain ⟨rfl, rfl⟩ := hnode
            obtain ⟨smo, hsmo⟩ := Option.isSome_iff_exists.mp hi.loaded
            refine ⟨⟨m.currtask, thread, n⟩, ?_, ?_, hi.thread.symm⟩
            · unfold ShMem.record
              dsimp only
              rw [invitations, if_pos ⟨rfl, rfl⟩]
              exact .head _
            · rw [ho smo hsmo]
              exact ((hi.log.ownerOf o').trans (hr.owner hsmo)).symm
          · have hn : n ∈ nodesOf L o' ∧ n ≠ node := by
              by_cases hoo : o' = o
              · subst hoo
                obtain rfl | hn := List.mem_cons.mp (hi.nodes.mem_iff.mp hn)
                · exact absurd ⟨rfl, rfl⟩ hnode
                · exact ⟨hn, ne_of_mem_of_not_mem hn (hi.fresh o')⟩
              · rw [hi.others o' hoo] at hn
                exact ⟨hn, ne_of_mem_of_not_mem hn (hi.fresh o')⟩
            have hinv := (hi.log.invitedByOwner.mpr (hr.invited hn.1)).called m.currtask
              (.invite o thread node) 0#32
            rw [← hi.kept n hn.2] at hinv
            exact hinv
      · refine ⟨L', hm.lists.frame rfl rfl rfl rfl, fun hs => ?_, fun {o' n} hn => ?_,
          hattached hm.log⟩
        · obtain ⟨smo', hs', heq⟩ := owner_of_map hm.owner hs
          exact (hm.log.ownerOf _).trans (heq ▸ hr.owner hs')
        · have hinv := (hm.log.invitedByOwner.mpr
            (hr.invited ((hm.nodes o').mem_iff.mp hn))).called m.currtask c r
          rw [← hm.thread n] at hinv
          exact hinv
  | load object =>
      obtain rfl := Option.some.inj hs
      have hl := Option.isNone_iff_eq_none.mp hl
      have hne : ∀ {o' n}, n ∈ nodesOf L o' → o' ≠ object := by
        intro o' n hn he
        rw [he, nodesOf, h.gone hl, h.gone hl] at hn
        exact List.not_mem_nil hn
      refine ⟨L, h.load hl, fun {o' smo} hs => ?_, fun {o' n} hn => ?_,
        hr.attached.cons fun _ _ he => by cases he⟩
      · unfold ckLoadSHMemObject record at hs ⊢
        dsimp only at hs ⊢
        rw [ownerOf]
        by_cases hoo : o' = object
        · subst hoo
          rw [update_self] at hs
          obtain rfl := Option.some.inj hs
          rw [if_pos rfl]
        · rw [update_of_ne hoo] at hs
          rw [if_neg (Ne.symm hoo)]
          exact hr.owner hs
      · obtain ⟨i, hi, hown, ht⟩ := hr.invited hn
        refine ⟨i, ?_, ?_, ht⟩
        · unfold ckLoadSHMemObject record
          dsimp only
          rwa [invitations, if_neg (Ne.symm (hne hn))]
        · unfold ckLoadSHMemObject record
          dsimp only
          rwa [ownerOf, if_neg (Ne.symm (hne hn))]
  | unload object header =>
      obtain ⟨smo, hsmo⟩ := Option.isSome_iff_exists.mp hl
      rw [shMemStep, ckUnloadSHMemObject_eq h hsmo] at hs
      obtain rfl := Option.some.inj hs
      have heff : Effects m.log (.freedRecord object ::
          ((destroyEvents m object smo.owner L).reverse ++ m.log)) := destroyEvents_effects m.log
      refine ⟨_, h.unload, fun {o' smo'} hs => ?_, fun {o' n} hn => ?_, hr.attached.effects heff⟩
      · dsimp only at hs
        have hoo : o' ≠ object := fun he => by simp [he] at hs
        rw [update_of_ne hoo] at hs
        exact (heff.ownerOf o').trans (hr.owner hs)
      · have hoo : o' ≠ object := fun he => by simp [he, nodesOf] at hn
        unfold nodesOf at hn
        rw [update_of_ne hoo] at hn
        exact heff.invitedByOwner.mpr (hr.invited hn)
  | header object signature =>
      obtain rfl := Option.some.inj hs
      exact ⟨L, h.header (Option.isNone_iff_eq_none.mp hl) signature, hr.owner, hr.invited,
        hr.attached⟩
  | rest addrSpc addressSpace paging =>
      obtain rfl := Option.some.inj hs
      exact ⟨L, h.frame rfl rfl rfl rfl, hr.owner, hr.invited, hr.attached⟩

/-! ## Runs -/

theorem ShMem.Boot.rights (h : m.Boot) : m.Rights fun _ _ => [] where
  owner hs := by simp [h.shMem] at hs
  invited hn := absurd hn List.not_mem_nil
  attached later past caller c hlog := by simp [h.log] at hlog

/-- **Shared memory needs the owner's invitation.** In a run in which each invitation to an
object is by its owner, whoever attached an object was invited by its owner before, and so was
every thread that is attached to it now. -/
theorem shMem_rights_run {m₀ : ShMem} {ops : List ShMemOp} (h0 : m₀.Boot)
    (hr : Run shMemStep (fun m op => op.Legal m ∧ op.ByOwner m) m₀ ops m) :
    AttachedByRight m.log ∧
      ∀ o smo nodes, m.shMem o = some smo → Chained NIL m.next (smo.ends .threads).first nodes →
        ∀ n ∈ nodes, InvitedByOwner o (m.node n).thread m.log := by
  obtain ⟨L, h, hrights⟩ := hr.invariant (I := fun m => ∃ L, m.Lists L ∧ m.Rights L)
    (fun ⟨_, h, hrights⟩ hC hs => shMemStep_rights h hrights hC.1 hC.2 hs)
    ⟨_, h0.lists.1, h0.rights⟩
  refine ⟨hrights.attached, fun o smo nodes hs hc n hn => hrights.invited ?_⟩
  obtain rfl := hc.unique (h.queue hs .threads).chained
  exact mem_nodesOf.mpr ⟨.threads, hn⟩

theorem shMem_rights_run_attachTwo : ∃ m smo,
    Run shMemStep (fun m op => op.Legal m ∧ op.ByOwner m) shMemAtBoot attachTwo m ∧
      m.shMem 80 = some smo ∧ (smo.ends .threads).first = 120 ∧ AttachedByRight m.log := by
  obtain ⟨m, hr, hp⟩ := Run.of_exec_any
    (show (exec shMemStep (fun m op => op.Legal m ∧ op.ByOwner m) shMemAtBoot attachTwo).any
      (fun m => (m.shMem 80).any fun smo => decide ((smo.ends .threads).first = 120)) = true by
      decide +kernel)
  obtain ⟨smo, hsmo, hp⟩ := (Option.any_eq_true _ _).mp hp
  exact ⟨m, smo, hr, hsmo, of_decide_eq_true hp, (shMem_rights_run shMemAtBoot_boot hr).1⟩

/-- Thread 32, which nobody invited, invites itself and attaches. -/
def inviteItself : List ShMemOp :=
  [.load 80, .dispatch 32, .call (.invite 80 32 100), .call (.attach 80 0#32 0#32 0#32)]

/-- What `inviteItself` leaves in the log. -/
def invitedItself : List ShMemEvent :=
  [.called 32 (.invite 80 32 100) 0#32, .sent 32 SIGNLSHINVI 80, .loaded 80 16]

theorem invite_itself_attaches : ∃ m, Run shMemStep ShMemOp.Legal shMemAtBoot inviteItself m ∧
    m.log = .called 32 (.attach 80 0#32 0#32 0#32) 0#32 :: invitedItself ∧
    ¬ AttachedByRight m.log := by
  obtain ⟨m, hr, hp⟩ := Run.of_exec_any
    (show (exec shMemStep ShMemOp.Legal shMemAtBoot inviteItself).any (fun m =>
      decide (m.log = .called 32 (.attach 80 0#32 0#32 0#32) 0#32 :: invitedItself)) = true by
      decide +kernel)
  have hlog := of_decide_eq_true hp
  refine ⟨m, hr, hlog, fun hright => ?_⟩
  obtain ⟨i, hi, hown, _⟩ := hright [] invitedItself 32 (.attach 80 0#32 0#32 0#32) hlog trivial
  -- the only invitation is by thread 32, and the owner is thread 16
  obtain rfl : i = ⟨32, 32, 100⟩ := List.mem_singleton.mp hi
  exact absurd hown (by decide)

end Alliance.CK
