import Alliance.CK.ShMem

/-!
# The lists of shared memory objects

`ShMem.Lists m L` says what the pointers stand for: `L o w` are the nodes of list `w` of the
object `o`. No node is in two lists, and nodes that are in a list are allocated.

A call either adds the node of an invitation (`ShMem.Invited`) or keeps the nodes of every
object, moving at most one from one list to the other (`ShMem.Moved`); `call_cases` is that
for all calls, also for those that fail halfway. So the nodes of a loaded object are those of
the invitations that succeeded since it was loaded (`shMem_lists_run`).
-/

namespace Alliance.CK

open Function Lib

/-- `L` with another list in one place. -/
def setList (L : Addr → ShMemList → List Addr) (o : Addr) (w : ShMemList) (l : List Addr) :
    Addr → ShMemList → List Addr :=
  update L o (update (L o) w l)

/-- The nodes of an object. -/
def nodesOf (L : Addr → ShMemList → List Addr) (o : Addr) : List Addr :=
  L o .invited ++ L o .threads

/-- An invitation that succeeded. -/
structure Invitation where
  inviter : Addr
  thread : Addr
  node : Addr
  deriving DecidableEq

/-- The invitations to an object that succeeded since it was loaded, newest first. -/
def invitations (object : Addr) : List ShMemEvent → List Invitation
  | [] => []
  | .loaded o _ :: past => if o = object then [] else invitations object past
  | .called caller (.invite o thread node) result :: past =>
    if o = object ∧ result = 0#32 then ⟨caller, thread, node⟩ :: invitations object past
    else invitations object past
  | _ :: past => invitations object past

/-- The pointers of all objects stand for the lists `L`. -/
structure ShMem.Lists (m : ShMem) (L : Addr → ShMemList → List Addr) : Prop where
  queue : ∀ {o smo}, m.shMem o = some smo → ∀ w, Queue NIL m.next (smo.ends w) (L o w)
  gone : ∀ {o}, m.shMem o = none → ∀ w, L o w = []
  apart : ∀ {o w o' w' n}, n ∈ L o w → n ∈ L o' w' → o = o' ∧ w = w'
  used : ∀ {o w n}, n ∈ L o w → m.used n = true
  bound : ∀ {n}, m.used n = true → n < ADDRESSES
  live : ∀ {o smo}, m.shMem o = some smo → m.signature o = .SIGSHMEM ∧ smo.dead = false

variable {m m' : ShMem} {L L' : Addr → ShMemList → List Addr} {o o' x : Addr} {w w' : ShMemList}
  {l as bs : List Addr} {smo : ShMemRecord} {r : DATA}

@[simp] theorem setList_self : setList L o w l o w = l := by simp [setList]

theorem setList_of_ne (h : ¬ (o' = o ∧ w' = w)) : setList L o w l o' w' = L o' w' := by
  unfold setList
  by_cases ho : o' = o
  · subst ho
    rw [update_self, update_of_ne (fun hw => h ⟨rfl, hw⟩)]
  · rw [update_of_ne ho]

theorem nodesOf_setList_of_ne (h : o' ≠ o) : nodesOf (setList L o w l) o' = nodesOf L o' := by
  unfold nodesOf
  rw [setList_of_ne fun he => h he.1, setList_of_ne fun he => h he.1]

theorem mem_nodesOf {n : Addr} : n ∈ nodesOf L o ↔ ∃ w, n ∈ L o w := by
  unfold nodesOf
  rw [List.mem_append]
  constructor
  · rintro (h | h)
    · exact ⟨_, h⟩
    · exact ⟨_, h⟩
  · rintro ⟨w, h⟩
    cases w with
    | invited => exact .inl h
    | threads => exact .inr h

/-- Distinct addresses other than `NIL` are fewer than all addresses. -/
theorem length_lt_of_nodup {N : Nat} (hN : 0 < N) (hn : l.Nodup) (h0 : NIL ∉ l)
    (hb : ∀ n ∈ l, n < N) : l.length < N := by
  have hsub : NIL :: l ⊆ List.range N := by
    intro n hmem
    rw [List.mem_range]
    obtain rfl | hmem := List.mem_cons.mp hmem
    · exact hN
    · exact hb n hmem
  have hle := ((List.nodup_cons.mpr ⟨h0, hn⟩).subperm hsub).length_le
  rwa [List.length_cons, List.length_range] at hle

namespace ShMem.Lists

theorem nodup (h : m.Lists L) (o : Addr) (w : ShMemList) : (L o w).Nodup := by
  cases ho : m.shMem o with
  | none => rw [h.gone ho]; exact .nil
  | some smo => exact (h.queue ho w).chained.nodup

theorem nil_notMem (h : m.Lists L) (o : Addr) (w : ShMemList) : NIL ∉ L o w := by
  cases ho : m.shMem o with
  | none => rw [h.gone ho]; exact List.not_mem_nil
  | some smo => exact (h.queue ho w).chained.nil_notMem

/-- No walk along a list runs out of fuel. -/
theorem length_lt (h : m.Lists L) (o : Addr) (w : ShMemList) : (L o w).length < ADDRESSES :=
  length_lt_of_nodup (by decide) (h.nodup o w) (h.nil_notMem o w) fun _ hn => h.bound (h.used hn)

theorem nodesOf_nodup (h : m.Lists L) (o : Addr) : (nodesOf L o).Nodup := by
  refine List.nodup_append.mpr ⟨h.nodup o _, h.nodup o _, fun a ha b hb he => ?_⟩
  subst he
  exact absurd (h.apart ha hb).2 (by decide)

/-- What the lists do not speak of may change. -/
theorem frame (h : m.Lists L) (hs : m'.shMem = m.shMem) (hn : m'.next = m.next)
    (hu : m'.used = m.used) (hsig : m'.signature = m.signature) : m'.Lists L where
  queue ho := by rw [hn]; exact h.queue (hs ▸ ho)
  gone ho := h.gone (hs ▸ ho)
  apart := h.apart
  used hx := by rw [hu]; exact h.used hx
  bound hx := h.bound (hu ▸ hx)
  live ho := by rw [hsig]; exact h.live (hs ▸ ho)

/-- **One list is replaced** by another one of its own nodes and of free ones. -/
theorem replace (h : m.Lists L) (hs : m.shMem o = some smo) {next : Addr → Addr} {e : Ends Addr}
    (hq : Queue NIL next e l)
    (hnext : ∀ o' w', ¬ (o' = o ∧ w' = w) → ∀ y ∈ L o' w', next y = m.next y)
    (hmem : ∀ y ∈ l, y ∈ L o w ∨ m.used y = true ∧ ∀ o' w', y ∉ L o' w') :
    Lists { m with
      next := next
      shMem := update m.shMem o (some { smo with ends := update smo.ends w e }) }
      (setList L o w l) := by
  have hcases : ∀ {o' w' y}, y ∈ setList L o w l o' w' → (o' = o ∧ w' = w ∧ y ∈ l) ∨
      ¬ (o' = o ∧ w' = w) ∧ y ∈ L o' w' := by
    intro o' w' y hy
    by_cases he : o' = o ∧ w' = w
    · obtain ⟨rfl, rfl⟩ := he
      rw [setList_self] at hy
      exact .inl ⟨rfl, rfl, hy⟩
    · rw [setList_of_ne he] at hy
      exact .inr ⟨he, hy⟩
  -- a node of the new list is in no other list
  have hout : ∀ {o' w' y}, y ∈ l → ¬ (o' = o ∧ w' = w) → y ∉ L o' w' := by
    intro o' w' y hy hne hy'
    obtain hold | ⟨_, hfree⟩ := hmem y hy
    · exact hne (h.apart hy' hold)
    · exact hfree o' w' hy'
  refine
    { queue := ?_
      gone := ?_
      apart := ?_
      used := ?_
      bound := h.bound
      live := ?_ }
  · intro o' smo' hs' w'
    by_cases ho : o' = o
    · subst ho
      dsimp only at hs'
      rw [update_self] at hs'
      obtain rfl := Option.some.inj hs'
      by_cases hw : w' = w
      · subst hw
        simpa using hq
      · dsimp only
        rw [update_of_ne hw, setList_of_ne fun he => hw he.2]
        exact (h.queue hs w').congr (hnext _ _ fun he => hw he.2)
    · dsimp only at hs'
      rw [update_of_ne ho] at hs'
      rw [setList_of_ne fun he => ho he.1]
      exact (h.queue hs' w').congr (hnext _ _ fun he => ho he.1)
  · intro o' hs' w'
    by_cases ho : o' = o
    · subst ho
      simp at hs'
    · dsimp only at hs'
      rw [update_of_ne ho] at hs'
      rw [setList_of_ne fun he => ho he.1]
      exact h.gone hs' w'
  · intro o₁ w₁ o₂ w₂ n h₁ h₂
    obtain ⟨rfl, rfl, hl₁⟩ | ⟨hne₁, hm₁⟩ := hcases h₁ <;>
      obtain ⟨rfl, rfl, hl₂⟩ | ⟨hne₂, hm₂⟩ := hcases h₂
    · exact ⟨rfl, rfl⟩
    · exact absurd hm₂ (hout hl₁ hne₂)
    · exact absurd hm₁ (hout hl₂ hne₁)
    · exact h.apart hm₁ hm₂
  · intro o' w' n hn
    obtain ⟨rfl, rfl, hl⟩ | ⟨_, hn⟩ := hcases hn
    · obtain hold | ⟨hu, _⟩ := hmem n hl
      · exact h.used hold
      · exact hu
    · exact h.used hn
  · intro o' smo' hs'
    by_cases ho : o' = o
    · subst ho
      dsimp only at hs'
      rw [update_self] at hs'
      obtain rfl := Option.some.inj hs'
      exact ⟨(h.live hs).1, (h.live hs).2⟩
    · dsimp only at hs'
      rw [update_of_ne ho] at hs'
      exact h.live hs'

/-- A record is written, but not the ends of its lists. -/
theorem setRecord (h : m.Lists L) (hs : m.shMem o = some smo) {smo' : ShMemRecord}
    (he : smo'.ends = smo.ends) (hd : smo'.dead = smo.dead) : (m.setShMem o smo').Lists L := by
  have hset : ∀ {o' smo₂}, (m.setShMem o smo').shMem o' = some smo₂ →
      ∃ smo₁, m.shMem o' = some smo₁ ∧ smo₂.ends = smo₁.ends ∧ smo₂.dead = smo₁.dead := by
    intro o' smo₂ hs'
    unfold setShMem at hs'
    dsimp only at hs'
    by_cases ho : o' = o
    · subst ho
      rw [update_self] at hs'
      obtain rfl := Option.some.inj hs'
      exact ⟨smo, hs, he, hd⟩
    · rw [update_of_ne ho] at hs'
      exact ⟨smo₂, hs', rfl, rfl⟩
  refine
    { queue := ?_
      gone := ?_
      apart := h.apart
      used := h.used
      bound := h.bound
      live := ?_ }
  · intro o' smo₂ hs' w'
    obtain ⟨smo₁, h₁, he, _⟩ := hset hs'
    rw [he]
    exact h.queue h₁ w'
  · intro o' hs' w'
    unfold setShMem at hs'
    dsimp only at hs'
    by_cases ho : o' = o
    · subst ho
      simp at hs'
    · rw [update_of_ne ho] at hs'
      exact h.gone hs' w'
  · intro o' smo₂ hs'
    obtain ⟨smo₁, h₁, _, hd⟩ := hset hs'
    exact ⟨(h.live h₁).1, hd.trans (h.live h₁).2⟩

/-- A free node is appended to a list. -/
theorem append (h : m.Lists L) (hs : m.shMem o = some smo) (hx : x ≠ NIL)
    (hu : m.used x = true) (hfree : ∀ o' w', x ∉ L o' w') :
    (m.append o smo w x).Lists (setList L o w (L o w ++ [x])) := by
  have hq : Queue NIL (update m.next x NIL) (smo.ends w) (L o w) :=
    (h.queue hs w).congr fun y hy => update_of_ne (ne_of_mem_of_not_mem hy (hfree o w)) ..
  refine h.replace hs (hq.push (hfree o w) hx (update_self ..)) ?_ ?_
  · intro o' w' hne y hy
    have hyx : y ≠ x := ne_of_mem_of_not_mem hy (hfree o' w')
    unfold Ends.push
    dsimp only
    split
    · rename_i hlast
      -- the last node belongs to this list
      have hmem := hq.last_mem fun he => hlast (hq.last_eq_nil.mpr he)
      have hne' : y ≠ (smo.ends w).last := fun e => hne (h.apart hy (e ▸ hmem))
      rw [update_of_ne hne', update_of_ne hyx]
    · rw [update_of_ne hyx]
  · intro y hy
    obtain hy | hy := List.mem_append.mp hy
    · exact .inl hy
    · obtain rfl := List.mem_singleton.mp hy
      exact .inr ⟨hu, hfree⟩

/-- A node is taken out of a list. -/
theorem takeOut (h : m.Lists L) (hs : m.shMem o = some smo) (hl : L o w = as ++ x :: bs) :
    (m.takeOut o smo w x (as.getLastD NIL)).Lists (setList L o w (as ++ bs)) := by
  have hq := h.queue hs w
  rw [hl] at hq
  refine h.replace hs (hq.unlink rfl) ?_ ?_
  · intro o' w' hne y hy
    unfold Ends.unlink
    dsimp only
    split
    · rfl
    · rename_i hprev
      rcases List.eq_nil_or_concat as with rfl | ⟨as, z, rfl⟩
      · exact absurd rfl hprev
      · rw [List.concat_eq_append] at hl ⊢
        rw [List.getLastD_concat]
        refine update_of_ne (fun e => hne (h.apart hy ?_)) ..
        rw [hl, e]
        simp
  · intro y hy
    rw [hl]
    obtain hy | hy := List.mem_append.mp hy
    · exact .inl (List.mem_append_left _ hy)
    · exact .inl (List.mem_append_right _ (.tail _ hy))

/-- **A node moves** from one list of an object to the other one. -/
theorem move (h : m.Lists L) (hs : m.shMem o = some smo) (hl : L o w = as ++ x :: bs)
    (hw : w' ≠ w) (node : Addr → SHTHREADLIST) :
    ∃ smo', (m.takeOut o smo w x (as.getLastD NIL)).shMem o = some smo' ∧
      smo'.dead = smo.dead ∧ smo'.owner = smo.owner ∧
      (ShMem.append { m.takeOut o smo w x (as.getLastD NIL) with node := node } o smo' w' x).Lists
        (setList (setList L o w (as ++ bs)) o w' (L o w' ++ [x])) := by
  have hx : x ∈ L o w := by rw [hl]; simp
  have h₁ := h.takeOut hs hl
  have hfree : ∀ o₁ w₁, x ∉ setList L o w (as ++ bs) o₁ w₁ := by
    intro o₁ w₁ hm
    by_cases he : o₁ = o ∧ w₁ = w
    · obtain ⟨rfl, rfl⟩ := he
      rw [setList_self] at hm
      have hnodup := h.nodup o₁ w₁
      rw [hl, List.nodup_append, List.nodup_cons] at hnodup
      obtain hm | hm := List.mem_append.mp hm
      · exact hnodup.2.2 x hm x (.head _) rfl
      · exact hnodup.2.1.1 hm
    · rw [setList_of_ne he] at hm
      exact he (h.apart hm hx)
  have h₂ : Lists { m.takeOut o smo w x (as.getLastD NIL) with node := node }
      (setList L o w (as ++ bs)) := h₁.frame rfl rfl rfl rfl
  refine ⟨_, update_self .., rfl, rfl, ?_⟩
  have h₃ := @append _ _ _ _ w' _ h₂ (update_self ..)
    (fun e => h.nil_notMem o w (e ▸ hx)) (h.used hx) hfree
  rwa [setList_of_ne fun he => hw he.2] at h₃

/-- `fetchThread` finds the first node of a thread, with the node before it. -/
theorem fetchThread_cases (h : m.Lists L) (hs : m.shMem o = some smo) (w : ShMemList)
    (thread : Addr) :
    ((∀ y ∈ L o w, (m.node y).thread ≠ thread) ∧
        ∃ z, m.fetchThread (smo.ends w).first thread = some (NIL, z)) ∨
      ∃ as x bs, L o w = as ++ x :: bs ∧ x ≠ NIL ∧ (m.node x).thread = thread ∧
        m.fetchThread (smo.ends w).first thread = some (x, as.getLastD NIL) := by
  obtain hnone | ⟨as, x, bs, hl, _, hx, hf⟩ :=
    @search_cases _ NIL _ _ _ NIL _ (fun n => (m.node n).thread = thread) _ ADDRESSES
      (h.queue hs w).chained (h.length_lt o w)
  · exact .inl hnone
  · refine .inr ⟨as, x, bs, hl, fun e => h.nil_notMem o w ?_, hx, hf⟩
    rw [hl, ← e]
    simp

theorem allocNode (h : m.Lists L) (hx : x < ADDRESSES) : (m.allocNode x).Lists L where
  queue := h.queue
  gone := h.gone
  apart := h.apart
  used := by
    intro o w n hn
    unfold ShMem.allocNode
    dsimp only
    by_cases hnx : n = x
    · rw [hnx, update_self]
    · rw [update_of_ne hnx]
      exact h.used hn
  bound := by
    intro n hn
    unfold ShMem.allocNode at hn
    dsimp only at hn
    by_cases hnx : n = x
    · exact hnx ▸ hx
    · rw [update_of_ne hnx] at hn
      exact h.bound hn
  live := h.live

end ShMem.Lists

/-! ## What a call does -/

/-- A signal or a free, as opposed to a call or an object that is loaded. -/
def ShMemEvent.IsEffect : ShMemEvent → Prop
  | .loaded .. | .called .. => False
  | .sent .. | .freedNode _ | .freedRecord _ => True

/-- The log grew by signals and frees. -/
def Effects (old new : List ShMemEvent) : Prop := ∃ es, new = es ++ old ∧ ∀ e ∈ es, e.IsEffect

/-- Each object has the nodes it had, though perhaps in another of its lists. -/
structure ShMem.Moved (m m' : ShMem) (L L' : Addr → ShMemList → List Addr) : Prop where
  lists : m'.Lists L'
  nodes : ∀ o, (nodesOf L' o).Perm (nodesOf L o)
  thread : ∀ n, (m'.node n).thread = (m.node n).thread
  owner : ∀ o, (m'.shMem o).map ShMemRecord.owner = (m.shMem o).map ShMemRecord.owner
  used : m'.used = m.used
  currtask : m'.currtask = m.currtask
  log : Effects m.log m'.log

/-- An object has a node more than it had, which was free before. -/
structure ShMem.Invited (m m' : ShMem) (L L' : Addr → ShMemList → List Addr)
    (o thread node : Addr) : Prop where
  lists : m'.Lists L'
  nodes : (nodesOf L' o).Perm (node :: nodesOf L o)
  others : ∀ o', o' ≠ o → nodesOf L' o' = nodesOf L o'
  fresh : ∀ o', node ∉ nodesOf L o'
  thread : (m'.node node).thread = thread
  kept : ∀ n, n ≠ node → m'.node n = m.node n
  loaded : (m.shMem o).isSome
  owner : ∀ o, (m'.shMem o).map ShMemRecord.owner = (m.shMem o).map ShMemRecord.owner
  currtask : m'.currtask = m.currtask
  log : Effects m.log m'.log

theorem Effects.refl (log : List ShMemEvent) : Effects log log := ⟨[], rfl, by simp⟩

theorem Effects.trans {a b c : List ShMemEvent} (h : Effects a b) (h' : Effects b c) :
    Effects a c := by
  obtain ⟨s, rfl, hs⟩ := h
  obtain ⟨s', rfl, hs'⟩ := h'
  refine ⟨s' ++ s, (List.append_assoc ..).symm, fun e he => ?_⟩
  exact (List.mem_append.mp he).elim (hs' e) (hs e)

theorem Effects.sent (log : List ShMemEvent) (thread : Addr) (signal : UDATA) (object : Addr) :
    Effects log (.sent thread signal object :: log) :=
  ⟨[_], rfl, by simp [ShMemEvent.IsEffect]⟩

/-- Signals and frees are no invitations. -/
theorem Effects.invitations {a b : List ShMemEvent} (h : Effects a b) (o : Addr) :
    invitations o b = invitations o a := by
  obtain ⟨es, rfl, hes⟩ := h
  induction es with
  | nil => rfl
  | cons e es ih =>
      have he := hes e (.head _)
      have ih := ih fun e' he' => hes e' (.tail _ he')
      cases e with
      | loaded _ _ => exact he.elim
      | called _ _ _ => exact he.elim
      | sent _ _ _ => exact ih
      | freedNode _ => exact ih
      | freedRecord _ => exact ih

namespace ShMem

theorem Moved.refl (h : m.Lists L) : m.Moved m L L where
  lists := h
  nodes _ := .refl _
  thread _ := rfl
  owner _ := rfl
  used := rfl
  currtask := rfl
  log := .refl _

theorem Moved.trans {m'' : ShMem} {L'' : Addr → ShMemList → List Addr} (h : m.Moved m' L L')
    (h' : m'.Moved m'' L' L'') : m.Moved m'' L L'' where
  lists := h'.lists
  nodes o := (h'.nodes o).trans (h.nodes o)
  thread n := (h'.thread n).trans (h.thread n)
  owner o := (h'.owner o).trans (h.owner o)
  used := h'.used.trans h.used
  currtask := h'.currtask.trans h.currtask
  log := h.log.trans h'.log

/-- The records and the lists stay. -/
theorem Moved.of_frame (h : m.Lists L) (hs : m'.shMem = m.shMem) (hn : m'.next = m.next)
    (hnode : m'.node = m.node) (hu : m'.used = m.used) (hsig : m'.signature = m.signature)
    (hc : m'.currtask = m.currtask) (hlog : Effects m.log m'.log) : m.Moved m' L L where
  lists := h.frame hs hn hu hsig
  nodes _ := .refl _
  thread n := by rw [hnode]
  owner o := by rw [hs]
  used := hu
  currtask := hc
  log := hlog

/-- The nodes of an object stay when one of them moves to the other list. -/
theorem nodesOf_move (hl : L o w = as ++ x :: bs) (hw : w' ≠ w) (o' : Addr) :
    (nodesOf (setList (setList L o w (as ++ bs)) o w' (L o w' ++ [x])) o').Perm (nodesOf L o') := by
  by_cases ho : o' = o
  · subst ho
    unfold nodesOf
    rw [List.perm_iff_count]
    intro a
    cases w <;> cases w'
    · exact absurd rfl hw
    · rw [setList_of_ne (by simp), setList_self, setList_self, hl]
      simp only [List.count_append, List.count_cons, List.count_nil]
      omega
    · rw [setList_self, setList_of_ne (by simp), setList_self, hl]
      simp only [List.count_append, List.count_cons, List.count_nil]
      omega
    · exact absurd rfl hw
  · rw [nodesOf_setList_of_ne ho, nodesOf_setList_of_ne ho]

theorem owner_update (hs : m.shMem o = some smo) {smo' : ShMemRecord}
    (ho : smo'.owner = smo.owner) (o' : Addr) :
    (update m.shMem o (some smo') o').map ShMemRecord.owner =
      (m.shMem o').map ShMemRecord.owner := by
  by_cases h : o' = o
  · subst h
    rw [update_self, hs, Option.map_some, Option.map_some, ho]
  · rw [update_of_ne h]

theorem append_owner (hs : m.shMem o = some smo) (o' : Addr) :
    ((m.append o smo w x).shMem o').map ShMemRecord.owner =
      (m.shMem o').map ShMemRecord.owner := by
  unfold append
  dsimp only
  refine owner_update hs ?_ o'
  rfl

theorem takeOut_owner {ptl : Addr} (hs : m.shMem o = some smo) (o' : Addr) :
    ((m.takeOut o smo w x ptl).shMem o').map ShMemRecord.owner =
      (m.shMem o').map ShMemRecord.owner := by
  unfold takeOut
  dsimp only
  refine owner_update hs ?_ o'
  rfl

/-- A node moves, and nothing else in it than its range changes. -/
theorem Moved.move (h : m.Lists L) (hs : m.shMem o = some smo) (hl : L o w = as ++ x :: bs)
    (hw : w' ≠ w) {node : Addr → SHTHREADLIST} (hnode : ∀ n, (node n).thread = (m.node n).thread)
    {smo' : ShMemRecord} (hs' : (m.takeOut o smo w x (as.getLastD NIL)).shMem o = some smo') :
    smo'.dead = false ∧
      m.Moved (ShMem.append { m.takeOut o smo w x (as.getLastD NIL) with node := node } o smo' w' x)
        L (setList (setList L o w (as ++ bs)) o w' (L o w' ++ [x])) := by
  obtain ⟨smo₁, h₁, hdead, howner, hlists⟩ := h.move hs hl hw node
  obtain rfl : smo₁ = smo' := Option.some.inj (h₁.symm.trans hs')
  refine ⟨hdead.trans (h.live hs).2, ?_⟩
  exact {
    lists := hlists
    nodes := nodesOf_move hl hw
    thread := hnode
    owner := fun o' => (append_owner h₁ o').trans (takeOut_owner hs o')
    used := rfl
    currtask := rfl
    log := .refl _ }

/-- `CKshMemInvite`. -/
theorem ckShMemInvite_cases {thread node : Addr} (h : m.Lists L) (hfree : m.used node = false)
    (hb : node < ADDRESSES) (hs : m.ckShMemInvite o thread node = some (m', r)) :
    (r ≠ 0#32 ∧ m' = m) ∨ (r = 0#32 ∧ ∃ L', m.Invited m' L L' o thread node) := by
  unfold ckShMemInvite at hs
  split at hs
  · obtain ⟨rfl, rfl⟩ := Prod.mk.inj (Option.some.inj hs)
    exact .inl ⟨by decide, rfl⟩
  · obtain ⟨smo, hsmo, hs⟩ := Option.bind_eq_some_iff.mp hs
    split at hs
    · obtain ⟨rfl, rfl⟩ := Prod.mk.inj (Option.some.inj hs)
      exact .inl ⟨by decide, rfl⟩
    · split at hs
      · obtain ⟨rfl, rfl⟩ := Prod.mk.inj (Option.some.inj hs)
        exact .inl ⟨by decide, rfl⟩
      · rename_i hnil
        obtain ⟨rfl, rfl⟩ := Prod.mk.inj (Option.some.inj hs)
        refine .inr ⟨rfl, setList L o .invited (L o .invited ++ [node]), ?_⟩
        have hout : ∀ o' w', node ∉ L o' w' := fun o' w' hm => by simp [h.used hm] at hfree
        have h₁ : Lists { m.allocNode node with
            node := update m.node node { m.node node with thread := thread } } L :=
          (h.allocNode hb).frame rfl rfl rfl rfl
        have hlists := h₁.append (w := .invited) hsmo hnil (update_self ..) hout
        exact {
          lists := hlists.frame rfl rfl rfl rfl
          nodes := by
            unfold nodesOf
            rw [setList_self, setList_of_ne (by simp), List.append_assoc]
            exact List.perm_middle
          others := fun o' ho => nodesOf_setList_of_ne ho
          fresh := fun o' hm => by
            obtain ⟨w', hm⟩ := mem_nodesOf.mp hm
            exact hout o' w' hm
          thread := by
            change (update m.node node _ node).thread = thread
            rw [update_self]
          kept := fun n hn => update_of_ne hn ..
          loaded := by rw [hsmo]; rfl
          owner := owner_update hsmo rfl
          currtask := rfl
          log := .sent .. }

/-- `CKshMemSetRange`. -/
theorem ckShMemSetRange_moved {logicalAddr size : UADDR} (h : m.Lists L)
    (hs : m.ckShMemSetRange o logicalAddr size = some (m', r)) : m.Moved m' L L := by
  unfold ckShMemSetRange at hs
  split at hs
  · obtain ⟨rfl, rfl⟩ := Prod.mk.inj (Option.some.inj hs)
    exact .refl h
  · obtain ⟨smo, hsmo, hs⟩ := Option.bind_eq_some_iff.mp hs
    split at hs
    · obtain ⟨rfl, rfl⟩ := Prod.mk.inj (Option.some.inj hs)
      exact .refl h
    · split at hs
      · obtain ⟨rfl, rfl⟩ := Prod.mk.inj (Option.some.inj hs)
        exact .refl h
      · obtain ⟨rfl, rfl⟩ := Prod.mk.inj (Option.some.inj hs)
        exact {
          lists := h.setRecord hsmo rfl rfl
          nodes := fun _ => .refl _
          thread := fun _ => rfl
          owner := owner_update hsmo rfl
          used := rfl
          currtask := rfl
          log := .refl _ }

theorem Moved.paging (h : m.Lists L) (paging : Paging) :
    m.Moved { m with paging := paging } L L :=
  .of_frame h rfl rfl rfl rfl rfl rfl (.refl _)

/-- A call of the running thread on an object: nodes move, and it succeeds only for a thread that
has one. -/
def MovedFor (m m' : ShMem) (L : Addr → ShMemList → List Addr) (o : Addr) (r : DATA) : Prop :=
  ∃ L', m.Moved m' L L' ∧ (r = 0#32 → ∃ n ∈ nodesOf L o, (m.node n).thread = m.currtask)

/-- The call fails before it changes anything. -/
theorem Lists.refused {e : DATA} (h : m.Lists L) (he : e ≠ 0#32)
    (hs : some (m, e) = some (m', r)) : m.MovedFor m' L o r := by
  obtain ⟨rfl, rfl⟩ := Prod.mk.inj (Option.some.inj hs)
  exact ⟨L, .refl h, fun hr => absurd hr he⟩

/-- `CKshMemAttach`. It succeeds only for a thread that has a node. -/
theorem ckShMemAttach_moved {logAddr size pageTables : UADDR} (h : m.Lists L)
    (hs : m.ckShMemAttach o logAddr size pageTables = some (m', r)) : m.MovedFor m' L o r := by
  unfold ckShMemAttach at hs
  split at hs
  · exact h.refused (by decide) hs
  obtain ⟨smo, hsmo, hs⟩ := Option.bind_eq_some_iff.mp hs
  dsimp only at hs
  split at hs
  · exact h.refused (by decide) hs
  split at hs
  · exact h.refused (by decide) hs
  split at hs
  · exact h.refused (by decide) hs
  split at hs
  · exact h.refused (by decide) hs
  obtain ⟨⟨stl, ptl⟩, hfetch, hs⟩ := Option.bind_eq_some_iff.mp hs
  dsimp only at hs
  split at hs
  · exact h.refused (by decide) hs
  rename_i hnil
  obtain ⟨⟨paging, ok⟩, _, hs⟩ := Option.bind_eq_some_iff.mp hs
  have hpaging := Moved.paging h paging
  dsimp only at hs
  split at hs
  · obtain ⟨smo', hsmo', hs⟩ := Option.bind_eq_some_iff.mp hs
    obtain ⟨rfl, rfl⟩ := Prod.mk.inj (Option.some.inj hs)
    obtain ⟨_, z, hf⟩ | ⟨as, x, bs, hl, _, hx, hf⟩ := h.fetchThread_cases hsmo .invited m.currtask
    · obtain ⟨rfl, rfl⟩ := Prod.mk.inj (Option.some.inj (hfetch.symm.trans hf))
      exact absurd rfl hnil
    · obtain ⟨rfl, rfl⟩ := Prod.mk.inj (Option.some.inj (hfetch.symm.trans hf))
      have hne : ShMemList.threads ≠ .invited := by decide
      have hnode : ∀ n, (update m.node stl { m.node stl with
          logicalAddr := logAddr, size := attachSize smo size } n).thread = (m.node n).thread := by
        intro n
        by_cases hn : n = stl
        · rw [hn, update_self]
        · rw [update_of_ne hn]
      have hmove := (Moved.move hpaging.lists hsmo hl hne hnode hsmo').2
      refine ⟨_, hpaging.trans hmove, fun _ => ⟨stl, mem_nodesOf.mpr ⟨.invited, ?_⟩, hx⟩⟩
      rw [hl]
      simp
  · obtain ⟨rfl, rfl⟩ := Prod.mk.inj (Option.some.inj hs)
    exact ⟨L, hpaging, fun hr => absurd hr (by decide)⟩

/-- `CKshMemDetach`. It succeeds only for a thread that has a node. -/
theorem ckShMemDetach_moved (h : m.Lists L) (hs : m.ckShMemDetach o = some (m', r)) :
    m.MovedFor m' L o r := by
  unfold ckShMemDetach at hs
  dsimp only at hs
  split at hs
  · exact h.refused (by decide) hs
  obtain ⟨smo, hsmo, hs⟩ := Option.bind_eq_some_iff.mp hs
  split at hs
  · exact h.refused (by decide) hs
  split at hs
  · exact h.refused (by decide) hs
  obtain ⟨⟨stl, ptl⟩, hfetch, hs⟩ := Option.bind_eq_some_iff.mp hs
  dsimp only at hs
  split at hs
  · exact h.refused (by decide) hs
  rename_i hnil
  obtain ⟨paging, _, hs⟩ := Option.bind_eq_some_iff.mp hs
  have hpaging := Moved.paging h paging
  obtain ⟨smo', hsmo', hs⟩ := Option.bind_eq_some_iff.mp hs
  obtain ⟨_, z, hf⟩ | ⟨as, x, bs, hl, _, hx, hf⟩ := h.fetchThread_cases hsmo .threads m.currtask
  · obtain ⟨rfl, rfl⟩ := Prod.mk.inj (Option.some.inj (hfetch.symm.trans hf))
    exact absurd rfl hnil
  · obtain ⟨rfl, rfl⟩ := Prod.mk.inj (Option.some.inj (hfetch.symm.trans hf))
    have hne : ShMemList.invited ≠ .threads := by decide
    have hnode : ∀ n, (m.node n).thread = (m.node n).thread := fun _ => rfl
    obtain ⟨hdead, hmove⟩ := Moved.move hpaging.lists hsmo hl hne hnode hsmo'
    -- the record was not dead before, so the node is kept for the invited
    rw [hdead, if_neg Bool.false_ne_true] at hs
    obtain ⟨rfl, rfl⟩ := Prod.mk.inj (Option.some.inj hs)
    refine ⟨_, hpaging.trans hmove, fun _ => ⟨stl, mem_nodesOf.mpr ⟨.threads, ?_⟩, hx⟩⟩
    rw [hl]
    simp

/-- `CKshMemRemap`, also when only its first half succeeds. -/
theorem ckShMemRemap_moved {logAddr size pageTables : UADDR} (h : m.Lists L)
    (hs : m.ckShMemRemap o logAddr size pageTables = some (m', r)) : m.MovedFor m' L o r := by
  unfold ckShMemRemap at hs
  split at hs
  · exact h.refused (by decide) hs
  obtain ⟨⟨m₁, err⟩, hdetach, hs⟩ := Option.bind_eq_some_iff.mp hs
  obtain ⟨L₁, h₁, hnode⟩ := ckShMemDetach_moved h hdetach
  dsimp only at hs
  split at hs
  · rename_i herr
    obtain ⟨rfl, rfl⟩ := Prod.mk.inj (Option.some.inj hs)
    exact ⟨L₁, h₁, fun hr => absurd hr herr⟩
  · rename_i herr
    obtain ⟨L₂, h₂, _⟩ := ckShMemAttach_moved h₁.lists hs
    exact ⟨L₂, h₁.trans h₂, fun _ => hnode (not_not.mp herr)⟩

/-- Sending signals changes nothing but the log. -/
theorem signalFrom_eq {signal : UDATA} {fuel : Nat} {stl : Addr}
    (hc : Chained NIL m.next stl l) (hf : l.length < fuel) :
    signalFrom o signal fuel stl m = some { m with
      log := (l.map fun n => .sent (m.node n).thread signal o).reverse ++ m.log } := by
  induction fuel generalizing stl l m with
  | zero => exact absurd hf (Nat.not_lt_zero _)
  | succ fuel ih =>
      rw [signalFrom]
      cases l with
      | nil => rw [if_pos (show stl = NIL from hc)]; rfl
      | cons n l =>
          obtain ⟨rfl, hnil, hc⟩ := hc
          rw [if_neg hnil, ih (m := m.record (.sent (m.node stl).thread signal o)) hc
            (Nat.lt_of_succ_lt_succ hf)]
          simp [record]

/-- `CKshMemNotify`. -/
theorem ckShMemNotify_moved (h : m.Lists L) (hs : m.ckShMemNotify o = some (m', r)) :
    m.Moved m' L L := by
  unfold ckShMemNotify at hs
  split at hs
  · obtain ⟨rfl, rfl⟩ := Prod.mk.inj (Option.some.inj hs)
    exact .refl h
  obtain ⟨smo, hsmo, hs⟩ := Option.bind_eq_some_iff.mp hs
  split at hs
  · obtain ⟨rfl, rfl⟩ := Prod.mk.inj (Option.some.inj hs)
    exact .refl h
  split at hs
  · obtain ⟨rfl, rfl⟩ := Prod.mk.inj (Option.some.inj hs)
    exact .refl h
  obtain ⟨m₁, h₁, hs⟩ := Option.bind_eq_some_iff.mp hs
  obtain ⟨rfl, rfl⟩ := Prod.mk.inj (Option.some.inj hs)
  rw [signalFrom_eq (h.queue hsmo .invited).chained (h.length_lt o .invited)] at h₁
  obtain rfl := Option.some.inj h₁
  refine .of_frame h rfl rfl rfl rfl rfl rfl ⟨_, rfl, fun e he => ?_⟩
  obtain ⟨n, _, rfl⟩ := List.mem_map.mp (List.mem_reverse.mp he)
  trivial

/-- **What a call does to the nodes**: an invitation that succeeds adds one, every other call
keeps those of each object, whether it succeeds or not. -/
theorem call_cases {c : ShMemCall} (h : m.Lists L) (hl : (ShMemOp.call c).Legal m)
    (hs : m.call c = some (m', r)) :
    (∃ o thread node L', c = .invite o thread node ∧ r = 0#32 ∧ m.Invited m' L L' o thread node) ∨
      (∀ o thread node, c = .invite o thread node → r ≠ 0#32) ∧ ∃ L', m.Moved m' L L' := by
  cases c with
  | invite o thread node =>
      obtain ⟨hr, rfl⟩ | ⟨hr, L', hi⟩ := ckShMemInvite_cases h hl.1 hl.2 hs
      · exact .inr ⟨fun _ _ _ _ => hr, L, .refl h⟩
      · exact .inl ⟨o, thread, node, L', rfl, hr, hi⟩
  | setRange o logicalAddr size => exact .inr ⟨by simp, L, ckShMemSetRange_moved h hs⟩
  | attach o logAddr size pageTables =>
      exact .inr ⟨by simp, (ckShMemAttach_moved h hs).imp fun _ h => h.1⟩
  | detach o => exact .inr ⟨by simp, (ckShMemDetach_moved h hs).imp fun _ h => h.1⟩
  | remap o logAddr size pageTables =>
      exact .inr ⟨by simp, (ckShMemRemap_moved h hs).imp fun _ h => h.1⟩
  | notify o => exact .inr ⟨by simp, L, ckShMemNotify_moved h hs⟩

/-! ## Unloading -/

/-- The first loop of `CKshMemDestroy` frees and signals what is on the list. -/
theorem freeFrom_eq {fuel : Nat} {stl : Addr} (hc : Chained NIL m.next stl l)
    (hf : l.length < fuel) :
    freeFrom o fuel stl m = some { m with
      used := l.foldl (fun used n => update used n false) m.used
      log := (l.flatMap fun n =>
        [.freedNode n, .sent (m.node n).thread SIGNLSHDEAD o]).reverse ++ m.log } := by
  induction fuel generalizing stl l m with
  | zero => exact absurd hf (Nat.not_lt_zero _)
  | succ fuel ih =>
      rw [freeFrom]
      cases l with
      | nil => rw [if_pos (show stl = NIL from hc)]; rfl
      | cons n l =>
          obtain ⟨rfl, hnil, hc⟩ := hc
          rw [if_neg hnil, ih (m := (m.freeNode stl).record (.sent (m.node stl).thread SIGNLSHDEAD o))
            hc (Nat.lt_of_succ_lt_succ hf)]
          simp [record, freeNode]

/-- What `CKunloadSHMemObject` does besides freeing the record, oldest first. Only the owner
gets past the test in `CKshMemDestroy`. -/
def destroyEvents (m : ShMem) (o owner : Addr) (L : Addr → ShMemList → List Addr) :
    List ShMemEvent :=
  if m.currtask = owner then
    (L o .invited).flatMap (fun n => [.freedNode n, .sent (m.node n).thread SIGNLSHDEAD o]) ++
      (L o .threads).map fun n => .sent (m.node n).thread SIGNLSHDEAD o
  else []

/-- The nodes that are allocated after it. -/
def usedAfter (m : ShMem) (o owner : Addr) (L : Addr → ShMemList → List Addr) : Addr → Bool :=
  if m.currtask = owner then (L o .invited).foldl (fun used n => update used n false) m.used
  else m.used

/-- `CKshMemDestroy`, called by the owner. -/
theorem ckShMemDestroy_owner (h : m.Lists L) (hsmo : m.shMem o = some smo)
    (hc : m.currtask = smo.owner) :
    m.ckShMemDestroy o = some ({ m with
      shMem := update m.shMem o (some { smo with
        dead := true
        ends := update smo.ends .invited ⟨NIL, NIL⟩ })
      used := usedAfter m o smo.owner L
      log := (destroyEvents m o smo.owner L).reverse ++ m.log }, 0#32) := by
  obtain ⟨hsig, hdead⟩ := h.live hsmo
  unfold ckShMemDestroy usedAfter destroyEvents
  rw [if_neg (not_not.mpr hsig), hsmo, Option.bind_eq_bind, Option.bind_some,
    if_neg (not_not.mpr hc), hdead, if_neg Bool.false_ne_true, if_pos hc, if_pos hc]
  dsimp only
  rw [freeFrom_eq (m := m.setShMem o _) (h.queue hsmo .invited).chained (h.length_lt o .invited),
    Option.bind_eq_bind, Option.bind_some]
  rw [signalFrom_eq (m := { m.setShMem o _ with used := _, log := _ })
    (h.queue hsmo .threads).chained (h.length_lt o .threads)]
  simp [setShMem]

/-- `CKshMemDestroy`, called by another thread. -/
theorem ckShMemDestroy_other (h : m.Lists L) (hsmo : m.shMem o = some smo)
    (hc : m.currtask ≠ smo.owner) : m.ckShMemDestroy o = some (m, ENOSECURITY) := by
  unfold ckShMemDestroy
  rw [if_neg (not_not.mpr (h.live hsmo).1), hsmo, Option.bind_eq_bind, Option.bind_some, if_pos hc]

/-- **`CKunloadSHMemObject`** returns, and does just this. -/
theorem ckUnloadSHMemObject_eq (h : m.Lists L) (hsmo : m.shMem o = some smo)
    (header : ObjectSignature) :
    m.ckUnloadSHMemObject o header = some { m with
      shMem := update m.shMem o none
      signature := update m.signature o header
      used := usedAfter m o smo.owner L
      log := .freedRecord o :: ((destroyEvents m o smo.owner L).reverse ++ m.log) } := by
  unfold ckUnloadSHMemObject
  by_cases hc : m.currtask = smo.owner
  · rw [ckShMemDestroy_owner h hsmo hc, Option.bind_eq_bind, Option.bind_some]
    simp [record]
  · rw [ckShMemDestroy_other h hsmo hc, Option.bind_eq_bind, Option.bind_some]
    unfold usedAfter destroyEvents
    simp [record, hc]

theorem foldl_update_false {used : Addr → Bool} {n : Addr} :
    l.foldl (fun used n => update used n false) used n = true ↔ used n = true ∧ n ∉ l := by
  induction l generalizing used with
  | nil => simp
  | cons a l ih =>
      rw [List.foldl_cons, ih]
      by_cases h : n = a
      · simp [h]
      · simp [h]

theorem usedAfter_iff {owner n : Addr} :
    usedAfter m o owner L n = true ↔
      m.used n = true ∧ (m.currtask = owner → n ∉ L o .invited) := by
  unfold usedAfter
  split
  · rename_i hc
    simp [foldl_update_false, hc]
  · rename_i hc
    simp [hc]

/-- The nodes of the other objects stay. -/
theorem Lists.unload (h : m.Lists L) {header : ObjectSignature} {owner : Addr}
    {log : List ShMemEvent} :
    Lists { m with
      shMem := update m.shMem o none
      signature := update m.signature o header
      used := usedAfter m o owner L
      log := log } (update L o fun _ => []) := by
  have hmem : ∀ {o' w n}, n ∈ update L o (fun _ => []) o' w → o' ≠ o ∧ n ∈ L o' w := by
    intro o' w n hn
    by_cases ho : o' = o
    · subst ho
      simp at hn
    · rw [update_of_ne ho] at hn
      exact ⟨ho, hn⟩
  have hloaded : ∀ {o' smo'}, update m.shMem o none o' = some smo' →
      o' ≠ o ∧ m.shMem o' = some smo' := by
    intro o' smo' hs
    by_cases ho : o' = o
    · subst ho
      simp at hs
    · rw [update_of_ne ho] at hs
      exact ⟨ho, hs⟩
  refine
    { queue := ?_
      gone := ?_
      apart := ?_
      used := ?_
      bound := ?_
      live := ?_ }
  · intro o' smo' hs w
    obtain ⟨ho, hs⟩ := hloaded hs
    rw [update_of_ne ho]
    exact h.queue hs w
  · intro o' hs w
    by_cases ho : o' = o
    · rw [ho, update_self]
    · dsimp only at hs
      rw [update_of_ne ho] at hs
      rw [update_of_ne ho]
      exact h.gone hs w
  · intro o₁ w₁ o₂ w₂ n h₁ h₂
    exact h.apart (hmem h₁).2 (hmem h₂).2
  · intro o' w n hn
    obtain ⟨ho, hn⟩ := hmem hn
    exact usedAfter_iff.mpr ⟨h.used hn, fun _ hi => ho (h.apart hn hi).1⟩
  · intro n hn
    exact h.bound (usedAfter_iff.mp hn).1
  · intro o' smo' hs
    obtain ⟨ho, hs⟩ := hloaded hs
    dsimp only
    rw [update_of_ne ho]
    exact h.live hs

/-- A new object has empty lists. -/
theorem Lists.load (h : m.Lists L) (hl : m.shMem o = none) : (m.ckLoadSHMemObject o).Lists L := by
  have hnone := h.gone hl
  have hcases : ∀ {o' smo'}, (m.ckLoadSHMemObject o).shMem o' = some smo' →
      o' = o ∧ smo'.dead = false ∧ smo'.ends = (fun _ => ⟨NIL, NIL⟩) ∨
        o' ≠ o ∧ m.shMem o' = some smo' := by
    intro o' smo' hs
    unfold ckLoadSHMemObject record at hs
    dsimp only at hs
    by_cases ho : o' = o
    · subst ho
      rw [update_self] at hs
      obtain rfl := Option.some.inj hs
      exact .inl ⟨rfl, rfl, rfl⟩
    · rw [update_of_ne ho] at hs
      exact .inr ⟨ho, hs⟩
  refine
    { queue := ?_
      gone := ?_
      apart := h.apart
      used := h.used
      bound := h.bound
      live := ?_ }
  · intro o' smo' hs w
    obtain ⟨rfl, _, he⟩ | ⟨_, hs⟩ := hcases hs
    · rw [he, hnone]
      exact ⟨rfl, rfl⟩
    · exact h.queue hs w
  · intro o' hs w
    by_cases ho : o' = o
    · rw [ho, hnone]
    · refine h.gone ?_ w
      unfold ckLoadSHMemObject record at hs
      dsimp only at hs
      rwa [update_of_ne ho] at hs
  · intro o' smo' hs
    unfold ckLoadSHMemObject record
    dsimp only
    obtain ⟨rfl, hd, _⟩ | ⟨ho, hs⟩ := hcases hs
    · exact ⟨update_self .., hd⟩
    · rw [update_of_ne ho]
      exact h.live hs

/-- The header of an object of another kind. -/
theorem Lists.header (h : m.Lists L) (hl : m.shMem o = none) (signature : ObjectSignature) :
    Lists { m with signature := update m.signature o signature } L where
  queue := h.queue
  gone := h.gone
  apart := h.apart
  used := h.used
  bound := h.bound
  live := by
    intro o' smo' hs
    have ho : o' ≠ o := fun he => by simp [he, hl] at hs
    dsimp only
    rw [update_of_ne ho]
    exact h.live hs

theorem destroyEvents_effects {owner : Addr} (log : List ShMemEvent) :
    Effects log (.freedRecord o :: ((destroyEvents m o owner L).reverse ++ log)) := by
  refine ⟨.freedRecord o :: (destroyEvents m o owner L).reverse, rfl, fun e he => ?_⟩
  obtain rfl | he := List.mem_cons.mp he
  · trivial
  · unfold destroyEvents at he
    split at he
    · rw [List.mem_reverse, List.mem_append, List.mem_flatMap, List.mem_map] at he
      obtain ⟨n, _, he⟩ | ⟨n, _, rfl⟩ := he
      · obtain rfl | rfl : e = _ ∨ e = _ := by simpa using he
        · trivial
        · trivial
      · trivial
    · simp at he

end ShMem

/-! ## Runs -/

/-- The nodes of every loaded object are those of the invitations to it. -/
def ShMem.Accounted (m : ShMem) (L : Addr → ShMemList → List Addr) : Prop :=
  ∀ o, (m.shMem o).isSome → (nodesOf L o).Perm ((invitations o m.log).map Invitation.node)

open ShMem in
/-- **One operation.** -/
theorem shMemStep_lists {op : ShMemOp} (h : m.Lists L) (ha : m.Accounted L) (hl : op.Legal m)
    (hs : shMemStep m op = some m') : ∃ L', m'.Lists L' ∧ m'.Accounted L' := by
  cases op with
  | dispatch thread =>
      obtain rfl := Option.some.inj hs
      exact ⟨L, h.frame rfl rfl rfl rfl, ha⟩
  | call c =>
      obtain ⟨⟨m₁, r⟩, hcall, hs⟩ := Option.map_eq_some_iff.mp hs
      obtain rfl := hs
      obtain ⟨o, thread, node, L', rfl, rfl, hi⟩ | ⟨hno, L', hm⟩ := call_cases h hl hcall
      · refine ⟨L', hi.lists.frame rfl rfl rfl rfl, fun o' ho' => ?_⟩
        unfold ShMem.record
        dsimp only
        rw [invitations, hi.log.invitations]
        have hloaded : (m.shMem o').isSome := by
          rw [← Option.isSome_map (f := ShMemRecord.owner), ← hi.owner o', Option.isSome_map]
          exact ho'
        by_cases ho : o = o'
        · subst ho
          rw [if_pos ⟨rfl, rfl⟩]
          exact hi.nodes.trans ((ha o hloaded).cons node)
        · rw [if_neg fun he => ho he.1, hi.others o' (Ne.symm ho)]
          exact ha o' hloaded
      · refine ⟨L', hm.lists.frame rfl rfl rfl rfl, fun o' ho' => ?_⟩
        have hloaded : (m.shMem o').isSome := by
          rw [← Option.isSome_map (f := ShMemRecord.owner), ← hm.owner o', Option.isSome_map]
          exact ho'
        have hinv : invitations o' (m₁.record (.called m.currtask c r)).log =
            invitations o' m.log := by
          refine Eq.trans ?_ (hm.log.invitations o')
          cases c with
          | invite o thread node =>
              exact if_neg fun he => hno o thread node rfl he.2
          | _ => rfl
        rw [hinv]
        exact (hm.nodes o').trans (ha o' hloaded)
  | load object =>
      obtain rfl := Option.some.inj hs
      have hl := Option.isNone_iff_eq_none.mp hl
      refine ⟨L, h.load hl, fun o' ho' => ?_⟩
      unfold ckLoadSHMemObject record at ho' ⊢
      dsimp only at ho' ⊢
      rw [invitations]
      by_cases ho : o' = object
      · subst ho
        rw [if_pos rfl, nodesOf, h.gone hl, h.gone hl]
        exact .refl _
      · rw [update_of_ne ho] at ho'
        rw [if_neg (Ne.symm ho)]
        exact ha o' ho'
  | unload object header =>
      obtain ⟨smo, hsmo⟩ := Option.isSome_iff_exists.mp hl
      rw [shMemStep, ckUnloadSHMemObject_eq h hsmo] at hs
      obtain rfl := Option.some.inj hs
      refine ⟨_, h.unload, fun o' ho' => ?_⟩
      dsimp only at ho'
      have ho : o' ≠ object := by
        intro he
        rw [he, update_self] at ho'
        exact absurd ho' (by simp)
      rw [update_of_ne ho] at ho'
      rw [(destroyEvents_effects m.log).invitations]
      unfold nodesOf
      rw [update_of_ne ho]
      exact ha o' ho'
  | header object signature =>
      obtain rfl := Option.some.inj hs
      exact ⟨L, h.header (Option.isNone_iff_eq_none.mp hl) signature, ha⟩
  | rest addrSpc addressSpace paging =>
      obtain rfl := Option.some.inj hs
      exact ⟨L, h.frame rfl rfl rfl rfl, ha⟩

theorem ShMem.Boot.lists (h : m.Boot) : m.Lists (fun _ _ => []) ∧ m.Accounted fun _ _ => [] where
  left :=
    { queue := fun hs => by simp [h.shMem] at hs
      gone := fun _ _ => rfl
      apart := fun hn => absurd hn List.not_mem_nil
      used := fun hn => absurd hn List.not_mem_nil
      bound := fun hn => by simp [h.used] at hn
      live := fun hs => by simp [h.shMem] at hs }
  right o ho := by simp [h.shMem] at ho

theorem Run.shMem_lists {m₀ : ShMem} {ops : List ShMemOp} (h0 : m₀.Boot)
    (hr : Run shMemStep ShMemOp.Legal m₀ ops m) : ∃ L, m.Lists L ∧ m.Accounted L :=
  hr.invariant (I := fun m => ∃ L, m.Lists L ∧ m.Accounted L)
    (fun ⟨_, h, ha⟩ hl hs => shMemStep_lists h ha hl hs) ⟨_, h0.lists⟩

/-- **The lists of a shared memory object**, after any calls by any threads. In both, the first
pointer is `NIL` just when the last one is, and otherwise the last node is reached from the
first and ends the list. The nodes are those of the invitations that succeeded, each in one
of the two lists. -/
theorem shMem_lists_run {m₀ : ShMem} {ops : List ShMemOp} (h0 : m₀.Boot)
    (hr : Run shMemStep ShMemOp.Legal m₀ ops m) (hs : m.shMem o = some smo) :
    ∃ nodes : ShMemList → List Addr,
      (∀ w, Chained NIL m.next (smo.ends w).first (nodes w) ∧
        ((smo.ends w).first = NIL ↔ (smo.ends w).last = NIL) ∧
        ((smo.ends w).last ≠ NIL →
          (smo.ends w).last ∈ nodes w ∧ m.next (smo.ends w).last = NIL)) ∧
      (nodes .invited ++ nodes .threads).Nodup ∧
      (nodes .invited ++ nodes .threads).Perm ((invitations o m.log).map Invitation.node) ∧
      (nodes .invited).length + (nodes .threads).length = (invitations o m.log).length := by
  obtain ⟨L, h, ha⟩ := Run.shMem_lists h0 hr
  have hperm := ha o (by rw [hs]; rfl)
  refine ⟨L o, fun w => ?_, h.nodesOf_nodup o, hperm, ?_⟩
  · have hq := h.queue hs w
    refine ⟨hq.chained, hq.first_eq_nil.trans hq.last_eq_nil.symm, fun hlast => ?_⟩
    have hne : L o w ≠ [] := fun he => hlast (hq.last_eq_nil.mpr he)
    exact ⟨hq.last_mem hne, hq.next_last hne⟩
  · rw [← List.length_append, ← List.length_map (f := Invitation.node)]
    exact hperm.length_eq

/-- Thread 16 has the address space 48, the other threads have 64. -/
def shMemAtBoot : ShMem where
  paging :=
    { addrSpc := fun _ _ => 0#32
      page := fun _ _ => 0#32
      kernelDir := fun _ => 0#32
      CKFreeListLock := false
      live := fun _ => false
      allocated := fun _ => false }
  signature a := if a = 48 ∨ a = 64 then .SIGADDRSPC else .SIGTHREAD
  addrSpc a := a
  addressSpace a := if a = 16 then 48 else 64
  shMem _ := none
  node _ := ⟨NIL, 0#32, 0#32⟩
  next _ := NIL
  used _ := false
  currtask := 16
  log := []

theorem shMemAtBoot_boot : shMemAtBoot.Boot := ⟨fun _ => rfl, fun _ => rfl, rfl⟩

/-- Thread 32 is invited twice and thread 40 once; both attach, the attachment of a thread that
is not invited fails, and thread 32 detaches. -/
def attachTwo : List ShMemOp :=
  [.load 80, .call (.invite 80 32 100), .call (.invite 80 40 120), .call (.invite 80 32 140),
    .dispatch 32, .call (.attach 80 0#32 0#32 0#32), .dispatch 40,
    .call (.attach 80 0#32 0#32 0#32), .dispatch 44, .call (.attach 80 0#32 0#32 0#32),
    .dispatch 32, .call (.detach 80)]

theorem shMem_lists_run_attachTwo : ∃ m smo, ∃ nodes : ShMemList → List Addr,
    Run shMemStep ShMemOp.Legal shMemAtBoot attachTwo m ∧ m.shMem 80 = some smo ∧
      (∀ w, Chained NIL m.next (smo.ends w).first (nodes w)) ∧
      (smo.ends .invited).first = 140 ∧ (smo.ends .threads).first = 120 ∧
      (nodes .invited).length + (nodes .threads).length = 3 := by
  obtain ⟨m, hr, hp⟩ := Run.of_exec_any
    (show (exec shMemStep ShMemOp.Legal shMemAtBoot attachTwo).any (fun m =>
      (m.shMem 80).any fun smo => decide ((smo.ends .invited).first = 140 ∧
        (smo.ends .threads).first = 120 ∧ (invitations 80 m.log).length = 3)) = true by
      decide +kernel)
  obtain ⟨smo, hsmo, hp⟩ := (Option.any_eq_true _ _).mp hp
  obtain ⟨hinvited, hthreads, hcount⟩ := of_decide_eq_true hp
  obtain ⟨nodes, hw, _, _, hlen⟩ := shMem_lists_run shMemAtBoot_boot hr hsmo
  exact ⟨m, smo, nodes, hr, hsmo, fun w => (hw w).1, hinvited, hthreads, hlen.trans hcount⟩

end Alliance.CK
