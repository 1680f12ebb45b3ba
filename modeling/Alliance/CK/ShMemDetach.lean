import Alliance.CK.PageUnmapping
import Alliance.CK.ShMemLists
import Mathlib.Data.List.Find

/-!
# Detaching from a shared memory object

Attaching and detaching move the node of the running thread from one list to the other and
change pages of its address space. What each does is said once, for a state with lists:
`ckShMemAttach_results` and `ckShMemDetach_results`. A detach undoes the pages of an attach if the
range that it clears fits the one that was copied (`detach_undoes_iff`). The two ranges
differ by the page behind the range (`marksFit_own_iff`), and by everything where the node that is
found is another one than the attach left.
-/

namespace Alliance.CK

open Function Lib Paging

variable {m m' m₁ m₂ : ShMem} {L L' : Addr → ShMemList → List Addr} {o object x : Addr}
  {w w' : ShMemList} {smo : ShMemRecord} {logAddr size pageTables : UADDR} {e : DATA}

namespace ShMem

/-! ## The running thread -/

/-- Its address space object. -/
def aspace (m : ShMem) : Addr := m.addressSpace m.currtask

/-- Its page directory. -/
def directory (m : ShMem) : Addr := m.addrSpc m.aspace

/-- Its node in a list of an object, the first one if there are more. -/
def nodeIn (m : ShMem) (object : Addr) (w : ShMemList) : Option Addr :=
  (m.shMem object).bind fun smo =>
    (m.fetchThread (smo.ends w).first m.currtask).bind fun r => if r.1 = NIL then none else some r.1

/-- The range that it has attached, as a detach finds it. -/
def attachment (m : ShMem) (object : Addr) : Option SHTHREADLIST :=
  (m.nodeIn object .threads).map m.node

/-- The node that is found, with its place in the list. -/
theorem Lists.nodeIn_cases (h : m.Lists L) (hsmo : m.shMem object = some smo) (w : ShMemList) :
    (m.nodeIn object w = none ∧ (∀ y ∈ L object w, (m.node y).thread ≠ m.currtask) ∧
        ∃ z, m.fetchThread (smo.ends w).first m.currtask = some (NIL, z)) ∨
      ∃ as x bs, m.nodeIn object w = some x ∧ L object w = as ++ x :: bs ∧ x ≠ NIL ∧
        (m.node x).thread = m.currtask ∧
        m.fetchThread (smo.ends w).first m.currtask = some (x, as.getLastD NIL) := by
  unfold nodeIn
  rcases h.fetchThread_cases hsmo w m.currtask with ⟨hnone, z, hf⟩ | ⟨as, x, bs, hl, hx, ht, hf⟩
  · refine .inl ⟨?_, hnone, z, hf⟩
    rw [hsmo, Option.bind_some, hf, Option.bind_some, if_pos rfl]
  · refine .inr ⟨as, x, bs, ?_, hl, hx, ht, hf⟩
    rw [hsmo, Option.bind_some, hf, Option.bind_some, if_neg hx]

theorem Lists.nodeIn_eq (h : m.Lists L) (object : Addr) (w : ShMemList) : m.nodeIn object w =
    (L object w).find? fun n => decide ((m.node n).thread = m.currtask) := by
  unfold nodeIn fetchThread
  cases hsmo : m.shMem object with
  | none =>
      rw [h.gone hsmo]
      rfl
  | some smo =>
      rw [Option.bind_some]
      rcases @search_cases _ NIL _ _ _ NIL _ (fun n => (m.node n).thread = m.currtask) _ ADDRESSES
        (h.queue hsmo w).chained (h.length_lt object w) with
        ⟨hnone, z, hf⟩ | ⟨as, x, bs, hl, has, hx, hf⟩
      · rw [hf, Option.bind_some, if_pos rfl]
        refine (List.find?_eq_none.mpr fun y hy => ?_).symm
        rw [decide_eq_true_eq]
        exact hnone y hy
      · have hnil : x ≠ NIL := by
          rintro rfl
          refine h.nil_notMem object w ?_
          rw [hl]
          exact List.mem_append_right as (.head bs)
        rw [hf, Option.bind_some, if_neg hnil, hl]
        refine (List.find?_eq_some_iff_append.mpr ⟨?_, as, bs, rfl, fun y hy => ?_⟩).symm
        · rw [decide_eq_true_eq]
          exact hx
        · rw [decide_eq_false (has y hy)]
          rfl

/-- A thread with a node in a list has one that is found there. -/
theorem Lists.nodeIn_isSome (h : m.Lists L) (hx : x ∈ L object w)
    (ht : (m.node x).thread = m.currtask) : (m.nodeIn object w).isSome := by
  rw [h.nodeIn_eq, List.find?_isSome]
  exact ⟨x, hx, decide_eq_true ht⟩

theorem Lists.nodeIn_mem (h : m.Lists L) (hx : m.nodeIn object w = some x) :
    x ∈ L object w ∧ (m.node x).thread = m.currtask := by
  rw [h.nodeIn_eq] at hx
  refine ⟨List.mem_of_find?_eq_some hx, ?_⟩
  have hfound := List.find?_some hx
  rwa [decide_eq_true_eq] at hfound

/-! ## What attaching and detaching do -/

/-- The node `x` went from the list `w` of `o` to the end of `w'`. Of the rest, only the page
tables and the nodes may be others. -/
structure Relinked (m m' : ShMem) (L : Addr → ShMemList → List Addr) (o : Addr)
    (smo : ShMemRecord) (x : Addr) (w w' : ShMemList) : Prop where
  lists : ∃ as bs, L o w = as ++ x :: bs ∧
    m'.Lists (setList (setList L o w (as ++ bs)) o w' (L o w' ++ [x]))
  frame : m' = { m with
    paging := m'.paging
    node := m'.node
    next := m'.next
    shMem := m'.shMem }
  record : ∃ ends, m'.shMem o = some { smo with ends := ends }

theorem takeOut_record (m : ShMem) (o : Addr) (smo : ShMemRecord) (w : ShMemList) (x p : Addr) :
    ∃ ends, (m.takeOut o smo w x p).shMem o = some { smo with ends := ends } :=
  ⟨_, update_self ..⟩

theorem append_record (m : ShMem) (o : Addr) (smo : ShMemRecord) (w : ShMemList) (x : Addr) :
    ∃ ends, (m.append o smo w x).shMem o = some { smo with ends := ends } :=
  ⟨_, update_self ..⟩

/-- The node goes to the other list. -/
theorem Lists.relinked (h : m.Lists L) (hsmo : m.shMem o = some smo) {as bs : List Addr}
    (hl : L o w = as ++ x :: bs) (hw : w' ≠ w) (node : Addr → SHTHREADLIST) (paging : Paging) :
    ∃ smo', ({ m with paging := paging }.takeOut o smo w x (as.getLastD NIL)).shMem o = some smo' ∧
      smo'.dead = false ∧
      m.Relinked (ShMem.append
        { { m with paging := paging }.takeOut o smo w x (as.getLastD NIL) with node := node }
        o smo' w' x) L o smo x w w' := by
  have hpaging : Lists { m with paging := paging } L := h.frame rfl rfl rfl rfl
  obtain ⟨smo', hsmo', hdead, -, hlists⟩ := hpaging.move hsmo hl hw node
  refine ⟨smo', hsmo', hdead.trans (h.live hsmo).2, ⟨as, bs, hl, hlists⟩, rfl, ?_⟩
  obtain ⟨ends, hends⟩ := takeOut_record { m with paging := paging } o smo w x (as.getLastD NIL)
  obtain rfl := Option.some.inj (hends.symm.trans hsmo')
  exact append_record _ o _ w' x

/-- The directory of the owner of an object. -/
def ownerDirectory (m : ShMem) (smo : ShMemRecord) : Addr := m.addrSpc (m.addressSpace smo.owner)

/-- An attach that no test refuses. -/
structure AttachAccepted (m : ShMem) (object : Addr) (smo : ShMemRecord)
    (logAddr size pageTables : UADDR) : Prop where
  owner : m.currtask ≠ smo.owner
  aspace : ¬ m.NoAddrSpc m.aspace
  ownerAspace : ¬ m.NoAddrSpc (m.addressSpace smo.owner)
  invited : (m.nodeIn object .invited).isSome
  tables : ¬ m.paging.NoTables m.directory logAddr (logAddr + attachSize smo size) pageTables

/-- The thread is attached: its node has the range, and the pages of the owner are copied. -/
structure Attached (m m' : ShMem) (L : Addr → ShMemList → List Addr) (object : Addr)
    (smo : ShMemRecord) (logAddr size pageTables : UADDR) (x : Addr) : Prop where
  link : m.Relinked m' L object smo x .invited .threads
  node : m'.node = update m.node x ⟨m.currtask, logAddr, attachSize smo size⟩
  paging : ∃ s₁, TablesFor m.paging m.directory logAddr (logAddr + attachSize smo size)
      pageTables s₁ ∧
    m'.paging = s₁.copyPages (m.ownerDirectory smo) smo.logicalAddr m.directory logAddr
      (pagesCopied logAddr (attachSize smo size))

/-- The thread is detached: its node is an invitation again, and the pages are cleared. -/
structure Detached (m m' : ShMem) (L : Addr → ShMemList → List Addr) (object : Addr)
    (smo : ShMemRecord) (x : Addr) : Prop where
  link : m.Relinked m' L object smo x .threads .invited
  node : m'.node = m.node
  paging : m.paging.Unmapped m.directory (m.node x).logicalAddr
    (pagesMarked (m.node x).logicalAddr (m.node x).size) 0#32 m'.paging

/-- **`CKshMemAttach`** refuses and changes nothing, or it attaches the thread. -/
theorem ckShMemAttach_results (h : m.Lists L) (hsmo : m.shMem object = some smo)
    (hu : m.paging.CKFreeListLock = false) (logAddr size pageTables : UADDR) :
    (¬ m.AttachAccepted object smo logAddr size pageTables ∧
      ∃ e, e ≠ 0#32 ∧ m.ckShMemAttach object logAddr size pageTables = some (m, e)) ∨
    m.AttachAccepted object smo logAddr size pageTables ∧
      ∃ x m', m.nodeIn object .invited = some x ∧
        m.ckShMemAttach object logAddr size pageTables = some (m', 0#32) ∧
        m.Attached m' L object smo logAddr size pageTables x := by
  obtain ⟨hsig, hdead⟩ := h.live hsmo
  unfold ckShMemAttach
  rw [if_neg (not_not.mpr hsig), hsmo, Option.bind_eq_bind, Option.bind_some, hdead]
  dsimp only
  by_cases howner : m.currtask = smo.owner
  · rw [if_pos howner]
    exact .inl ⟨fun ha => ha.owner howner, _, by decide, rfl⟩
  rw [if_neg howner, if_neg Bool.false_ne_true]
  by_cases haspace : m.NoAddrSpc m.aspace
  · rw [if_pos (show m.NoAddrSpc (m.addressSpace m.currtask) from haspace)]
    exact .inl ⟨fun ha => ha.aspace haspace, _, by decide, rfl⟩
  rw [if_neg (show ¬ m.NoAddrSpc (m.addressSpace m.currtask) from haspace)]
  by_cases hoaspace : m.NoAddrSpc (m.addressSpace smo.owner)
  · rw [if_pos hoaspace]
    exact .inl ⟨fun ha => ha.ownerAspace hoaspace, _, by decide, rfl⟩
  rw [if_neg hoaspace]
  rcases h.nodeIn_cases hsmo .invited with ⟨hnone, -, z, hf⟩ | ⟨as, x, bs, hx, hl, hnil, ht, hf⟩
  · rw [hf, Option.bind_eq_bind, Option.bind_some]
    refine .inl ⟨fun ha => ?_, _, by decide, rfl⟩
    have hsome := ha.invited
    rw [hnone] at hsome
    exact absurd hsome (by simp)
  rw [hf, Option.bind_eq_bind, Option.bind_some]
  dsimp only
  rw [if_neg hnil]
  rcases ckCopySharedPageMapping_results (m.ownerDirectory smo) smo.logicalAddr m.directory logAddr
    (attachSize smo size) pageTables hu with ⟨hno, hcall⟩ | ⟨s₁, htab, hcall⟩
  · refine .inl ⟨fun ha => ha.tables hno, ENOSECURITY, by decide, ?_⟩
    refine (congrArg (Option.bind · _) hcall).trans ?_
    rw [Option.bind_some]
    rfl
  · refine .inr ⟨⟨howner, haspace, hoaspace, by rw [hx]; rfl, htab.not_noTables⟩, x, ?_⟩
    have hne : ShMemList.threads ≠ .invited := by decide
    obtain ⟨smo', hsmo', -, hlink⟩ := h.relinked hsmo hl hne
      (update m.node x ⟨m.currtask, logAddr, attachSize smo size⟩)
      (s₁.copyPages (m.ownerDirectory smo) smo.logicalAddr m.directory logAddr
        (pagesCopied logAddr (attachSize smo size)))
    refine ⟨_, hx, ?_, hlink, rfl, s₁, htab, rfl⟩
    refine (congrArg (Option.bind · _) hcall).trans ?_
    rw [Option.bind_some, if_pos rfl]
    refine (congrArg (Option.bind · _) hsmo').trans ?_
    rw [Option.bind_some, ← ht]
    rfl

/-- **`CKshMemDetach`** of a thread that has attached the object: it refuses, or the usage counts
do not last and it does not return, or it detaches the thread. -/
theorem ckShMemDetach_results (h : m.Lists L) (hsmo : m.shMem object = some smo)
    (hx : m.nodeIn object .threads = some x) :
    (m.NoAddrSpc m.aspace ∧ m.ckShMemDetach object = some (m, ENOVALIDADDRSPC)) ∨
    (¬ m.NoAddrSpc m.aspace ∧ ¬ m.paging.Outlasts m.directory (m.node x).logicalAddr
        (pagesMarked (m.node x).logicalAddr (m.node x).size) ∧
      m.ckShMemDetach object = none) ∨
    ¬ m.NoAddrSpc m.aspace ∧ m.paging.Outlasts m.directory (m.node x).logicalAddr
        (pagesMarked (m.node x).logicalAddr (m.node x).size) ∧
      ∃ m', m.ckShMemDetach object = some (m', 0#32) ∧ m.Detached m' L object smo x := by
  obtain ⟨hsig, hdead⟩ := h.live hsmo
  unfold ckShMemDetach
  dsimp only
  rw [if_neg (not_not.mpr hsig), hsmo, Option.bind_eq_bind, Option.bind_some, hdead,
    if_neg Bool.false_ne_true]
  by_cases haspace : m.NoAddrSpc m.aspace
  · rw [if_pos (show m.NoAddrSpc (m.addressSpace m.currtask) from haspace)]
    exact .inl ⟨haspace, rfl⟩
  rw [if_neg (show ¬ m.NoAddrSpc (m.addressSpace m.currtask) from haspace)]
  rcases h.nodeIn_cases hsmo .threads with ⟨hnone, -⟩ | ⟨as, y, bs, hy, hl, hnil, -, hf⟩
  · rw [hnone] at hx
    exact absurd hx nofun
  obtain rfl := Option.some.inj (hy.symm.trans hx)
  rw [hf, Option.bind_eq_bind, Option.bind_some]
  dsimp only
  rw [if_neg hnil]
  rcases ckMarkPageNotPresent_results m.paging m.directory (m.node y).logicalAddr (m.node y).size
    0#32 with ⟨hlasts, s', hcall, hun⟩ | ⟨hnot, hcall⟩
  · refine .inr (.inr ⟨haspace, hlasts, ?_⟩)
    have hne : ShMemList.invited ≠ .threads := by decide
    obtain ⟨smo', hsmo', hdead', hlink⟩ := h.relinked hsmo hl hne m.node s'
    refine ⟨_, ?_, hlink, rfl, hun⟩
    refine (congrArg (Option.bind · _) hcall).trans ?_
    rw [Option.bind_some]
    refine (congrArg (Option.bind · _) hsmo').trans ?_
    rw [Option.bind_some, hdead', if_neg Bool.false_ne_true]
    rfl
  · refine .inr (.inl ⟨haspace, hnot, ?_⟩)
    exact congrArg (Option.bind · _) hcall

/-! ## Calls in between -/

/-- Nothing that a detach reads is another, but for what it finds in the list of the invited. -/
structure SamePages (m m' : ShMem) (L L' : Addr → ShMemList → List Addr) : Prop where
  lists : m'.Lists L'
  threads : ∀ o, L' o .threads = L o .threads
  node : ∀ o, ∀ n ∈ L o .threads, m'.node n = m.node n
  loaded : ∀ o, (m.shMem o).isSome → (m'.shMem o).isSome
  paging : m'.paging = m.paging
  signature : m'.signature = m.signature
  addrSpc : m'.addrSpc = m.addrSpc
  addressSpace : m'.addressSpace = m.addressSpace

theorem SamePages.refl (h : m.Lists L) : m.SamePages m L L where
  lists := h
  threads _ := rfl
  node _ _ _ := rfl
  loaded _ hs := hs
  paging := rfl
  signature := rfl
  addrSpc := rfl
  addressSpace := rfl

theorem SamePages.trans {m'' : ShMem} {L'' : Addr → ShMemList → List Addr}
    (h : m.SamePages m' L L') (h' : m'.SamePages m'' L' L'') : m.SamePages m'' L L'' where
  lists := h'.lists
  threads o := (h'.threads o).trans (h.threads o)
  node o n hn := (h'.node o n (by rwa [h.threads o])).trans (h.node o n hn)
  loaded o hs := h'.loaded o (h.loaded o hs)
  paging := h'.paging.trans h.paging
  signature := h'.signature.trans h.signature
  addrSpc := h'.addrSpc.trans h.addrSpc
  addressSpace := h'.addressSpace.trans h.addressSpace

/-- The log and the running thread do not count. -/
theorem SamePages.record (h : m.SamePages m' L L') (ev : ShMemEvent) :
    m.SamePages (m'.record ev) L L' where
  lists := h.lists.frame rfl rfl rfl rfl
  threads := h.threads
  node := h.node
  loaded := h.loaded
  paging := h.paging
  signature := h.signature
  addrSpc := h.addrSpc
  addressSpace := h.addressSpace

/-- An object whose record is written is loaded still. -/
theorem isSome_update {o' : Addr} (hs : (m.shMem o').isSome) :
    (update m.shMem o (some smo) o').isSome := by
  rw [update_apply]
  split
  · rfl
  · exact hs

theorem ckShMemInvite_pages {thread node : Addr} (h : m.Lists L) (hfree : m.used node = false)
    (hb : node < ADDRESSES) (hs : m.ckShMemInvite o thread node = some (m', e)) :
    ∃ L', m.SamePages m' L L' := by
  unfold ckShMemInvite at hs
  split at hs
  · obtain ⟨rfl, -⟩ := Prod.mk.inj (Option.some.inj hs)
    exact ⟨L, .refl h⟩
  obtain ⟨smo, hsmo, hs⟩ := Option.bind_eq_some_iff.mp hs
  split at hs
  · obtain ⟨rfl, -⟩ := Prod.mk.inj (Option.some.inj hs)
    exact ⟨L, .refl h⟩
  split at hs
  · obtain ⟨rfl, -⟩ := Prod.mk.inj (Option.some.inj hs)
    exact ⟨L, .refl h⟩
  rename_i hnil
  obtain ⟨rfl, -⟩ := Prod.mk.inj (Option.some.inj hs)
  have hout : ∀ o' w', node ∉ L o' w' := fun o' w' hm => by simp [h.used hm] at hfree
  have h₁ : Lists { m.allocNode node with
      node := update m.node node { m.node node with thread := thread } } L :=
    (h.allocNode hb).frame rfl rfl rfl rfl
  have h₂ := h₁.append (w := .invited) hsmo hnil (update_self ..) hout
  refine ⟨_, h₂.frame rfl rfl rfl rfl, fun o' => setList_of_ne (by simp), fun o' n hn => ?_,
    fun o' hs => ?_, rfl, rfl, rfl, rfl⟩
  · exact update_of_ne (ne_of_mem_of_not_mem hn (hout o' _)) ..
  · exact isSome_update hs

theorem ckShMemSetRange_pages {logicalAddr size : UADDR} (h : m.Lists L)
    (hs : m.ckShMemSetRange o logicalAddr size = some (m', e)) : m.SamePages m' L L := by
  unfold ckShMemSetRange at hs
  split at hs
  · obtain ⟨rfl, -⟩ := Prod.mk.inj (Option.some.inj hs)
    exact .refl h
  obtain ⟨smo, hsmo, hs⟩ := Option.bind_eq_some_iff.mp hs
  split at hs
  · obtain ⟨rfl, -⟩ := Prod.mk.inj (Option.some.inj hs)
    exact .refl h
  split at hs
  · obtain ⟨rfl, -⟩ := Prod.mk.inj (Option.some.inj hs)
    exact .refl h
  obtain ⟨rfl, -⟩ := Prod.mk.inj (Option.some.inj hs)
  refine ⟨h.setRecord hsmo rfl rfl, fun _ => rfl, fun _ _ _ => rfl, fun o' hs => ?_,
    rfl, rfl, rfl, rfl⟩
  exact isSome_update hs

theorem ckShMemNotify_pages (h : m.Lists L) (hs : m.ckShMemNotify o = some (m', e)) :
    m.SamePages m' L L := by
  unfold ckShMemNotify at hs
  split at hs
  · obtain ⟨rfl, -⟩ := Prod.mk.inj (Option.some.inj hs)
    exact .refl h
  obtain ⟨smo, hsmo, hs⟩ := Option.bind_eq_some_iff.mp hs
  split at hs
  · obtain ⟨rfl, -⟩ := Prod.mk.inj (Option.some.inj hs)
    exact .refl h
  split at hs
  · obtain ⟨rfl, -⟩ := Prod.mk.inj (Option.some.inj hs)
    exact .refl h
  obtain ⟨m₁, h₁, hs⟩ := Option.bind_eq_some_iff.mp hs
  obtain ⟨rfl, -⟩ := Prod.mk.inj (Option.some.inj hs)
  rw [signalFrom_eq (h.queue hsmo .invited).chained (h.length_lt o .invited)] at h₁
  obtain rfl := Option.some.inj h₁
  exact ⟨h.frame rfl rfl rfl rfl, fun _ => rfl, fun _ _ _ => rfl, fun _ hs => hs,
    rfl, rfl, rfl, rfl⟩

end ShMem

/-- The calls that leave the page tables alone and attach no one, and a switch to another
thread. -/
def ShMemOp.LeavesPages : ShMemOp → Prop
  | .dispatch _ | .call (.invite _ _ _) | .call (.setRange _ _ _) | .call (.notify _) => True
  | _ => False

open ShMem in
/-- **One operation** of these. -/
theorem shMemStep_pages {op : ShMemOp} (h : m.Lists L) (hl : op.Legal m) (hp : op.LeavesPages)
    (hs : shMemStep m op = some m') : ∃ L', m.SamePages m' L L' := by
  cases op with
  | dispatch thread =>
      obtain rfl := Option.some.inj hs
      exact ⟨L, { SamePages.refl h with lists := h.frame rfl rfl rfl rfl }⟩
  | call c =>
      obtain ⟨⟨m₁, r⟩, hcall, rfl⟩ := Option.map_eq_some_iff.mp hs
      cases c with
      | invite o thread node =>
          obtain ⟨L', hpages⟩ := ckShMemInvite_pages h hl.1 hl.2 hcall
          exact ⟨L', hpages.record _⟩
      | setRange o logicalAddr size => exact ⟨L, (ckShMemSetRange_pages h hcall).record _⟩
      | notify o => exact ⟨L, (ckShMemNotify_pages h hcall).record _⟩
      | attach | detach | remap => exact hp.elim
  | load | unload | header | rest => exact hp.elim

open ShMem in
/-- Any number of them. -/
theorem Run.shMem_pages {ops : List ShMemOp} (h : m.Lists L)
    (hr : Run shMemStep (fun m op => op.Legal m ∧ op.LeavesPages) m ops m') :
    ∃ L', m.SamePages m' L L' := by
  induction hr generalizing L with
  | nil m => exact ⟨L, .refl h⟩
  | cons hl hs _ ih =>
      obtain ⟨L₁, h₁⟩ := shMemStep_pages h hl.1 hl.2 hs
      obtain ⟨L₂, h₂⟩ := ih h₁.lists
      exact ⟨L₂, h₁.trans h₂⟩

/-! ## Undoing an attach -/

/-- The pages that are cleared for the attachment `a` are those that were copied to, as far as
there is anything in them, and the usage counts outlast them. -/
structure Paging.MarksFit (s : Paging) (d : Addr) (la sz : UADDR) (a : SHTHREADLIST) : Prop where
  outlasts : s.Outlasts d a.logicalAddr (pagesMarked a.logicalAddr a.size)
  gone : ∀ p < 2 ^ 20, InPages la (pagesCopied la sz) p →
    ¬ InPages a.logicalAddr (pagesMarked a.logicalAddr a.size) p → ¬ Present (s.entry d p)
  kept : ∀ p < 2 ^ 20, ¬ InPages la (pagesCopied la sz) p →
    InPages a.logicalAddr (pagesMarked a.logicalAddr a.size) p → s.entry d p = 0#32

/-- Of the range of the attach itself, the page behind it is cleared too. -/
theorem Paging.marksFit_own_iff (s : Paging) (d : Addr) (la sz : UADDR) (thread : Addr) :
    s.MarksFit d la sz ⟨thread, la, sz⟩ ↔ s.Outlasts d la (pagesMarked la sz) ∧
      (pagesMarked la sz ≠ 0 → s.entry d (pageOf la + pagesCopied la sz) = 0#32) := by
  have hle := page_marked_le la sz
  constructor
  · intro hfits
    refine ⟨hfits.outlasts, fun h0 => ?_⟩
    rcases pagesMarked_eq la sz with heq | ⟨hzero, -⟩
    · refine hfits.kept _ (by omega) (fun hin => ?_) ⟨Nat.le_add_right .., by dsimp only; omega⟩
      exact absurd hin.2 (Nat.lt_irrefl _)
    · exact absurd hzero h0
  · rintro ⟨hlasts, hend⟩
    refine ⟨hlasts, fun p _ hin hout => ?_, fun p _ hout hin => ?_⟩
    · refine absurd ⟨hin.1, ?_⟩ hout
      exact hin.2.trans_le (Nat.add_le_add_left (pagesCopied_le la sz) _)
    · obtain ⟨hge, hlt⟩ := hin
      dsimp only at hge hlt
      have hlast : p = pageOf la + pagesCopied la sz := by
        by_contra hne
        rcases pagesMarked_eq la sz with heq | ⟨hzero, -⟩
        · exact hout ⟨hge, by omega⟩
        · omega
      rw [hlast]
      exact hend (by omega)

namespace ShMem

/-- Of the pages of the thread's address space, those of the attach are not present, the others
are as they were, and the thread is invited again. -/
structure Undone (m m' : ShMem) (object : Addr) (la sz : UADDR) : Prop where
  gone : ∀ p < 2 ^ 20, InPages la (pagesCopied la sz) p →
    ¬ Present (m'.paging.entry m.directory p)
  kept : ∀ p < 2 ^ 20, ¬ InPages la (pagesCopied la sz) p →
    m'.paging.entry m.directory p = m.paging.entry m.directory p
  again : (m'.nodeIn object .invited).isSome

/-- The detach succeeds, and undoes the attach that led to `m₁`. -/
def DetachUndoes (m₁ m₂ : ShMem) (object : Addr) (la sz : UADDR) : Prop :=
  ∃ m', m₂.ckShMemDetach object = some (m', 0#32) ∧ m₁.Undone m' object la sz

/-- The node that moved is in the other list. -/
theorem Relinked.mem (h : m.Relinked m' L o smo x w w') : ∃ L', m'.Lists L' ∧ x ∈ L' o w' := by
  obtain ⟨as, bs, -, hlists⟩ := h.lists
  refine ⟨_, hlists, ?_⟩
  rw [setList_self]
  exact List.mem_append_right _ (.head [])

/-- What a detach leaves of the pages. -/
theorem Detached.undone_iff {la sz : UADDR} (hd : m.Detached m' L object smo x)
    (hsep : m.paging.Separate) (hlive : m.paging.live m.directory = true)
    (ht : (m.node x).thread = m.currtask)
    (hlasts : m.paging.Outlasts m.directory (m.node x).logicalAddr
      (pagesMarked (m.node x).logicalAddr (m.node x).size)) :
    m.Undone m' object la sz ↔ m.paging.MarksFit m.directory la sz (m.node x) := by
  have hentry := fun {p} (hp : p < 2 ^ 20) =>
    hd.paging.entry_eq hsep hlive (page_marked_le ..) hp
  constructor
  · intro hun
    refine ⟨hlasts, fun p hp hin hout => ?_, fun p hp hout hin => ?_⟩
    · have hgone := hun.gone p hp hin
      rwa [hentry hp, if_neg hout] at hgone
    · have hkept := hun.kept p hp hout
      rw [hentry hp, if_pos hin] at hkept
      exact hkept.symm
  · intro hfits
    refine ⟨fun p hp hin => ?_, fun p hp hout => ?_, ?_⟩
    · rw [hentry hp]
      split
      · exact not_present_zero
      · next hmarked => exact hfits.gone p hp hin hmarked
    · rw [hentry hp]
      split
      · next hmarked => exact (hfits.kept p hp hout hmarked).symm
      · rfl
    · obtain ⟨L', hlists, hx⟩ := hd.link.mem
      refine hlists.nodeIn_isSome hx ?_
      rw [hd.node, ht]
      exact (congrArg ShMem.currtask hd.link.frame).symm

theorem Undone.congr {la sz : UADDR} (hdir : m₂.directory = m₁.directory)
    (hpaging : m₂.paging = m₁.paging) (hun : m₂.Undone m' object la sz) :
    m₁.Undone m' object la sz where
  gone := hdir ▸ hun.gone
  kept := hdir ▸ hpaging ▸ hun.kept
  again := hun.again

/-- The thread is the same one, in the same address space. -/
theorem Relinked.directory (h : m.Relinked m' L o smo x w w') : m'.directory = m.directory :=
  (congrArg ShMem.directory h.frame).trans rfl

theorem Relinked.noAddrSpc (h : m.Relinked m' L o smo x w w') (aspace : Addr) :
    m'.NoAddrSpc aspace ↔ m.NoAddrSpc aspace := by
  have hsig : m'.signature = m.signature := (congrArg ShMem.signature h.frame).trans rfl
  rw [NoAddrSpc, NoAddrSpc, hsig]

/-- An attach that succeeds. -/
theorem ckShMemAttach_attached (h : m.Lists L) (hsmo : m.shMem object = some smo)
    (hu : m.paging.CKFreeListLock = false)
    (hs : m.ckShMemAttach object logAddr size pageTables = some (m', 0#32)) :
    m.AttachAccepted object smo logAddr size pageTables ∧
      ∃ x, m.Attached m' L object smo logAddr size pageTables x := by
  rcases ckShMemAttach_results h hsmo hu logAddr size pageTables with
    ⟨-, e, he, hcall⟩ | ⟨hacc, x, m₁, -, hcall, hatt⟩
  · exact absurd (Prod.mk.inj (Option.some.inj (hcall.symm.trans hs))).2 he
  · obtain ⟨rfl, -⟩ := Prod.mk.inj (Option.some.inj (hcall.symm.trans hs))
    exact ⟨hacc, x, hatt⟩

section

variable (hatt : m.Attached m₁ L object smo logAddr size pageTables x)
  (hsep : m.paging.Separate) (hlive : m.paging.live m.directory = true)
  (hf : m.paging.GivesOut m.directory logAddr (logAddr + attachSize smo size) pageTables)

include hatt hsep hlive hf in
theorem Attached.separate : m₁.paging.Separate ∧ m₁.paging.live m₁.directory = true := by
  obtain ⟨s₁, ht, hpaging⟩ := hatt.paging
  rw [hatt.link.directory, hpaging]
  exact ⟨(hsep.tablesFor hlive ht hf).congr (fun _ _ _ => rfl) rfl, ht.live ▸ hlive⟩

include hatt hsep hlive hf in
/-- The pages that the attach did not copy to are as they were. -/
theorem Attached.entry_outside {p : Nat} (hp : p < 2 ^ 20)
    (hout : ¬ InPages logAddr (pagesCopied logAddr (attachSize smo size)) p) :
    m₁.paging.entry m.directory p = m.paging.entry m.directory p := by
  obtain ⟨s₁, ht, hpaging⟩ := hatt.paging
  have hn := (Nat.add_le_add_left (pagesCopied_le logAddr (attachSize smo size)) _).trans
    (page_marked_le logAddr (attachSize smo size))
  rw [hpaging, entry_copyPages (hsep.tablesFor hlive ht hf) (ht.live ▸ hlive) _ _ hn hp hout]
  exact entry_tablesFor hsep hf ht hlive hp

end

/-- A thread that had not attached the object is found with the range of the attach. -/
theorem Attached.attachment (hatt : m.Attached m₁ L object smo logAddr size pageTables x)
    (h : m.Lists L) (hnew : m.nodeIn object .threads = none) :
    m₁.attachment object = some ⟨m.currtask, logAddr, attachSize smo size⟩ := by
  obtain ⟨as, bs, hl, hlists⟩ := hatt.link.lists
  have hc : m₁.currtask = m.currtask := (congrArg ShMem.currtask hatt.link.frame).trans rfl
  have hx : x ∉ L object .threads := fun hx => by
    have hsame := (h.apart hx (show x ∈ L object .invited by rw [hl]; simp)).2
    exact absurd hsame (by decide)
  have hfind : m₁.nodeIn object .threads = some x := by
    rw [hlists.nodeIn_eq, setList_self, List.find?_append]
    rw [h.nodeIn_eq, List.find?_eq_none] at hnew
    have hnone : (L object .threads).find?
        (fun n => decide ((m₁.node n).thread = m₁.currtask)) = none := by
      refine List.find?_eq_none.mpr fun n hn => ?_
      rw [hatt.node, update_of_ne (ne_of_mem_of_not_mem hn hx), hc]
      exact hnew n hn
    rw [hnone, Option.none_or, List.find?_cons_of_pos]
    rw [hatt.node, update_self, hc, decide_eq_true_eq]
  rw [ShMem.attachment, hfind, Option.map_some, hatt.node, update_self]

/-- The first node of the thread is the same, with the same range. -/
theorem SamePages.attachment {y : Addr} (hp : m₁.SamePages m₂ L L') (h : m₁.Lists L)
    (hc : m₂.currtask = m₁.currtask) (hy : m₂.nodeIn object .threads = some y) :
    m₁.attachment object = some (m₂.node y) := by
  have hsame : m₁.nodeIn object .threads = some y := by
    rw [← hy, h.nodeIn_eq, hp.lists.nodeIn_eq, hp.threads, hc]
    refine List.find?_congr fun n hn => ?_
    rw [hp.node object n hn]
  rw [ShMem.attachment, hsame, Option.map_some, hp.node object y (h.nodeIn_mem hsame).1]

/-- **When a detach undoes an attach**: the range of the attachment that it finds has the pages of
the attach, as far as there is anything in their entries, and the usage counts outlast it. -/
theorem detach_undoes_iff {ops : List ShMemOp} (h : m.Lists L) (hsep : m.paging.Separate)
    (hlive : m.paging.live m.directory = true) (hsmo : m.shMem object = some smo)
    (hf : m.paging.GivesOut m.directory logAddr (logAddr + attachSize smo size) pageTables)
    (hattach : m.ckShMemAttach object logAddr size pageTables = some (m₁, 0#32))
    (hr : Run shMemStep (fun m op => op.Legal m ∧ op.LeavesPages) m₁ ops m₂)
    (hc : m₂.currtask = m₁.currtask) :
    DetachUndoes m₁ m₂ object logAddr (attachSize smo size) ↔
      ∀ a, m₁.attachment object = some a →
        m₁.paging.MarksFit m₁.directory logAddr (attachSize smo size) a := by
  obtain ⟨hacc, x, hatt⟩ := ckShMemAttach_attached h hsmo hsep.unlocked hattach
  obtain ⟨hsep₁, hlive₁⟩ := hatt.separate hsep hlive hf
  obtain ⟨L₁, h₁, hx⟩ := hatt.link.mem
  obtain ⟨L₂, hp⟩ := Run.shMem_pages h₁ hr
  have hdir : m₂.directory = m₁.directory := by
    rw [directory, directory, aspace, aspace, hp.addrSpc, hp.addressSpace, hc]
  -- the thread has a node in the list when it calls
  have ht : (m₂.node x).thread = m₂.currtask := by
    rw [hp.node object x hx, hatt.node, update_self, hc]
    exact (congrArg ShMem.currtask hatt.link.frame).symm
  have hx₂ : x ∈ L₂ object .threads := by rwa [hp.threads]
  obtain ⟨y, hy⟩ := Option.isSome_iff_exists.mp (hp.lists.nodeIn_isSome hx₂ ht)
  rw [hp.attachment h₁ hc hy]
  simp only [Option.some.injEq, forall_eq']
  rw [← hp.paging, ← hdir]
  -- and the object is loaded still
  obtain ⟨ends, hsmo₁⟩ := hatt.link.record
  obtain ⟨smo₂, hsmo₂⟩ := Option.isSome_iff_exists.mp (hp.loaded object (by rw [hsmo₁]; rfl))
  rcases ckShMemDetach_results hp.lists hsmo₂ hy with
    ⟨hno, -⟩ | ⟨-, hnot, hcall⟩ | ⟨-, hlasts, m', hcall, hdet⟩
  · have haspace : m₂.aspace = m.aspace := by
      rw [aspace, hp.addressSpace, hc]
      exact (congrArg ShMem.aspace hatt.link.frame).trans rfl
    rw [haspace, NoAddrSpc, hp.signature, ← NoAddrSpc, hatt.link.noAddrSpc] at hno
    exact absurd hno hacc.aspace
  · refine iff_of_false ?_ fun hfits => hnot hfits.outlasts
    rintro ⟨m', hs, -⟩
    rw [hcall] at hs
    exact absurd hs nofun
  · have hty := (hp.lists.nodeIn_mem hy).2
    rw [← hp.paging] at hsep₁ hlive₁
    rw [← hdir] at hlive₁
    rw [← hdet.undone_iff hsep₁ hlive₁ hty hlasts]
    constructor
    · rintro ⟨m'', hs, hun⟩
      obtain ⟨rfl, -⟩ := Prod.mk.inj (Option.some.inj (hcall.symm.trans hs))
      exact hun.congr hdir.symm hp.paging.symm
    · exact fun hun => ⟨m', hcall, hun.congr hdir hp.paging⟩

end ShMem

/-! ## Two objects in neighbouring pages -/

/-- A new address space. -/
def Paging.withDirectory (s : Paging) (d : Addr) : Paging :=
  { s with
    addrSpc := update s.addrSpc d fun i =>
      if CKSLOT ≤ i ∧ i < 1024 then s.kernelDir i else 0#32
    live := update s.live d true }

theorem Paging.Separate.withDirectory {s : Paging} {d : Addr} (h : s.Separate) (hd : d ≠ NIL)
    (hl : s.live d = false) : (s.withDirectory d).Separate := by
  have hcall : s.ckPreProcessAddrSpc d = some (s.withDirectory d, 0#32) := by
    rw [ckPreProcessAddrSpc, ckMemAllocPages_nil h.unlocked, Option.bind_eq_bind, Option.bind_some,
      if_neg hd]
    rfl
  rcases ckPreProcessAddrSpc_cases h.unlocked hcall with ⟨hnil, -⟩ | ⟨-, hadded⟩
  · exact absurd hnil hd
  · exact h.directoryAdded hl hadded

/-- The address spaces 48 and 64, with no tables but the Cache Kernel's. -/
def twoSpaces : Paging := (vmAtBoot.paging.withDirectory 48).withDirectory 64

theorem twoSpaces_separate : twoSpaces.Separate :=
  (vmAtBoot_atBoot.separate.withDirectory (by decide) rfl).withDirectory (by decide) rfl

/-- In the first one, 0x400000 is mapped. -/
def ownerMapped : Paging :=
  ((twoSpaces.ckSetPageMapping 48 0x400000#32 0x800000#32 0x1000#32 2#32
    (linear (20#32 <<< 12))).getD (twoSpaces, false)).1

/-- Of the second one, no word of the directory and no count is another. -/
theorem ownerMapped_separate : ownerMapped.Separate ∧ ownerMapped.live = twoSpaces.live ∧
    ownerMapped.addrSpc 64 = twoSpaces.addrSpc 64 := by
  rcases ckSetPageMapping_results 48 2#32 (linear (20#32 <<< 12)) twoSpaces_separate.unlocked
    (show (0x800000#32 : UADDR).toNat % 4096 = 0 by decide)
    (show (0x400000#32 : UADDR).toNat % 4096 = 0 by decide)
    (show (0x400000#32 : UADDR).toNat + (0x1000#32 : UADDR).toNat < 2 ^ 32 by decide)
    with ⟨⟨-, hzero⟩, -⟩ | ⟨s₁, ht, hcall, -⟩
  · exact absurd hzero (by decide)
  · have hsep := twoSpaces_separate.tablesFor (by decide) ht (by decide +kernel)
    rw [ownerMapped, hcall]
    refine ⟨hsep.congr (fun _ _ _ => rfl) rfl, ht.live, ?_⟩
    rcases ht with ⟨rfl, -⟩ | ⟨-, -, hadded⟩
    · rfl
    · exact hadded.other 64 (by decide)

/-- Thread 16 has mapped a page. -/
def sharingAtBoot : ShMem := { shMemAtBoot with paging := ownerMapped }

theorem sharingAtBoot_boot : sharingAtBoot.Boot := ⟨fun _ => rfl, fun _ => rfl, rfl⟩

/-- It shares the page, and invites thread 32. -/
def sharePage : List ShMemOp :=
  [.load 80, .call (.setRange 80 0x400000#32 0x1000#32), .call (.invite 80 32 100), .dispatch 32]

/-- What is left then. -/
def pageShared : ShMem := (exec shMemStep ShMemOp.Legal sharingAtBoot sharePage).getD sharingAtBoot

theorem pageShared_run : Run shMemStep ShMemOp.Legal sharingAtBoot sharePage pageShared := by
  have hsome : (exec shMemStep ShMemOp.Legal sharingAtBoot sharePage).isSome = true := by
    decide +kernel
  obtain ⟨m, hm⟩ := Option.isSome_iff_exists.mp hsome
  rw [pageShared, hm]
  exact .of_exec hm

/-- Thread 32 attaches the page behind its first one. -/
theorem pageShared_attach : ∃ m₁,
    pageShared.ckShMemAttach 80 0x1000#32 0x1000#32 (linear (16#32 <<< 12)) = some (m₁, 0#32) := by
  have hcall : ((pageShared.ckShMemAttach 80 0x1000#32 0x1000#32 (linear (16#32 <<< 12))).any
      fun r => decide (r.2 = 0#32)) = true := by decide +kernel
  obtain ⟨⟨m₁, e⟩, hs, he⟩ := (Option.any_eq_true _ _).mp hcall
  obtain rfl := of_decide_eq_true he
  exact ⟨m₁, hs⟩

theorem pageShared_lists : ∃ L smo, pageShared.Lists L ∧ pageShared.shMem 80 = some smo ∧
    smo.owner = 16 ∧ smo.logicalAddr = 0x400000#32 ∧
    ShMem.attachSize smo 0x1000#32 = 0x1000#32 := by
  obtain ⟨L, h, -⟩ := Run.shMem_lists sharingAtBoot_boot pageShared_run
  exact ⟨L, _, h, rfl, rfl, rfl, rfl⟩

open ShMem in
/-- The usage count of the slot is 0. That of the next one was raised for the new table. -/
theorem pageShared_outlasts
    (hatt : pageShared.Attached m₁ L 80 smo 0x1000#32 0x1000#32 (linear (16#32 <<< 12)) x)
    (hsz : attachSize smo 0x1000#32 = 0x1000#32) :
    m₁.paging.Outlasts m₁.directory 0x1000#32 (pagesMarked 0x1000#32 0x1000#32) := by
  obtain ⟨s₁, ht, hpaging⟩ := hatt.paging
  have hmarked : pagesMarked 0x1000#32 0x1000#32 = 2 := by decide +kernel
  rw [hmarked, hpaging, hatt.link.directory]
  intro k hk
  have hzero : pageShared.paging.usage pageShared.directory k = 0#32 := by
    show ownerMapped.addrSpc 64 (1024 + k) = 0#32
    rw [ownerMapped_separate.2.2]
    exact if_neg fun hin => absurd hin.2 (by omega)
  rw [hsz] at ht
  rcases ht with ⟨rfl, -⟩ | ⟨-, -, hadded⟩
  · exact .inl hzero
  · have husage := hadded.usage k
    by_cases hbehind : k = 1
    · right
      show Paging.inSlot 0x1000#32 2 k < (s₁.usage pageShared.directory k).toNat
      subst hbehind
      rw [husage, hzero]
      decide +kernel
    · left
      show s₁.usage pageShared.directory k = 0#32
      rw [husage, if_neg fun hk => hbehind (hk.trans (by decide +kernel)), hzero]

open ShMem in
/-- The page that is behind the attached one is empty. -/
theorem detach_undoes_page : ∃ m₁,
    pageShared.ckShMemAttach 80 0x1000#32 0x1000#32 (linear (16#32 <<< 12)) = some (m₁, 0#32) ∧
      DetachUndoes m₁ m₁ 80 0x1000#32 0x1000#32 := by
  obtain ⟨m₁, hattach⟩ := pageShared_attach
  obtain ⟨L, smo, h, hsmo, -, -, hsz⟩ := pageShared_lists
  obtain ⟨hsep, hlive, -⟩ := ownerMapped_separate
  have hpage : pageShared.paging.live pageShared.directory = true := congrFun hlive 64
  have hf : pageShared.paging.GivesOut pageShared.directory 0x1000#32
      (0x1000#32 + attachSize smo 0x1000#32) (linear (16#32 <<< 12)) := by
    rw [hsz]
    decide +kernel
  suffices hundoes : DetachUndoes m₁ m₁ 80 0x1000#32 (attachSize smo 0x1000#32) by
    rw [hsz] at hundoes
    exact ⟨m₁, hattach, hundoes⟩
  refine (detach_undoes_iff h hsep hpage hsmo hf hattach (.nil m₁) rfl).mpr fun a ha => ?_
  obtain ⟨-, x, hatt⟩ := ckShMemAttach_attached h hsmo hsep.unlocked hattach
  have hnew : pageShared.nodeIn 80 .threads = none := by decide +kernel
  obtain rfl := Option.some.inj (ha.symm.trans (hatt.attachment h hnew))
  rw [hsz, Paging.marksFit_own_iff]
  refine ⟨pageShared_outlasts hatt hsz, fun _ => ?_⟩
  have hlt : pageOf 0x1000#32 + pagesCopied 0x1000#32 0x1000#32 < 2 ^ 20 := by decide +kernel
  rw [hatt.link.directory, hatt.entry_outside hsep hpage hf hlt (by rw [hsz]; decide +kernel)]
  decide +kernel

/-- Thread 16 shares its page twice. Thread 32 has attached the second object, and then the first
one in front of it. -/
def attachInFront : List ShMemOp :=
  [.load 80, .call (.setRange 80 0x400000#32 0x1000#32), .call (.invite 80 32 100),
    .load 84, .call (.setRange 84 0x400000#32 0x1000#32), .call (.invite 84 32 120), .dispatch 32,
    .call (.attach 84 0x2000#32 0x1000#32 (linear (16#32 <<< 12)))]

open ShMem in
/-- The detach of the object in front clears the page of the other one. -/
theorem detach_clears_next : ∃ m m₁,
    Run shMemStep ShMemOp.Legal sharingAtBoot attachInFront m ∧
      m.ckShMemAttach 80 0x1000#32 0x1000#32 0#32 = some (m₁, 0#32) ∧
      ¬ DetachUndoes m₁ m₁ 80 0x1000#32 0x1000#32 := by
  have hexec : ((exec shMemStep ShMemOp.Legal sharingAtBoot attachInFront).any fun m =>
      (m.ckShMemAttach 80 0x1000#32 0x1000#32 0#32).any fun r =>
        decide (r.2 = 0#32) && decide (r.1.paging.entry r.1.directory 2 ≠ 0#32) &&
        (r.1.ckShMemDetach 80).all fun r' =>
          decide (r'.1.paging.entry r.1.directory 2 = 0#32)) = true := by decide +kernel
  obtain ⟨m, hr, hm⟩ := Run.of_exec_any hexec
  obtain ⟨⟨m₁, e⟩, hattach, htests⟩ := (Option.any_eq_true _ _).mp hm
  simp only [Bool.and_eq_true, decide_eq_true_eq] at htests
  obtain ⟨⟨rfl, hmapped⟩, hdetach⟩ := htests
  refine ⟨m, m₁, hr, hattach, ?_⟩
  rintro ⟨m', hs, hun⟩
  have hkept := hun.kept 2 (by decide) (by decide +kernel)
  rw [hs] at hdetach
  have hcleared := of_decide_eq_true hdetach
  exact hmapped (hkept.symm.trans hcleared)

end Alliance.CK
