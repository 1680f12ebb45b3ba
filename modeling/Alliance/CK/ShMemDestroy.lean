import Alliance.CK.ShMemLists

/-!
# The end of a shared memory object

`CKunloadSHMemObject` calls `CKshMemDestroy` for the signals and the list nodes, and frees
the record right after it. `CKshMemDestroy` does nothing unless it is the owner who unloads the
object, it leaves the nodes of the attached threads to their `CKshMemDetach`, and these find no
record any more. `endOfLife_iff` is what remains of a proper end.
-/

namespace Alliance.CK

open Function Lib

/-- What the log has got since. -/
def ShMem.eventsSince (m m' : ShMem) : List ShMemEvent :=
  m'.log.take (m'.log.length - m.log.length)

/-- The nodes that were freed. -/
def freedNodes (log : List ShMemEvent) : List Addr :=
  log.filterMap fun
    | .freedNode n => some n
    | _ => none

/-- A proper end of an object with these nodes in its lists, on the way from `m` to `m'`. -/
structure EndOfLife (m m' : ShMem) (object : Addr) (invited threads : List Addr) : Prop where
  /-- The threads are told. -/
  signalled : ∀ n ∈ invited ++ threads,
    .sent (m.node n).thread SIGNLSHDEAD object ∈ m.eventsSince m'
  /-- Each node is freed, and once. -/
  freed : (freedNodes (m.eventsSince m')).Perm (invited ++ threads)
  /-- A thread that is attached can detach. -/
  detaches : ∀ n ∈ threads, ∃ m'',
    ShMem.ckShMemDetach { m' with currtask := (m.node n).thread } object = some (m'', 0#32)
  /-- No call reads the record any more. -/
  unread : ∀ c caller, c.object = object → (ShMem.call { m' with currtask := caller } c).isSome

variable {m m' : ShMem} {L : Addr → ShMemList → List Addr} {o : Addr} {smo : ShMemRecord}
  {header : ObjectSignature}

theorem eventsSince_append {es : List ShMemEvent} (h : m'.log = es ++ m.log) :
    m.eventsSince m' = es := by
  unfold ShMem.eventsSince
  rw [h, List.length_append, Nat.add_sub_cancel, List.take_left]

namespace ShMem

/-- What is freed of the lists, and by whom. -/
theorem freedNodes_destroyEvents {owner : Addr} :
    freedNodes (destroyEvents m o owner L) = if m.currtask = owner then L o .invited else [] := by
  unfold destroyEvents
  split
  · unfold freedNodes
    rw [List.filterMap_append, List.filterMap_map, List.filterMap_flatMap]
    simp
  · rfl

/-- The test of the header, and then a read of a record that is gone. -/
theorem guard_gone (hgone : m.shMem o = none) (k : ShMemRecord → Option (ShMem × DATA)) :
    (if m.signature o ≠ .SIGSHMEM then some (m, ENOVALIDSHMEM) else m.shMem o >>= k) =
      if m.signature o = .SIGSHMEM then none else some (m, ENOVALIDSHMEM) := by
  rw [hgone]
  by_cases h : m.signature o = .SIGSHMEM
  · rw [if_neg (not_not.mpr h), if_pos h]
    rfl
  · rw [if_pos h, if_neg h]

/-- Without a record a call does nothing, if it gets past the header at all. -/
theorem call_gone (hgone : m.shMem o = none) {c : ShMemCall} (hc : c.object = o) :
    m.call c = if m.signature o = .SIGSHMEM then none else some (m, ENOVALIDSHMEM) := by
  cases c with
  | invite object thread node =>
      obtain rfl : object = o := hc
      exact guard_gone hgone _
  | setRange object logicalAddr size =>
      obtain rfl : object = o := hc
      exact guard_gone hgone _
  | attach object logAddr size pageTables =>
      obtain rfl : object = o := hc
      exact guard_gone hgone _
  | detach object =>
      obtain rfl : object = o := hc
      exact guard_gone hgone _
  | remap object logAddr size pageTables =>
      obtain rfl : object = o := hc
      have hdetach : m.ckShMemDetach object =
          if m.signature object = .SIGSHMEM then none else some (m, ENOVALIDSHMEM) :=
        guard_gone hgone _
      change m.ckShMemRemap object logAddr size pageTables = _
      unfold ckShMemRemap
      by_cases h : m.signature object = .SIGSHMEM
      · rw [if_pos h] at hdetach ⊢
        rw [if_neg (not_not.mpr h), hdetach]
        rfl
      · rw [if_pos h, if_neg h]
  | notify object =>
      obtain rfl : object = o := hc
      exact guard_gone hgone _

end ShMem

open ShMem in
/-- **A proper end**: nobody is attached, the signals and the nodes are left to nobody but the
owner, and the freed header does not pass for that of an object. -/
theorem endOfLife_iff (h : m.Lists L) (hsmo : m.shMem o = some smo)
    (hs : m.ckUnloadSHMemObject o header = some m') :
    EndOfLife m m' o (L o .invited) (L o .threads) ↔
      L o .threads = [] ∧ (m.currtask = smo.owner ∨ L o .invited = []) ∧ header ≠ .SIGSHMEM := by
  rw [ckUnloadSHMemObject_eq h hsmo] at hs
  obtain rfl := Option.some.inj hs
  generalize hm' : ({ m with
    shMem := update m.shMem o none
    signature := update m.signature o header
    used := usedAfter m o smo.owner L
    log := .freedRecord o :: ((destroyEvents m o smo.owner L).reverse ++ m.log) } : ShMem) = m'
  have hgone : m'.shMem o = none := by rw [← hm']; exact update_self ..
  have hheader : m'.signature o = header := by rw [← hm']; exact update_self ..
  have hsince : m.eventsSince m' =
      .freedRecord o :: (destroyEvents m o smo.owner L).reverse :=
    eventsSince_append (by rw [← hm']; rfl)
  -- in which order the nodes were freed does not matter
  have hfreed : (freedNodes (m.eventsSince m')).Perm
      (if m.currtask = smo.owner then L o .invited else []) := by
    rw [hsince, ← freedNodes_destroyEvents]
    unfold freedNodes
    rw [List.filterMap_cons_none rfl, List.filterMap_reverse]
    exact List.reverse_perm _
  -- and nothing gets past the header without reading the record
  have hcall : ∀ c caller, c.object = o → ShMem.call { m' with currtask := caller } c =
      if header = .SIGSHMEM then none
      else some ({ m' with currtask := caller }, ENOVALIDSHMEM) := by
    intro c caller hc
    have hcg := call_gone (m := { m' with currtask := caller }) hgone hc
    rwa [hheader] at hcg
  constructor
  · intro he
    have hthreads : L o .threads = [] := by
      rw [List.eq_nil_iff_forall_not_mem]
      intro n hn
      obtain ⟨m'', hd⟩ := he.detaches n hn
      have hd' := (hcall (.detach o) (m.node n).thread rfl).symm.trans hd
      split at hd'
      · exact absurd hd' (by simp)
      · exact absurd (Prod.mk.inj (Option.some.inj hd')).2 (by decide)
    refine ⟨hthreads, ?_, fun heq => ?_⟩
    · by_cases hc : m.currtask = smo.owner
      · exact .inl hc
      · have hperm := hfreed.symm.trans he.freed
        rw [if_neg hc, hthreads, List.append_nil] at hperm
        exact .inr hperm.nil_eq.symm
    · have hsome := he.unread (.detach o) NIL rfl
      rw [hcall _ _ rfl, if_pos heq] at hsome
      exact absurd hsome (by simp)
  · rintro ⟨hthreads, howner, hne⟩
    refine
      { signalled := ?_
        freed := ?_
        detaches := fun n hn => by simp [hthreads] at hn
        unread := fun c caller hc => by rw [hcall c caller hc, if_neg hne]; rfl }
    · intro n hn
      rw [hthreads, List.append_nil] at hn
      obtain hc | hnone := howner
      · rw [hsince, destroyEvents, if_pos hc, hthreads, List.map_nil, List.append_nil]
        refine .tail _ (List.mem_reverse.mpr (List.mem_flatMap.mpr ⟨n, hn, ?_⟩))
        exact .tail _ (.head _)
      · simp [hnone] at hn
    · rw [hthreads, List.append_nil]
      obtain hc | hnone := howner
      · rwa [if_pos hc] at hfreed
      · rw [hnone] at hfreed ⊢
        simpa using hfreed

/-- **The end of a shared memory object**, whoever unloads it. Each thread that is invited or
attached is told, each node is freed once, nobody is left attached and no call reaches the freed
record if and only if nobody is attached at that time, it is the owner who unloads the object or
nobody is invited, and the freed header does not keep the signature. -/
theorem shMem_end_of_life {m₀ : ShMem} {ops : List ShMemOp} (h0 : m₀.Boot)
    (hr : Run shMemStep ShMemOp.Legal m₀ ops m) (hsmo : m.shMem o = some smo)
    (header : ObjectSignature) :
    ∃ (m' : ShMem) (nodes : ShMemList → List Addr),
      m.ckUnloadSHMemObject o header = some m' ∧
      (∀ w, Chained NIL m.next (smo.ends w).first (nodes w)) ∧
      (EndOfLife m m' o (nodes .invited) (nodes .threads) ↔
        (smo.ends .threads).first = NIL ∧
          (m.currtask = smo.owner ∨ (smo.ends .invited).first = NIL) ∧ header ≠ .SIGSHMEM) := by
  obtain ⟨L, h, _⟩ := Run.shMem_lists h0 hr
  have hs := ShMem.ckUnloadSHMemObject_eq h hsmo header
  refine ⟨_, L o, hs, fun w => (h.queue hsmo w).chained, ?_⟩
  rw [(h.queue hsmo .threads).first_eq_nil, (h.queue hsmo .invited).first_eq_nil]
  exact endOfLife_iff h hsmo hs

/-- Thread 32 is invited, and the object is unloaded by its owner. -/
theorem shMem_end_of_life_invited : ∃ (m m' : ShMem) (smo : ShMemRecord) (invited : List Addr),
    Run shMemStep ShMemOp.Legal shMemAtBoot [.load 80, .call (.invite 80 32 100)] m ∧
      m.shMem 80 = some smo ∧ m.ckUnloadSHMemObject 80 .SIGTHREAD = some m' ∧
      Chained NIL m.next (smo.ends .invited).first invited ∧ EndOfLife m m' 80 invited [] := by
  obtain ⟨m, hr, hp⟩ := Run.of_exec_any
    (show (exec shMemStep ShMemOp.Legal shMemAtBoot [.load 80, .call (.invite 80 32 100)]).any
      (fun m => (m.shMem 80).any fun smo =>
        decide ((smo.ends .threads).first = NIL ∧ m.currtask = smo.owner)) = true by decide +kernel)
  obtain ⟨smo, hsmo, hp⟩ := (Option.any_eq_true _ _).mp hp
  obtain ⟨hthreads, howner⟩ := of_decide_eq_true hp
  obtain ⟨m', nodes, hs, hc, hiff⟩ := shMem_end_of_life shMemAtBoot_boot hr hsmo .SIGTHREAD
  have hnone : nodes .threads = [] := (hc .threads).unique hthreads
  have hend := hiff.mpr ⟨hthreads, .inl howner, by decide⟩
  rw [hnone] at hend
  exact ⟨m, m', smo, nodes .invited, hr, hsmo, hs, hc .invited, hend⟩

/-- Thread 32 is attached when the owner unloads the object: its node is not freed. -/
def unloadAttached : List ShMemOp :=
  [.load 80, .call (.invite 80 32 100), .dispatch 32, .call (.attach 80 0#32 0#32 0#32),
    .dispatch 16]

theorem unload_attached_keeps_node : ∃ m m', Run shMemStep ShMemOp.Legal shMemAtBoot unloadAttached m ∧
    (∃ smo, m.shMem 80 = some smo ∧ m.currtask = smo.owner ∧ (smo.ends .threads).first = 100) ∧
    m.ckUnloadSHMemObject 80 .SIGTHREAD = some m' ∧ m.next 100 = NIL ∧
    m.eventsSince m' = [.freedRecord 80, .sent 32 SIGNLSHDEAD 80] ∧
    ¬ EndOfLife m m' 80 [] [100] := by
  obtain ⟨m, hr, hp⟩ := Run.of_exec_any
    (show (exec shMemStep ShMemOp.Legal shMemAtBoot unloadAttached).any (fun m =>
      ((m.shMem 80).any fun smo => decide (m.currtask = smo.owner ∧
        (smo.ends .threads).first = 100 ∧ m.next 100 = NIL)) &&
      (m.ckUnloadSHMemObject 80 .SIGTHREAD).any fun m' =>
        decide (m.eventsSince m' = [.freedRecord 80, .sent 32 SIGNLSHDEAD 80])) = true by
      decide +kernel)
  obtain ⟨hrec, hunload⟩ := Bool.and_eq_true_iff.mp hp
  obtain ⟨smo, hsmo, hp⟩ := (Option.any_eq_true _ _).mp hrec
  obtain ⟨howner, hfirst, hnext⟩ := of_decide_eq_true hp
  obtain ⟨m', hs, hp⟩ := (Option.any_eq_true _ _).mp hunload
  have hsince := of_decide_eq_true hp
  refine ⟨m, m', hr, ⟨smo, hsmo, howner, hfirst⟩, hs, hnext, hsince, fun hend => ?_⟩
  -- nothing was freed, and the node 100 should have been
  have hperm := hend.freed
  rw [hsince] at hperm
  exact absurd hperm (by decide)

end Alliance.CK
