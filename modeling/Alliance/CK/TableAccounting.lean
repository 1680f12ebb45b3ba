import Alliance.CK.PageUnmapping
import Alliance.CK.KernelMappings

/-!
# The usage counts of the page tables

A count is for the slot that it stands at, and it is to be the number of pages in the slot's
table (`Counted`); a table is to be freed by the call that unmaps its last page or that destroys
its address space (`AccountsTables`). A call that adds tables raises the count of the slot behind
the last one, which has none of the new tables, and a count that gets to 0 frees its page with
the lock of the free list held. So the counts agree in a run that adds no table, and in no other.
-/

namespace Alliance.CK

open Function Lib

namespace Paging

variable {s s' : Paging} {d : Addr}

/-- The pages that are mapped in a table. -/
def pagesIn (s : Paging) (t : UADDR) : Nat :=
  (List.range 1024).countP fun j => Present (s.page t j)

/-- Every usage count is the number of the pages in its table. The Cache Kernel's tables are
not counted. -/
structure Counted (s : Paging) : Prop where
  own : ∀ d k, s.Own d k → (s.usage d k).toNat = s.pagesIn (s.tableOf d k)
  other : ∀ d k, s.live d = true → k < 1024 → ¬ s.Own d k → s.usage d k = 0#32

/-- A table that is to be freed: its address space is gone, or its last page is. -/
def Due (s s' : Paging) (p : UADDR) : Prop :=
  ∃ d k, s.Own d k ∧ s.tableOf d k = p ∧
    (s'.live d = false ∨ 0 < s.pagesIn p ∧ s'.pagesIn p = 0)

/-- No address space has a table of its own, and nothing is counted. -/
structure Bare (s : Paging) : Prop where
  separate : s.Separate
  no_own : ∀ d k, ¬ s.Own d k
  usage : ∀ d k, s.live d = true → k < 1024 → s.usage d k = 0#32

theorem Bare.counted (h : s.Bare) : s.Counted where
  own d k ho := absurd ho (h.no_own d k)
  other d k hl hk _ := h.usage d k hl hk

theorem AtBoot.bare (h : s.AtBoot) : s.Bare where
  separate := h.separate
  no_own := h.not_own
  usage d _ hl _ := absurd ((h.no_space d).symm.trans hl) (by simp)

/-- A call that leaves the directories. -/
theorem Bare.congr (h : s.Bare) (hword : ∀ d, ∀ k < 1024, s'.addrSpc d k = s.addrSpc d k)
    (husage : ∀ d k, s.live d = true → k < 1024 → s.usage d k = 0#32 → s'.usage d k = 0#32)
    (hrest : s'.rest = s.rest) : s'.Bare where
  separate := h.separate.congr hword hrest
  no_own d k ho := by
    obtain ⟨hdir, -, hlive, -⟩ := rest_inj hrest
    obtain ⟨hl, hk, hp, hn⟩ := ho
    exact h.no_own d k ⟨hlive ▸ hl, hk, hword d k hk ▸ hp,
      fun hc => hn ((ckTable_congr hdir k).mpr hc)⟩
  usage d k hl hk := by
    have hl : s.live d = true := (rest_inj hrest).2.2.1 ▸ hl
    exact husage d k hl hk (h.usage d k hl hk)

/-- A new directory has no table of its own. -/
theorem DirectoryAdded.own (ha : DirectoryAdded s d s') {d' : Addr} {k : Nat}
    (ho : s'.Own d' k) : s.Own d' k := by
  obtain ⟨hdir, -, hlive, -⟩ : s'.kernelDir = s.kernelDir ∧
      s'.CKFreeListLock = s.CKFreeListLock ∧ s'.live = update s.live d true ∧
      s'.allocated = s.allocated := by
    have := ha.rest
    simp only [Paging.rest, Prod.mk.injEq] at this
    exact this
  obtain ⟨hl, hk, hp, hn⟩ := ho
  by_cases hdd : d' = d
  · subst hdd
    rw [ha.word k hk] at hp
    split at hp
    · next hs => exact absurd ⟨hs, hk, hdir ▸ hp⟩ hn
    · exact absurd hp not_present_zero
  · rw [hlive, update_of_ne hdd] at hl
    rw [ha.other d' hdd] at hp
    exact ⟨hl, hk, hp, fun hc => hn ((ckTable_congr hdir k).mpr hc)⟩

theorem Bare.directoryAdded (h : s.Bare) (hd : s.live d = false) (ha : DirectoryAdded s d s') :
    s'.Bare where
  separate := h.separate.directoryAdded hd ha
  no_own d' k ho := h.no_own d' k (ha.own ho)
  usage d' k hl hk := by
    by_cases hdd : d' = d
    · rw [hdd]
      exact ha.usage k
    · have hlive : s'.live = update s.live d true := by
        have := ha.rest
        simp only [Paging.rest, Prod.mk.injEq] at this
        exact this.2.2.1
      rw [hlive, update_of_ne hdd] at hl
      rw [Paging.usage, ha.other d' hdd]
      exact h.usage d' k hl hk

/-! ## Counts that are 0 -/

/-- An unmapping returns if nothing is counted. -/
theorem Bare.outlasts (h : s.Bare) (hd : s.live d = true) (a : UADDR) (n : Nat) :
    s.Outlasts d a n := fun k hk => .inl (h.usage d k hd hk)

/-- An unmapping of another directory leaves the counts. -/
theorem ckMarkPageNotPresent_bare (h : s.Bare) (hd : s.live d = true) (la length data : UADDR) :
    ∃ s', s.ckMarkPageNotPresent d la length data = some s' ∧ s'.Bare ∧ s'.rest = s.rest := by
  rcases s.ckMarkPageNotPresent_results d la length data with ⟨-, s', hs, hun⟩ | ⟨hnot, -⟩
  · refine ⟨s', hs, h.congr hun.word (fun d' k hl hk hu => ?_) hun.rest, hun.rest⟩
    by_cases hdd : d' = d
    · subst hdd
      rw [hun.usage k hk, if_pos hu]
    · rw [Paging.usage, (ckMarkPageNotPresent_walked hs).other d' hdd]
      exact hu
  · exact absurd (h.outlasts hd la _) hnot

/-- A walk that was entered with its tables there. -/
theorem Bare.walked {ps : List (Nat × Nat)} (h : s.Bare) (hw : Walked s d ps s')
    (hsame : s'.addrSpc = s.addrSpc) : s'.Bare :=
  h.congr hw.word (fun d' k _ _ hu => by rwa [Paging.usage, hsame]) hw.rest

/-! ## The calls that map return -/

/-- A fold whose steps return. -/
theorem foldlM_returns {σ α : Type} {f : σ → α → Option σ} (hf : ∀ s a, (f s a).isSome = true)
    (l : List α) (s : σ) : ∃ s', l.foldlM f s = some s' :=
  Option.isSome_iff_exists.mp (isSome_foldlM_iff.mpr (by
    induction l generalizing s with
    | nil => trivial
    | cons a l ih => exact ⟨hf s a, fun s' _ => ih s'⟩))

theorem walkPages_returns {σ : Type} (table : σ → Nat → UADDR)
    (body : UADDR → Nat → Nat → σ → Option σ) (hkeeps : KeepsTables table body)
    (hbody : ∀ t k j s, (body t k j s).isSome = true) (a e : UADDR) (last : Nat) (s : σ) :
    ∃ r, walkPages table body a e last s = some r := by
  rw [walkPages_eq hkeeps]
  exact foldlM_returns (fun s (p : Nat × Nat) => hbody _ p.1 p.2 s) _ s

theorem ckSetPageMapping_returns (hu : s.CKFreeListLock = false) (d : Addr)
    (la pa length attr pageTables : UADDR) :
    ∃ s' ok, s.ckSetPageMapping d la pa length attr pageTables = some (s', ok) := by
  obtain ⟨⟨s₁, ok⟩, hadd⟩ := addTables_some hu d la (la + length) pageTables
  unfold ckSetPageMapping
  simp only [hadd, Option.bind_eq_bind, Option.bind_some]
  split
  · obtain ⟨r, hr⟩ := walkPages_returns (setTable d) (setBody attr)
      (fun t k j r r' _ hs => by
        obtain rfl := Option.some.inj hs
        exact fun _ _ => rfl) (fun _ _ _ _ => rfl) la (la + length) (entryOf (la + length) + 1)
      (s₁, pa.sshiftRight 12)
    exact ⟨r.1, true, by rw [hr, Option.bind_some]⟩
  · exact ⟨s₁, false, rfl⟩

theorem ckCopySharedPageMapping_returns (hu : s.CKFreeListLock = false) (source : Addr)
    (sa : UADDR) (d : Addr) (la length pageTables : UADDR) :
    ∃ s' ok, s.ckCopySharedPageMapping source sa d la length pageTables = some (s', ok) := by
  obtain ⟨⟨s₁, ok⟩, hadd⟩ := addTables_some hu d la (la + length) pageTables
  unfold ckCopySharedPageMapping
  simp only [hadd, Option.bind_eq_bind, Option.bind_some]
  split
  · obtain ⟨r, hr⟩ := walkPages_returns (copyTable d) (copyBody source)
      (copyBody_keepsTables source d) (fun _ _ _ _ => rfl) la (la + length)
      (entryOf (la + length)) (s₁, ⟨slotOf sa, entryOf sa, s₁.tableOf source (slotOf sa)⟩)
    exact ⟨r.1, true, by rw [hr, Option.bind_some]⟩
  · exact ⟨s₁, false, rfl⟩

/-- A call that has the tables it needs, or no memory for them, adds none. -/
theorem TablesFor.same {a e t : UADDR} (ht : TablesFor s d a e t s')
    (hc : s.missing d a e = [] ∨ t = 0#32) : s' = s := by
  rcases ht with ⟨he, -⟩ | ⟨hm, hne, -⟩
  · exact he
  · rcases hc with hnil | hzero
    · exact absurd hnil hm
    · exact absurd hzero hne

/-! ## New tables -/

variable {a e t : UADDR}

/-- A call that adds tables does not fail. -/
theorem addTables_ok {s₁ : Paging} {ok : Bool} (hu : s.CKFreeListLock = false)
    (ht : t ≠ 0#32) (h : s.addTables d a e t = some (s₁, ok)) : ok = true := by
  rcases addTables_cases hu h with ⟨-, hok, hfail⟩ | ⟨hok, -⟩
  · cases ok with
    | false => exact absurd (hfail rfl) ht
    | true => rfl
  · exact hok

theorem TablesFor.added (h : TablesFor s d a e t s') (hm : s.missing d a e ≠ []) :
    TablesAdded s d a e (phys t >>> 12) s' := by
  rcases h with ⟨-, hnil⟩ | ⟨-, -, ha⟩
  · exact absurd hnil hm
  · exact ha

/-- **New tables are counted in the wrong place**: the slot behind the last one has none. -/
theorem TablesAdded.not_counted {s₁ : Paging} (h : s.Bare) (hd : s.live d = true)
    (hm : s.missing d a e ≠ []) (ha : TablesAdded s d a e (phys t >>> 12) s₁)
    (hsame : s'.addrSpc = s₁.addrSpc) (hrest : s'.rest = s₁.rest) : ¬ s'.Counted := by
  intro hcounted
  obtain ⟨hdir, -, hlive, -⟩ := ha.congr_rest
  obtain ⟨hdir', -, hlive', -⟩ := rest_inj hrest
  have hslots : slots a e ≠ [] := fun hnil => hm (by
    rw [missing, hnil]
    rfl)
  have hlength : (slots a e).length = slotOf (e + 0x3fffff#32) - slotOf a := List.length_range'
  have hpos := List.length_pos_of_ne_nil hslots
  have hend := slotOf_lt (e + 0x3fffff#32)
  generalize hk : slotOf a + (slots a e).length = k at ha
  have hlt : k < 1024 := by omega
  have hnew := ha.usage k
  rw [hk, if_pos rfl, h.usage d k hd hlt, BitVec.zero_add] at hnew
  -- the slot behind the last one has no table of its own
  have hnot : ¬ s'.Own d k := by
    intro ho
    obtain ⟨hl, -, hp, hn⟩ := ho
    have ho₁ : s₁.Own d k := ⟨hlive' ▸ hl, hlt, hsame ▸ hp,
      fun hc => hn ((ckTable_congr hdir' k).mpr hc)⟩
    rcases ha.own ho₁ with ⟨ho, -⟩ | ⟨-, hmem⟩
    · exact h.no_own d k ho
    · have := (mem_slots.mp (mem_missing.mp hmem).1).2
      omega
  have hzero := hcounted.other d k (by rw [hlive', hlive, hd]) hlt hnot
  rw [Paging.usage, hsame] at hzero
  have hsum := congrArg BitVec.toNat (hnew.symm.trans hzero)
  have hle : (s.missing d a e).length ≤ (slots a e).length := List.length_filter_le ..
  have hlen := List.length_pos_of_ne_nil hm
  rw [BitVec.toNat_ofNat, Nat.mod_eq_of_lt (by omega)] at hsum
  have : (0#32).toNat = 0 := rfl
  omega

end Paging

open Paging

/-! ## What a call is to do -/

/-- An attach that gets to the copy. -/
def VM.Attaches (m : VM) (object : Addr) : Prop :=
  m.signature object = .SIGSHMEM ∧ m.currtask ≠ (m.shMem object).owner ∧
    (m.shMem object).dead = false ∧ (m.aspace ≠ NIL ∧ m.signature m.aspace = .SIGADDRSPC) ∧
    (m.addressSpace (m.shMem object).owner ≠ NIL ∧
      m.signature (m.addressSpace (m.shMem object).owner) = .SIGADDRSPC) ∧
    (VM.fetchThread (m.shMem object).invited m.currtask).isSome = true

instance (m : VM) (object : Addr) : Decidable (m.Attaches object) :=
  inferInstanceAs (Decidable (_ ∧ _))

/-- The call adds no table, and it destroys no address space. -/
def VMOp.LeavesTables (m : VM) : VMOp → Prop
  | .postProcess _ => False
  | .loadMapping object _ la length _ pageTables => m.signature object = .SIGADDRSPC →
    m.paging.missing (m.addrSpc object) la (la + length) = [] ∨ pageTables = 0#32
  | .shMemAttach object la size pageTables => m.Attaches object →
    m.paging.missing m.directory la (la + VM.attachSize (m.shMem object) size) = [] ∨
      pageTables = 0#32
  | _ => True

instance (m : VM) : (op : VMOp) → Decidable (op.LeavesTables m)
  | .postProcess _ => inferInstanceAs (Decidable False)
  | .loadMapping .. => inferInstanceAs (Decidable (_ → _ ∨ _))
  | .shMemAttach .. => inferInstanceAs (Decidable (_ → _ ∨ _))
  | .preProcess _ | .unloadMapping .. | .shMemInvite .. | .shMemSetRange .. | .shMemDetach _
  | .objects .. => inferInstanceAs (Decidable True)

/-- The call returns, the counts agree then, and it freed those tables that are due. -/
def VM.AccountsTables (m : VM) (op : VMOp) : Prop :=
  ∃ m', vmStep m op = some m' ∧ m'.paging.Counted ∧
    ∀ p, m.paging.allocated p = true →
      (m'.paging.allocated p = false ↔ Due m.paging m'.paging p)

/-! ## One call -/

section

variable {m m' : VM} {object : Addr} {la length size pageTables : UADDR}

/-- **What an attach is**: it fails a check, or it is the copy. -/
theorem shMemAttach_eq (m : VM) (object : Addr) (la size pageTables : UADDR) :
    (¬ m.Attaches object ∧
      ∃ m', vmStep m (.shMemAttach object la size pageTables) = some m' ∧
        m'.paging = m.paging) ∨
    (m.Attaches object ∧ ∃ f : Paging × Bool → VM, (∀ r, (f r).paging = r.1) ∧
      vmStep m (.shMemAttach object la size pageTables) =
        (m.paging.ckCopySharedPageMapping (m.addrSpc (m.addressSpace (m.shMem object).owner))
          (m.shMem object).logicalAddr m.directory la (VM.attachSize (m.shMem object) size)
          pageTables).map f) := by
  unfold vmStep VM.ckShMemAttach
  dsimp only
  split
  · next hshm => exact .inl ⟨fun hc => hshm hc.1, m, rfl, rfl⟩
  next hshm =>
  split
  · next hown => exact .inl ⟨fun hc => hc.2.1 hown, m, rfl, rfl⟩
  next hother =>
  split
  · next hdead => exact .inl ⟨fun hc => absurd (hc.2.2.1.symm.trans hdead) nofun, m, rfl, rfl⟩
  next hdead =>
  split
  · next haspace =>
    refine .inl ⟨fun hc => ?_, m, rfl, rfl⟩
    exact haspace.elim hc.2.2.2.1.1 (· hc.2.2.2.1.2)
  next haspace =>
  split
  · next howner =>
    refine .inl ⟨fun hc => ?_, m, rfl, rfl⟩
    exact howner.elim hc.2.2.2.2.1.1 (· hc.2.2.2.2.1.2)
  next howner =>
  split
  · next hnone =>
    refine .inl ⟨fun hc => ?_, m, rfl, rfl⟩
    have hinvited := hc.2.2.2.2.2
    rw [hnone] at hinvited
    exact absurd hinvited nofun
  next stl hstl =>
  refine .inr ⟨⟨of_not_not hshm, hother, Bool.eq_false_iff.mpr hdead, ?_, ?_, ?_⟩, ?_⟩
  · exact ⟨fun he => haspace (.inl he), of_not_not fun he => haspace (.inr he)⟩
  · exact ⟨fun he => howner (.inl he), of_not_not fun he => howner (.inr he)⟩
  · rw [hstl]
    rfl
  · rw [Option.map_map]
    refine ⟨_, fun r => ?_, rfl⟩
    dsimp only [Function.comp_apply]
    split <;> rfl

/-- A detach returns where nothing is counted. -/
theorem shMemDetach_bare (h : m.paging.Bare) (hl : m.SpaceLive m.aspace) (object : Addr) :
    ∃ m', vmStep m (.shMemDetach object) = some m' ∧ m'.paging.Bare ∧
      m'.paging.rest = m.paging.rest := by
  unfold vmStep VM.ckShMemDetach
  dsimp only
  split
  · exact ⟨m, rfl, h, rfl⟩
  split
  · exact ⟨m, rfl, h, rfl⟩
  split
  · exact ⟨m, rfl, h, rfl⟩
  next haspace =>
  split
  · exact ⟨m, rfl, h, rfl⟩
  next stl _ =>
  have hd := hl (of_not_not fun hne => haspace (.inr hne))
  obtain ⟨s', hs, hbare, hrest⟩ := ckMarkPageNotPresent_bare h hd stl.logicalAddr stl.size 0#32
  rw [hs]
  exact ⟨_, rfl, hbare, hrest⟩

theorem unloadMapping_bare (h : m.paging.Bare) (hl : m.SpaceLive object) (la length : UADDR) :
    ∃ m', vmStep m (.unloadMapping object la length) = some m' ∧ m'.paging.Bare ∧
      m'.paging.rest = m.paging.rest := by
  rw [vmStep, VM.ckUnloadMapping]
  split
  · next hsig =>
    obtain ⟨s', hs, hbare, hrest⟩ := ckMarkPageNotPresent_bare h (hl hsig) la 0#32 length
    rw [hs]
    exact ⟨_, rfl, hbare, hrest⟩
  · exact ⟨m, rfl, h, rfl⟩

/-- **One call** that leaves the tables: it returns, and nothing is counted or freed. -/
theorem vmStep_bare {op : VMOp} (h : m.paging.Bare) (hl : op.Legal m) (hc : op.LeavesTables m) :
    ∃ m', vmStep m op = some m' ∧ m'.paging.Bare ∧
      m'.paging.allocated = m.paging.allocated := by
  have hu := h.separate.unlocked
  cases op with
  | preProcess d =>
    obtain ⟨⟨s', err⟩, hs⟩ : ∃ r, m.paging.ckPreProcessAddrSpc d = some r := by
      rw [ckPreProcessAddrSpc, ckMemAllocPages_nil hu, Option.bind_eq_bind, Option.bind_some]
      split <;> exact ⟨_, rfl⟩
    refine ⟨m.setPaging s', by rw [vmStep, hs, Option.map_some], ?_⟩
    rcases ckPreProcessAddrSpc_cases hu hs with ⟨-, rfl⟩ | ⟨hd, ha⟩
    · exact ⟨h, rfl⟩
    · refine ⟨h.directoryAdded (hl hd) ha, ?_⟩
      have := ha.rest
      simp only [Paging.rest, Prod.mk.injEq] at this
      exact this.2.2.2
  | postProcess d => exact absurd hc not_false
  | loadMapping object pa la length flags pageTables =>
    obtain ⟨s', ok, hs⟩ := ckSetPageMapping_returns hu (m.addrSpc object) la pa length flags
      pageTables
    by_cases hsig : m.signature object = .SIGADDRSPC
    · refine ⟨m.setPaging s', ?_, ?_⟩
      · rw [vmStep, VM.ckLoadMapping, if_pos hsig, hs]
        rfl
      rcases ckSetPageMapping_cases hu hs with ⟨-, rfl⟩ | ⟨-, s₁, ht, hw⟩
      · exact ⟨h, rfl⟩
      · obtain rfl := ht.same (hc hsig)
        exact ⟨h.walked hw.walked hw.usage, (rest_inj hw.walked.rest).2.2.2⟩
    · refine ⟨m, ?_, h, rfl⟩
      rw [vmStep, VM.ckLoadMapping, if_neg hsig]
      rfl
  | unloadMapping object la length =>
    obtain ⟨m', hs, hbare, hrest⟩ := unloadMapping_bare h hl la length
    exact ⟨m', hs, hbare, (rest_inj hrest).2.2.2⟩
  | shMemInvite object thread =>
    refine ⟨_, rfl, ?_⟩
    rw [shMemInvite_paging]
    exact ⟨h, rfl⟩
  | shMemSetRange object logicalAddr size =>
    refine ⟨_, rfl, ?_⟩
    rw [shMemSetRange_paging]
    exact ⟨h, rfl⟩
  | shMemAttach object la size pageTables =>
    rcases shMemAttach_eq m object la size pageTables with ⟨-, m', hs, hp⟩ | ⟨hatt, f, hf, hs⟩
    · exact ⟨m', hs, hp ▸ h, by rw [hp]⟩
    · obtain ⟨s', ok, hcopy⟩ := ckCopySharedPageMapping_returns hu
        (m.addrSpc (m.addressSpace (m.shMem object).owner)) (m.shMem object).logicalAddr
        m.directory la (VM.attachSize (m.shMem object) size) pageTables
      refine ⟨f (s', ok), by rw [hs, hcopy, Option.map_some], ?_⟩
      rw [hf]
      rcases ckCopySharedPageMapping_cases hu hcopy with ⟨-, rfl⟩ | ⟨-, s₁, ht, hw, hsame⟩
      · exact ⟨h, rfl⟩
      · obtain rfl := ht.same (hc hatt)
        exact ⟨h.walked hw hsame, (rest_inj hw.rest).2.2.2⟩
  | shMemDetach object =>
    obtain ⟨m', hs, hbare, hrest⟩ := shMemDetach_bare h hl object
    exact ⟨m', hs, hbare, (rest_inj hrest).2.2.2⟩
  | objects signature addrSpc addressSpace shMem currtask => exact ⟨_, rfl, h, rfl⟩

/-- **One call** that adds tables, or destroys an address space. -/
theorem not_accounts {op : VMOp} (h : m.paging.Bare) (hl : op.Legal m)
    (hc : ¬ op.LeavesTables m) : ¬ m.AccountsTables op := by
  have hu := h.separate.unlocked
  rintro ⟨m', hs, hcounted, -⟩
  cases op with
  | postProcess d =>
    rw [vmStep, ckPostProcessAddrSpc_eq] at hs
    exact absurd hs (by simp)
  | loadMapping object pa la length flags pageTables =>
    obtain ⟨hsig, hmiss⟩ := Classical.not_imp.mp hc
    obtain ⟨hm, ht⟩ := not_or.mp hmiss
    rw [vmStep, VM.ckLoadMapping, if_pos hsig, Option.map_map] at hs
    obtain ⟨⟨s', ok⟩, hmap, rfl⟩ := Option.map_eq_some_iff.mp hs
    rcases ckSetPageMapping_cases hu hmap with ⟨rfl, -⟩ | ⟨-, s₁, htab, hw⟩
    · obtain ⟨⟨s₁, ok⟩, hadd, hrest⟩ := Option.bind_eq_some_iff.mp hmap
      obtain rfl := addTables_ok hu ht hadd
      obtain ⟨r, -, hr⟩ := Option.bind_eq_some_iff.mp hrest
      exact Bool.noConfusion (Prod.mk.inj (Option.some.inj hr)).2
    · exact (htab.added hm).not_counted h (hl.1 hsig) hm hw.usage hw.walked.rest hcounted
  | shMemAttach object la size pageTables =>
    obtain ⟨hatt, hmiss⟩ := Classical.not_imp.mp hc
    obtain ⟨hm, ht⟩ := not_or.mp hmiss
    rcases shMemAttach_eq m object la size pageTables with ⟨hnot, -⟩ | ⟨-, f, hf, heq⟩
    · exact hnot hatt
    rw [heq] at hs
    obtain ⟨⟨s', ok⟩, hcopy, rfl⟩ := Option.map_eq_some_iff.mp hs
    rw [hf] at hcounted
    rcases ckCopySharedPageMapping_cases hu hcopy with ⟨rfl, -⟩ | ⟨-, s₁, htab, hw, hsame⟩
    · obtain ⟨⟨s₁, ok⟩, hadd, hrest⟩ := Option.bind_eq_some_iff.mp hcopy
      obtain rfl := addTables_ok hu ht hadd
      obtain ⟨r, -, hr⟩ := Option.bind_eq_some_iff.mp hrest
      exact Bool.noConfusion (Prod.mk.inj (Option.some.inj hr)).2
    · exact (htab.added hm).not_counted h (hl.1 hatt.2.2.2.1.2) hm hsame hw.rest hcounted
  | preProcess | unloadMapping | shMemInvite | shMemSetRange | shMemDetach | objects =>
    exact hc trivial

theorem accounts_iff {op : VMOp} (h : m.paging.Bare) (hl : op.Legal m) :
    m.AccountsTables op ↔ op.LeavesTables m := by
  constructor
  · intro hacc
    by_contra hc
    exact not_accounts h hl hc hacc
  · intro hc
    obtain ⟨m', hs, hbare, halloc⟩ := vmStep_bare h hl hc
    refine ⟨m', hs, hbare.counted, fun p hp => ?_⟩
    rw [halloc, hp]
    constructor
    · exact fun hfree => absurd hfree nofun
    · rintro ⟨d, k, ho, -⟩
      exact absurd ho (h.no_own d k)

end

/-! ## Every run -/

/-- **In every run that leaves the tables** the counts agree, and the next call keeps the account
if it leaves them too. -/
theorem table_accounting_run {m m' : VM} {ops : List VMOp} (h : m.paging.AtBoot)
    (hr : Run vmStep (fun m op => op.Legal m ∧ op.LeavesTables m) m ops m') :
    m'.paging.Counted ∧ ∀ op : VMOp, op.Legal m' → (m'.AccountsTables op ↔ op.LeavesTables m') := by
  have hbare : m'.paging.Bare := hr.invariant (I := fun m => m.paging.Bare)
    (fun h hC hs => by
      obtain ⟨m₂, hs₂, hbare, -⟩ := vmStep_bare h hC.1 hC.2
      obtain rfl := Option.some.inj (hs₂.symm.trans hs)
      exact hbare) h.bare
  exact ⟨hbare.counted, fun op hl => accounts_iff hbare hl⟩

/-- There is no memory for the table of a mapping, and the page is unmapped all the same. -/
theorem table_accounting_run_small : ∃ m, Run vmStep
      (fun m op => op.Legal m ∧ op.LeavesTables m) vmAtBoot (newSpace ++
        [.loadMapping 40 0x800000#32 0x400000#32 0x1000#32 2#32 0#32,
          .unloadMapping 40 0x400000#32 0x1000#32]) m ∧
    m.paging.Counted ∧ ¬ m.AccountsTables (loadRange 0x400000#32 0x1000#32) := by
  obtain ⟨m, hr, hp⟩ := Run.of_exec_any
    (show (exec vmStep (fun m op => op.Legal m ∧ op.LeavesTables m) vmAtBoot (newSpace ++
        [.loadMapping 40 0x800000#32 0x400000#32 0x1000#32 2#32 0#32,
          .unloadMapping 40 0x400000#32 0x1000#32])).any
      (fun m => decide ((loadRange 0x400000#32 0x1000#32).Legal m ∧
        ¬ (loadRange 0x400000#32 0x1000#32).LeavesTables m)) = true by decide +kernel)
  obtain ⟨hl, hc⟩ := of_decide_eq_true hp
  obtain ⟨hcounted, hnext⟩ := table_accounting_run vmAtBoot_atBoot hr
  exact ⟨m, hr, hcounted, fun hacc => hc ((hnext _ hl).mp hacc)⟩

/-- A page is mapped, and the entry of the end with it. The count of their table stays 0. -/
theorem table_not_counted : ∃ m, Run vmStep VMOp.Legal vmAtBoot
      (newSpace ++ [loadRange 0x400000#32 0x1000#32]) m ∧ ¬ m.paging.Counted := by
  obtain ⟨m, hr, hp⟩ := Run.of_exec_any
    (show (exec vmStep VMOp.Legal vmAtBoot (newSpace ++ [loadRange 0x400000#32 0x1000#32])).any
      (fun m => decide ((m.paging.live 100 = true ∧ Present (m.paging.addrSpc 100 1)) ∧
        (m.paging.usage 100 1).toNat = 0 ∧ m.paging.pagesIn (m.paging.tableOf 100 1) = 2)) =
      true by decide +kernel)
  obtain ⟨⟨hl, hpresent⟩, hcount, hpages⟩ := of_decide_eq_true hp
  refine ⟨m, hr, fun hcounted => ?_⟩
  have hsame := hcounted.own 100 1 ⟨hl, by decide, hpresent, fun hc => absurd hc.1 (by decide)⟩
  omega

end Alliance.CK
