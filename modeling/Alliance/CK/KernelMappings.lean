import Alliance.CK.PagingTables

/-!
# The Cache Kernel's mappings under the calls on user ranges

What a call on mappings leaves is said once for each call (`loadMapping_cases` and the like);
the tables stay apart in every run (`vmStep_separate`). A call whose positions are all in
slots below 0xc0000000 leaves the Cache Kernel's tables alone. Two of the loops go up to the
entry of the end of their range: a range that ends at 0xc0000000 itself has its end in the
first entry of the Cache Kernel's first table (`loadMapping_hits_kernel`).
-/

namespace Alliance.CK

open Function Lib

namespace Paging

/-- There is no memory for the tables that a mapping of the range needs. -/
def NoTables (s : Paging) (d : Addr) (pdeStart pdeEnd pageTables : UADDR) : Prop :=
  s.missing d pdeStart pdeEnd ≠ [] ∧ pageTables = 0#32

instance (s : Paging) (d : Addr) (a b t : UADDR) : Decidable (s.NoTables d a b t) :=
  inferInstanceAs (Decidable (_ ∧ _))

/-- The pages that the allocator gives out for the range hold no table. -/
def GivesOut (s : Paging) (d : Addr) (pdeStart pdeEnd pageTables : UADDR) : Prop :=
  pageTables ≠ 0#32 → s.Fresh pageTables (s.missing d pdeStart pdeEnd).length

instance (s : Paging) (d : Addr) (a b t : UADDR) : Decidable (s.GivesOut d a b t) :=
  inferInstanceAs (Decidable (_ → _))

theorem TablesFor.live {s s' : Paging} {d : Addr} {a b t : UADDR} (h : TablesFor s d a b t s') :
    s'.live = s.live := by
  rcases h with ⟨rfl, -⟩ | ⟨-, -, ha⟩
  · rfl
  · exact ha.congr_rest.2.2.1

theorem TablesFor.not_noTables {s s' : Paging} {d : Addr} {a b t : UADDR}
    (h : TablesFor s d a b t s') : ¬ s.NoTables d a b t := by
  rcases h with ⟨-, hm⟩ | ⟨-, ht, -⟩
  · exact fun hn => hn.1 hm
  · exact fun hn => ht hn.2

end Paging

open Paging

namespace VM

variable {m : VM} {object : Addr}

/-- The directory of an address space object is set up. -/
def SpaceLive (m : VM) (object : Addr) : Prop :=
  m.signature object = .SIGADDRSPC → m.paging.live (m.addrSpc object) = true

instance (m : VM) (object : Addr) : Decidable (m.SpaceLive object) :=
  inferInstanceAs (Decidable (_ → _))

/-- The address space of the running thread. -/
abbrev aspace (m : VM) : Addr := m.addressSpace m.currtask

/-- The directory of the running thread. -/
abbrev directory (m : VM) : Addr := m.addrSpc m.aspace

end VM

/-- What the objects and the allocator owe a call. -/
def VMOp.Legal (m : VM) : VMOp → Prop
  | .preProcess d => d ≠ NIL → m.paging.live d = false
  | .loadMapping object _ la length _ pageTables => m.SpaceLive object ∧
    m.paging.GivesOut (m.addrSpc object) la (la + length) pageTables
  | .unloadMapping object _ _ => m.SpaceLive object
  | .shMemAttach object la size pageTables => m.SpaceLive m.aspace ∧
    m.paging.GivesOut m.directory la (la + VM.attachSize (m.shMem object) size) pageTables
  | .shMemDetach _ => m.SpaceLive m.aspace
  | _ => True

instance VMOp.decidableLegal (m : VM) : (op : VMOp) → Decidable (op.Legal m)
  | .preProcess _ => inferInstanceAs (Decidable (_ → _ = false))
  | .loadMapping .. | .shMemAttach .. => inferInstanceAs (Decidable (_ ∧ _))
  | .unloadMapping .. | .shMemDetach _ => inferInstanceAs (Decidable (VM.SpaceLive _ _))
  | .postProcess _ | .shMemInvite .. | .shMemSetRange .. | .objects .. =>
    inferInstanceAs (Decidable True)

/-! ## What each call leaves -/

section

variable {m m' : VM} {object : Addr} {la length pageTables : UADDR}

/-- **`CKloadMapping`**: nothing is mapped, or every entry up to that of the end is. -/
theorem loadMapping_cases {pa flags : UADDR} (hu : m.paging.CKFreeListLock = false)
    (h : vmStep m (.loadMapping object pa la length flags pageTables) = some m') :
    m'.paging = m.paging ∨ (m.signature object = .SIGADDRSPC ∧ ∃ s₁,
      TablesFor m.paging (m.addrSpc object) la (la + length) pageTables s₁ ∧
      Mapped s₁ (m.addrSpc object) (positions la (la + length) (entryOf (la + length) + 1))
        m'.paging) := by
  obtain ⟨r, hr, rfl⟩ := Option.map_eq_some_iff.mp h
  rw [VM.ckLoadMapping] at hr
  split at hr
  · next hsig =>
    obtain ⟨⟨s', ok⟩, hs, rfl⟩ := Option.map_eq_some_iff.mp hr
    rcases ckSetPageMapping_cases hu hs with ⟨-, rfl⟩ | ⟨-, s₁, ht, hw⟩
    · exact .inl rfl
    · exact .inr ⟨hsig, s₁, ht, hw⟩
  · obtain rfl := Option.some.inj hr
    exact .inl rfl

/-- **`CKunloadMapping`** unmaps the page at the start with the length as the data. -/
theorem unloadMapping_cases (h : vmStep m (.unloadMapping object la length) = some m') :
    m'.paging = m.paging ∨ (m.signature object = .SIGADDRSPC ∧
      m.paging.ckMarkPageNotPresent (m.addrSpc object) la 0#32 length = some m'.paging) := by
  obtain ⟨r, hr, rfl⟩ := Option.map_eq_some_iff.mp h
  rw [VM.ckUnloadMapping] at hr
  split at hr
  · next hsig =>
    obtain ⟨s', hs, rfl⟩ := Option.map_eq_some_iff.mp hr
    exact .inr ⟨hsig, hs⟩
  · obtain rfl := Option.some.inj hr
    exact .inl rfl

/-- **`CKshMemAttach`** copies the owner's entries below that of the end. -/
theorem shMemAttach_cases {size : UADDR}
    (h : vmStep m (.shMemAttach object la size pageTables) = some m') :
    m'.paging = m.paging ∨ (m.signature object = .SIGSHMEM ∧
      m.signature m.aspace = .SIGADDRSPC ∧ ∃ ok, m.paging.ckCopySharedPageMapping
        (m.addrSpc (m.addressSpace (m.shMem object).owner)) (m.shMem object).logicalAddr m.directory la (VM.attachSize (m.shMem object) size)
        pageTables = some (m'.paging, ok)) := by
  obtain ⟨r, hr, rfl⟩ := Option.map_eq_some_iff.mp h
  rw [VM.ckShMemAttach] at hr
  split at hr
  · obtain rfl := Option.some.inj hr
    exact .inl rfl
  next hshm =>
  split at hr
  · obtain rfl := Option.some.inj hr
    exact .inl rfl
  split at hr
  · obtain rfl := Option.some.inj hr
    exact .inl rfl
  split at hr
  · obtain rfl := Option.some.inj hr
    exact .inl rfl
  next hsig =>
  split at hr
  · obtain rfl := Option.some.inj hr
    exact .inl rfl
  split at hr
  · obtain rfl := Option.some.inj hr
    exact .inl rfl
  obtain ⟨⟨s', ok⟩, hs, rfl⟩ := Option.map_eq_some_iff.mp hr
  refine .inr ⟨of_not_not hshm, of_not_not fun hne => hsig (.inr hne), ok, ?_⟩
  cases ok with
  | true => exact hs
  | false => exact hs

/-- **`CKshMemDetach`** unmaps the range that the running thread attached. -/
theorem shMemDetach_cases (h : vmStep m (.shMemDetach object) = some m') :
    m'.paging = m.paging ∨ (m.signature object = .SIGSHMEM ∧
      m.signature m.aspace = .SIGADDRSPC ∧ ∃ stl,
      VM.fetchThread (m.shMem object).threads m.currtask = some stl ∧
      m.paging.ckMarkPageNotPresent m.directory stl.logicalAddr stl.size 0#32 =
        some m'.paging) := by
  obtain ⟨r, hr, rfl⟩ := Option.map_eq_some_iff.mp h
  rw [VM.ckShMemDetach] at hr
  split at hr
  · obtain rfl := Option.some.inj hr
    exact .inl rfl
  next hshm =>
  split at hr
  · obtain rfl := Option.some.inj hr
    exact .inl rfl
  split at hr
  · obtain rfl := Option.some.inj hr
    exact .inl rfl
  next hsig =>
  split at hr
  · obtain rfl := Option.some.inj hr
    exact .inl rfl
  next stl hstl =>
  obtain ⟨s', hs, rfl⟩ := Option.map_eq_some_iff.mp hr
  exact .inr ⟨of_not_not hshm, of_not_not fun hne => hsig (.inr hne), stl, hstl, hs⟩

theorem preProcess_cases {d : Addr} (hu : m.paging.CKFreeListLock = false)
    (h : vmStep m (.preProcess d) = some m') :
    m'.paging = m.paging ∨ (d ≠ NIL ∧ DirectoryAdded m.paging d m'.paging) := by
  obtain ⟨⟨s', e⟩, hs, rfl⟩ := Option.map_eq_some_iff.mp h
  rcases ckPreProcessAddrSpc_cases hu hs with ⟨-, rfl⟩ | ha
  · exact .inl rfl
  · exact .inr ha

/-- Every table has the count of its pages; the free of the directory itself waits for the
lock that it holds. -/
theorem ckPostProcessAddrSpc_eq (s : Paging) (d : Addr) : s.ckPostProcessAddrSpc d = none := by
  unfold ckPostProcessAddrSpc
  simp only [ckMemFreePages_eq]
  exact Option.bind_eq_none_iff.mpr fun _ _ => rfl

theorem shMemInvite_paging (object thread : Addr) :
    (m.ckShMemInvite object thread).1.paging = m.paging := by
  unfold VM.ckShMemInvite
  dsimp only
  split
  · rfl
  · split <;> rfl

theorem shMemSetRange_paging (object : Addr) (logicalAddr size : UADDR) :
    (m.ckShMemSetRange object logicalAddr size).1.paging = m.paging := by
  unfold VM.ckShMemSetRange
  dsimp only
  split
  · rfl
  · split
    · rfl
    · split <;> rfl

end

/-! ## The tables stay apart -/

/-- **One call** keeps the tables apart. -/
theorem vmStep_separate {m m' : VM} {op : VMOp} (h : m.paging.Separate) (hl : op.Legal m)
    (hs : vmStep m op = some m') : m'.paging.Separate := by
  cases op with
  | preProcess d =>
    rcases preProcess_cases h.unlocked hs with he | ⟨hd, ha⟩
    · exact he ▸ h
    · exact h.directoryAdded (hl hd) ha
  | postProcess d =>
    rw [vmStep, ckPostProcessAddrSpc_eq] at hs
    exact absurd hs (by simp)
  | loadMapping object pa la length flags pageTables =>
    rcases loadMapping_cases h.unlocked hs with he | ⟨hsig, s₁, ht, hw⟩
    · exact he ▸ h
    · exact (h.tablesFor (hl.1 hsig) ht hl.2).walked hw.walked
  | unloadMapping object la length =>
    rcases unloadMapping_cases hs with he | ⟨-, hm⟩
    · exact he ▸ h
    · exact h.walked (ckMarkPageNotPresent_walked hm)
  | shMemInvite object thread =>
    obtain rfl := Option.some.inj hs
    rwa [shMemInvite_paging]
  | shMemSetRange object logicalAddr size =>
    obtain rfl := Option.some.inj hs
    rwa [shMemSetRange_paging]
  | shMemAttach object la size pageTables =>
    rcases shMemAttach_cases hs with he | ⟨-, hsig, ok, hc⟩
    · exact he ▸ h
    · rcases ckCopySharedPageMapping_cases h.unlocked hc with ⟨-, he⟩ | ⟨-, s₁, ht, hw, -⟩
      · exact he ▸ h
      · exact (h.tablesFor (hl.1 hsig) ht hl.2).walked hw
  | shMemDetach object =>
    rcases shMemDetach_cases hs with he | ⟨-, -, stl, -, hm⟩
    · exact he ▸ h
    · exact h.walked (ckMarkPageNotPresent_walked hm)
  | objects signature addrSpc addressSpace shMem currtask =>
    obtain rfl := Option.some.inj hs
    exact h

/-! ## The state at boot -/

/-- No address space is set up, and the Cache Kernel's tables are all there is. -/
structure Paging.AtBoot (s : Paging) : Prop where
  unlocked : s.CKFreeListLock = false
  kernel : s.KernelTables
  no_space : ∀ d, s.live d = false
  allocated : ∀ p, s.allocated p = true → ∃ k, s.CKTable k ∧ physAddr (s.kernelDir k) = p

theorem Paging.AtBoot.not_own {s : Paging} (h : s.AtBoot) (d : Addr) (k : Nat) :
    ¬ s.Own d k := fun ho => absurd ((h.no_space d).symm.trans ho.1) (by simp)

theorem Paging.AtBoot.separate {s : Paging} (h : s.AtBoot) : s.Separate where
  unlocked := h.unlocked
  kernel := h.kernel
  shared d _ hl _ := absurd ((h.no_space d).symm.trans hl) (by simp)
  absent d _ hl _ _ := absurd ((h.no_space d).symm.trans hl) (by simp)
  own_ne d k ho := absurd ho (h.not_own d k)
  own_allocated d k ho := absurd ho (h.not_own d k)
  own_kernel d k _ ho _ := absurd ho (h.not_own d k)
  own_inj d k _ _ ho _ _ := absurd ho (h.not_own d k)

/-- One table for the Cache Kernel, in page 2. -/
def vmAtBoot : VM where
  paging :=
    { addrSpc := fun _ _ => 0#32
      page := fun _ _ => 0#32
      kernelDir := fun k => if k = CKSLOT then pageTableEntry 2#32 7#32 else 0#32
      CKFreeListLock := false
      live := fun _ => false
      allocated := fun p => p = 2#32 }
  signature := fun _ => .SIGTHREAD
  addrSpc := fun _ => NIL
  addressSpace := fun _ => NIL
  shMem := fun _ => ⟨NIL, false, 0#32, 0#32, [], []⟩
  currtask := NIL

theorem vmAtBoot_atBoot : vmAtBoot.paging.AtBoot := by
  have hck : ∀ k, vmAtBoot.paging.CKTable k → k = CKSLOT := fun k hk => by
    by_contra hne
    exact not_present_zero ((if_neg hne : vmAtBoot.paging.kernelDir k = 0#32) ▸ hk.2.2)
  have hslot : vmAtBoot.paging.CKTable CKSLOT :=
    ⟨by decide, by decide, by decide⟩
  refine ⟨rfl, ⟨?_, ?_, ?_, ?_⟩, fun _ => rfl, fun p hp => ⟨CKSLOT, hslot, ?_⟩⟩
  · rintro k hk
    rw [hck k hk]
    decide
  · intro k hk
    rw [hck k hk]
    decide
  · intro k k' hk hk' _
    rw [hck k hk, hck k' hk']
  · intro k _ _ hp
    have hne : k ≠ CKSLOT := fun he => hp (he ▸ hslot.2.2)
    rw [show vmAtBoot.paging.kernelDir k = 0#32 from if_neg hne]
    rfl
  · exact (of_decide_eq_true hp).symm ▸ rfl

/-- An address space object at 40 gets the directory 100. -/
def newSpace : List VMOp :=
  [.preProcess 100, .objects (fun o => if o = 40 then .SIGADDRSPC else .SIGTHREAD) (fun _ => 100)
    (fun _ => NIL) (fun _ => ⟨NIL, false, 0#32, 0#32, [], []⟩) NIL]

/-- Map the range from `la` on to the physical pages from `0x800000` on; page 16 and those
behind it are given out for tables. -/
def loadRange (la length : UADDR) : VMOp :=
  .loadMapping 40 0x800000#32 la length 2#32 (linear (16#32 <<< 12))

/-! ## The Cache Kernel's tables -/

/-- The Cache Kernel's directory and its tables are what they were. -/
structure KernelUnchanged (s s' : Paging) : Prop where
  dir : s'.kernelDir = s.kernelDir
  page : ∀ k, s.CKTable k → s'.page (physAddr (s.kernelDir k)) = s.page (physAddr (s.kernelDir k))

namespace KernelUnchanged

variable {s s' s'' : Paging} {d : Addr}

theorem refl (s : Paging) : KernelUnchanged s s := ⟨rfl, fun _ _ => rfl⟩

theorem trans (h : KernelUnchanged s s') (h' : KernelUnchanged s' s'') : KernelUnchanged s s'' where
  dir := h'.dir.trans h.dir
  page k hc := by
    have hp := h'.page k ((ckTable_congr h.dir k).mpr hc)
    rw [h.dir] at hp
    exact hp.trans (h.page k hc)

/-- A walk through slots below 0xc0000000. -/
theorem walked {ps : List (Nat × Nat)} (h : s.Separate) (hd : s.live d = true)
    (hw : Walked s d ps s') (hps : ∀ p ∈ ps, p.1 < CKSLOT) : KernelUnchanged s s' where
  dir := (rest_inj hw.rest).1
  page _ hc := funext fun j => hw.page _ j fun p hp _ => h.not_kernel hd (hps p hp) hc

/-- New tables are none of the Cache Kernel's. -/
theorem tablesFor {a b t : UADDR} (h : s.Separate) (ht : TablesFor s d a b t s')
    (hf : s.GivesOut d a b t) : KernelUnchanged s s' := by
  rcases ht with ⟨rfl, -⟩ | ⟨-, hne, ha⟩
  · exact .refl _
  · refine ⟨ha.congr_rest.1, fun k hc => ?_⟩
    rw [ha.page, if_neg fun hm => ?_]
    -- the Cache Kernel's tables are allocated already
    have hfree := ((hf hne).2 _ hm).2
    rw [h.kernel.allocated k hc] at hfree
    exact absurd hfree (by simp)

end KernelUnchanged

/-- A walk that ends below 0xc0000000, or stops before its end there. -/
theorem positions_below {la length : UADDR} {last : Nat} {p : Nat × Nat}
    (hp : p ∈ positions la (la + length) last)
    (hend : la.toNat + length.toNat < 0xc0000000 ∨
      la.toNat + length.toNat = 0xc0000000 ∧ last = 0) : p.1 < CKSLOT := by
  have hsum : (la + length).toNat = la.toNat + length.toNat := by
    rw [BitVec.toNat_add]
    omega
  have hp := mem_positions.mp hp
  rw [slotOf_eq, slotOf_eq, hsum] at hp
  show p.1 < 768
  omega

/-- A page-aligned range that ends at or below 0xc0000000. -/
def UserRange (la length : UADDR) : Prop :=
  la.toNat % 4096 = 0 ∧ length.toNat % 4096 = 0 ∧ la.toNat + length.toNat ≤ 0xc0000000

/-- The call names a user range; a detach has that of its attach. -/
def VMOp.OnUserRange (m : VM) : VMOp → Prop
  | .loadMapping _ _ la length _ _ => UserRange la length
  | .unloadMapping _ la length => UserRange la length
  | .shMemAttach _ la size _ => UserRange la size
  | .shMemDetach object => ∀ stl ∈ VM.fetchThread (m.shMem object).threads m.currtask,
    UserRange stl.logicalAddr stl.size
  | _ => True

/-- Where the loop of the call goes up to the entry of the end, the end is below 0xc0000000;
where it stops before it, the range that is attached ends there at the latest. -/
def VMOp.StopsBelow (m : VM) : VMOp → Prop
  | .loadMapping object _ la length _ pageTables => m.signature object = .SIGADDRSPC →
    m.paging.NoTables (m.addrSpc object) la (la + length) pageTables ∨
      la.toNat + length.toNat < 0xc0000000
  | .unloadMapping object la _ => m.signature object = .SIGADDRSPC → la.toNat < 0xc0000000
  | .shMemAttach object la size _ => m.signature object = .SIGSHMEM →
    la.toNat + (VM.attachSize (m.shMem object) size).toNat ≤ 0xc0000000
  | .shMemDetach object => m.signature object = .SIGSHMEM →
    ∀ stl ∈ VM.fetchThread (m.shMem object).threads m.currtask,
      stl.logicalAddr.toNat + stl.size.toNat < 0xc0000000
  | _ => True

instance (la length : UADDR) : Decidable (UserRange la length) :=
  inferInstanceAs (Decidable (_ ∧ _))

instance (m : VM) : (op : VMOp) → Decidable (op.OnUserRange m)
  | .loadMapping .. | .unloadMapping .. | .shMemAttach .. =>
    inferInstanceAs (Decidable (UserRange _ _))
  | .shMemDetach object => inferInstanceAs (Decidable (∀ stl ∈ VM.fetchThread
    (m.shMem object).threads m.currtask, UserRange stl.logicalAddr stl.size))
  | .preProcess _ | .postProcess _ | .shMemInvite .. | .shMemSetRange .. | .objects .. =>
    inferInstanceAs (Decidable True)

instance (m : VM) : (op : VMOp) → Decidable (op.StopsBelow m)
  | .loadMapping .. => inferInstanceAs (Decidable (_ → _ ∨ _))
  | .unloadMapping .. => inferInstanceAs (Decidable (_ → _ < _))
  | .shMemAttach .. => inferInstanceAs (Decidable (_ → _ ≤ _))
  | .shMemDetach object => inferInstanceAs (Decidable (_ → ∀ stl ∈ VM.fetchThread
    (m.shMem object).threads m.currtask, stl.logicalAddr.toNat + stl.size.toNat < 0xc0000000))
  | .preProcess _ | .postProcess _ | .shMemInvite .. | .shMemSetRange .. | .objects .. =>
    inferInstanceAs (Decidable True)

/-- **One call** whose range stops below leaves the Cache Kernel's tables alone. -/
theorem vmStep_kernelUnchanged {m m' : VM} {op : VMOp} (h : m.paging.Separate)
    (hl : op.Legal m) (hc : op.StopsBelow m) (hs : vmStep m op = some m') :
    KernelUnchanged m.paging m'.paging := by
  cases op with
  | preProcess d =>
    rcases preProcess_cases h.unlocked hs with he | ⟨-, ha⟩
    · exact he ▸ .refl _
    · refine ⟨?_, fun k _ => by rw [ha.page]⟩
      have := ha.rest
      simp only [rest, Prod.mk.injEq] at this
      exact this.1
  | postProcess d =>
    rw [vmStep, ckPostProcessAddrSpc_eq] at hs
    exact absurd hs (by simp)
  | loadMapping object pa la length flags pageTables =>
    rcases loadMapping_cases h.unlocked hs with he | ⟨hsig, s₁, ht, hw⟩
    · exact he ▸ .refl _
    · have hend := (hc hsig).resolve_left ht.not_noTables
      have hd := hl.1 hsig
      have h₁ := h.tablesFor hd ht hl.2
      refine (KernelUnchanged.tablesFor h ht hl.2).trans (.walked h₁ ?_ hw.walked fun p hp =>
        positions_below hp (.inl hend))
      exact ht.live ▸ hd
  | unloadMapping object la length =>
    rcases unloadMapping_cases hs with he | ⟨hsig, hm⟩
    · exact he ▸ .refl _
    · exact .walked h (hl hsig) (ckMarkPageNotPresent_walked hm) fun p hp =>
        positions_below hp (.inl (by simpa using hc hsig))
  | shMemInvite object thread =>
    obtain rfl := Option.some.inj hs
    rw [shMemInvite_paging]
    exact .refl _
  | shMemSetRange object logicalAddr size =>
    obtain rfl := Option.some.inj hs
    rw [shMemSetRange_paging]
    exact .refl _
  | shMemAttach object la size pageTables =>
    rcases shMemAttach_cases hs with he | ⟨hshm, hsig, ok, hcopy⟩
    · exact he ▸ .refl _
    · have hend := hc hshm
      have hd := hl.1 hsig
      rcases ckCopySharedPageMapping_cases h.unlocked hcopy with ⟨-, he⟩ | ⟨-, s₁, ht, hw, -⟩
      · exact he ▸ .refl _
      · have h₁ := h.tablesFor hd ht hl.2
        refine (KernelUnchanged.tablesFor h ht hl.2).trans (.walked h₁ (ht.live ▸ hd) hw
          fun p hp => positions_below hp ?_)
        -- an end at 0xc0000000 is the first entry of its table, which the loop stops before
        rcases Nat.lt_or_eq_of_le hend with hlt | heq
        · exact .inl hlt
        · refine .inr ⟨heq, ?_⟩
          rw [entryOf_eq, BitVec.toNat_add, heq]
          rfl
  | shMemDetach object =>
    rcases shMemDetach_cases hs with he | ⟨hshm, hsig, stl, hstl, hm⟩
    · exact he ▸ .refl _
    · exact .walked h (hl hsig) (ckMarkPageNotPresent_walked hm) fun p hp =>
        positions_below hp (.inl (hc hshm stl hstl))
  | objects signature addrSpc addressSpace shMem currtask =>
    obtain rfl := Option.some.inj hs
    exact .refl _

/-- **Every run** whose ranges stop below 0xc0000000 leaves the Cache Kernel's mappings as they
were, in every address space. -/
theorem kernel_mappings_run {m m' : VM} {ops : List VMOp} (h : m.paging.Separate)
    (hr : Run vmStep (fun m op => op.Legal m ∧ op.StopsBelow m) m ops m') :
    KernelUnchanged m.paging m'.paging ∧ ∀ d k, m'.paging.live d = true → m.paging.CKTable k →
      m'.paging.addrSpc d k = m.paging.kernelDir k := by
  have hunch : KernelUnchanged m.paging m'.paging :=
    hr.relates (I := fun m => m.paging.Separate)
      (R := fun m _ m' => KernelUnchanged m.paging m'.paging)
      (fun h hC hs => vmStep_separate h hC.1 hs) (fun _ _ => .refl _)
      (fun h hC hs hR => (vmStep_kernelUnchanged h hC.1 hC.2 hs).trans hR) h
  have hsep : m'.paging.Separate := hr.invariant (I := fun m => m.paging.Separate)
    (fun h hC hs => vmStep_separate h hC.1 hs) h
  refine ⟨hunch, fun d k hd hk => ?_⟩
  rw [← hunch.dir]
  exact hsep.shared d k hd ((ckTable_congr hunch.dir k).mpr hk)

/-- The page at 0x400000 is mapped. -/
theorem kernel_mappings_run_load : ∃ m, Run vmStep (fun m op => op.Legal m ∧ op.StopsBelow m)
      vmAtBoot (newSpace ++ [loadRange 0x400000#32 0x1000#32]) m ∧
    Present (m.paging.page 16#32 0) ∧ m.paging.page 2#32 = vmAtBoot.paging.page 2#32 := by
  obtain ⟨m, hr, hp⟩ := Run.of_exec_any
    (show (exec vmStep (fun m op => op.Legal m ∧ op.StopsBelow m) vmAtBoot
      (newSpace ++ [loadRange 0x400000#32 0x1000#32])).any
        (fun m => decide (Present (m.paging.page 16#32 0))) = true by decide +kernel)
  exact ⟨m, hr, of_decide_eq_true hp, (kernel_mappings_run vmAtBoot_atBoot.separate hr).1.page
    CKSLOT ⟨by decide, by decide, by decide⟩⟩

/-- A page that ends at 0xc0000000 is mapped, and the first entry of the Cache Kernel's table
with it. -/
theorem loadMapping_hits_kernel : ∃ m, Run vmStep (fun m op => op.Legal m ∧ op.OnUserRange m)
      vmAtBoot (newSpace ++ [loadRange 0xbffff000#32 0x1000#32]) m ∧
    physAddr (vmAtBoot.paging.kernelDir CKSLOT) = 2#32 ∧ vmAtBoot.paging.page 2#32 0 = 0#32 ∧
    m.paging.page 2#32 0 = 0x801007#32 ∧ ¬ KernelUnchanged vmAtBoot.paging m.paging := by
  obtain ⟨m, hr, hp⟩ := Run.of_exec_any
    (show (exec vmStep (fun m op => op.Legal m ∧ op.OnUserRange m) vmAtBoot
      (newSpace ++ [loadRange 0xbffff000#32 0x1000#32])).any
        (fun m => decide (m.paging.page 2#32 0 = 0x801007#32)) = true by decide +kernel)
  have hp := of_decide_eq_true hp
  refine ⟨m, hr, by decide, rfl, hp, fun h => ?_⟩
  have hsame := congrFun (h.page CKSLOT ⟨by decide, by decide, by decide⟩) 0
  exact absurd (hp.symm.trans hsame) (by decide)

end Alliance.CK
