import Alliance.CK.PageUnmapping

/-!
# What `CKunloadMapping` undoes

`CKmarkPageNotPresent` takes the length of a range and a word of the user's, in this order.
`CKunloadMapping` passes 0 and its length. So it unmaps an empty range, which is the page at the
start, and leaves the length in its entry. The pages behind the first stay as they were
(`unload_undoes_iff`); right after a load of the same range they are all present, so that what is
undone is the load of one page (`unload_loaded_iff`).
-/

namespace Alliance.CK

open Function Lib Paging

variable {m m₀ m' : VM} {object : Addr} {a la pa length flags pageTables : UADDR} {p : Nat}

/-! ## One page -/

/-- An empty range is walked as the page at its start. -/
theorem pagesMarked_zero (a : UADDR) : pagesMarked a 0#32 = 1 := by
  have h := pageOf_eq a
  unfold pagesMarked pagesWalked
  rw [BitVec.add_zero]
  omega

theorem inPages_one : InPages a 1 p ↔ p = pageOf a := by
  unfold InPages
  omega

/-- The counts outlast one page if its slot does not have the count 1. -/
theorem outlasts_one (s : Paging) (d : Addr) (a : UADDR) :
    s.Outlasts d a 1 ↔ s.usage d (slotOf a) ≠ 1#32 := by
  have hslot : inSlot a 1 (slotOf a) = 1 := by
    rw [inSlot_succ, slotOf_pageOf]
    simp [inSlot]
  constructor
  · intro h hone
    have hcount := h _ (slotOf_lt a)
    rw [hslot, hone] at hcount
    exact absurd hcount (by decide)
  · intro hone k hk
    by_cases h0 : s.usage d k = 0#32
    · exact .inl h0
    have hpos : (s.usage d k).toNat ≠ 0 := fun hz => h0 (BitVec.eq_of_toNat_eq hz)
    by_cases hks : k = slotOf a
    · subst hks
      have hne : (s.usage d (slotOf a)).toNat ≠ 1 := fun hz => hone (BitVec.eq_of_toNat_eq hz)
      rw [hslot]
      omega
    · have hother : inSlot a 1 k = 0 := by
        rw [inSlot_succ, if_neg fun he => hks (by rw [slotOf_pageOf, ← he]; rfl)]
        rfl
      rw [hother]
      omega

/-- The user's word of a page that is not present leaves the flag clear. -/
theorem not_present_data (w : UADDR) : ¬ Present (w <<< 1) := by
  have h : w <<< 1 &&& PTPRESENT = 0#32 := by
    ext i hi
    rcases Nat.eq_zero_or_pos i with rfl | hpos
    · simp
    · simp [PTPRESENT, BitVec.getElem_one, Nat.ne_of_gt hpos]
  exact fun hne => hne h

/-! ## The call -/

namespace VM

/-- The entry of a page in the address space of an object. -/
abbrev pageEntry (m : VM) (object : Addr) (p : Nat) : UADDR := m.paging.entry (m.addrSpc object) p

/-- The call returns 0; then no page of the range is present, and the others are as they
were. -/
def UnloadUndoes (m : VM) (object : Addr) (la length : UADDR) : Prop :=
  ∃ m', m.ckUnloadMapping object la length = some (m', 0#32) ∧ ∀ p < 2 ^ 20,
    if InRange la length p then ¬ Present (m'.pageEntry object p)
    else m'.pageEntry object p = m.pageEntry object p

/-- The count of the first page's slot does not end with this page, and the pages behind it are
not present; an empty range has nothing at its start. -/
structure FirstPageOnly (m : VM) (object : Addr) (la length : UADDR) : Prop where
  count : m.paging.usage (m.addrSpc object) (slotOf la) ≠ 1#32
  behind : ∀ p < 2 ^ 20, InRange la length p → p ≠ pageOf la → ¬ Present (m.pageEntry object p)
  empty : length = 0#32 → m.pageEntry object (pageOf la) = 0#32

end VM

section

variable (h : m.paging.Separate) (hsig : m.signature object = .SIGADDRSPC)
  (hd : m.paging.live (m.addrSpc object) = true)

include h hsig hd in
/-- **What `CKunloadMapping` does**: it waits for its own lock, or the page at the start has the
length in its entry and the others are as they were. -/
theorem ckUnloadMapping_results (la length : UADDR) :
    m.paging.usage (m.addrSpc object) (slotOf la) = 1#32 ∧
        m.ckUnloadMapping object la length = none ∨
      m.paging.usage (m.addrSpc object) (slotOf la) ≠ 1#32 ∧
        ∃ m', m.ckUnloadMapping object la length = some (m', 0#32) ∧ ∀ p < 2 ^ 20,
          m'.pageEntry object p = if p = pageOf la ∧ m.paging.HasTable (m.addrSpc object) p
            then length <<< 1 else m.pageEntry object p := by
  have hresults := ckMarkPageNotPresent_results m.paging (m.addrSpc object) la 0#32 length
  rw [pagesMarked_zero, outlasts_one] at hresults
  unfold VM.ckUnloadMapping
  rw [if_pos hsig]
  rcases hresults with ⟨hcount, s', hs, hun⟩ | ⟨hcount, hs⟩
  · refine .inr ⟨hcount, m.setPaging s', by rw [hs, Option.map_some], fun p hp => ?_⟩
    have hpage := pageOf_lt la
    show s'.entry (m.addrSpc object) p = _
    by_cases htab : m.paging.HasTable (m.addrSpc object) p
    · rw [hun.entry_word h hd (by omega) hp htab]
      simp only [inPages_one, htab, and_true]
    · obtain ⟨hafter, hbefore⟩ := hun.entry_absent hp htab
      rw [if_neg fun hc => htab hc.2, hafter]
      exact hbefore.symm
  · exact .inl ⟨not_not.mp hcount, by rw [hs, Option.map_none]⟩

include h hsig hd in
/-- **When an unload undoes the loads of its range**: the count of the first page's slot does not
end with it, and no other page of the range is present. -/
theorem unload_undoes_iff (hlength : length.toNat % 4096 = 0) :
    m.UnloadUndoes object la length ↔ m.FirstPageOnly object la length := by
  have hpage := pageOf_lt la
  -- the first page is in the range if there is one
  have hfirst : InRange la length (pageOf la) ↔ length ≠ 0#32 := by
    have hzero : length = 0#32 ↔ length.toNat = 0 := BitVec.toNat_inj.symm
    rw [ne_eq, hzero]
    unfold InRange pageOf
    omega
  rcases ckUnloadMapping_results h hsig hd la length with ⟨hcount, hnone⟩ | ⟨hcount, m', hs, hentry⟩
  · refine iff_of_false (fun ⟨m', hs, _⟩ => ?_) fun hc => hc.count hcount
    rw [hnone] at hs
    exact absurd hs nofun
  constructor
  · rintro ⟨m₁, hs₁, hp⟩
    obtain ⟨rfl, -⟩ := Prod.mk.inj (Option.some.inj (hs.symm.trans hs₁))
    refine ⟨hcount, fun p hlt hin hne hpresent => ?_, fun h0 => ?_⟩
    · have hgone := hp p hlt
      rw [if_pos hin, hentry p hlt, if_neg fun hc => hne hc.1] at hgone
      exact hgone hpresent
    · have hsame := hp _ hpage
      rw [if_neg fun hin => hfirst.mp hin h0, hentry _ hpage] at hsame
      by_cases htab : m.paging.HasTable (m.addrSpc object) (pageOf la)
      · rw [if_pos ⟨rfl, htab⟩, h0] at hsame
        exact hsame.symm
      · exact entry_none htab
  · intro hc
    refine ⟨m', hs, fun p hlt => ?_⟩
    rw [hentry p hlt]
    split
    · next hin =>
      split
      · exact not_present_data length
      · next hne =>
        by_cases hfirst : p = pageOf la
        · -- its slot has no table
          have htab : ¬ m.paging.HasTable (m.addrSpc object) p := fun htab => hne ⟨hfirst, htab⟩
          rw [VM.pageEntry, entry_none htab]
          exact not_present_zero
        · exact hc.behind p hlt hin hfirst
    · next hout =>
      split
      · next hthis =>
        obtain ⟨rfl, -⟩ := hthis
        have h0 := not_not.mp fun hne => hout (hfirst.mpr hne)
        rw [hc.empty h0, h0]
        rfl
      · rfl

end

/-! ## Right after a load -/

/-- **A load that succeeds** leaves the pages of its range and the page behind it present, where
they have tables, and the count of its first slot as it was. -/
theorem ckLoadMapping_loaded (h : m₀.paging.Separate) (hsig : m₀.signature object = .SIGADDRSPC)
    (hd : m₀.paging.live (m₀.addrSpc object) = true) (hla : la.toNat % 4096 = 0)
    (hwrap : la.toNat + length.toNat < 2 ^ 32)
    (hf : m₀.paging.GivesOut (m₀.addrSpc object) la (la + length) pageTables)
    (hload : m₀.ckLoadMapping object pa la length flags pageTables = some (m, 0#32)) :
    m = m₀.setPaging m.paging ∧ m.paging.Separate ∧
      m.paging.live (m.addrSpc object) = true ∧
      m.paging.usage (m.addrSpc object) (slotOf la) =
        m₀.paging.usage (m₀.addrSpc object) (slotOf la) ∧
      ∀ i < pageOf length + 1, m.paging.HasTable (m.addrSpc object) (pageOf la + i) →
        Present (m.pageEntry object (pageOf la + i)) := by
  unfold VM.ckLoadMapping at hload
  rw [if_pos hsig] at hload
  obtain ⟨⟨s', ok⟩, hs, hm⟩ := Option.map_eq_some_iff.mp hload
  obtain ⟨rfl, hok⟩ := Prod.mk.inj hm
  rcases ckSetPageMapping_cases h.unlocked hs with ⟨rfl, -⟩ | ⟨-, s₁, ht, hw⟩
  · have hfailed : ENOMEM = 0#32 := hok
    exact absurd hfailed (by decide)
  have h₁ := h.tablesFor hd ht hf
  refine ⟨rfl, h₁.walked hw.walked, ?_, ?_, fun i hi htab => ?_⟩
  · show s'.live (m₀.addrSpc object) = true
    rw [(rest_inj hw.walked.rest).2.2.1, ht.live]
    exact hd
  · show s'.usage (m₀.addrSpc object) (slotOf la) = _
    rw [usage, hw.usage]
    rcases ht with ⟨rfl, -⟩ | ⟨hmissing, -, hadded⟩
    · rfl
    · -- the count that is raised is that of the slot behind the last one
      have hslots : slots la (la + length) ≠ [] := fun hnil => hmissing (by
        rw [missing, hnil]
        rfl)
      have hpos := List.length_pos_of_ne_nil hslots
      exact (hadded.usage _).trans (if_neg (by omega))
  · have hpos : ((pageOf la + i) / 1024, (pageOf la + i) % 1024) ∈
        positions la (la + length) (entryOf (la + length) + 1) := by
      rw [positions_range hla hwrap]
      exact List.mem_map.mpr ⟨i, List.mem_range.mpr hi, rfl⟩
    have hpresent := hw.present _ hpos
    have hentry : s'.entry (m₀.addrSpc object) (pageOf la + i) =
        s'.cell (s'.cellOf (m₀.addrSpc object) (pageOf la + i)) := entry_table htab
    show Present (s'.entry (m₀.addrSpc object) (pageOf la + i))
    rw [hentry]
    show Present (s'.page (physAddr (s'.addrSpc _ _)) _)
    rw [hw.usage]
    exact hpresent

/-- **An unload right after the load** undoes it if the range is one page, or an empty one where
there is no table. -/
theorem unload_loaded_iff (h : m₀.paging.Separate) (hsig : m₀.signature object = .SIGADDRSPC)
    (hd : m₀.paging.live (m₀.addrSpc object) = true) (hla : la.toNat % 4096 = 0)
    (hlength : length.toNat % 4096 = 0) (hwrap : la.toNat + length.toNat < 2 ^ 32)
    (hf : m₀.paging.GivesOut (m₀.addrSpc object) la (la + length) pageTables)
    (hload : m₀.ckLoadMapping object pa la length flags pageTables = some (m, 0#32))
    (htables : ∀ p, InRange la length p → m.paging.HasTable (m.addrSpc object) p) :
    m.UnloadUndoes object la length ↔
      m₀.paging.usage (m₀.addrSpc object) (slotOf la) ≠ 1#32 ∧ pageOf length ≤ 1 ∧
        (length = 0#32 → ¬ m.paging.HasTable (m.addrSpc object) (pageOf la)) := by
  obtain ⟨hm, hsep, hlive, hcount, hpresent⟩ :=
    ckLoadMapping_loaded h hsig hd hla hwrap hf hload
  have hsig' : m.signature object = .SIGADDRSPC := by
    rw [hm]
    exact hsig
  rw [unload_undoes_iff hsep hsig' hlive hlength, ← hcount]
  constructor
  · intro hc
    refine ⟨hc.count, ?_, fun h0 htab => ?_⟩
    · by_contra hmore
      have hlt := pageOf_lt (la + length)
      rw [pageOf_add hla hwrap] at hlt
      have hin : InRange la length (pageOf la + 1) := ⟨by omega, by omega⟩
      exact hc.behind _ (by omega) hin (by omega) (hpresent 1 (by omega) (htables _ hin))
    · have hthis := hpresent 0 (by omega) htab
      rw [Nat.add_zero, hc.empty h0] at hthis
      exact not_present_zero hthis
  · intro hc
    obtain ⟨hne, hone, hnone⟩ := hc
    refine ⟨hne, fun p _ hin hp => ?_, fun h0 => entry_none (hnone h0)⟩
    obtain ⟨hle, hlt⟩ := hin
    exact absurd (show p = pageOf la by omega) hp

/-- A page is mapped and unmapped. -/
theorem unload_undoes_iff_page : ∃ m, Run vmStep VMOp.Legal vmAtBoot
      (newSpace ++ [loadRange 0x400000#32 0x1000#32]) m ∧
    m.UnloadUndoes 40 0x400000#32 0x1000#32 := by
  obtain ⟨m, hr, hp⟩ := Run.of_exec_any
    (show (exec vmStep VMOp.Legal vmAtBoot (newSpace ++ [loadRange 0x400000#32 0x1000#32])).any
      (fun m => decide (m.signature 40 = .SIGADDRSPC ∧ m.paging.live (m.addrSpc 40) = true ∧
        m.paging.usage (m.addrSpc 40) (slotOf 0x400000#32) ≠ 1#32)) = true by decide +kernel)
  obtain ⟨hsig, hd, hcount⟩ := of_decide_eq_true hp
  have hsep : m.paging.Separate := hr.invariant (I := fun m => m.paging.Separate)
    (fun h hC hs => vmStep_separate h hC hs) vmAtBoot_atBoot.separate
  refine ⟨m, hr, (unload_undoes_iff hsep hsig hd (by decide)).mpr ⟨hcount, ?_, nofun⟩⟩
  intro p _ hin hne
  obtain ⟨hle, hlt⟩ := hin
  have hpage : pageOf 0x400000#32 = 0x400 ∧ pageOf 0x1000#32 = 1 := by decide
  omega

/-- Two pages are mapped. The unload of both leaves the second one. -/
theorem unload_keeps_second : ∃ m, Run vmStep VMOp.Legal vmAtBoot
      (newSpace ++ [loadRange 0x400000#32 0x2000#32]) m ∧
    (∀ p, InRange 0x400000#32 0x2000#32 p → m.paging.HasTable (m.addrSpc 40) p) ∧
    ¬ m.UnloadUndoes 40 0x400000#32 0x2000#32 := by
  obtain ⟨m, hr, hp⟩ := Run.of_exec_any
    (show (exec vmStep VMOp.Legal vmAtBoot (newSpace ++ [loadRange 0x400000#32 0x2000#32])).any
      (fun m => decide (m.paging.HasTable (m.addrSpc 40) 0x400) &&
        (m.ckUnloadMapping 40 0x400000#32 0x2000#32).any fun r =>
          decide (Present (r.1.pageEntry 40 0x401))) = true by decide +kernel)
  obtain ⟨htab, hp⟩ := Bool.and_eq_true_iff.mp hp
  obtain ⟨r, hs, hpresent⟩ := (Option.any_eq_true _ _).mp hp
  have hpage : pageOf 0x400000#32 = 0x400 ∧ pageOf 0x2000#32 = 2 := by decide
  refine ⟨m, hr, fun p hin => ?_, ?_⟩
  · obtain ⟨hle, hlt⟩ := hin
    have hslot : p / 1024 = 0x400 / 1024 := by omega
    unfold HasTable
    rw [hslot]
    exact of_decide_eq_true htab
  · intro hundoes
    obtain ⟨m', hs', hgone⟩ := hundoes
    obtain rfl := Option.some.inj (hs.symm.trans hs')
    have hin : InRange 0x400000#32 0x2000#32 0x401 := ⟨by omega, by omega⟩
    have hgone := hgone 0x401 (by decide)
    rw [if_pos hin] at hgone
    exact hgone (of_decide_eq_true hpresent)

end Alliance.CK
