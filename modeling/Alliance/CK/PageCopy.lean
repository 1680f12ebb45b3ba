import Alliance.CK.PageMapping

/-!
# What `CKcopySharedPageMapping` copies

The walk over the destination stores the words that a second walk reads, each in step with the
other, up to the end of the range (`walkPages_copy`). The second walk does not ask whether the
source has a table: without one it reads page 0 of the physical memory, whatever is in it. And
what it reads may have been stored to before, where source and destination share entries. So a
copy is exact under a condition on these words (`copy_exact_iff`).
-/

namespace Alliance.CK

open Function Lib

namespace Paging

variable {s s₁ s' : Paging} {source d : Addr} {sa la length pageTables : UADDR}

/-! ## What the call is for -/

/-- The entry of a page as its address space has it: nothing where the slot has no table. -/
def entry (s : Paging) (d : Addr) (p : Nat) : UADDR :=
  if s.HasTable d p then s.cell (s.cellOf d p) else 0#32

theorem entry_table {p : Nat} (htab : s.HasTable d p) : s.entry d p = s.cell (s.cellOf d p) :=
  if_pos htab

theorem entry_none {p : Nat} (htab : ¬ s.HasTable d p) : s.entry d p = 0#32 := if_neg htab

theorem entry_withCells {p : Nat} (m : UADDR × Nat → UADDR) (htab : s.HasTable d p) :
    (s.withCells m).entry d p = m (s.cellOf d p) := if_pos htab

theorem entry_withCells_none {p : Nat} (m : UADDR × Nat → UADDR) (htab : ¬ s.HasTable d p) :
    (s.withCells m).entry d p = 0#32 := if_neg htab

/-- `w` is a copy of the entry of a page. -/
def Copies (s : Paging) (source : Addr) (p : Nat) (w : UADDR) : Prop :=
  if s.HasTable source p then w = s.cell (s.cellOf source p) else ¬ Present w

instance (s : Paging) (source : Addr) (p : Nat) (w : UADDR) : Decidable (s.Copies source p w) :=
  inferInstanceAs (Decidable (if s.HasTable source p then w = s.cell (s.cellOf source p)
    else ¬ Present w))

/-- A page of the range of `length` at `a`. -/
def InRange (a length : UADDR) (p : Nat) : Prop := pageOf a ≤ p ∧ p < pageOf a + pageOf length

instance (a length : UADDR) (p : Nat) : Decidable (InRange a length p) :=
  inferInstanceAs (Decidable (_ ∧ _))

/-- Both ranges are in their address spaces, and the pages of the destination have copies of
the entries of the source; the others are as they were, and so is the source, where it is not
itself the address space that is copied to. -/
structure CopiesExactly (s : Paging) (source : Addr) (sa : UADDR) (d : Addr) (la length : UADDR)
    (s' : Paging) : Prop where
  inside : sa.toNat + length.toNat ≤ 2 ^ 32 ∧ la.toNat + length.toNat ≤ 2 ^ 32
  copied : ∀ i < pageOf length, s'.HasTable d (pageOf la + i) ∧
    s.Copies source (pageOf sa + i) (s'.cell (s'.cellOf d (pageOf la + i)))
  kept : ∀ p < 2 ^ 20, ¬ InRange la length p → s'.entry d p = s.entry d p
  source : ∀ p < 2 ^ 20, source ≠ d ∨ InRange sa length p → s'.entry source p = s.entry source p

/-- A call that succeeds copies exactly its range; one that fails changes nothing. -/
def CopyExact (s : Paging) (source : Addr) (sa : UADDR) (d : Addr) (la length pageTables : UADDR) :
    Prop :=
  ∀ s' ok, s.ckCopySharedPageMapping source sa d la length pageTables = some (s', ok) →
    (ok = false → s' = s) ∧ (ok = true → CopiesExactly s source sa d la length s')

/-- The word that the call reads for the page `i` of the range: one of page 0 where the source
has no table, and nothing where a table is added for the destination in the same slot. -/
def copiedWord (s : Paging) (source : Addr) (sa : UADDR) (d : Addr) (la length : UADDR) (i : Nat) :
    UADDR :=
  if source = d ∧ (pageOf sa + i) / 1024 ∈ s.missing d la (la + length) then 0#32
  else s.cell (s.cellOf source (pageOf sa + i))

/-- The pages that are copied: none for a range up to the very top, whose end is 0. -/
def copiedPages (la length : UADDR) : Nat :=
  if la.toNat + length.toNat < 2 ^ 32 then pageOf length else 0

/-- A page of the destination whose entry is the source's too, and has to stay. -/
def SourceSees (s : Paging) (source : Addr) (sa : UADDR) (d : Addr) (length : UADDR) (p : Nat) :
    Prop :=
  if source = d then InRange sa length p else s.CKTable (p / 1024)

/-- The exact copies: the slots of the destination have tables or get them, what is read
without a table is not present, what the source shares has the word that it gets, and where
nothing is copied the entries are equal already. -/
structure CopyFits (s : Paging) (source : Addr) (sa : UADDR) (d : Addr) (la length : UADDR) :
    Prop where
  inside : sa.toNat + length.toNat ≤ 2 ^ 32 ∧ la.toNat + length.toNat ≤ 2 ^ 32
  tables : ∀ i < pageOf length, s.HasTable d (pageOf la + i) ∨
    (pageOf la + i) / 1024 ∈ s.missing d la (la + length)
  absent : ∀ i < copiedPages la length, ¬ s.HasTable source (pageOf sa + i) →
    ¬ Present (s.copiedWord source sa d la length i)
  shared : ∀ i < copiedPages la length, s.SourceSees source sa d length (pageOf la + i) →
    s.entry d (pageOf la + i) = s.copiedWord source sa d la length i
  already : ∀ i < pageOf length, copiedPages la length ≤ i →
    s.Copies source (pageOf sa + i) (s.entry d (pageOf la + i))

/-! ## The walk -/

/-- The table that a copy stores to. -/
abbrev copyTable (d : Addr) (r : Paging × CopySource) (k : Nat) : UADDR := r.1.tableOf d k

/-- One store of the copy. -/
abbrev copyBody (source : Addr) (t : UADDR) (_k pte : Nat) (r : Paging × CopySource) :
    Option (Paging × CopySource) :=
  let s := r.1.setEntry t pte (r.1.page r.2.pageTableS r.2.pteS)
  some (s, r.2.next s source)

theorem copyBody_keepsTables (source d : Addr) :
    KeepsTables (copyTable d) (copyBody source) := by
  intro t k j r r' _ hs
  obtain rfl := Option.some.inj hs
  exact fun _ _ => rfl

/-- The source in front of its page `p`. -/
def sourceAt (s : Paging) (source : Addr) (p : Nat) : CopySource :=
  ⟨p / 1024, p % 1024, s.tableOf source (p / 1024)⟩

theorem next_sourceAt (htab : s'.tableOf source = s.tableOf source) (p : Nat) :
    (sourceAt s source p).next s' source = sourceAt s source (p + 1) := by
  unfold CopySource.next sourceAt
  dsimp only
  split
  · next hlast =>
    have hslot : (p + 1) / 1024 = p / 1024 + 1 := by omega
    have hentry : (p + 1) % 1024 = 0 := by omega
    rw [htab, hslot, hentry]
  · next hlast =>
    have hslot : (p + 1) / 1024 = p / 1024 := by omega
    have hentry : (p + 1) % 1024 = p % 1024 + 1 := by omega
    rw [hslot, hentry]

/-- The pages that the walk goes over, where the ranges are in their address spaces. -/
theorem pagesWalked_copy (hla : la.toNat % 4096 = 0) (hin : la.toNat + length.toNat ≤ 2 ^ 32) :
    pagesWalked la (la + length) (entryOf (la + length)) = copiedPages la length := by
  unfold copiedPages
  split
  · next hwrap =>
    have hend := pageOf_add hla hwrap
    have hentry := entryOf_lt (la + length)
    have hle : slotOf la ≤ slotOf (la + length) := by
      rw [slotOf_pageOf, slotOf_pageOf, hend]
      omega
    have := pageOf_eq (la + length)
    rw [pagesWalked_of_le hle]
    omega
  · next htop =>
    -- the end of the range is in front of its start
    have hzero := rangeEnd_top (show la.toNat + length.toNat = 2 ^ 32 by omega)
    have hslot : slotOf 0#32 = 0 := rfl
    have hentry : entryOf 0#32 = 0 := rfl
    have := pageOf_eq la
    rw [hzero, pagesWalked, hslot, hentry]
    omega

/-- The words of the source go to the destination one after the other. -/
abbrev copyPages (s₁ : Paging) (source : Addr) (sa : UADDR) (d : Addr) (la : UADDR) (n : Nat) :
    Paging :=
  s₁.withCells (copyAlong (fun i => s₁.cellOf d (pageOf la + i))
    (fun i => s₁.cellOf source (pageOf sa + i)) n s₁.cell)

/-- The walk of any range. -/
theorem walkPages_copy (s₁ : Paging) (source : Addr) (sa : UADDR) (d : Addr) (la e : UADDR)
    {last : Nat} (hlast : last ≤ 1024) :
    ∃ c, walkPages (copyTable d) (copyBody source) la e last
        (s₁, sourceAt s₁ source (pageOf sa)) =
      some (s₁.copyPages source sa d la (pagesWalked la e last), c) := by
  rw [walkPages_eq (copyBody_keepsTables source d), positions_walked hlast, List.foldlM_map]
  refine ⟨sourceAt s₁ source (pageOf sa + pagesWalked la e last), ?_⟩
  -- the states that the walk goes through
  let g : Nat → Paging × CopySource := fun i =>
    (s₁.copyPages source sa d la i, sourceAt s₁ source (pageOf sa + i))
  exact foldlM_range (g := g) (fun i _ => by
    refine congrArg some (Prod.ext ?_ ?_)
    · show (s₁.withCells _).setEntry _ _ _ = s₁.withCells _
      rw [setEntry_withCells, copyAlong_succ]
      rfl
    · exact next_sourceAt rfl (pageOf sa + i))

/-! ## The call -/

/-- The second half of a call. -/
theorem ckCopySharedPageMapping_added (source : Addr) (sa : UADDR)
    (hadd : s.addTables d la (la + length) pageTables = some (s₁, true)) :
    s.ckCopySharedPageMapping source sa d la length pageTables =
      some (s₁.copyPages source sa d la
        (pagesWalked la (la + length) (entryOf (la + length))), true) := by
  have hstart : (⟨slotOf sa, entryOf sa, s₁.tableOf source (slotOf sa)⟩ : CopySource) =
      sourceAt s₁ source (pageOf sa) := by
    rw [sourceAt, ← slotOf_pageOf, ← entryOf_pageOf]
  obtain ⟨c, hc⟩ := walkPages_copy s₁ source sa d la (la + length) (entryOf_lt (la + length)).le
  unfold ckCopySharedPageMapping
  simp only [hadd, Option.bind_eq_bind, Option.bind_some, if_true]
  rw [hstart, hc]
  rfl

/-- What a call does: it fails and changes nothing, or the tables are there and the words of the
source are copied one after the other. -/
theorem ckCopySharedPageMapping_results (source : Addr) (sa : UADDR) (d : Addr) (la length : UADDR)
    (pageTables : UADDR) (hu : s.CKFreeListLock = false) :
    (s.NoTables d la (la + length) pageTables ∧
      s.ckCopySharedPageMapping source sa d la length pageTables = some (s, false)) ∨
    ∃ s₁, TablesFor s d la (la + length) pageTables s₁ ∧
      s.ckCopySharedPageMapping source sa d la length pageTables =
        some (s₁.copyPages source sa d la
          (pagesWalked la (la + length) (entryOf (la + length))), true) := by
  obtain ⟨⟨s₁, ok⟩, hadd⟩ := addTables_some hu d la (la + length) pageTables
  rcases addTables_cases hu hadd with ⟨rfl, hok, hnone⟩ | ⟨rfl, hm, hne, hadded⟩
  · cases ok with
    | false =>
      refine .inl ⟨⟨fun hm => absurd (hok.mpr hm) (by simp), hnone rfl⟩, ?_⟩
      unfold ckCopySharedPageMapping
      simp only [hadd, Option.bind_eq_bind, Option.bind_some, Bool.false_eq_true, if_false]
    | true => exact .inr ⟨s₁, .inl ⟨rfl, hok.mp rfl⟩, ckCopySharedPageMapping_added source sa hadd⟩
  · exact .inr ⟨s₁, .inr ⟨hm, hne, hadded⟩, ckCopySharedPageMapping_added source sa hadd⟩

/-! ## The words that are read and stored -/

section

variable (h : s.Separate) (hf : s.GivesOut d la (la + length) pageTables)
  (ht : TablesFor s d la (la + length) pageTables s₁)

include h hf ht in
/-- New tables have nothing in them, and the old ones are as they were. -/
theorem entry_tablesFor {d' : Addr} (hl : s.live d' = true) {p : Nat} (hp : p < 2 ^ 20) :
    s₁.entry d' p = s.entry d' p := by
  have hk : p / 1024 < 1024 := by omega
  by_cases htab : s.HasTable d' p
  · obtain ⟨hword, hpage⟩ := ht.kept h hf hl hk htab
    have htab' : s₁.HasTable d' p := by rwa [HasTable, hword]
    have hcell : s₁.cellOf d' p = s.cellOf d' p := Prod.ext (congrArg physAddr hword) rfl
    rw [entry_table htab', entry_table htab, hcell]
    exact congrFun hpage _
  · rw [entry_none htab]
    by_cases htab' : s₁.HasTable d' p
    · -- only a new table can have come in here
      rw [entry_table htab']
      by_cases hd : d' = d
      · subst hd
        have hm := ((ht.present_iff hf hk).mp htab').resolve_left htab
        exact congrFun (ht.new hf hm).2 _
      · have hother : s₁.addrSpc d' (p / 1024) = s.addrSpc d' (p / 1024) := by
          rcases ht with ⟨rfl, -⟩ | ⟨-, -, ha⟩
          · rfl
          · exact congrFun (ha.other d' hd) _
        rw [HasTable, hother] at htab'
        exact absurd htab' htab
    · exact entry_none htab'

include h hf ht in
/-- What the source has in front of its pages, once the tables are there. -/
theorem cell_source (hs : s.live source = true) {i : Nat} (hi : pageOf sa + i < 2 ^ 20) :
    s₁.cell (s₁.cellOf source (pageOf sa + i)) = s.copiedWord source sa d la length i := by
  have hk : (pageOf sa + i) / 1024 < 1024 := by omega
  unfold copiedWord
  split
  · next hnew =>
    obtain ⟨rfl, hm⟩ := hnew
    exact congrFun (ht.new hf hm).2 _
  · next hold =>
    by_cases htab : s.HasTable source (pageOf sa + i)
    · obtain ⟨hword, hpage⟩ := ht.kept h hf hs hk htab
      have hcell : s₁.cellOf source (pageOf sa + i) = s.cellOf source (pageOf sa + i) :=
        Prod.ext (congrArg physAddr hword) rfl
      rw [hcell]
      exact congrFun hpage _
    · -- page 0, which is not one of the new tables
      have hzero : s.tableOf source ((pageOf sa + i) / 1024) = 0#32 := h.absent _ _ hs hk htab
      rcases ht with ⟨rfl, -⟩ | ⟨-, hne, ha⟩
      · rfl
      · have hword : s₁.addrSpc source ((pageOf sa + i) / 1024) =
            s.addrSpc source ((pageOf sa + i) / 1024) := by
          by_cases hd : source = d
          · subst hd
            rw [ha.word _ hk, if_neg fun hm => hold ⟨rfl, hm⟩]
          · exact congrFun (ha.other source hd) _
        have hcell : s₁.cellOf source (pageOf sa + i) = s.cellOf source (pageOf sa + i) :=
          Prod.ext (congrArg physAddr hword) rfl
        have hpage : s₁.page 0#32 = s.page 0#32 := by
          rw [ha.page, if_neg fun hm => ((hf hne).2 _ hm).1 rfl]
        rw [hcell, cellOf, hzero]
        exact congrFun hpage _

include ht in
theorem ckTable_tablesFor (k : Nat) : s₁.CKTable k ↔ s.CKTable k := by
  rcases ht with ⟨rfl, -⟩ | ⟨-, -, ha⟩
  · exact Iff.rfl
  · exact ckTable_congr ha.congr_rest.1 k

end

/-! ## When it is exact -/

theorem copiedPages_le (la length : UADDR) : copiedPages la length ≤ pageOf length := by
  unfold copiedPages
  split
  · exact Nat.le_refl _
  · exact Nat.zero_le _

theorem range_lt {a : UADDR} (hin : a.toNat + length.toNat ≤ 2 ^ 32) {i : Nat}
    (hi : i < pageOf length) : pageOf a + i < 2 ^ 20 := by
  unfold pageOf at *
  omega

section

variable (h : s.Separate) (hs : s.live source = true) (hd : s.live d = true)
  (hla : la.toNat % 4096 = 0) (hf : s.GivesOut d la (la + length) pageTables)
  (ht : TablesFor s d la (la + length) pageTables s₁)
  (hall : ∀ i < pageOf length, s₁.HasTable d (pageOf la + i))
  (hsin : sa.toNat + length.toNat ≤ 2 ^ 32) (hin : la.toNat + length.toNat ≤ 2 ^ 32)

include h hd hf ht hall hin in
/-- The cells that are stored to are distinct. -/
theorem copyCells_inj : ∀ i < pageOf length, ∀ j < pageOf length,
    s₁.cellOf d (pageOf la + i) = s₁.cellOf d (pageOf la + j) → i = j := by
  intro i hi j hj he
  have := (h.tablesFor hd ht hf).cellOf_inj (ht.live ▸ hd) (range_lt hin hi)
    (range_lt hin hj) (hall i hi) (hall j hj) he
  omega

include h hd hf ht hall hin in
theorem copiedCells_inj : ∀ i < copiedPages la length, ∀ j < copiedPages la length,
    s₁.cellOf d (pageOf la + i) = s₁.cellOf d (pageOf la + j) → i = j := by
  have hle := copiedPages_le la length
  intro i hi j hj
  exact copyCells_inj h hd hf ht hall hin i (by omega) j (by omega)

include h hs hd hf ht hall hin in
/-- A page of the source has the cell of one of the destination if they are one page, which the
source sees. -/
theorem cellOf_dest {p i : Nat} (hp : p < 2 ^ 20) (htab : s₁.HasTable source p)
    (hi : i < pageOf length) (he : s₁.cellOf source p = s₁.cellOf d (pageOf la + i)) :
    p = pageOf la + i ∧ (source = d ∨ s.CKTable (p / 1024)) := by
  have := (h.tablesFor hd ht hf).cellOf_shared (ht.live ▸ hs) (ht.live ▸ hd) hp
    (range_lt hin hi) htab (hall i hi) he
  rwa [ckTable_tablesFor ht] at this

include h hs hd hf ht hsin hin hall in
/-- The reads find what was there before, where the source keeps what it shares. -/
theorem copy_keepsSource
    (hshared : ∀ i < copiedPages la length, s.SourceSees source sa d length (pageOf la + i) →
      s.entry d (pageOf la + i) = s.copiedWord source sa d la length i) :
    ∀ i < copiedPages la length,
      copyAlong (fun i => s₁.cellOf d (pageOf la + i)) (fun i => s₁.cellOf source (pageOf sa + i))
        (copiedPages la length) s₁.cell (s₁.cellOf source (pageOf sa + i)) =
      s₁.cell (s₁.cellOf source (pageOf sa + i)) := by
  have hle := copiedPages_le la length
  refine (copyAlong_iff (copiedCells_inj h hd hf ht hall hin)).mpr fun i hi j hj he => ?_
  by_cases htab : s₁.HasTable source (pageOf sa + j)
  · obtain ⟨hpage, hsame⟩ := cellOf_dest h hs hd hf ht hall hin (range_lt hsin (by omega)) htab
      (by omega) he.symm
    have hsees : s.SourceSees source sa d length (pageOf la + i) := by
      unfold SourceSees
      split
      · exact ⟨by omega, by omega⟩
      · next hne =>
        rw [← hpage]
        exact hsame.resolve_left hne
    have hword := hshared i hi hsees
    rw [← entry_tablesFor h hf ht hd (range_lt hin (by omega)), entry_table (hall i (by omega)),
      ← cell_source h hf ht hs (range_lt hsin (by omega)), he] at hword
    exact hword.symm
  · -- page 0 is not stored to
    have hzero := (h.tablesFor hd ht hf).absent source ((pageOf sa + j) / 1024) (ht.live ▸ hs)
      (by have := range_lt hsin (show j < pageOf length by omega); omega) htab
    have hdest := ((h.tablesFor hd ht hf).table_allocated (ht.live ▸ hd)
      (by have := range_lt hin (show i < pageOf length by omega); omega) (hall i (by omega))).1
    exact absurd ((Prod.mk.inj he).1.trans hzero) hdest

/-- The memory after the call. -/
abbrev copied (s₁ : Paging) (source : Addr) (sa : UADDR) (d : Addr) (la length : UADDR) :
    UADDR × Nat → UADDR :=
  copyAlong (fun i => s₁.cellOf d (pageOf la + i)) (fun i => s₁.cellOf source (pageOf sa + i))
    (copiedPages la length) s₁.cell

include h hs hd hf ht hsin hin hall in
/-- What the copied pages have in the end. -/
theorem copied_dest (hkeeps : ∀ i < copiedPages la length,
      copied s₁ source sa d la length (s₁.cellOf source (pageOf sa + i)) =
        s₁.cell (s₁.cellOf source (pageOf sa + i))) {i : Nat} (hi : i < copiedPages la length) :
    copied s₁ source sa d la length (s₁.cellOf d (pageOf la + i)) =
      s.copiedWord source sa d la length i := by
  have hle := copiedPages_le la length
  rw [← cell_source h hf ht hs (range_lt hsin (by omega))]
  exact copyAlong_eq (copiedCells_inj h hd hf ht hall hin) hkeeps hi

include h hd hf ht hin hall in
/-- A page that is not copied has what it had. -/
theorem copied_other (source : Addr) (sa : UADDR) {p : Nat} (hp : p < 2 ^ 20)
    (hout : ∀ i < copiedPages la length, p ≠ pageOf la + i) :
    (s₁.withCells (copied s₁ source sa d la length)).entry d p = s.entry d p := by
  have hle := copiedPages_le la length
  rw [← entry_tablesFor h hf ht hd hp]
  by_cases htab : s₁.HasTable d p
  · rw [entry_withCells _ htab, entry_table htab]
    refine copyAlong_outside fun i hi he => hout i hi ?_
    exact (h.tablesFor hd ht hf).cellOf_inj (ht.live ▸ hd) hp (range_lt hin (by omega)) htab
      (hall i (by omega)) he
  · rw [entry_withCells_none _ htab, entry_none htab]

theorem copiedWord_table {i : Nat} (htab : s.HasTable source (pageOf sa + i)) :
    s.copiedWord source sa d la length i = s.cell (s.cellOf source (pageOf sa + i)) := by
  refine if_neg ?_
  rintro ⟨rfl, hm⟩
  exact (mem_missing.mp hm).2 htab

include h hs hd hf ht hall in
theorem copiesExactly (hfits : s.CopyFits source sa d la length) :
    CopiesExactly s source sa d la length (s₁.withCells (copied s₁ source sa d la length)) := by
  obtain ⟨hsin, hin⟩ := hfits.inside
  have hle := copiedPages_le la length
  have hkeeps := copy_keepsSource h hs hd hf ht hall hsin hin hfits.shared
  have hdest := fun {i} => copied_dest h hs hd hf ht hall hsin hin hkeeps (i := i)
  refine ⟨hfits.inside, fun i hi => ⟨hall i hi, ?_⟩, fun p hp hout => ?_, fun p hp hsees => ?_⟩
  · by_cases hm : i < copiedPages la length
    · -- the word that was read
      show s.Copies source _ (copied s₁ source sa d la length _)
      rw [cellOf_withCells, hdest hm]
      unfold Copies
      split
      · next htab => exact copiedWord_table htab
      · next htab => exact hfits.absent i hm htab
    · have hother := copied_other h hd hf ht hall hin source sa
        (range_lt hin hi) (by omega)
      rw [entry_withCells _ (hall i hi)] at hother
      show s.Copies source _ (copied s₁ source sa d la length _)
      rw [cellOf_withCells, hother]
      exact hfits.already i hi (by omega)
  · refine copied_other h hd hf ht hall hin source sa hp fun i hi he => hout ⟨by omega, by omega⟩
  · rw [← entry_tablesFor h hf ht hs hp]
    by_cases htab : s₁.HasTable source p
    · rw [entry_withCells _ htab, entry_table htab]
      by_cases hstored : ∃ i < copiedPages la length,
          s₁.cellOf source p = s₁.cellOf d (pageOf la + i)
      · obtain ⟨i, hi, he⟩ := hstored
        obtain ⟨rfl, hsame⟩ := cellOf_dest h hs hd hf ht hall hin hp htab (by omega) he
        have hsees' : s.SourceSees source sa d length (pageOf la + i) := by
          unfold SourceSees
          split
          · next hdir => exact hsees.resolve_left (not_not.mpr hdir)
          · next hdir => exact hsame.resolve_left hdir
        have hword := hfits.shared i hi hsees'
        rw [← entry_tablesFor h hf ht hd hp, entry_table (hall i (by omega))] at hword
        rw [he, hdest hi, hword]
      · exact copyAlong_outside fun i hi he => hstored ⟨i, hi, he⟩
    · rw [entry_withCells_none _ htab, entry_none htab]

include h hs hd hf ht hall in
/-- The other way round: what a call that was exact has read. -/
theorem copyFits (hexact : CopiesExactly s source sa d la length
    (s₁.withCells (copied s₁ source sa d la length))) : s.CopyFits source sa d la length := by
  obtain ⟨hsin, hin⟩ := hexact.inside
  have hle := copiedPages_le la length
  -- the source has what it had, so the words that were read are the ones from before
  have hkeeps : ∀ i < copiedPages la length,
      copied s₁ source sa d la length (s₁.cellOf source (pageOf sa + i)) =
        s₁.cell (s₁.cellOf source (pageOf sa + i)) := by
    intro i hi
    have hp := range_lt hsin (show i < pageOf length by omega)
    by_cases htab : s₁.HasTable source (pageOf sa + i)
    · have hsame := hexact.source _ hp (.inr ⟨by omega, by omega⟩)
      rw [← entry_tablesFor h hf ht hs hp, entry_withCells _ htab, entry_table htab] at hsame
      exact hsame
    · have hzero := (h.tablesFor hd ht hf).absent source ((pageOf sa + i) / 1024) (ht.live ▸ hs)
        (by omega) htab
      refine copyAlong_outside fun j hj he => ?_
      have hq := range_lt hin (show j < pageOf length by omega)
      have hdest := ((h.tablesFor hd ht hf).table_allocated (ht.live ▸ hd)
        (by omega) (hall j (by omega))).1
      exact hdest ((Prod.mk.inj he).1.symm.trans hzero)
  have hdest := fun {i} => copied_dest h hs hd hf ht hall hsin hin hkeeps (i := i)
  constructor
  case inside => exact hexact.inside
  case tables =>
    intro i hi
    have hp := range_lt hin hi
    exact (ht.present_iff hf (by omega)).mp (hall i hi)
  case absent =>
    intro i hi htab
    have hcopy := (hexact.copied i (by omega)).2
    rw [Copies, if_neg htab] at hcopy
    rw [← hdest hi]
    exact hcopy
  case shared =>
    intro i hi hsees
    have hp := range_lt hin (show i < pageOf length by omega)
    -- the page is one of the source's too
    have hboth : (s₁.HasTable source (pageOf la + i) ∧
        s₁.cellOf source (pageOf la + i) = s₁.cellOf d (pageOf la + i)) ∧
        (source ≠ d ∨ InRange sa length (pageOf la + i)) := by
      unfold SourceSees at hsees
      split at hsees
      · next hdir =>
        subst hdir
        exact ⟨⟨hall i (by omega), rfl⟩, .inr hsees⟩
      · next hdir =>
        have hsep := h.tablesFor hd ht hf
        have hck := (ckTable_tablesFor ht _).mpr hsees
        have hword := (hsep.shared source _ (ht.live ▸ hs) hck).trans
          (hsep.shared d _ (ht.live ▸ hd) hck).symm
        refine ⟨⟨?_, Prod.ext (congrArg physAddr hword) rfl⟩, .inl hdir⟩
        rw [HasTable, hword]
        exact hall i (by omega)
    obtain ⟨⟨htab, hcell⟩, hsource⟩ := hboth
    have hsame := hexact.source _ hp hsource
    rw [← entry_tablesFor h hf ht hs hp, entry_withCells _ htab, entry_table htab] at hsame
    rw [← entry_tablesFor h hf ht hd hp, entry_table (hall i (by omega)), ← hdest hi, ← hcell]
    exact hsame.symm
  case already =>
    intro i hi hm
    have hcopy := (hexact.copied i hi).2
    have hother := copied_other h hd hf ht hall hin source sa
      (range_lt hin hi) (by omega)
    rw [entry_withCells _ (hall i hi)] at hother
    rw [← hother]
    exact hcopy

end

/-- **When a copy is exact**: there is no memory for the tables it needs, so that nothing
happens; or both ranges are in their address spaces, the slots of the destination have tables or
get them, the words that are read where the source has no table are not present, those that
would change the source do not, and what is not copied is equal already. -/
theorem copy_exact_iff (h : s.Separate) (hs : s.live source = true) (hd : s.live d = true)
    (hla : la.toNat % 4096 = 0) (hf : s.GivesOut d la (la + length) pageTables) :
    s.CopyExact source sa d la length pageTables ↔
      s.NoTables d la (la + length) pageTables ∨ s.CopyFits source sa d la length := by
  rcases ckCopySharedPageMapping_results source sa d la length pageTables h.unlocked with
    ⟨hno, hcall⟩ | ⟨s₁, ht, hcall⟩
  · refine iff_of_true ?_ (.inl hno)
    intro s' ok hok
    obtain ⟨rfl, rfl⟩ := Prod.mk.inj (Option.some.inj (hcall.symm.trans hok))
    exact ⟨fun _ => rfl, fun hok => absurd hok (by simp)⟩
  · rw [or_iff_right ht.not_noTables]
    constructor
    · intro hexact
      have hcopies := (hexact _ _ hcall).2 rfl
      rw [pagesWalked_copy hla hcopies.inside.2] at hcopies
      exact copyFits h hs hd hf ht (fun i hi => (hcopies.copied i hi).1) hcopies
    · intro hfits s' ok hok
      obtain ⟨rfl, rfl⟩ := Prod.mk.inj (Option.some.inj (hcall.symm.trans hok))
      rw [pagesWalked_copy hla hfits.inside.2]
      refine ⟨fun hok => absurd hok (by simp), fun _ => copiesExactly h hs hd hf ht ?_ hfits⟩
      intro i hi
      have hp := range_lt hfits.inside.2 hi
      exact (ht.present_iff hf (by omega)).mpr (hfits.tables i hi)

/-! ## A source without a table -/

/-- `emptySpace` above a physical memory that starts with interrupt vectors. -/
def vectorSpace : Paging :=
  { emptySpace with
    page := update emptySpace.page 0#32 fun _ => 0xf000ff53#32 }

theorem vectorSpace_separate : vectorSpace.Separate :=
  emptySpace_separate.congr (fun _ _ _ => rfl) rfl

/-- Two pages of the Cache Kernel. -/
theorem copy_exact_kernel :
    vectorSpace.CopyExact 100 0xc0000000#32 100 0x1000#32 0x2000#32 (linear (16#32 <<< 12)) := by
  refine (copy_exact_iff vectorSpace_separate (by decide) (by decide) (by decide)
    (by decide +kernel)).mpr (.inr ?_)
  constructor
  case inside => decide
  case tables => decide +kernel
  case absent => decide +kernel
  case shared =>
    intro i hi hsees
    rw [SourceSees, if_pos rfl] at hsees
    -- the two ranges are far apart
    have hpages : copiedPages 0x1000#32 0x2000#32 = 2 := by decide
    have hstart : pageOf 0xc0000000#32 = 0xc0000 := by decide
    have hdest : pageOf 0x1000#32 = 1 := by decide
    have := hsees.1
    omega
  case already => decide +kernel

/-- The slot of 0x400000 has no table, and an interrupt vector is a present page. -/
theorem copy_not_exact_vector : ¬ vectorSpace.CopyExact 100 0x400000#32 100 0#32 0x1000#32
    (linear (16#32 <<< 12)) := by
  intro hexact
  have hcall : (vectorSpace.ckCopySharedPageMapping 100 0x400000#32 100 0#32 0x1000#32
      (linear (16#32 <<< 12))).map (fun r => (r.2, r.1.cell (r.1.cellOf 100 0))) =
        some (true, 0xf000ff53#32) := by decide +kernel
  obtain ⟨⟨s', ok⟩, hs, he⟩ := Option.map_eq_some_iff.mp hcall
  obtain ⟨rfl, hword⟩ := Prod.mk.inj he
  have hcopies := ((hexact s' true hs).2 rfl).copied 0 (by decide)
  rw [show pageOf 0#32 + 0 = 0 from rfl, show s'.cell (s'.cellOf 100 0) = 0xf000ff53#32 from hword]
    at hcopies
  exact absurd hcopies.2 (by decide +kernel)

end Paging

end Alliance.CK
