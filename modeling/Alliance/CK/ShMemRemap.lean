import Alliance.CK.ShMemDetach

/-!
# Remapping a shared memory object

A remap is a detach and an attach. What the detach has changed stays when the attach is
refused, so a remap is all or nothing only where the detach is refused too, or where the attach
succeeds and the pages of the new range are those of the owner in the end
(`remap_all_or_nothing_iff`). They are so under a condition on the page tables without the old
pages (`Paging.cleared`), which `mappedAs_iff` is about: where the owner's pages are also among
those of the new range, a copy may store to a page that it has read before.
-/

namespace Alliance.CK

open Function Lib Paging

/-- How many pages a range goes over. -/
def pagesIn (a length : UADDR) : Nat := (a.toNat + length.toNat) / 4096 - a.toNat / 4096

/-- A range in front of the top is copied page by page. -/
theorem pagesCopied_below {a length : UADDR} (h : a.toNat + length.toNat < 2 ^ 32) :
    pagesCopied a length = pagesIn a length := by
  have hend : (a + length).toNat = a.toNat + length.toNat := by
    rw [BitVec.toNat_add, Nat.mod_eq_of_lt h]
  have hle : slotOf a ≤ slotOf (a + length) := by
    rw [slotOf_eq, slotOf_eq, hend]
    omega
  have hpage := pageOf_eq (a + length)
  rw [pagesCopied, pagesWalked_of_le hle, ← hpage, pagesIn, pageOf, pageOf, hend]

/-- Nothing is copied of a range up to the top, whose end is 0. -/
theorem pagesCopied_top {a length : UADDR} (h : a.toNat + length.toNat = 2 ^ 32) :
    pagesCopied a length = 0 := by
  have hslot : slotOf 0#32 = 0 := rfl
  have hentry : entryOf 0#32 = 0 := rfl
  have := pageOf_eq a
  rw [pagesCopied, rangeEnd_top h, pagesWalked, hslot, hentry]
  omega

theorem pagesCopied_le_in {a length : UADDR} (h : a.toNat + length.toNat ≤ 2 ^ 32) :
    pagesCopied a length ≤ pagesIn a length := by
  rcases Nat.lt_or_eq_of_le h with hbelow | htop
  · exact (pagesCopied_below hbelow).le
  · rw [pagesCopied_top htop]
    exact Nat.zero_le _

theorem pagesIn_lt {a length : UADDR} (h : a.toNat + length.toNat ≤ 2 ^ 32) {i : Nat}
    (hi : i < pagesIn a length) : pageOf a + i < 2 ^ 20 := by
  unfold pagesIn at hi
  unfold pageOf
  omega

namespace Paging

variable {s s' s₁ : Paging} {source d : Addr} {sa la sz pageTables : UADDR} {n p : Nat}

/-! ## Pages of the owner -/

/-- The pages of the range have the entries of the source's pages, where they have tables. -/
structure MappedAs (s : Paging) (source : Addr) (sa : UADDR) (d : Addr) (la sz : UADDR) :
    Prop where
  inside : pageOf sa + pagesIn la sz ≤ 2 ^ 20 ∧ la.toNat + sz.toNat ≤ 2 ^ 32
  pages : ∀ i < pagesIn la sz, s.HasTable d (pageOf la + i) ∧
    s.Copies source (pageOf sa + i) (s.entry d (pageOf la + i))

/-- The page that round `i` of a copy reads is the one that round `j` stores to. -/
def StoresTo (s : Paging) (source : Addr) (sa : UADDR) (d : Addr) (la : UADDR) (i j : Nat) : Prop :=
  pageOf la + j = pageOf sa + i ∧ (source = d ∨ s.CKTable ((pageOf la + j) / 1024))

instance (s : Paging) (source : Addr) (sa : UADDR) (d : Addr) (la : UADDR) (i j : Nat) :
    Decidable (s.StoresTo source sa d la i j) :=
  have (k : Nat) : Decidable (s.CKTable k) := inferInstanceAs (Decidable (_ ∧ _ ∧ _))
  inferInstanceAs (Decidable (_ ∧ _))

/-- A copy that makes them so: the slots of the range have tables or get them, what is read
without a table is not present, the copy stores nothing else to a page of the source behind
reading it, and where nothing is copied the entries are equal already. -/
structure CopyMaps (s : Paging) (source : Addr) (sa : UADDR) (d : Addr) (la sz : UADDR) :
    Prop where
  inside : pageOf sa + pagesIn la sz ≤ 2 ^ 20 ∧ la.toNat + sz.toNat ≤ 2 ^ 32
  tables : ∀ i < pagesIn la sz, s.HasTable d (pageOf la + i) ∨
    (pageOf la + i) / 1024 ∈ s.missing d la (la + sz)
  absent : ∀ i < pagesCopied la sz, ¬ s.HasTable source (pageOf sa + i) →
    ¬ Present (s.copiedWord source sa d la sz i)
  behind : ∀ i < pagesCopied la sz, ∀ j < pagesCopied la sz, i < j →
    s.StoresTo source sa d la i j →
      s.copiedWord source sa d la sz j = s.copiedWord source sa d la sz i
  already : ∀ i < pagesIn la sz, pagesCopied la sz ≤ i →
    s.Copies source (pageOf sa + i) (s.entry d (pageOf la + i))

instance (s : Paging) (source : Addr) (sa : UADDR) (d : Addr) (la sz : UADDR) :
    Decidable (s.CopyMaps source sa d la sz) :=
  decidable_of_iff (_ ∧ _ ∧ _ ∧ _ ∧ _)
    ⟨fun ⟨a, b, c, d, e⟩ => ⟨a, b, c, d, e⟩, fun ⟨a, b, c, d, e⟩ => ⟨a, b, c, d, e⟩⟩

/-- The slots with tables when the tables are added, of any directory. -/
theorem hasTable_tablesFor (ht : TablesFor s d la (la + sz) pageTables s₁)
    (hf : s.GivesOut d la (la + sz) pageTables) (source : Addr) (hp : p < 2 ^ 20) :
    s₁.HasTable source p ↔
      s.HasTable source p ∨ source = d ∧ p / 1024 ∈ s.missing d la (la + sz) := by
  by_cases hdir : source = d
  · subst hdir
    rw [HasTable, ht.present_iff hf (by omega), HasTable, eq_self, true_and]
  · have hother : s₁.addrSpc source (p / 1024) = s.addrSpc source (p / 1024) := by
      rcases ht with ⟨rfl, -⟩ | ⟨-, -, ha⟩
      · rfl
      · exact congrFun (ha.other source hdir) _
    simp only [HasTable, hother, hdir, false_and, or_false]

section

variable (h : s.Separate) (hs : s.live source = true) (hd : s.live d = true)
  (hf : s.GivesOut d la (la + sz) pageTables)
  (ht : TablesFor s d la (la + sz) pageTables s₁)
  (hall : ∀ i < pagesIn la sz, s₁.HasTable d (pageOf la + i))
  (hsin : pageOf sa + pagesIn la sz ≤ 2 ^ 20) (hin : la.toNat + sz.toNat ≤ 2 ^ 32)

include h hs hd hf ht hall hsin hin in
/-- The cells of two pages are one if the store goes to the page that is read. -/
theorem copyCell_iff {i j : Nat} (hi : i < pagesIn la sz) (hj : j < pagesIn la sz) :
    s₁.cellOf d (pageOf la + j) = s₁.cellOf source (pageOf sa + i) ↔
      s.StoresTo source sa d la i j := by
  have hsep := h.tablesFor hd ht hf
  have hj' := pagesIn_lt hin hj
  have hck := ckTable_tablesFor ht ((pageOf la + j) / 1024)
  constructor
  · intro he
    by_cases htab : s₁.HasTable source (pageOf sa + i)
    · obtain ⟨hpage, hsame⟩ := hsep.cellOf_shared (ht.live ▸ hd) (ht.live ▸ hs) hj' (by omega)
        (hall j hj) htab he
      rw [hck] at hsame
      exact ⟨hpage, hsame.imp_left Eq.symm⟩
    · -- without a table it would be page 0
      have hzero := hsep.absent source ((pageOf sa + i) / 1024) (ht.live ▸ hs) (by omega) htab
      have hdest := (hsep.table_allocated (ht.live ▸ hd) (by omega) (hall j hj)).1
      exact absurd ((Prod.mk.inj he).1.trans hzero) hdest
  · rintro ⟨hpage, rfl | hc⟩
    · rw [hpage]
    · have hc := hck.mpr hc
      have hword := (hsep.shared d _ (ht.live ▸ hd) hc).trans
        (hsep.shared source _ (ht.live ▸ hs) hc).symm
      rw [← hpage]
      exact Prod.ext (congrArg physAddr hword) rfl

include h hd hf ht hall hin in
theorem rangeCells_inj (hn : n ≤ pagesIn la sz) : ∀ i < n, ∀ j < n,
    s₁.cellOf d (pageOf la + i) = s₁.cellOf d (pageOf la + j) → i = j := by
  intro i hi j hj he
  have := (h.tablesFor hd ht hf).cellOf_inj (ht.live ▸ hd) (pagesIn_lt hin (hi.trans_le hn))
    (pagesIn_lt hin (hj.trans_le hn)) (hall i (hi.trans_le hn)) (hall j (hj.trans_le hn)) he
  omega

include h hs hd hf ht hall hsin hin in
/-- The entries of the new range agree with the source's if no page of the source is stored to
behind reading it. -/
theorem copied_agree_iff (hn : n ≤ pagesIn la sz) :
    (∀ i < n, (s₁.copyPages source sa d la n).cell (s₁.cellOf d (pageOf la + i)) =
        (s₁.copyPages source sa d la n).cell (s₁.cellOf source (pageOf sa + i))) ↔
      ∀ i < n, ∀ j < n, i < j → s.StoresTo source sa d la i j →
        s.copiedWord source sa d la sz j = s.copiedWord source sa d la sz i := by
  have hinj := rangeCells_inj h hd hf ht hall hin hn
  have hcell := fun {i j} (hi : i < n) (hj : j < n) =>
    copyCell_iff h hs hd hf ht hall hsin hin (hi.trans_le hn) (hj.trans_le hn)
  have hread := fun {i} (hi : i < n) =>
    cell_source h hf ht hs (show pageOf sa + i < 2 ^ 20 by omega)
  refine (copyAlong_shared_iff hinj ?_).trans ?_
  · -- the two ranges are apart by the same number of pages everywhere
    rcases Nat.le_total (pageOf sa) (pageOf la) with hle | hle
    · refine .inl fun i hi j hj he => ?_
      have := ((hcell hi hj).mp he).1
      omega
    · refine .inr fun i hi j hj he => ?_
      have := ((hcell hi hj).mp he).1
      omega
  · refine forall₄_congr fun i hi j hj => imp_congr_right fun _ => ?_
    rw [hcell hi hj, hread hi, hread hj]

include h hs hd hf ht hall hsin hin in
/-- What is read without a table is not stored to. -/
theorem copied_absent (hn : n ≤ pagesIn la sz) {i : Nat} (hi : i < pagesIn la sz)
    (htab : ¬ s₁.HasTable source (pageOf sa + i)) :
    (s₁.copyPages source sa d la n).cell (s₁.cellOf source (pageOf sa + i)) =
      s.copiedWord source sa d la sz i := by
  have hlt : pageOf sa + i < 2 ^ 20 := by omega
  rw [← cell_source h hf ht hs hlt]
  refine copyAlong_outside fun j hj he => htab ?_
  have hj' : j < pagesIn la sz := hj.trans_le hn
  obtain ⟨hpage, hsame⟩ := (copyCell_iff h hs hd hf ht hall hsin hin hi hj').mp he.symm
  rw [← hpage]
  rcases hsame with rfl | hc
  · exact hall j hj'
  · have hc := (ckTable_tablesFor ht _).mpr hc
    rw [HasTable, (h.tablesFor hd ht hf).shared source _ (ht.live ▸ hs) hc]
    exact hc.2.2

include h hs hd hf ht hall hsin hin in
theorem copies_iff (hn : n ≤ pagesIn la sz) :
    (∀ i < n, (s₁.copyPages source sa d la n).Copies source (pageOf sa + i)
      ((s₁.copyPages source sa d la n).entry d (pageOf la + i))) ↔
    (∀ i < n, (s₁.copyPages source sa d la n).cell (s₁.cellOf d (pageOf la + i)) =
        (s₁.copyPages source sa d la n).cell (s₁.cellOf source (pageOf sa + i))) ∧
      ∀ i < n, ¬ s.HasTable source (pageOf sa + i) →
        ¬ Present (s.copiedWord source sa d la sz i) := by
  have hentry : ∀ i < n, (s₁.copyPages source sa d la n).entry d (pageOf la + i) =
      (s₁.copyPages source sa d la n).cell (s₁.cellOf d (pageOf la + i)) := fun i hi =>
    entry_withCells _ (hall i (hi.trans_le hn))
  have htables := fun {i} (hi : i < n) =>
    hasTable_tablesFor ht hf source (show pageOf sa + i < 2 ^ 20 by omega)
  have habsent := fun {i k} (hk : k ≤ pagesIn la sz) (hi : i < n) =>
    copied_absent h hs hd hf ht hall hsin hin hk (hi.trans_le hn)
  -- a word that is read without a table
  have hread : ∀ i < n, ¬ s₁.HasTable source (pageOf sa + i) →
      (s₁.copyPages source sa d la n).cell (s₁.cellOf d (pageOf la + i)) =
        s.copiedWord source sa d la sz i := fun i hi htab => by
    rw [← habsent (hi.le.trans hn) hi htab]
    exact copyAlong_inside (rangeCells_inj h hd hf ht hall hin hn) hi
  constructor
  · intro hc
    refine ⟨fun i hi => ?_, fun i hi hno => ?_⟩
    · have hci := hc i hi
      rw [hentry i hi] at hci
      unfold Copies at hci
      split at hci
      · exact hci
      · next htab => rw [hread i hi htab, habsent hn hi htab]
    · have hci := hc i hi
      rw [hentry i hi] at hci
      unfold Copies at hci
      split at hci
      · next htab =>
        -- the table is new, and empty
        obtain ⟨rfl, hm⟩ := ((htables hi).mp htab).resolve_left hno
        rw [copiedWord, if_pos ⟨rfl, hm⟩]
        exact not_present_zero
      · next htab => rwa [hread i hi htab] at hci
  · rintro ⟨hsame, hno⟩ i hi
    rw [hentry i hi]
    unfold Copies
    split
    · exact hsame i hi
    · next htab =>
      rw [hread i hi htab]
      exact hno i hi fun hold => htab ((htables hi).mpr (.inl hold))

end

/-- **When the copied pages are those of the source** in the end. -/
theorem mappedAs_iff (h : s.Separate) (hs : s.live source = true) (hd : s.live d = true)
    (hf : s.GivesOut d la (la + sz) pageTables) (ht : TablesFor s d la (la + sz) pageTables s₁) :
    (s₁.copyPages source sa d la (pagesCopied la sz)).MappedAs source sa d la sz ↔
      s.CopyMaps source sa d la sz := by
  by_cases hinside : pageOf sa + pagesIn la sz ≤ 2 ^ 20 ∧ la.toNat + sz.toNat ≤ 2 ^ 32
  swap
  · exact iff_of_false (fun hm => hinside hm.inside) fun hm => hinside hm.inside
  obtain ⟨hsin, hin⟩ := hinside
  rcases Nat.lt_or_eq_of_le hin with hbelow | htop
  · have hn := pagesCopied_below hbelow
    have htables : ∀ i < pagesIn la sz, s₁.HasTable d (pageOf la + i) ↔
        s.HasTable d (pageOf la + i) ∨ (pageOf la + i) / 1024 ∈ s.missing d la (la + sz) := by
      intro i hi
      have := pagesIn_lt hin hi
      exact ht.present_iff hf (by omega)
    rw [hn]
    constructor
    · intro hm
      have hall : ∀ i < pagesIn la sz, s₁.HasTable d (pageOf la + i) := fun i hi =>
        (hm.pages i hi).1
      obtain ⟨hsame, habsent⟩ := (copies_iff h hs hd hf ht hall hsin hin (Nat.le_refl _)).mp
        fun i hi => (hm.pages i hi).2
      refine ⟨⟨hsin, hin⟩, fun i hi => (htables i hi).mp (hall i hi), ?_, ?_, fun i hi hle => ?_⟩
      · rwa [hn]
      · rw [hn]
        exact (copied_agree_iff h hs hd hf ht hall hsin hin (Nat.le_refl _)).mp hsame
      · omega
    · intro hm
      have hall : ∀ i < pagesIn la sz, s₁.HasTable d (pageOf la + i) := fun i hi =>
        (htables i hi).mpr (hm.tables i hi)
      have hbehind := hm.behind
      have habsent := hm.absent
      rw [hn] at hbehind habsent
      have hsame := (copied_agree_iff h hs hd hf ht hall hsin hin (Nat.le_refl _)).mpr hbehind
      exact ⟨⟨hsin, hin⟩, fun i hi => ⟨hall i hi,
        (copies_iff h hs hd hf ht hall hsin hin (Nat.le_refl _)).mpr ⟨hsame, habsent⟩ i hi⟩⟩
  · -- nothing is copied, and no table is added
    have hzero := pagesCopied_top htop
    have hnone : s.missing d la (la + sz) = [] := by
      have hslot : slotOf (0#32 + 0x3fffff#32) = 0 := rfl
      rw [rangeEnd_top htop, missing, slots, hslot, Nat.zero_sub]
      rfl
    have hsame : s₁ = s := by
      rcases ht with ⟨hs, -⟩ | ⟨hm, -⟩
      · exact hs
      · exact absurd hnone hm
    subst hsame
    rw [hzero]
    constructor
    · intro hm
      refine ⟨⟨hsin, hin⟩, fun i hi => .inl (hm.pages i hi).1, ?_, ?_,
        fun i hi _ => (hm.pages i hi).2⟩
      · rw [hzero]
        exact fun i hi => absurd hi (Nat.not_lt_zero i)
      · rw [hzero]
        exact fun i hi => absurd hi (Nat.not_lt_zero i)
    · intro hm
      refine ⟨⟨hsin, hin⟩, fun i hi => ⟨(hm.tables i hi).resolve_right ?_, ?_⟩⟩
      · rw [hnone]
        exact List.not_mem_nil
      · exact hm.already i hi (by omega)

/-! ## Page tables that differ in the usage counts only -/

section

variable (hword : ∀ d', ∀ k < 1024, s'.addrSpc d' k = s.addrSpc d' k) (hcell : s'.cell = s.cell)
  (hrest : s'.rest = s.rest)

include hword in
theorem missing_congr (d : Addr) (a e : UADDR) : s'.missing d a e = s.missing d a e := by
  refine List.filter_congr fun k hk => ?_
  rw [hword d k (slots_lt hk)]

include hword hrest in
theorem givesOut_congr {a e : UADDR} (hf : s.GivesOut d a e pageTables) :
    s'.GivesOut d a e pageTables := by
  intro hne
  rw [missing_congr hword, Fresh, (rest_inj hrest).2.2.2]
  exact hf hne

include hword hcell in
theorem entry_congr (d' : Addr) (hp : p < 2 ^ 20) : s'.HasTable d' p = s.HasTable d' p ∧
    s'.cell (s'.cellOf d' p) = s.cell (s.cellOf d' p) ∧ s'.entry d' p = s.entry d' p := by
  have htab : s'.HasTable d' p = s.HasTable d' p := by
    rw [HasTable, HasTable, hword d' _ (by omega)]
  have hword' : s'.cell (s'.cellOf d' p) = s.cell (s.cellOf d' p) := by
    rw [hcell, cellOf, cellOf, tableOf, tableOf, hword d' _ (by omega)]
  refine ⟨htab, hword', ?_⟩
  unfold entry
  simp only [htab, hword']

include hword hcell in
theorem copies_congr (source : Addr) (hp : p < 2 ^ 20) (w : UADDR) :
    s'.Copies source p w = s.Copies source p w := by
  obtain ⟨htab, hc, -⟩ := entry_congr hword hcell source hp
  unfold Copies
  simp only [htab, hc]

include hword hcell in
theorem copiedWord_congr (source : Addr) (sa : UADDR) (d : Addr) (la sz : UADDR) {i : Nat}
    (hp : pageOf sa + i < 2 ^ 20) :
    s'.copiedWord source sa d la sz i = s.copiedWord source sa d la sz i := by
  unfold copiedWord
  rw [missing_congr hword, (entry_congr hword hcell source hp).2.1]

include hword hcell hrest in
theorem CopyMaps.congr (hm : s.CopyMaps source sa d la sz) : s'.CopyMaps source sa d la sz := by
  obtain ⟨hsin, hin⟩ := hm.inside
  have hn := pagesCopied_le_in hin
  have hread := fun {i} (hi : i < pagesCopied la sz) =>
    copiedWord_congr hword hcell source sa d la sz (show pageOf sa + i < 2 ^ 20 by omega)
  have hsource := fun {i} (hi : i < pagesIn la sz) =>
    entry_congr hword hcell source (show pageOf sa + i < 2 ^ 20 by omega)
  have hdest := fun {i} (hi : i < pagesIn la sz) =>
    entry_congr hword hcell d (pagesIn_lt hin hi)
  constructor
  case inside => exact hm.inside
  case tables =>
    intro i hi
    rw [(hdest hi).1, missing_congr hword]
    exact hm.tables i hi
  case absent =>
    intro i hi
    rw [(hsource (hi.trans_le hn)).1, hread hi]
    exact hm.absent i hi
  case behind =>
    intro i hi j hj
    rw [hread hi, hread hj, StoresTo, ckTable_congr (rest_inj hrest).1]
    exact hm.behind i hi j hj
  case already =>
    intro i hi hle
    rw [copies_congr hword hcell source (by omega), (hdest hi).2.2]
    exact hm.already i hi hle

end

/-- The page tables without the `n` pages from `a` on. -/
def cleared (s : Paging) (d : Addr) (a : UADDR) (n : Nat) : Paging :=
  s.withCells (storeAlong (fun i => s.cellOf d (pageOf a + i)) n (fun _ => 0#32) s.cell)

theorem Unmapped.copyMaps_iff {d' : Addr} {a : UADDR} (hun : Unmapped s d' a n 0#32 s') :
    s'.CopyMaps source sa d la sz ↔ (s.cleared d' a n).CopyMaps source sa d la sz := by
  constructor
  · exact CopyMaps.congr (fun d k hk => (hun.word d k hk).symm) hun.cell.symm hun.rest.symm
  · exact CopyMaps.congr (fun d k hk => hun.word d k hk) hun.cell hun.rest

end Paging

variable {m m' m₁ m₂ : ShMem} {L L' : Addr → ShMemList → List Addr} {object x : Addr}
  {smo : ShMemRecord} {logAddr size pageTables : UADDR} {a : SHTHREADLIST}

namespace ShMem

/-! ## The call -/

/-- The object is attached at the new range only: the thread has a node with the range, of the
pages of `a` those outside of it are not present, and those of the range are the owner's. -/
structure Remapped (m m' : ShMem) (object : Addr) (smo : ShMemRecord) (la sz : UADDR)
    (a : SHTHREADLIST) : Prop where
  recorded : ∃ L x, m'.Lists L ∧ x ∈ L object .threads ∧ m'.node x = ⟨m.currtask, la, sz⟩
  gone : ∀ p < 2 ^ 20, InPages a.logicalAddr (pagesCopied a.logicalAddr a.size) p →
    ¬ InPages la (pagesIn la sz) p → ¬ Present (m'.paging.entry m.directory p)
  mapped : m'.paging.MappedAs (m.ownerDirectory smo) smo.logicalAddr m.directory la sz

/-- The lists, the recorded ranges and the page tables are as they were. -/
structure SameAttachment (m m' : ShMem) (L : Addr → ShMemList → List Addr) : Prop where
  lists : m'.Lists L
  node : m'.node = m.node
  paging : m'.paging = m.paging

/-- A remap returns 0 with the object at the new range only, or an error with all as it was. -/
def AllOrNothing (m : ShMem) (L : Addr → ShMemList → List Addr) (object : Addr)
    (smo : ShMemRecord) (logAddr size pageTables : UADDR) (a : SHTHREADLIST) : Prop :=
  ∃ m' e, m.ckShMemRemap object logAddr size pageTables = some (m', e) ∧
    (e = 0#32 → m.Remapped m' object smo logAddr (attachSize smo size) a) ∧
    (e ≠ 0#32 → m.SameAttachment m' L)

/-- A remap that goes through: the usage counts outlast the pages of `a`, the attach is not
refused, and once these pages are cleared, the copy maps the pages of the owner. -/
structure RemapFits (m : ShMem) (smo : ShMemRecord) (logAddr size pageTables : UADDR)
    (a : SHTHREADLIST) : Prop where
  outlasts : m.paging.Outlasts m.directory a.logicalAddr (pagesMarked a.logicalAddr a.size)
  owner : m.currtask ≠ smo.owner
  ownerAspace : ¬ m.NoAddrSpc (m.addressSpace smo.owner)
  tables : ¬ m.paging.NoTables m.directory logAddr (logAddr + attachSize smo size) pageTables
  pages : (m.paging.cleared m.directory a.logicalAddr
    (pagesMarked a.logicalAddr a.size)).CopyMaps (m.ownerDirectory smo) smo.logicalAddr m.directory
      logAddr (attachSize smo size)

/-- The pointers determine the lists. -/
theorem Lists.unique (h : m.Lists L) (h' : m.Lists L') (o : Addr) (w : ShMemList) :
    L o w = L' o w := by
  cases hsmo : m.shMem o with
  | none => rw [h.gone hsmo, h'.gone hsmo]
  | some smo => exact (h.queue hsmo w).chained.unique (h'.queue hsmo w).chained

/-- A node that was taken out of a list makes it another one. -/
theorem Relinked.not_lists {w w' : ShMemList} (hl : m.Relinked m' L object smo x w w')
    (hw : w' ≠ w) : ¬ m'.Lists L := by
  intro h
  obtain ⟨as, bs, heq, hlists⟩ := hl.lists
  have hsame := hlists.unique h object w
  rw [setList_of_ne fun he => hw he.2.symm, setList_self, heq] at hsame
  have hlen := congrArg List.length hsame
  simp at hlen

/-- A remap of a thread that is attached. -/
theorem ckShMemRemap_eq (h : m.Lists L) (hsmo : m.shMem object = some smo)
    (logAddr size pageTables : UADDR) :
    m.ckShMemRemap object logAddr size pageTables = (m.ckShMemDetach object).bind fun r =>
      if r.2 ≠ 0#32 then some r else r.1.ckShMemAttach object logAddr size pageTables := by
  unfold ckShMemRemap
  rw [if_neg (not_not.mpr (h.live hsmo).1)]
  rfl

/-- The thread is invited again, so the attach is refused for the other reasons only. -/
theorem Detached.accepted_iff {ends : ShMemList → Ends Addr}
    (hdet : m.Detached m₁ L object smo x) (hx : (m.node x).thread = m.currtask)
    (haspace : ¬ m.NoAddrSpc m.aspace) :
    m₁.AttachAccepted object { smo with ends := ends } logAddr size pageTables ↔
      m.currtask ≠ smo.owner ∧ ¬ m.NoAddrSpc (m.addressSpace smo.owner) ∧
      ¬ m.paging.NoTables m.directory logAddr (logAddr + attachSize smo size) pageTables := by
  have hc : m₁.currtask = m.currtask := (congrArg ShMem.currtask hdet.link.frame).trans rfl
  have hspaces : m₁.addressSpace = m.addressSpace :=
    (congrArg ShMem.addressSpace hdet.link.frame).trans rfl
  have haspace₁ : m₁.aspace = m.aspace := (congrArg ShMem.aspace hdet.link.frame).trans rfl
  have htables :
      m₁.paging.NoTables m₁.directory logAddr (logAddr + attachSize smo size) pageTables ↔
      m.paging.NoTables m.directory logAddr (logAddr + attachSize smo size) pageTables := by
    rw [NoTables, NoTables, hdet.link.directory, missing_congr hdet.paging.word]
  constructor
  · intro hacc
    refine ⟨hc ▸ hacc.owner, ?_, fun hno => hacc.tables (htables.mpr hno)⟩
    have howner := hacc.ownerAspace
    rwa [hspaces, hdet.link.noAddrSpc] at howner
  · rintro ⟨howner, hospace, hno⟩
    obtain ⟨L₁, h₁, hx₁⟩ := hdet.link.mem
    constructor
    case owner => exact hc ▸ howner
    case aspace => rwa [haspace₁, hdet.link.noAddrSpc]
    case ownerAspace => rwa [hspaces, hdet.link.noAddrSpc]
    case invited => exact h₁.nodeIn_isSome hx₁ (by rw [hdet.node, hx, hc])
    case tables => exact fun hno' => hno (htables.mp hno')

/-- What a remap that goes through leaves. -/
theorem Detached.remapped_iff {ends : ShMemList → Ends Addr} {L₁ : Addr → ShMemList → List Addr}
    {y : Addr} (hdet : m.Detached m₁ L object smo x)
    (hatt : m₁.Attached m₂ L₁ object { smo with ends := ends } logAddr size pageTables y)
    (hsep : m.paging.Separate) (hlive : m.paging.live m.directory = true)
    (hlive' : m.paging.live (m.ownerDirectory smo) = true)
    (hf : m.paging.GivesOut m.directory logAddr (logAddr + attachSize smo size) pageTables) :
    m.Remapped m₂ object smo logAddr (attachSize smo size) (m.node x) ↔
      (m.paging.cleared m.directory (m.node x).logicalAddr
        (pagesMarked (m.node x).logicalAddr (m.node x).size)).CopyMaps (m.ownerDirectory smo)
          smo.logicalAddr m.directory logAddr (attachSize smo size) := by
  have hsep₁ := hdet.paging.separate hsep
  have hlive₁ : m₁.paging.live = m.paging.live := hdet.paging.live
  have hdir : m₁.directory = m.directory := hdet.link.directory
  have hodir : m₁.ownerDirectory { smo with ends := ends } = m.ownerDirectory smo :=
    (congrArg (fun m => ownerDirectory m { smo with ends := ends }) hdet.link.frame).trans rfl
  have hc : m₁.currtask = m.currtask := (congrArg ShMem.currtask hdet.link.frame).trans rfl
  have hf₁ : m₁.paging.GivesOut m.directory logAddr (logAddr + attachSize smo size) pageTables :=
    givesOut_congr hdet.paging.word hdet.paging.rest hf
  have hmapped : m₂.paging.MappedAs (m.ownerDirectory smo) smo.logicalAddr m.directory logAddr
      (attachSize smo size) ↔ m₁.paging.CopyMaps (m.ownerDirectory smo) smo.logicalAddr m.directory
        logAddr (attachSize smo size) := by
    obtain ⟨s₁, ht, hpaging⟩ := hatt.paging
    rw [hdir] at ht
    rw [hpaging, hdir, hodir]
    exact mappedAs_iff hsep₁ (hlive₁ ▸ hlive') (hlive₁ ▸ hlive) hf₁ ht
  rw [← hdet.paging.copyMaps_iff, ← hmapped]
  refine ⟨fun hr => hr.mapped, fun hm => ⟨?_, fun p hp hin hout => ?_, hm⟩⟩
  · obtain ⟨L₂, h₂, hy⟩ := hatt.link.mem
    refine ⟨L₂, y, h₂, hy, ?_⟩
    rw [hatt.node, update_self, hc]
    rfl
  · -- the detach cleared the page, and the attach did not come to it
    have hnot : ¬ InPages logAddr (pagesCopied logAddr (attachSize smo size)) p := fun hcopied =>
      hout ⟨hcopied.1, hcopied.2.trans_le (Nat.add_le_add_left (pagesCopied_le_in hm.inside.2) _)⟩
    have hmarked : InPages (m.node x).logicalAddr
        (pagesMarked (m.node x).logicalAddr (m.node x).size) p :=
      ⟨hin.1, hin.2.trans_le (Nat.add_le_add_left (pagesCopied_le ..) _)⟩
    have hsame := hatt.entry_outside hsep₁ (by rw [hdir, hlive₁]; exact hlive) (hdir ▸ hf₁) hp hnot
    rw [hdir] at hsame
    rw [hsame, hdet.paging.entry_eq hsep hlive (page_marked_le ..) hp, if_pos hmarked]
    exact not_present_zero

/-- **When a remap is all or nothing**: the detach is refused, so that nothing happens; or the
usage counts last, the attach is not refused, and the copy maps the pages of the owner. -/
theorem remap_all_or_nothing_iff (h : m.Lists L) (hsep : m.paging.Separate)
    (hspace : ∀ aspace, ¬ m.NoAddrSpc aspace → m.paging.live (m.addrSpc aspace) = true)
    (hsmo : m.shMem object = some smo) (ha : m.attachment object = some a)
    (hf : m.paging.GivesOut m.directory logAddr (logAddr + attachSize smo size) pageTables) :
    m.AllOrNothing L object smo logAddr size pageTables a ↔
      m.NoAddrSpc m.aspace ∨ m.RemapFits smo logAddr size pageTables a := by
  obtain ⟨x, hx, rfl⟩ := Option.map_eq_some_iff.mp ha
  have hremap := ckShMemRemap_eq h hsmo logAddr size pageTables
  rcases ckShMemDetach_results h hsmo hx with
    ⟨hno, hcall⟩ | ⟨haspace, hnot, hcall⟩ | ⟨haspace, hlasts, m₁, hcall, hdet⟩
  · rw [hcall, Option.bind_some, if_pos (show ENOVALIDADDRSPC ≠ 0#32 by decide)] at hremap
    refine iff_of_true ⟨m, _, hremap, fun he => absurd he (by decide), fun _ => ?_⟩ (.inl hno)
    exact ⟨h, rfl, rfl⟩
  · rw [hcall, Option.bind_none] at hremap
    refine iff_of_false ?_ ?_
    · rintro ⟨m', e, hs, -⟩
      rw [hremap] at hs
      exact absurd hs nofun
    · rintro (hno | hfits)
      · exact haspace hno
      · exact hnot hfits.outlasts
  · rw [hcall, Option.bind_some, if_neg (not_not.mpr rfl)] at hremap
    have hne : ShMemList.invited ≠ .threads := by decide
    have hmem := h.nodeIn_mem hx
    obtain ⟨L₁, h₁, -⟩ := hdet.link.mem
    obtain ⟨ends, hsmo₁⟩ := hdet.link.record
    have haccepted : m₁.AttachAccepted object { smo with ends := ends } logAddr size pageTables ↔
        _ := hdet.accepted_iff hmem.2 haspace
    rcases ckShMemAttach_results h₁ hsmo₁ (hdet.paging.separate hsep).unlocked logAddr size
      pageTables with ⟨hrefused, e, he, hcall'⟩ | ⟨hacc, y, m₂, -, hcall', hatt⟩
    · -- the detach has moved the node
      rw [hcall'] at hremap
      refine iff_of_false ?_ ?_
      · rintro ⟨m', e', hs, -, herror⟩
        obtain ⟨rfl, rfl⟩ := Prod.mk.inj (Option.some.inj (hremap.symm.trans hs))
        exact hdet.link.not_lists hne (herror he).lists
      · rintro (hno | hfits)
        · exact haspace hno
        · exact hrefused (haccepted.mpr ⟨hfits.owner, hfits.ownerAspace, hfits.tables⟩)
    · rw [hcall'] at hremap
      obtain ⟨howner, hospace, htables⟩ := haccepted.mp hacc
      have hmaps := hdet.remapped_iff hatt hsep (hspace _ haspace) (hspace _ hospace) hf
      constructor
      · rintro ⟨m', e, hs, hzero, -⟩
        obtain ⟨rfl, rfl⟩ := Prod.mk.inj (Option.some.inj (hremap.symm.trans hs))
        exact .inr ⟨hlasts, howner, hospace, htables, hmaps.mp (hzero rfl)⟩
      · rintro (hno | hfits)
        · exact absurd hno haspace
        · exact ⟨m₂, 0#32, hremap, fun _ => hmaps.mpr hfits.pages, fun he => absurd rfl he⟩

end ShMem

/-! ## A remap without memory for a table -/

/-- Only 48 and 64 are address spaces, and both are set up. -/
theorem pageShared_live {aspace : Addr} (hvalid : ¬ pageShared.NoAddrSpc aspace) :
    twoSpaces.live (pageShared.addrSpc aspace) = true := by
  have hsig : update shMemAtBoot.signature 80 .SIGSHMEM aspace = .SIGADDRSPC := by
    by_contra hne
    exact hvalid (.inr hne)
  rw [update_apply] at hsig
  by_cases hs : aspace = 48 ∨ aspace = 64
  · rcases hs with rfl | rfl
    · rfl
    · rfl
  · split at hsig
    · exact absurd hsig nofun
    · rw [show shMemAtBoot.signature aspace = _ from if_neg hs] at hsig
      exact absurd hsig nofun

open ShMem in
/-- Thread 32 moves its page within the slot. -/
theorem remap_page : ∃ m₁ L smo a,
    pageShared.ckShMemAttach 80 0x1000#32 0x1000#32 (linear (16#32 <<< 12)) = some (m₁, 0#32) ∧
      m₁.shMem 80 = some smo ∧ m₁.attachment 80 = some a ∧
      m₁.AllOrNothing L 80 smo 0x5000#32 0x1000#32 0#32 a := by
  have hcall : ((pageShared.ckShMemAttach 80 0x1000#32 0x1000#32 (linear (16#32 <<< 12))).any
      fun r => decide (r.2 = 0#32 ∧ ¬ r.1.paging.NoTables 64 0x5000#32 0x6000#32 0#32 ∧
        (r.1.paging.cleared 64 0x1000#32 (pagesMarked 0x1000#32 0x1000#32)).CopyMaps 48 0x400000#32
          64 0x5000#32 0x1000#32)) = true := by decide +kernel
  obtain ⟨⟨m₁, e⟩, hattach, htests⟩ := (Option.any_eq_true _ _).mp hcall
  obtain ⟨rfl, htables, hpages⟩ := of_decide_eq_true htests
  obtain ⟨L, smo, h, hsmo, howner, hla, hsz⟩ := pageShared_lists
  obtain ⟨hsep, hlive, -⟩ := ownerMapped_separate
  have hpage : pageShared.paging.live pageShared.directory = true := congrFun hlive 64
  have hf : pageShared.paging.GivesOut pageShared.directory 0x1000#32
      (0x1000#32 + attachSize smo 0x1000#32) (linear (16#32 <<< 12)) := by
    rw [hsz]
    decide +kernel
  obtain ⟨-, x, hatt⟩ := ckShMemAttach_attached h hsmo hsep.unlocked hattach
  obtain ⟨hsep₁, -⟩ := hatt.separate hsep hpage hf
  obtain ⟨L₁, h₁, -⟩ := hatt.link.mem
  obtain ⟨ends, hsmo₁⟩ := hatt.link.record
  have ha := hatt.attachment h (by decide +kernel)
  rw [hsz] at ha
  have hlive₁ : m₁.paging.live = twoSpaces.live := by
    obtain ⟨s₁, ht, hpaging⟩ := hatt.paging
    rw [hpaging]
    exact ht.live.trans hlive
  have hframe := hatt.link.frame
  have hspace : ∀ aspace, ¬ m₁.NoAddrSpc aspace → m₁.paging.live (m₁.addrSpc aspace) = true := by
    intro aspace hvalid
    have hspaces : m₁.addrSpc = pageShared.addrSpc := (congrArg ShMem.addrSpc hframe).trans rfl
    rw [hatt.link.noAddrSpc] at hvalid
    rw [hlive₁, hspaces]
    exact pageShared_live hvalid
  have hdir : m₁.directory = 64 := hatt.link.directory
  have hodir : m₁.ownerDirectory { smo with ends := ends } = 48 := by
    rw [ownerDirectory, howner]
    exact (congrArg (fun m => m.addrSpc (m.addressSpace 16)) hframe).trans rfl
  have hsz₁ : attachSize { smo with ends := ends } 0x1000#32 = 0x1000#32 := hsz
  refine ⟨m₁, L₁, { smo with ends := ends }, _, hattach, hsmo₁, ha, ?_⟩
  refine (remap_all_or_nothing_iff h₁ hsep₁ hspace hsmo₁ ha fun hne => absurd rfl hne).mpr
    (.inr ⟨pageShared_outlasts hatt hsz, ?_, ?_, ?_, ?_⟩)
  · rw [howner]
    intro he
    have hc : m₁.currtask = 32 := (congrArg ShMem.currtask hframe).trans rfl
    rw [hc] at he
    exact absurd he (by decide)
  · rw [howner, hatt.link.noAddrSpc]
    have hspaces : m₁.addressSpace 16 = 48 :=
      (congrArg (ShMem.addressSpace · 16) hframe).trans rfl
    rw [hspaces]
    decide +kernel
  · rw [hdir, hsz₁]
    exact htables
  · rw [hdir, hodir, hsz₁, hla]
    exact hpages

/-- Thread 32 attaches the page. -/
def attachPage : List ShMemOp :=
  sharePage ++ [.call (.attach 80 0x1000#32 0x1000#32 (linear (16#32 <<< 12)))]

open ShMem in
/-- The new range is in another slot, and there is no memory for its table. The page is gone, and
the thread is not attached any more. -/
theorem remap_fails_halfway : ∃ m L smo a,
    Run shMemStep ShMemOp.Legal sharingAtBoot attachPage m ∧ m.Lists L ∧ m.shMem 80 = some smo ∧
      m.attachment 80 = some a ∧ ¬ m.AllOrNothing L 80 smo 0x800000#32 0x1000#32 0#32 a := by
  have hexec : ((exec shMemStep ShMemOp.Legal sharingAtBoot attachPage).any fun m =>
      (m.shMem 80).isSome && (m.attachment 80).isSome &&
        (m.ckShMemRemap 80 0x800000#32 0x1000#32 0#32).all fun r =>
          decide (r.2 ≠ 0#32 ∧ r.1.attachment 80 = none ∧ r.1.currtask = m.currtask)) = true := by
    decide +kernel
  obtain ⟨m, hr, hm⟩ := Run.of_exec_any hexec
  simp only [Bool.and_eq_true] at hm
  obtain ⟨⟨hsmo, ha⟩, hremap⟩ := hm
  obtain ⟨L, h, -⟩ := Run.shMem_lists sharingAtBoot_boot hr
  obtain ⟨smo, hsmo⟩ := Option.isSome_iff_exists.mp hsmo
  obtain ⟨a, ha⟩ := Option.isSome_iff_exists.mp ha
  refine ⟨m, L, smo, a, hr, h, hsmo, ha, ?_⟩
  rintro ⟨m', e, hs, -, herror⟩
  rw [hs] at hremap
  obtain ⟨he, hnone, hc⟩ := of_decide_eq_true hremap
  have hsame := herror he
  -- the same lists would have the same attachment
  rw [attachment, hsame.lists.nodeIn_eq, hsame.node, hc, ← h.nodeIn_eq] at hnone
  exact absurd (ha.symm.trans hnone) (by simp)

end Alliance.CK
