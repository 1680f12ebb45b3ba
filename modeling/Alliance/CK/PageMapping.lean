import Alliance.CK.KernelMappings
import Alliance.CK.PageRange
import Alliance.Lib.Guard

/-!
# What `CKsetPageMapping` maps

The last loop of `CKsetPageMapping` goes up to the entry of the end of the range, so one page
more is mapped than the range has. Whether that does harm depends on the slot of the end: a
table that was added for the range had nothing in this entry; a table that was there before
loses what it had; and behind the last table that was added for a range that ends on a table's
border, there may be no table at all (`mapping_exact_iff`).
-/

namespace Alliance.CK

open Function Lib

namespace Paging

variable {s s₁ s' : Paging} {d : Addr} {la pa length attr pageTables : UADDR}

/-! ## What the call is for -/

/-- The flags of a page that is mapped. -/
def pageFlags (attr : UADDR) : UADDR := PTPRESENT ||| PTUSER ||| (attr &&& 0x1ff#32)

/-- The entry for the frame `i` pages behind `pa`. -/
def frameEntry (pa attr : UADDR) (i : Nat) : UADDR :=
  (pa + BitVec.ofNat 32 (i * 4096)) ||| pageFlags attr

/-- `CKsetPageMapping`, where a store through a slot without a table has no meaning. -/
def ckSetPageMappingChecked (s : Paging) (d : Addr) (logicalPageAddr physicalPageAddr length attr
    pageTables : UADDR) : Option (Paging × Bool) :=
  let pdeEnd := logicalPageAddr + length
  (s.addTables d logicalPageAddr pdeEnd pageTables).bind fun (s, ok) =>
  if ok then
    (walkPages (fun (r : Paging × UADDR) k => r.1.tableOf d k)
      (fun t k pte r =>
        if Present (r.1.addrSpc d k) then
          some (r.1.setEntry t pte
            (pageTableEntry r.2 (PTPRESENT ||| PTUSER ||| (attr &&& 0x1ff#32))), r.2 + 1#32)
        else none)
      logicalPageAddr pdeEnd (entryOf pdeEnd + 1) (s, physicalPageAddr.sshiftRight 12)).map
      fun r => (r.1, true)
  else some (s, false)

/-- The pages of the range lead to the frames from `pa` on, and every other entry of a table that
was there before is as it was, in all address spaces. -/
structure MapsExactly (s : Paging) (d : Addr) (la pa length attr : UADDR) (s' : Paging) :
    Prop where
  mapped : ∀ i < pageOf length, s'.HasTable d (pageOf la + i) ∧
    s'.cell (s'.cellOf d (pageOf la + i)) = frameEntry pa attr i
  kept : ∀ d' p, s.live d' = true → p < 2 ^ 20 → s.HasTable d' p →
    (∀ i < pageOf length, s.cellOf d' p ≠ s'.cellOf d (pageOf la + i)) →
      s'.addrSpc d' (p / 1024) = s.addrSpc d' (p / 1024) ∧
      s'.cell (s.cellOf d' p) = s.cell (s.cellOf d' p)

/-- A call that succeeds maps exactly its range and goes through no slot without a table; one
that fails changes nothing. -/
def MappingExact (s : Paging) (d : Addr) (la pa length attr pageTables : UADDR) : Prop :=
  ∀ s' ok, s.ckSetPageMapping d la pa length attr pageTables = some (s', ok) →
    (ok = false → s' = s) ∧
    (ok = true → MapsExactly s d la pa length attr s' ∧
      s.ckSetPageMappingChecked d la pa length attr pageTables = some (s', true))

/-- The slots of the range and of its end have tables, or get them. -/
def AllTables (s : Paging) (d : Addr) (la length : UADDR) : Prop :=
  ∀ i < pageOf length + 1, s.HasTable d (pageOf la + i) ∨
    (pageOf la + i) / 1024 ∈ s.missing d la (la + length)

/-- The page behind the range is in a table that is added, or has the entry that it gets. -/
def EndKept (s : Paging) (d : Addr) (la pa length attr : UADDR) : Prop :=
  pageOf (la + length) / 1024 ∈ s.missing d la (la + length) ∨
    s.cell (s.cellOf d (pageOf (la + length))) = frameEntry pa attr (pageOf length)

/-! ## Frames -/

/-- The signed shift loses nothing of a page's address. -/
theorem sshiftRight_page (ha : pa.toNat % 4096 = 0) :
    ((pa.sshiftRight 12).toNat * 4096) % 2 ^ 32 = pa.toNat := by
  have hint : (pa.sshiftRight 12).toInt = pa.toInt / 4096 := by
    rw [BitVec.toInt_sshiftRight, Int.shiftRight_eq_div_pow]
    rfl
  rw [BitVec.toInt_eq_toNat_cond, BitVec.toInt_eq_toNat_cond] at hint
  have := pa.isLt
  have := (pa.sshiftRight 12).isLt
  split at hint <;> split at hint <;> omega

theorem frame_eq (ha : pa.toNat % 4096 = 0) (i : Nat) :
    (pa.sshiftRight 12 + BitVec.ofNat 32 i) <<< 12 = pa + BitVec.ofNat 32 (i * 4096) := by
  have hback := sshiftRight_page ha
  apply BitVec.eq_of_toNat_eq
  rw [BitVec.toNat_shiftLeft, BitVec.toNat_add, BitVec.toNat_add, Nat.shiftLeft_eq]
  simp only [BitVec.toNat_ofNat, Nat.add_mod_mod, Nat.mod_mul_mod]
  rw [Nat.add_mul, ← Nat.mod_add_mod, show 2 ^ 12 = 4096 from rfl, hback]

/-- The word for the `i`-th frame, as the source counts it. -/
theorem frameEntry_eq (ha : pa.toNat % 4096 = 0) (i : Nat) :
    pageTableEntry (pa.sshiftRight 12 + BitVec.ofNat 32 i) (pageFlags attr) =
      frameEntry pa attr i := by
  rw [pageTableEntry, frame_eq ha, frameEntry]

/-! ## The walk -/

/-- The table that a walk stores to. -/
abbrev setTable (d : Addr) (r : Paging × UADDR) (k : Nat) : UADDR := r.1.tableOf d k

/-- One store of the walk. -/
abbrev setBody (attr t : UADDR) (_k pte : Nat) (r : Paging × UADDR) : Option (Paging × UADDR) :=
  some (r.1.setEntry t pte (pageTableEntry r.2 (PTPRESENT ||| PTUSER ||| (attr &&& 0x1ff#32))),
    r.2 + 1#32)

/-- The pages of the range and the page behind it. -/
theorem positions_range (hla : la.toNat % 4096 = 0) (hwrap : la.toNat + length.toNat < 2 ^ 32) :
    positions la (la + length) (entryOf (la + length) + 1) =
      (List.range (pageOf length + 1)).map fun i =>
        ((pageOf la + i) / 1024, (pageOf la + i) % 1024) := by
  have hend := pageOf_add hla hwrap
  have hentry := entryOf_lt (la + length)
  have hle : slotOf la ≤ slotOf (la + length) := by
    rw [slotOf_pageOf, slotOf_pageOf, hend]
    omega
  have hcount : slotOf (la + length) * 1024 + (entryOf (la + length) + 1) - pageOf la =
      pageOf length + 1 := by
    have := pageOf_eq (la + length)
    omega
  rw [positions_walked (by omega), pagesWalked_of_le hle, hcount]

/-- The walk of a range that does not go past the top: the pages of the range and the page
behind it get consecutive frames. -/
theorem walkPages_set (s₁ : Paging) (d : Addr) (attr : UADDR) (ha : pa.toNat % 4096 = 0)
    (hla : la.toNat % 4096 = 0) (hwrap : la.toNat + length.toNat < 2 ^ 32) :
    ∃ n, walkPages (setTable d) (setBody attr) la (la + length) (entryOf (la + length) + 1)
        (s₁, pa.sshiftRight 12) =
      some (s₁.withCells (storeAlong (fun i => s₁.cellOf d (pageOf la + i)) (pageOf length + 1)
        (frameEntry pa attr) s₁.cell), n) := by
  have hkeeps : KeepsTables (setTable d) (setBody attr) := by
    intro t k j r r' _ hs
    obtain rfl := Option.some.inj hs
    exact fun _ _ => rfl
  rw [walkPages_eq hkeeps, positions_range hla hwrap, List.foldlM_map]
  refine ⟨pa.sshiftRight 12 + BitVec.ofNat 32 (pageOf length + 1), ?_⟩
  -- the states that the walk goes through
  let g : Nat → Paging × UADDR := fun i =>
    (s₁.withCells (storeAlong (fun i => s₁.cellOf d (pageOf la + i)) i (frameEntry pa attr) s₁.cell),
      pa.sshiftRight 12 + BitVec.ofNat 32 i)
  have hzero : g 0 = (s₁, pa.sshiftRight 12) := Prod.ext rfl (BitVec.add_zero _)
  have hwalk := foldlM_range (n := pageOf length + 1) (g := g) (f := fun r i =>
    setBody attr (setTable d (s₁, pa.sshiftRight 12) ((pageOf la + i) / 1024))
      ((pageOf la + i) / 1024) ((pageOf la + i) % 1024) r) (fun i _ => ?_)
  · rw [hzero] at hwalk
    exact hwalk
  · refine congrArg some (Prod.ext ?_ ?_)
    · show (s₁.withCells _).setEntry _ _ _ = s₁.withCells _
      rw [setEntry_withCells, storeAlong_succ, ← frameEntry_eq ha i]
      rfl
    · show pa.sshiftRight 12 + BitVec.ofNat 32 i + 1#32 = _
      rw [BitVec.add_assoc, ← BitVec.ofNat_add]

/-- The walk with its checks has the same result if all its slots have tables, and else none. -/
theorem walkPages_checked (a e : UADDR) (last : Nat) (n : UADDR) :
    walkPages (setTable d) (fun t k pte (r : Paging × UADDR) =>
        if Present (r.1.addrSpc d k) then setBody attr t k pte r else none) a e last (s₁, n) =
      if ∀ p ∈ positions a e last, Present (s₁.addrSpc d p.1) then
        walkPages (setTable d) (setBody attr) a e last (s₁, n)
      else none := by
  have hkeeps : KeepsTables (setTable d) (setBody attr) := by
    intro t k j r r' _ hs
    obtain rfl := Option.some.inj hs
    exact fun _ _ => rfl
  have hchecked : KeepsTables (setTable d) (fun t k pte (r : Paging × UADDR) =>
      if Present (r.1.addrSpc d k) then setBody attr t k pte r else none) := by
    intro t k j r r' hk hs
    dsimp only at hs
    split at hs
    · exact hkeeps t k j r r' hk hs
    · exact absurd hs nofun
  rw [walkPages_eq hchecked, walkPages_eq hkeeps]
  have hstart : (s₁, n).1.addrSpc = s₁.addrSpc := rfl
  refine foldlM_checked (I := fun r : Paging × UADDR => r.1.addrSpc = s₁.addrSpc)
    (C := fun r (p : Nat × Nat) => Present (r.1.addrSpc d p.1))
    (D := fun p => Present (s₁.addrSpc d p.1)) ?_ ?_ hstart
  · intro r p h
    rw [h]
  · intro r p r' h hs
    obtain rfl := Option.some.inj hs
    exact h

/-! ## The call -/

theorem addTables_some (hu : s.CKFreeListLock = false) (d : Addr) (a e pageTables : UADDR) :
    ∃ r, s.addTables d a e pageTables = some r := by
  unfold addTables
  simp only [ckMemAllocPages_eq hu, Option.bind_eq_bind, Option.bind_some]
  split
  · split <;> exact ⟨_, rfl⟩
  · exact ⟨_, rfl⟩

/-- The second half of a call, with and without the checks. -/
theorem ckSetPageMapping_added
    (hadd : s.addTables d la (la + length) pageTables = some (s₁, true))
    (ha : pa.toNat % 4096 = 0) (hla : la.toNat % 4096 = 0)
    (hwrap : la.toNat + length.toNat < 2 ^ 32) :
    s.ckSetPageMapping d la pa length attr pageTables =
        some (s₁.withCells (storeAlong (fun i => s₁.cellOf d (pageOf la + i)) (pageOf length + 1)
          (frameEntry pa attr) s₁.cell), true) ∧
      s.ckSetPageMappingChecked d la pa length attr pageTables =
        if ∀ i < pageOf length + 1, s₁.HasTable d (pageOf la + i) then
          s.ckSetPageMapping d la pa length attr pageTables
        else none := by
  obtain ⟨n, hwalk⟩ := walkPages_set s₁ d attr ha hla hwrap
  have hcall : s.ckSetPageMapping d la pa length attr pageTables =
      some (s₁.withCells (storeAlong (fun i => s₁.cellOf d (pageOf la + i)) (pageOf length + 1)
        (frameEntry pa attr) s₁.cell), true) := by
    unfold ckSetPageMapping
    simp only [hadd, Option.bind_eq_bind, Option.bind_some, if_true]
    rw [hwalk]
    rfl
  refine ⟨hcall, ?_⟩
  rw [hcall]
  unfold ckSetPageMappingChecked
  simp only [hadd, Option.bind_some, if_true]
  rw [walkPages_checked, hwalk]
  have hall : (∀ p ∈ positions la (la + length) (entryOf (la + length) + 1),
      Present (s₁.addrSpc d p.1)) ↔ ∀ i < pageOf length + 1, s₁.HasTable d (pageOf la + i) := by
    rw [positions_range hla hwrap]
    simp [HasTable]
  simp only [hall]
  split <;> rfl

/-- What a call does: it fails and changes nothing, or the tables are there and the pages of the
range and the page behind it are mapped. -/
theorem ckSetPageMapping_results (d : Addr) (attr pageTables : UADDR)
    (hu : s.CKFreeListLock = false) (ha : pa.toNat % 4096 = 0) (hla : la.toNat % 4096 = 0)
    (hwrap : la.toNat + length.toNat < 2 ^ 32) :
    (s.NoTables d la (la + length) pageTables ∧
      s.ckSetPageMapping d la pa length attr pageTables = some (s, false)) ∨
    ∃ s₁, TablesFor s d la (la + length) pageTables s₁ ∧
      s.ckSetPageMapping d la pa length attr pageTables =
        some (s₁.withCells (storeAlong (fun i => s₁.cellOf d (pageOf la + i)) (pageOf length + 1)
          (frameEntry pa attr) s₁.cell), true) ∧
      s.ckSetPageMappingChecked d la pa length attr pageTables =
        if ∀ i < pageOf length + 1, s₁.HasTable d (pageOf la + i) then
          s.ckSetPageMapping d la pa length attr pageTables
        else none := by
  obtain ⟨⟨s₁, ok⟩, hadd⟩ := addTables_some hu d la (la + length) pageTables
  rcases addTables_cases hu hadd with ⟨rfl, hok, hnone⟩ | ⟨rfl, hm, hne, hadded⟩
  · cases ok with
    | false =>
      refine .inl ⟨⟨fun hm => absurd (hok.mpr hm) (by simp), hnone rfl⟩, ?_⟩
      unfold ckSetPageMapping
      simp only [hadd, Option.bind_eq_bind, Option.bind_some, Bool.false_eq_true, if_false]
    | true =>
      exact .inr ⟨s₁, .inl ⟨rfl, hok.mp rfl⟩, ckSetPageMapping_added hadd ha hla hwrap⟩
  · exact .inr ⟨s₁, .inr ⟨hm, hne, hadded⟩, ckSetPageMapping_added hadd ha hla hwrap⟩

/-! ## When it is exact -/

section

variable (h : s.Separate) (hd : s.live d = true) (hla : la.toNat % 4096 = 0)
  (hpa : pa.toNat % 4096 = 0) (hwrap : la.toNat + length.toNat < 2 ^ 32)
  (hf : s.GivesOut d la (la + length) pageTables)

include hla hwrap in
theorem page_lt {i : Nat} (hi : i < pageOf length + 1) : pageOf la + i < 2 ^ 20 := by
  have := pageOf_lt (la + length)
  rw [pageOf_add hla hwrap] at this
  omega

include hla hwrap hf in
/-- The slots that the walk goes through have tables in the end if they have or get them. -/
theorem allTables_iff (ht : TablesFor s d la (la + length) pageTables s₁) :
    (∀ i < pageOf length + 1, s₁.HasTable d (pageOf la + i)) ↔ s.AllTables d la length := by
  refine forall₂_congr fun i hi => ?_
  have := page_lt hla hwrap hi
  exact ht.present_iff hf (by omega)

include h hd hla hwrap hf in
/-- The cells that the walk stores to are distinct. -/
theorem cells_inj (ht : TablesFor s d la (la + length) pageTables s₁)
    (hall : ∀ i < pageOf length + 1, s₁.HasTable d (pageOf la + i)) :
    ∀ i < pageOf length + 1, ∀ j < pageOf length + 1,
      s₁.cellOf d (pageOf la + i) = s₁.cellOf d (pageOf la + j) → i = j := by
  intro i hi j hj he
  have hsep := h.tablesFor hd ht hf
  have := hsep.cellOf_inj (ht.live ▸ hd) (page_lt hla hwrap hi) (page_lt hla hwrap hj)
    (hall i hi) (hall j hj) he
  omega

include h hd hla hwrap hf in
/-- The range is mapped, and an entry of an old table is another one's than the walk stores to, or
it is the entry of the end, which keeps its word. -/
theorem mapsExactly (ht : TablesFor s d la (la + length) pageTables s₁)
    (hall : ∀ i < pageOf length + 1, s₁.HasTable d (pageOf la + i))
    (hend : s.EndKept d la pa length attr) :
    MapsExactly s d la pa length attr
      (s₁.withCells (storeAlong (fun i => s₁.cellOf d (pageOf la + i)) (pageOf length + 1)
        (frameEntry pa attr) s₁.cell)) := by
  have hinj := cells_inj h hd hla hwrap hf ht hall
  constructor
  · intro i hi
    exact ⟨hall i (by omega), storeAlong_inside hinj (by omega)⟩
  · intro d' p hl hp htab hout
    obtain ⟨hword, hpage⟩ := ht.kept h hf hl (show p / 1024 < 1024 by omega) htab
    have hcell : s₁.cell (s.cellOf d' p) = s.cell (s.cellOf d' p) := congrFun hpage _
    refine ⟨hword, ?_⟩
    rw [cell_withCells]
    by_cases he : s.cellOf d' p = s₁.cellOf d (pageOf la + pageOf length)
    · -- the entry of the end: its table is not a new one
      have hold := (h.table_allocated hl (show p / 1024 < 1024 by omega) htab).2
      have hnot : (pageOf la + pageOf length) / 1024 ∉ s.missing d la (la + length) := by
        intro hm
        have hfree := (ht.new hf hm).1
        rw [← (Prod.mk.inj he).1, hold] at hfree
        exact absurd hfree (by simp)
      have hpe := pageOf_add hla hwrap
      rcases hend with hm | hkept
      · rw [hpe] at hm
        exact absurd hm hnot
      · have hlt := page_lt hla hwrap (Nat.lt_succ_self (pageOf length))
        have hhas : s.HasTable d (pageOf la + pageOf length) :=
          ((ht.present_iff hf (by omega)).mp (hall _ (Nat.lt_succ_self _))).resolve_right hnot
        have hsame : s₁.cellOf d (pageOf la + pageOf length) =
            s.cellOf d (pageOf la + pageOf length) :=
          Prod.ext (congrArg physAddr (ht.kept h hf hd (by omega) hhas).1) rfl
        rw [hpe, ← hsame, ← he] at hkept
        rw [hkept, he]
        exact storeAlong_inside hinj (Nat.lt_succ_self _)
    · rw [storeAlong_outside fun i hi he' => ?_, hcell]
      rcases Nat.lt_succ_iff_lt_or_eq.mp hi with hi | rfl
      · exact hout i hi he'
      · exact he he'

include h hd hla hwrap hf in
/-- A mapping that is exact leaves the entry of the end alone. -/
theorem endKept_of_exact (ht : TablesFor s d la (la + length) pageTables s₁)
    (hall : ∀ i < pageOf length + 1, s₁.HasTable d (pageOf la + i))
    (hexact : MapsExactly s d la pa length attr
      (s₁.withCells (storeAlong (fun i => s₁.cellOf d (pageOf la + i)) (pageOf length + 1)
        (frameEntry pa attr) s₁.cell))) : s.EndKept d la pa length attr := by
  have hinj := cells_inj h hd hla hwrap hf ht hall
  have hlast := Nat.lt_succ_self (pageOf length)
  have hlt := page_lt hla hwrap hlast
  have hpe := pageOf_add hla hwrap
  by_cases hm : (pageOf la + pageOf length) / 1024 ∈ s.missing d la (la + length)
  · exact .inl (hpe ▸ hm)
  · have hhas : s.HasTable d (pageOf la + pageOf length) :=
      ((ht.present_iff hf (by omega)).mp (hall _ hlast)).resolve_right hm
    have hsame : s₁.cellOf d (pageOf la + pageOf length) =
        s.cellOf d (pageOf la + pageOf length) :=
      Prod.ext (congrArg physAddr (ht.kept h hf hd (by omega) hhas).1) rfl
    have hkept := (hexact.kept d _ hd hlt hhas fun i hi he => ?_).2
    · rw [cell_withCells, ← hsame, storeAlong_inside hinj hlast] at hkept
      right
      rw [hpe, ← hsame]
      exact hkept.symm
    · rw [← hsame] at he
      exact absurd (hinj _ hlast i (by omega) he) (by omega)

include h hd hla hpa hwrap hf in
/-- **When a mapping is exact**: there is no memory for the tables it needs, so that nothing
happens; or the slots of the range and of its end have tables or get them, and the page
behind the range is in a new table or has the entry that it gets. -/
theorem mapping_exact_iff : s.MappingExact d la pa length attr pageTables ↔
    s.NoTables d la (la + length) pageTables ∨
      (s.AllTables d la length ∧ s.EndKept d la pa length attr) := by
  rcases ckSetPageMapping_results d attr pageTables h.unlocked hpa hla hwrap with
    ⟨hno, hcall⟩ | ⟨s₁, ht, hcall, hchecked⟩
  · refine iff_of_true ?_ (.inl hno)
    intro s' ok hs
    obtain ⟨rfl, rfl⟩ := Prod.mk.inj (Option.some.inj (hcall.symm.trans hs))
    exact ⟨fun _ => rfl, fun hok => absurd hok (by simp)⟩
  · rw [or_iff_right ht.not_noTables, ← allTables_iff hla hwrap hf ht]
    constructor
    · intro hexact
      obtain ⟨hmaps, hsafe⟩ := (hexact _ _ hcall).2 rfl
      rw [hchecked] at hsafe
      split at hsafe
      · next hall => exact ⟨hall, endKept_of_exact h hd hla hwrap hf ht hall hmaps⟩
      · exact absurd hsafe nofun
    · rintro ⟨hall, hend⟩ s' ok hs
      obtain ⟨rfl, rfl⟩ := Prod.mk.inj (Option.some.inj (hcall.symm.trans hs))
      refine ⟨fun hok => absurd hok (by simp), fun _ => ⟨?_, ?_⟩⟩
      · exact mapsExactly h hd hla hwrap hf ht hall hend
      · rw [hchecked, if_pos hall, hcall]

end

instance (s : Paging) (d : Addr) (la length : UADDR) : Decidable (s.AllTables d la length) :=
  inferInstanceAs (Decidable (∀ i < _, _))

instance (s : Paging) (d : Addr) (la pa length attr : UADDR) :
    Decidable (s.EndKept d la pa length attr) := inferInstanceAs (Decidable (_ ∨ _))

/-! ## A page in front of a table's border -/

/-- One address space, with the directory 100 and no tables but the Cache Kernel's. -/
def emptySpace : Paging :=
  { vmAtBoot.paging with
    addrSpc := update vmAtBoot.paging.addrSpc 100 fun i =>
      if CKSLOT ≤ i ∧ i < 1024 then vmAtBoot.paging.kernelDir i else 0#32
    live := update vmAtBoot.paging.live 100 true }

theorem emptySpace_separate : emptySpace.Separate := by
  have hcall : vmAtBoot.paging.ckPreProcessAddrSpc 100 = some (emptySpace, 0#32) := by
    rw [ckPreProcessAddrSpc, ckMemAllocPages_nil vmAtBoot_atBoot.unlocked]
    rfl
  rcases ckPreProcessAddrSpc_cases vmAtBoot_atBoot.unlocked hcall with ⟨hnil, -⟩ | ⟨-, hadded⟩
  · exact absurd hnil (by decide)
  · exact vmAtBoot_atBoot.separate.directoryAdded rfl hadded

/-- Two pages are mapped in the middle of a table. -/
theorem mapping_exact_two :
    emptySpace.MappingExact 100 0x1000#32 0x800000#32 0x2000#32 2#32 (linear (16#32 <<< 12)) :=
  (mapping_exact_iff emptySpace_separate (by decide) (by decide) (by decide) (by decide)
    (by decide +kernel)).mpr (.inr ⟨by decide +kernel, by decide +kernel⟩)

/-- The page behind 0x3ff000 has no table, and is mapped with it. -/
theorem mapping_not_exact_border :
    ¬ emptySpace.MappingExact 100 0x3ff000#32 0x800000#32 0x1000#32 2#32 (linear (16#32 <<< 12)) := by
  intro hexact
  have hcall : (emptySpace.ckSetPageMapping 100 0x3ff000#32 0x800000#32 0x1000#32 2#32
      (linear (16#32 <<< 12))).map Prod.snd = some true := by decide +kernel
  have hnone : (emptySpace.ckSetPageMappingChecked 100 0x3ff000#32 0x800000#32 0x1000#32 2#32
      (linear (16#32 <<< 12))).isNone = true := by decide +kernel
  obtain ⟨⟨s', ok⟩, hs, rfl⟩ := Option.map_eq_some_iff.mp hcall
  rw [((hexact s' true hs).2 rfl).2] at hnone
  exact absurd hnone (by simp)

end Paging

end Alliance.CK
