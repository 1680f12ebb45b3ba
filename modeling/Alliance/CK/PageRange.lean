import Alliance.CK.PagingTables
import Alliance.Lib.Fill

/-!
# Ranges of pages

A page of an address space has a number, from which its slot and its entry are the quotient
and the rest by 1024. A walk visits consecutive pages by their numbers (`positions_walked`). What
it stores goes to the cells of these pages: an entry of a table (`cellOf`). In one directory,
the pages of slots that have a table have distinct cells.
-/

namespace Alliance.CK

open Function Lib

/-! ## Page numbers -/

/-- The number of the page at an address. -/
def pageOf (a : UADDR) : Nat := a.toNat / 4096

theorem pageOf_eq (a : UADDR) : pageOf a = slotOf a * 1024 + entryOf a := by
  rw [pageOf, slotOf_eq, entryOf_eq]
  omega

theorem pageOf_lt (a : UADDR) : pageOf a < 2 ^ 20 := by
  have := a.isLt
  unfold pageOf
  omega

theorem entryOf_lt (a : UADDR) : entryOf a < 1024 := by
  rw [entryOf_eq]
  exact Nat.mod_lt _ (by decide)

theorem slotOf_pageOf (a : UADDR) : slotOf a = pageOf a / 1024 := by
  have := entryOf_lt a
  rw [pageOf_eq]
  omega

theorem entryOf_pageOf (a : UADDR) : entryOf a = pageOf a % 1024 := by
  have := entryOf_lt a
  rw [pageOf_eq]
  omega

/-- The end of a range that does not go past the top. -/
theorem pageOf_add {a length : UADDR} (ha : a.toNat % 4096 = 0)
    (h : a.toNat + length.toNat < 2 ^ 32) :
    pageOf (a + length) = pageOf a + pageOf length := by
  unfold pageOf
  rw [BitVec.toNat_add, Nat.mod_eq_of_lt h]
  omega

/-- The end of a range up to the top is 0. -/
theorem rangeEnd_top {a length : UADDR} (h : a.toNat + length.toNat = 2 ^ 32) :
    a + length = 0#32 := by
  apply BitVec.eq_of_toNat_eq
  rw [BitVec.toNat_add, h]
  rfl

/-! ## The positions of a range -/

theorem tablePositions_eq {k lo hi : Nat} (h : hi ≤ 1024) : tablePositions k lo hi =
    (List.range' (k * 1024 + lo) (hi - lo)).map fun p => (p / 1024, p % 1024) := by
  rw [tablePositions, ← List.map_add_range', List.map_map]
  refine List.map_congr_left fun j hj => ?_
  rw [List.mem_range'_1] at hj
  simp only [Function.comp_apply, Prod.mk.injEq]
  omega

theorem positionsFrom_eq {pdeEnd : UADDR} {last : Nat} (hlast : last ≤ 1024) (n : Nat) :
    ∀ pde : UADDR, 1024 - slotOf pde ≤ n → slotOf pde ≤ slotOf pdeEnd →
      positionsFrom pdeEnd last n pde =
        (List.range' (pageOf pde) (slotOf pdeEnd * 1024 + last - pageOf pde)).map
          fun p => (p / 1024, p % 1024) := by
  induction n with
  | zero =>
    intro pde h
    have := slotOf_lt pde
    omega
  | succ n ih =>
    intro pde h hle
    have hend := slotOf_lt pdeEnd
    have hentry := entryOf_lt pde
    rw [positionsFrom]
    split
    · next hlt =>
      rw [below_iff] at hlt
      obtain ⟨hs, he⟩ := nextSlot pde (by omega)
      have hnext : pageOf (((pde >>> 22) + 1#32) <<< 22) = pageOf pde + (1024 - entryOf pde) := by
        rw [pageOf_eq, pageOf_eq, hs, he]
        omega
      -- the rest of this table, and then the next ones
      have hsplit : slotOf pdeEnd * 1024 + last - pageOf pde = (1024 - entryOf pde) +
          (slotOf pdeEnd * 1024 + last - (pageOf pde + (1024 - entryOf pde))) := by
        rw [pageOf_eq]
        omega
      rw [ih _ (by omega) (by omega), tablePositions_eq (Nat.le_refl _), ← pageOf_eq, hnext,
        ← List.map_append, hsplit, ← List.range'_append_1]
    · next hlt =>
      rw [below_iff] at hlt
      obtain hsame : slotOf pde = slotOf pdeEnd := by omega
      have hlen : slotOf pdeEnd * 1024 + last - pageOf pde = last - entryOf pde := by
        rw [pageOf_eq]
        omega
      rw [tablePositions_eq hlast, ← pageOf_eq, hlen]

/-- How many pages a walk visits. A range whose end is in a lower slot than its start, past the
top, is visited in the slot of its start only. -/
def pagesWalked (a e : UADDR) (last : Nat) : Nat :=
  max (slotOf a) (slotOf e) * 1024 + last - pageOf a

theorem pagesWalked_of_le {a e : UADDR} (hle : slotOf a ≤ slotOf e) (last : Nat) :
    pagesWalked a e last = slotOf e * 1024 + last - pageOf a := by
  rw [pagesWalked, Nat.max_eq_right hle]

/-- **The pages that a walk visits**, in order. -/
theorem positions_walked {last : Nat} (hlast : last ≤ 1024) (a e : UADDR) :
    positions a e last = (List.range (pagesWalked a e last)).map fun i =>
      ((pageOf a + i) / 1024, (pageOf a + i) % 1024) := by
  rw [← Function.comp_def (fun p => (p / 1024, p % 1024)) (fun i => pageOf a + i), ← List.map_map,
    ← List.range'_eq_map_range]
  rcases Nat.lt_or_ge (slotOf e) (slotOf a) with hlt | hle
  · have hstop : ¬ a < e &&& 0xffc00000#32 := by
      rw [below_iff]
      omega
    have hcount : pagesWalked a e last = last - entryOf a := by
      rw [pagesWalked, Nat.max_eq_left hlt.le, pageOf_eq]
      omega
    rw [positions, positionsFrom, if_neg hstop, tablePositions_eq hlast, ← pageOf_eq, hcount]
  · rw [positions, positionsFrom_eq hlast 1024 a (by omega) hle, pagesWalked_of_le hle]

/-- None of them is past the top of the address space. -/
theorem page_walked_lt {a e : UADDR} {last i : Nat} (hlast : last ≤ 1024)
    (hi : i < pagesWalked a e last) : pageOf a + i < 2 ^ 20 := by
  have ha := slotOf_lt a
  have he := slotOf_lt e
  unfold pagesWalked at hi
  omega

/-! ## Cells -/

namespace Paging

variable {s s' : Paging} {d : Addr}

/-- The word in a cell: an entry of the table in a page. -/
def cell (s : Paging) (c : UADDR × Nat) : UADDR := s.page c.1 c.2

/-- The cell of a page of an address space, by its number. -/
def cellOf (s : Paging) (d : Addr) (p : Nat) : UADDR × Nat := (s.tableOf d (p / 1024), p % 1024)

/-- The slot of a page has a table. -/
def HasTable (s : Paging) (d : Addr) (p : Nat) : Prop := Present (s.addrSpc d (p / 1024))

instance (s : Paging) (d : Addr) (p : Nat) : Decidable (s.HasTable d p) :=
  inferInstanceAs (Decidable (_ ≠ _))

/-- The same directories over other tables. -/
def withCells (s : Paging) (m : UADDR × Nat → UADDR) : Paging :=
  { s with page := fun t j => m (t, j) }

@[simp] theorem cell_withCells (m : UADDR × Nat → UADDR) : (s.withCells m).cell = m := rfl

@[simp] theorem withCells_cell : s.withCells s.cell = s := rfl

@[simp] theorem addrSpc_withCells (m : UADDR × Nat → UADDR) :
    (s.withCells m).addrSpc = s.addrSpc := rfl

@[simp] theorem tableOf_withCells (m : UADDR × Nat → UADDR) :
    (s.withCells m).tableOf = s.tableOf := rfl

@[simp] theorem cellOf_withCells (m : UADDR × Nat → UADDR) :
    (s.withCells m).cellOf = s.cellOf := rfl

theorem setEntry_withCells (m : UADDR × Nat → UADDR) (t w : UADDR) (j : Nat) :
    (s.withCells m).setEntry t j w = s.withCells (update m (t, j) w) := by
  have hpage : ((s.withCells m).setEntry t j w).page = (s.withCells (update m (t, j) w)).page := by
    funext t' j'
    rw [page_setEntry]
    show _ = update m (t, j) w (t', j')
    rw [update_apply]
    simp only [Prod.mk_inj]
    rfl
  exact congrArg (fun page => { s with page := page }) hpage

/-- Slots with one table are one slot, of one directory or of the Cache Kernel. -/
theorem Separate.tableOf_shared (h : s.Separate) {d' : Addr} (hd : s.live d = true)
    (hd' : s.live d' = true) {k k' : Nat} (hk : k < 1024) (hk' : k' < 1024)
    (hp : Present (s.addrSpc d k)) (hp' : Present (s.addrSpc d' k'))
    (he : s.tableOf d k = s.tableOf d' k') : k = k' ∧ (d = d' ∨ s.CKTable k) := by
  by_cases hc : s.CKTable k
  · have hw : s.tableOf d k = physAddr (s.kernelDir k) := congrArg physAddr (h.shared d k hd hc)
    by_cases hc' : s.CKTable k'
    · have hw' : s.tableOf d' k' = physAddr (s.kernelDir k') :=
        congrArg physAddr (h.shared d' k' hd' hc')
      exact ⟨h.kernel.inj k k' hc hc' (hw.symm.trans (he.trans hw')), .inr hc⟩
    · exact absurd (he.symm.trans hw) (h.own_kernel d' k' k ⟨hd', hk', hp', hc'⟩ hc)
  · by_cases hc' : s.CKTable k'
    · have hw' : s.tableOf d' k' = physAddr (s.kernelDir k') :=
        congrArg physAddr (h.shared d' k' hd' hc')
      exact absurd (he.trans hw') (h.own_kernel d k k' ⟨hd, hk, hp, hc⟩ hc')
    · obtain ⟨hdir, hslot⟩ := h.own_inj d k d' k' ⟨hd, hk, hp, hc⟩ ⟨hd', hk', hp', hc'⟩ he
      exact ⟨hslot, .inl hdir⟩

/-- The table of a slot is a page that was given out, and not page 0. -/
theorem Separate.table_allocated (h : s.Separate) (hd : s.live d = true) {k : Nat} (hk : k < 1024)
    (hp : Present (s.addrSpc d k)) : s.tableOf d k ≠ 0#32 ∧ s.allocated (s.tableOf d k) = true := by
  by_cases hc : s.CKTable k
  · have hw : s.tableOf d k = physAddr (s.kernelDir k) := congrArg physAddr (h.shared d k hd hc)
    rw [hw]
    exact ⟨h.kernel.ne k hc, h.kernel.allocated k hc⟩
  · exact ⟨h.own_ne d k ⟨hd, hk, hp, hc⟩, h.own_allocated d k ⟨hd, hk, hp, hc⟩⟩

/-- Pages with one cell are one page, of one address space or under a table of the Cache
Kernel. -/
theorem Separate.cellOf_shared (h : s.Separate) {d' : Addr} (hd : s.live d = true)
    (hd' : s.live d' = true) {p p' : Nat} (hp : p < 2 ^ 20) (hp' : p' < 2 ^ 20)
    (ht : s.HasTable d p) (ht' : s.HasTable d' p') (he : s.cellOf d p = s.cellOf d' p') :
    p = p' ∧ (d = d' ∨ s.CKTable (p / 1024)) := by
  obtain ⟨htab, hentry⟩ := Prod.mk.inj he
  obtain ⟨hslot, hdir⟩ := h.tableOf_shared hd hd' (by omega) (by omega) ht ht' htab
  exact ⟨by omega, hdir⟩

/-- The pages whose slots have tables have distinct cells. -/
theorem Separate.cellOf_inj (h : s.Separate) (hd : s.live d = true) {p p' : Nat}
    (hp : p < 2 ^ 20) (hp' : p' < 2 ^ 20) (ht : s.HasTable d p) (ht' : s.HasTable d p')
    (he : s.cellOf d p = s.cellOf d p') : p = p' :=
  (h.cellOf_shared hd hd hp hp' ht ht' he).1

/-! ## Tables for a range -/

section

variable {a e pageTables : UADDR}

/-- The slots that have tables when the range has its tables. -/
theorem TablesFor.present_iff (ht : TablesFor s d a e pageTables s')
    (hf : pageTables ≠ 0#32 → s.Fresh pageTables (s.missing d a e).length) {k : Nat}
    (hk : k < 1024) :
    Present (s'.addrSpc d k) ↔ Present (s.addrSpc d k) ∨ k ∈ s.missing d a e := by
  rcases ht with ⟨rfl, hm⟩ | ⟨-, hne, ha⟩
  · rw [hm]
    simp
  · by_cases hm : k ∈ s.missing d a e
    · exact iff_of_true (ha.new (hf hne) hm).1 (.inr hm)
    · rw [ha.word k hk, if_neg hm]
      simp [hm]

/-- A table that was there is in its slot, with what it had. -/
theorem TablesFor.kept (h : s.Separate) (ht : TablesFor s d a e pageTables s')
    (hf : pageTables ≠ 0#32 → s.Fresh pageTables (s.missing d a e).length) {d' : Addr} {k : Nat}
    (hl : s.live d' = true) (hk : k < 1024) (hp : Present (s.addrSpc d' k)) :
    s'.addrSpc d' k = s.addrSpc d' k ∧ s'.page (s.tableOf d' k) = s.page (s.tableOf d' k) := by
  rcases ht with ⟨rfl, -⟩ | ⟨-, hne, ha⟩
  · exact ⟨rfl, rfl⟩
  · constructor
    · by_cases hd : d' = d
      · subst hd
        rw [ha.word k hk, if_neg fun hm => (mem_missing.mp hm).2 hp]
      · exact congrFun (ha.other d' hd) k
    · -- the pages that are cleared held no table
      rw [ha.page, if_neg fun hm => ?_]
      have hfree := ((hf hne).2 _ hm).2
      rw [(h.table_allocated hl hk hp).2] at hfree
      exact absurd hfree (by simp)

/-- A table that was added is a page of its own, and empty. -/
theorem TablesFor.new (ht : TablesFor s d a e pageTables s')
    (hf : pageTables ≠ 0#32 → s.Fresh pageTables (s.missing d a e).length) {k : Nat}
    (hm : k ∈ s.missing d a e) :
    s.allocated (s'.tableOf d k) = false ∧ s'.page (s'.tableOf d k) = fun _ => 0#32 := by
  rcases ht with ⟨rfl, hnil⟩ | ⟨-, hne, ha⟩
  · rw [hnil] at hm
    exact absurd hm List.not_mem_nil
  · obtain ⟨-, -, -, hfree, hpages⟩ := ha.new (hf hne) hm
    refine ⟨hfree, ?_⟩
    rw [ha.page, if_pos hpages]

end

end Paging

end Alliance.CK
