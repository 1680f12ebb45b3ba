import Alliance.CK.SharedMem

/-!
# The walk through a range of pages

The two loops of a walk visit the entries of a range in order, each once: those of the slots
below the slot of the end, and those of that slot below `last`. As long as the directory
does not change, the whole walk is one fold over these positions (`walkPages_eq`).
-/

namespace Alliance.CK

open Function Lib

/-! ## Slots and entries of an address -/

theorem slotOf_eq (a : UADDR) : slotOf a = a.toNat / 2 ^ 22 := by
  rw [slotOf, BitVec.toNat_ushiftRight, Nat.shiftRight_eq_div_pow]

theorem entryOf_eq (a : UADDR) : entryOf a = a.toNat / 2 ^ 12 % 1024 := by
  rw [entryOf, BitVec.toNat_and, BitVec.toNat_ushiftRight, Nat.shiftRight_eq_div_pow]
  exact Nat.and_two_pow_sub_one_eq_mod _ 10

theorem slotOf_lt (a : UADDR) : slotOf a < 1024 := by
  have := a.isLt
  rw [slotOf_eq]
  omega

/-- The start of the table that an address is in. -/
theorem and_slotMask (a : UADDR) : (a &&& 0xffc00000#32).toNat = slotOf a * 2 ^ 22 := by
  have hbits : ∀ i < 32, (0xffc00000#32).getLsbD i = decide (22 ≤ i) := by decide
  have hmask : a &&& 0xffc00000#32 = (a >>> 22) <<< 22 := by
    refine BitVec.eq_of_getLsbD_eq fun i hi => ?_
    rw [BitVec.getLsbD_and, hbits i hi, BitVec.getLsbD_shiftLeft, BitVec.getLsbD_ushiftRight]
    by_cases h : i < 22
    · simp [h]
    · simp [h, hi, show 22 + (i - 22) = i by omega, Nat.not_lt.mp h]
  rw [hmask, BitVec.toNat_shiftLeft, slotOf, Nat.shiftLeft_eq]
  have := slotOf_lt a
  rw [slotOf] at this
  omega

theorem below_iff (pde pdeEnd : UADDR) :
    pde < pdeEnd &&& 0xffc00000#32 ↔ slotOf pde < slotOf pdeEnd := by
  rw [BitVec.lt_def, and_slotMask, slotOf_eq pde]
  omega

/-- The next round of the loop over whole tables starts at the first entry of the next slot. -/
theorem nextSlot (pde : UADDR) (h : slotOf pde < 1023) :
    slotOf (((pde >>> 22) + 1#32) <<< 22) = slotOf pde + 1 ∧
      entryOf (((pde >>> 22) + 1#32) <<< 22) = 0 := by
  have hn : (((pde >>> 22) + 1#32) <<< 22 : UADDR).toNat = (slotOf pde + 1) * 2 ^ 22 := by
    rw [BitVec.toNat_shiftLeft, BitVec.toNat_add, Nat.shiftLeft_eq]
    rw [slotOf] at h ⊢
    simp only [BitVec.toNat_ofNat]
    omega
  rw [slotOf_eq, entryOf_eq, hn]
  omega

/-! ## The positions of a walk -/

/-- The entries `lo` to `hi` of the table in slot `k`. -/
def tablePositions (k lo hi : Nat) : List (Nat × Nat) :=
  (List.range' lo (hi - lo)).map fun j => (k, j)

/-- The positions from `pde` on. -/
def positionsFrom (pdeEnd : UADDR) (last : Nat) : Nat → UADDR → List (Nat × Nat)
  | 0, pde => tablePositions (slotOf pde) (entryOf pde) last
  | n + 1, pde =>
    if pde < pdeEnd &&& 0xffc00000#32 then
      tablePositions (slotOf pde) (entryOf pde) 1024 ++
        positionsFrom pdeEnd last n (((pde >>> 22) + 1#32) <<< 22)
    else tablePositions (slotOf pde) (entryOf pde) last

/-- The slots and entries that a walk visits, in order. -/
def positions (pdeStart pdeEnd : UADDR) (last : Nat) : List (Nat × Nat) :=
  positionsFrom pdeEnd last 1024 pdeStart

theorem mem_tablePositions {k lo hi : Nat} {p : Nat × Nat} :
    p ∈ tablePositions k lo hi ↔ p.1 = k ∧ lo ≤ p.2 ∧ p.2 < hi := by
  obtain ⟨k', j⟩ := p
  simp only [tablePositions, List.mem_map, List.mem_range'_1, Prod.mk.injEq]
  constructor
  · rintro ⟨i, hi, rfl, rfl⟩
    omega
  · rintro ⟨rfl, h⟩
    exact ⟨j, by omega, rfl, rfl⟩

theorem mem_positionsFrom {pdeEnd : UADDR} {last : Nat} {p : Nat × Nat} (n : Nat) :
    ∀ pde : UADDR, 1024 - slotOf pde ≤ n → (p ∈ positionsFrom pdeEnd last n pde ↔
      slotOf pde ≤ p.1 ∧ (p.1 = slotOf pde → entryOf pde ≤ p.2) ∧
        (p.1 < slotOf pdeEnd ∧ p.2 < 1024 ∨
          p.1 = max (slotOf pde) (slotOf pdeEnd) ∧ p.2 < last)) := by
  induction n with
  | zero =>
    intro pde h
    have := slotOf_lt pde
    omega
  | succ n ih =>
    intro pde h
    have hend := slotOf_lt pdeEnd
    rw [positionsFrom]
    split
    · next hlt =>
      rw [below_iff] at hlt
      obtain ⟨hs, he⟩ := nextSlot pde (by omega)
      rw [List.mem_append, mem_tablePositions, ih _ (by omega), hs, he]
      omega
    · next hlt =>
      rw [below_iff] at hlt
      rw [mem_tablePositions]
      omega

/-- **What a walk visits.** -/
theorem mem_positions {pdeStart pdeEnd : UADDR} {last : Nat} {p : Nat × Nat} :
    p ∈ positions pdeStart pdeEnd last ↔
      slotOf pdeStart ≤ p.1 ∧ (p.1 = slotOf pdeStart → entryOf pdeStart ≤ p.2) ∧
        (p.1 < slotOf pdeEnd ∧ p.2 < 1024 ∨
          p.1 = max (slotOf pdeStart) (slotOf pdeEnd) ∧ p.2 < last) :=
  mem_positionsFrom 1024 pdeStart (by omega)

section

variable {σ : Type} {table : σ → Nat → UADDR} {body : UADDR → Nat → Nat → σ → Option σ}

/-- No step of a walk changes where the tables are. -/
def KeepsTables (table : σ → Nat → UADDR) (body : UADDR → Nat → Nat → σ → Option σ) : Prop :=
  ∀ t k j s s', k < 1024 → body t k j s = some s' → ∀ k' < 1024, table s' k' = table s k'

theorem walkTable_eq (k lo hi : Nat) (T : Nat → UADDR) (s : σ) :
    walkTable (body (T k) k) lo hi s =
      (tablePositions k lo hi).foldlM (fun s p => body (T p.1) p.1 p.2 s) s := by
  rw [walkTable, tablePositions, List.foldlM_map]

theorem foldlM_keepsTables (h : KeepsTables table body) {T : Nat → UADDR} {l : List (Nat × Nat)} :
    ∀ {s s' : σ}, (∀ p ∈ l, p.1 < 1024) → (∀ k < 1024, table s k = T k) →
      l.foldlM (fun s p => body (T p.1) p.1 p.2 s) s = some s' → ∀ k < 1024, table s' k = T k := by
  induction l with
  | nil =>
    intro s s' _ hT hs
    obtain rfl := Option.some.inj hs
    exact hT
  | cons p l ih =>
    intro s s' hl hT hs
    obtain ⟨s₁, h₁, hs⟩ := Option.bind_eq_some_iff.mp hs
    refine ih (fun q hq => hl q (.tail _ hq)) (fun k hk => ?_) hs
    rw [h _ _ _ _ _ (hl p (.head _)) h₁ k hk, hT k hk]

theorem walkPages_eq_from (h : KeepsTables table body) (pdeEnd : UADDR) (last : Nat)
    {T : Nat → UADDR} (n : Nat) : ∀ (pde : UADDR) (s : σ), 1024 - slotOf pde ≤ n →
      (∀ k < 1024, table s k = T k) →
      ((walkDirectory table body pdeEnd n pde s).bind fun r =>
        walkTable (body (table r.1 (slotOf r.2)) (slotOf r.2)) (entryOf r.2) last r.1) =
      (positionsFrom pdeEnd last n pde).foldlM (fun s p => body (T p.1) p.1 p.2 s) s := by
  induction n with
  | zero =>
    intro pde s hn
    have := slotOf_lt pde
    omega
  | succ n ih =>
    intro pde s hn hT
    have hend := slotOf_lt pdeEnd
    have hslot := slotOf_lt pde
    rw [walkDirectory, positionsFrom]
    split
    · next hlt =>
      rw [below_iff] at hlt
      obtain ⟨hs, -⟩ := nextSlot pde (by omega)
      rw [hT _ hslot, walkTable_eq, List.foldlM_append]
      cases hfirst : (tablePositions (slotOf pde) (entryOf pde) 1024).foldlM
          (fun s p => body (T p.1) p.1 p.2 s) s with
      | none => rfl
      | some s₁ =>
        refine ih _ s₁ (by omega) (foldlM_keepsTables h (fun p hp => ?_) hT hfirst)
        rw [(mem_tablePositions.mp hp).1]
        exact hslot
    · show walkTable (body (table s (slotOf pde)) (slotOf pde)) (entryOf pde) last s = _
      rw [hT _ hslot, walkTable_eq]

/-- **A walk is a fold** over its positions. -/
theorem walkPages_eq (h : KeepsTables table body) (pdeStart pdeEnd : UADDR) (last : Nat) (s : σ) :
    walkPages table body pdeStart pdeEnd last s =
      (positions pdeStart pdeEnd last).foldlM (fun s' p => body (table s p.1) p.1 p.2 s') s :=
  walkPages_eq_from h pdeEnd last 1024 pdeStart s (by omega) fun _ _ => rfl

end

/-! ## Words of the tables -/

theorem toNat_pageTableEntry {p : UADDR} (hp : p.toNat < 2 ^ 20) :
    (pageTableEntry p (PTPRESENT ||| PTUSER ||| PTWRITE)).toNat = p.toNat * 2 ^ 12 + 7 := by
  rw [pageTableEntry, BitVec.toNat_or, BitVec.toNat_shiftLeft, Nat.shiftLeft_eq,
    Nat.mod_eq_of_lt (by omega), show (PTPRESENT ||| PTUSER ||| PTWRITE).toNat = 7 from rfl,
    Nat.mul_comm, ← Nat.two_pow_add_eq_or_of_lt (by decide)]

/-- The word that is entered for a new table. -/
theorem physAddr_pageTableEntry {p : UADDR} (hp : p.toNat < 2 ^ 20) :
    physAddr (pageTableEntry p (PTPRESENT ||| PTUSER ||| PTWRITE)) = p := by
  refine BitVec.eq_of_toNat_eq ?_
  rw [physAddr, BitVec.toNat_ushiftRight, toNat_pageTableEntry hp, Nat.shiftRight_eq_div_pow]
  omega

theorem present_pageTableEntry (p flags : UADDR) :
    Present (pageTableEntry p (PTPRESENT ||| flags)) := by
  intro h
  have := congrArg (·.getLsbD 0) h
  simp [pageTableEntry, PTPRESENT] at this

/-- The entry of a page that users may reach, and of a table. -/
theorem present_userEntry (p flags : UADDR) :
    Present (pageTableEntry p (PTPRESENT ||| PTUSER ||| flags)) := by
  rw [BitVec.or_assoc]
  exact present_pageTableEntry _ _

theorem not_present_zero : ¬ Present (0#32) := by decide

namespace Paging

variable {s s' : Paging} {d : Addr}

/-! ## Stores and calls of the allocator -/

section

variable (s : Paging) (d : Addr) (k pte : Nat) (t w : UADDR)

theorem addrSpc_setWord_of_ne {d d' : Addr} (h : d' ≠ d) :
    (s.setWord d k w).addrSpc d' = s.addrSpc d' := update_of_ne h _ _

@[simp] theorem addrSpc_setWord (k' : Nat) :
    (s.setWord d k w).addrSpc d k' = if k' = k then w else s.addrSpc d k' := by
  simp [setWord, update_apply]

@[simp] theorem addrSpc_setEntry : (s.setEntry t pte w).addrSpc = s.addrSpc := rfl
@[simp] theorem page_setWord : (s.setWord d k w).page = s.page := rfl

/-- A count is no directory entry. -/
theorem addrSpc_setUsage {k' : Nat} (d' : Addr) (h : k' < 1024) :
    (s.setUsage d k w).addrSpc d' k' = s.addrSpc d' k' := by
  by_cases hd : d' = d
  · subst hd
    rw [setUsage, addrSpc_setWord, if_neg (by omega)]
  · rw [setUsage, addrSpc_setWord_of_ne _ _ _ hd]

@[simp] theorem usage_setUsage (k' : Nat) :
    (s.setUsage d k w).usage d k' = if k' = k then w else s.usage d k' := by
  rw [usage, setUsage, addrSpc_setWord]
  simp only [Nat.add_left_cancel_iff]
  rfl

theorem page_setEntry (t' : UADDR) (j : Nat) :
    (s.setEntry t pte w).page t' j = if t' = t ∧ j = pte then w else s.page t' j := by
  by_cases ht : t' = t
  · subst ht
    simp [setEntry, update_apply]
  · simp [setEntry, ht]

@[simp] theorem page_setUsage : (s.setUsage d k w).page = s.page := by
  rw [setUsage, page_setWord]

@[simp] theorem usage_setEntry (d' : Addr) : (s.setEntry t pte w).usage d' k = s.usage d' k := rfl

end

/-- The page tables have no part in these. -/
def rest (s : Paging) : (Nat → UADDR) × Bool × (Addr → Bool) × (UADDR → Bool) :=
  (s.kernelDir, s.CKFreeListLock, s.live, s.allocated)

@[simp] theorem rest_setWord (s : Paging) (d : Addr) (k : Nat) (w : UADDR) :
    (s.setWord d k w).rest = s.rest := rfl

@[simp] theorem rest_setUsage (s : Paging) (d : Addr) (k : Nat) (w : UADDR) :
    (s.setUsage d k w).rest = s.rest := by rw [setUsage, rest_setWord]

/-- `CKmemFreePages` calls `CKmemFree` with the lock held, which waits for it. -/
theorem ckMemFreePages_eq (s : Paging) (data : Addr) (n : Nat) :
    s.ckMemFreePages data n = none := by
  unfold ckMemFreePages enter
  split
  · rfl
  · simp [ckMemFree, enter]

theorem ckMemAllocPages_eq (h : s.CKFreeListLock = false) (pages : List UADDR) :
    s.ckMemAllocPages pages =
      some { s with allocated := fun p => s.allocated p || decide (p ∈ pages) } := by
  obtain ⟨a, b, c, lock, e, f⟩ := s
  obtain rfl : lock = false := h
  rfl

theorem ckMemAllocPages_nil (h : s.CKFreeListLock = false) : s.ckMemAllocPages [] = some s := by
  rw [ckMemAllocPages_eq h]
  simp

/-- **One entry of an unmapping**: the last page of a table is never unmapped. -/
theorem markEntry_eq (s : Paging) (d : Addr) (data t : UADDR) (k pte : Nat) :
    markEntry d data t k pte s =
      if s.usage d k = 0#32 then some (s.setEntry t pte data)
      else if s.usage d k = 1#32 then none
      else some ((s.setEntry t pte data).setUsage d k (s.usage d k - 1#32)) := by
  unfold markEntry
  simp only [usage_setEntry, usage_setUsage, if_true, ckMemFreePages_eq]
  by_cases h0 : s.usage d k = 0#32
  · rw [if_neg (not_not.mpr h0), if_pos h0]
  · rw [if_pos h0, if_neg h0]
    by_cases h1 : s.usage d k = 1#32
    · rw [if_pos (by rw [h1]; rfl), if_pos h1]
      rfl
    · have hne : s.usage d k - 1#32 ≠ 0#32 := by bv_omega
      rw [if_neg hne, if_neg h1]

/-! ## New tables -/

section

variable {pdeStart pdeEnd pageTables first : UADDR} {l : List Nat}

theorem mem_slots {k : Nat} : k ∈ slots pdeStart pdeEnd ↔
    slotOf pdeStart ≤ k ∧ k < slotOf (pdeEnd + 0x3fffff#32) := by
  rw [slots, List.mem_range'_1]
  omega

theorem slots_lt {k : Nat} (h : k ∈ slots pdeStart pdeEnd) : k < 1024 :=
  (mem_slots.mp h).2.trans (slotOf_lt _)

theorem slots_nodup : (slots pdeStart pdeEnd).Nodup := List.nodup_range'

theorem mem_missing {k : Nat} : k ∈ s.missing d pdeStart pdeEnd ↔
    k ∈ slots pdeStart pdeEnd ∧ ¬ Present (s.addrSpc d k) := by
  rw [missing, List.mem_filter, decide_eq_true_eq]

/-- The slots of a list that have no table. -/
def absent (s : Paging) (d : Addr) (l : List Nat) : List Nat :=
  l.filter fun k => ¬ Present (s.addrSpc d k)

/-- What entering the new tables leaves: the slots that had none have the pages from `first`
on, in order. -/
structure Installed (s : Paging) (d : Addr) (first : UADDR) (l : List Nat) (s' : Paging) :
    Prop where
  word : ∀ k, s'.addrSpc d k = if k ∈ s.absent d l then
    pageTableEntry (first + BitVec.ofNat 32 ((s.absent d l).idxOf k))
      (PTPRESENT ||| PTUSER ||| PTWRITE) else s.addrSpc d k
  other : ∀ d', d' ≠ d → s'.addrSpc d' = s.addrSpc d'
  page : s'.page = s.page
  rest : s'.rest = s.rest

theorem installTables_installed (hl : l.Nodup) :
    ∀ (s : Paging) (first : UADDR), Installed s d first l (s.installTables d first l) := by
  induction l with
  | nil => exact fun s first => ⟨fun k => by simp [absent]; rfl, fun _ _ => rfl, rfl, rfl⟩
  | cons a l ih =>
    intro s first
    obtain ⟨ha, hl⟩ := List.nodup_cons.mp hl
    unfold installTables
    rw [List.foldl_cons]
    split
    · next hp =>
      -- the slot has its table
      have habs : s.absent d (a :: l) = s.absent d l := List.filter_cons_of_neg (by simpa using hp)
      obtain ⟨hw, ho, hpg, hr⟩ := ih hl s first
      exact ⟨by rw [habs]; exact hw, ho, hpg, hr⟩
    · next hp =>
      generalize hw₁ : pageTableEntry first (PTPRESENT ||| PTUSER ||| PTWRITE) = w₁
      obtain ⟨hw, ho, hpg, hr⟩ := ih hl (s.setWord d a w₁) (first + 1#32)
      have habs₁ : (s.setWord d a w₁).absent d l = s.absent d l :=
        List.filter_congr fun k hk => by
          rw [addrSpc_setWord, if_neg fun h : k = a => ha (h ▸ hk)]
      have habs : s.absent d (a :: l) = a :: s.absent d l :=
        List.filter_cons_of_pos (by simpa using hp)
      rw [habs₁] at hw
      refine ⟨fun k => (hw k).trans ?_, fun d' hd => (ho d' hd).trans ?_, hpg, hr⟩
      · rw [habs, addrSpc_setWord]
        by_cases hk : k = a
        · subst hk
          have hnot : k ∉ s.absent d l := fun h => ha (List.mem_filter.mp h).1
          simp [hnot, ← hw₁]
        · simp only [List.mem_cons, hk, false_or, if_false, List.idxOf_cons_ne _ (Ne.symm hk)]
          split
          · congr 1
            rw [BitVec.add_assoc]
            congr 1
            rw [Nat.succ_eq_add_one, BitVec.ofNat_add, BitVec.add_comm]
          · rfl
      · exact addrSpc_setWord_of_ne _ _ _ hd

/-- What `addTables` leaves where tables were missing and there was memory for them. -/
structure TablesAdded (s : Paging) (d : Addr) (pdeStart pdeEnd first : UADDR) (s' : Paging) :
    Prop where
  word : ∀ k < 1024, s'.addrSpc d k = if k ∈ s.missing d pdeStart pdeEnd then
    pageTableEntry (first + BitVec.ofNat 32 ((s.missing d pdeStart pdeEnd).idxOf k))
      (PTPRESENT ||| PTUSER ||| PTWRITE) else s.addrSpc d k
  other : ∀ d', d' ≠ d → s'.addrSpc d' = s.addrSpc d'
  usage : ∀ k, s'.usage d k = if k = slotOf pdeStart + (slots pdeStart pdeEnd).length then
    s.usage d k + BitVec.ofNat 32 (s.missing d pdeStart pdeEnd).length else s.usage d k
  page : ∀ t, s'.page t = if t ∈ pagesFrom first (s.missing d pdeStart pdeEnd).length then
    fun _ => 0#32 else s.page t
  rest : s'.rest = (s.kernelDir, s.CKFreeListLock, s.live,
    fun p => s.allocated p || decide (p ∈ pagesFrom first (s.missing d pdeStart pdeEnd).length))

theorem clearPages_page (pages : List UADDR) (t : UADDR) :
    ∀ s : Paging, (s.clearPages pages).page t = if t ∈ pages then fun _ => 0#32 else s.page t := by
  induction pages with
  | nil => exact fun s => (if_neg List.not_mem_nil).symm
  | cons a pages ih =>
    intro s
    rw [clearPages, List.foldl_cons, ← clearPages, ih]
    simp only [clearPage, update_apply, List.mem_cons]
    by_cases ht : t = a
    · simp [ht]
    · simp [ht]

theorem clearPages_rest (pages : List UADDR) : ∀ s : Paging,
    (s.clearPages pages).addrSpc = s.addrSpc ∧ (s.clearPages pages).rest = s.rest := by
  induction pages with
  | nil => exact fun s => ⟨rfl, rfl⟩
  | cons a pages ih => exact fun s => ih (s.clearPage a)

/-- **The tables that a mapping needs**: they are there, or there is no memory for the missing
ones and nothing happens, or these are entered. -/
theorem addTables_cases {ok : Bool} (hu : s.CKFreeListLock = false)
    (h : s.addTables d pdeStart pdeEnd pageTables = some (s', ok)) :
    (s' = s ∧ (ok = true ↔ s.missing d pdeStart pdeEnd = []) ∧ (ok = false → pageTables = 0#32)) ∨
    (ok = true ∧ s.missing d pdeStart pdeEnd ≠ [] ∧ pageTables ≠ 0#32 ∧
      TablesAdded s d pdeStart pdeEnd (phys pageTables >>> 12) s') := by
  unfold addTables at h
  simp only at h
  split at h
  · next hn =>
    have hm : s.missing d pdeStart pdeEnd ≠ [] := fun h0 => hn (by rw [h0]; rfl)
    split at h
    · next h0 =>
      simp only [ckMemAllocPages_nil hu, Option.bind_eq_bind, Option.bind_some] at h
      obtain ⟨rfl, rfl⟩ := Prod.mk.inj (Option.some.inj h)
      exact .inl ⟨rfl, by simp [hm], fun _ => h0⟩
    · next h0 =>
      simp only [ckMemAllocPages_eq hu, Option.bind_eq_bind, Option.bind_some] at h
      obtain ⟨rfl, rfl⟩ := Prod.mk.inj (Option.some.inj h)
      refine .inr ⟨rfl, hm, h0, ?_⟩
      clear h
      generalize phys pageTables >>> 12 = first
      generalize hn : (s.missing d pdeStart pdeEnd).length = npn
      generalize hs₀ : ({ s with
        allocated := fun p => s.allocated p || decide (p ∈ pagesFrom first npn) } : Paging) = s₀
      obtain ⟨haddr, hrest⟩ := clearPages_rest (pagesFrom first npn) s₀
      have hpage := fun t => clearPages_page (pagesFrom first npn) t s₀
      generalize s₀.clearPages (pagesFrom first npn) = s₁ at haddr hrest hpage
      have haddr : s₁.addrSpc = s.addrSpc := by rw [haddr, ← hs₀]
      generalize hk₀ : slotOf pdeStart + (slots pdeStart pdeEnd).length = k₀
      generalize hs₂ : s₁.setUsage d k₀ (s₁.usage d k₀ + BitVec.ofNat 32 npn) = s₂
      have hword₂ : ∀ k < 1024, s₂.addrSpc d k = s.addrSpc d k := fun k hk => by
        rw [← hs₂, addrSpc_setUsage _ _ _ _ _ hk, haddr]
      have habs : s₂.absent d (slots pdeStart pdeEnd) = s.missing d pdeStart pdeEnd :=
        List.filter_congr fun k hk => by rw [hword₂ k (slots_lt hk)]
      have hnodup : (slots pdeStart pdeEnd).Nodup := slots_nodup
      obtain ⟨hw, ho, hp, hr⟩ := installTables_installed (d := d) hnodup s₂ first
      rw [habs] at hw
      refine ⟨fun k hk => (hw k).trans (by rw [hword₂ k hk]), fun d' hd => (ho d' hd).trans ?_,
        fun k => ?_, fun t => ?_, hr.trans ?_⟩
      · rw [← hs₂, setUsage, addrSpc_setWord_of_ne _ _ _ hd, haddr]
      · have hnot : 1024 + k ∉ s.missing d pdeStart pdeEnd := fun hm => by
          have := slots_lt (mem_missing.mp hm).1
          omega
        rw [usage, hw, if_neg hnot]
        show s₂.usage d k = _
        rw [← hs₂, usage_setUsage, hn, hk₀]
        by_cases hk : k = k₀
        · subst hk
          rw [if_pos rfl, if_pos rfl, usage, haddr]
          rfl
        · rw [if_neg hk, if_neg hk, usage, haddr]
          rfl
      · rw [hp, ← hs₂, hn, page_setUsage, hpage, ← hs₀]
      · rw [← hs₂, rest_setUsage, hrest, hn, ← hs₀]
        rfl
  · next hn =>
    obtain ⟨rfl, rfl⟩ := Prod.mk.inj (Option.some.inj h)
    have hm := List.length_eq_zero_iff.mp (not_not.mp hn)
    exact .inl ⟨rfl, by simp [hm], fun h => absurd h (by simp)⟩

end

end Paging

/-! ## What a walk leaves alone -/

namespace Paging

variable {s s' : Paging} {d : Addr} {ps : List (Nat × Nat)}

/-- The directories and the tables that a walk over the positions `ps` of `d` leaves. -/
structure Walked (s : Paging) (d : Addr) (ps : List (Nat × Nat)) (s' : Paging) : Prop where
  word : ∀ d', ∀ k < 1024, s'.addrSpc d' k = s.addrSpc d' k
  other : ∀ d', d' ≠ d → s'.addrSpc d' = s.addrSpc d'
  rest : s'.rest = s.rest
  page : ∀ t j, (∀ p ∈ ps, p.2 = j → s.tableOf d p.1 ≠ t) → s'.page t j = s.page t j

theorem Walked.refl (s : Paging) (d : Addr) : Walked s d [] s :=
  ⟨fun _ _ _ => rfl, fun _ _ => rfl, rfl, fun _ _ _ => rfl⟩

/-- One more entry is stored. -/
theorem Walked.setEntry (h : Walked s d ps s') (k j : Nat) (w : UADDR) :
    Walked s d (ps ++ [(k, j)]) (s'.setEntry (s.tableOf d k) j w) where
  word d' k' hk' := h.word d' k' hk'
  other d' hd' := h.other d' hd'
  rest := h.rest
  page t j' hp := by
    have hold := h.page t j' fun p hm => hp p (List.mem_append_left _ hm)
    have hnew := hp (k, j) (List.mem_append_right _ (.head _))
    rw [page_setEntry, if_neg fun ht : t = s.tableOf d k ∧ j' = j => hnew ht.2.symm ht.1.symm]
    exact hold

/-- A count is stored. -/
theorem Walked.setUsage (h : Walked s d ps s') (k : Nat) (w : UADDR) :
    Walked s d ps (s'.setUsage d k w) where
  word d' k' hk' := (addrSpc_setUsage _ _ _ _ _ hk').trans (h.word d' k' hk')
  other d' hd' := (addrSpc_setWord_of_ne _ _ _ hd').trans (h.other d' hd')
  rest := (rest_setUsage _ _ _ _).trans h.rest
  page t j hp := by rw [page_setUsage]; exact h.page t j hp

theorem Walked.tableOf (h : Walked s d ps s') {d' : Addr} {k : Nat} (hk : k < 1024) :
    s'.tableOf d' k = s.tableOf d' k := congrArg physAddr (h.word d' k hk)

/-! ## The three walks -/

/-- The tables of a range are there, or they were added. -/
def TablesFor (s : Paging) (d : Addr) (pdeStart pdeEnd pageTables : UADDR) (s' : Paging) : Prop :=
  (s' = s ∧ s.missing d pdeStart pdeEnd = []) ∨
    (s.missing d pdeStart pdeEnd ≠ [] ∧ pageTables ≠ 0#32 ∧
      TablesAdded s d pdeStart pdeEnd (phys pageTables >>> 12) s')

theorem addTables_for {pdeStart pdeEnd pageTables : UADDR} {ok : Bool}
    (hu : s.CKFreeListLock = false)
    (h : s.addTables d pdeStart pdeEnd pageTables = some (s', ok)) :
    (ok = false ∧ s' = s) ∨ (ok = true ∧ TablesFor s d pdeStart pdeEnd pageTables s') := by
  rcases addTables_cases hu h with ⟨rfl, hok, -⟩ | ⟨rfl, hadd⟩
  · cases ok with
    | false => exact .inl ⟨rfl, rfl⟩
    | true => exact .inr ⟨rfl, .inl ⟨rfl, hok.mp rfl⟩⟩
  · exact .inr ⟨rfl, .inr hadd⟩

/-- **What `CKsetPageMapping` leaves**: every entry that was visited is present. -/
structure Mapped (s : Paging) (d : Addr) (ps : List (Nat × Nat)) (s' : Paging) : Prop where
  walked : Walked s d ps s'
  usage : s'.addrSpc = s.addrSpc
  present : ∀ p ∈ ps, Present (s'.page (s.tableOf d p.1) p.2)

theorem ckSetPageMapping_cases {la pa length attr pageTables : UADDR} {ok : Bool}
    (hu : s.CKFreeListLock = false)
    (h : s.ckSetPageMapping d la pa length attr pageTables = some (s', ok)) :
    (ok = false ∧ s' = s) ∨ (ok = true ∧ ∃ s₁, TablesFor s d la (la + length) pageTables s₁ ∧
      Mapped s₁ d (positions la (la + length) (entryOf (la + length) + 1)) s') := by
  obtain ⟨⟨s₁, ok₁⟩, h₁, hs⟩ := Option.bind_eq_some_iff.mp h
  rcases addTables_for hu h₁ with ⟨rfl, rfl⟩ | ⟨rfl, htab⟩
  · obtain ⟨rfl, rfl⟩ := Prod.mk.inj (Option.some.inj hs)
    exact .inl ⟨rfl, rfl⟩
  · obtain ⟨r, hr, hs⟩ := Option.bind_eq_some_iff.mp hs
    obtain ⟨rfl, rfl⟩ := Prod.mk.inj (Option.some.inj hs)
    refine .inr ⟨rfl, s₁, htab, ?_⟩
    rw [walkPages_eq fun t k j r r' _ hs => by
      obtain rfl := Option.some.inj hs
      exact fun _ _ => rfl] at hr
    refine foldlM_prefixes (I := fun done (r : Paging × UADDR) => Mapped s₁ d done r.1) hr
      ⟨.refl _ _, rfl, fun p hp => absurd hp List.not_mem_nil⟩ ?_
    rintro done ⟨k, j⟩ rest r₁ r₂ - ⟨hw, hsame, hp⟩ hs
    obtain rfl := Option.some.inj hs
    refine ⟨hw.setEntry k j _, hsame, fun p hm => ?_⟩
    -- a later store may hit the same entry, and is present too
    rw [page_setEntry]
    split
    · exact present_userEntry _ _
    · next hne =>
      rcases List.mem_append.mp hm with hm | hm
      · exact hp p hm
      · obtain rfl := List.mem_singleton.mp hm
        exact absurd ⟨rfl, rfl⟩ hne

/-- What `CKcopySharedPageMapping` leaves alone. -/
theorem ckCopySharedPageMapping_cases {source : Addr} {sa la length pageTables : UADDR} {ok : Bool}
    (hu : s.CKFreeListLock = false)
    (h : s.ckCopySharedPageMapping source sa d la length pageTables = some (s', ok)) :
    (ok = false ∧ s' = s) ∨ (ok = true ∧ ∃ s₁, TablesFor s d la (la + length) pageTables s₁ ∧
      Walked s₁ d (positions la (la + length) (entryOf (la + length))) s' ∧
      s'.addrSpc = s₁.addrSpc) := by
  obtain ⟨⟨s₁, ok₁⟩, h₁, hs⟩ := Option.bind_eq_some_iff.mp h
  rcases addTables_for hu h₁ with ⟨rfl, rfl⟩ | ⟨rfl, htab⟩
  · obtain ⟨rfl, rfl⟩ := Prod.mk.inj (Option.some.inj hs)
    exact .inl ⟨rfl, rfl⟩
  · obtain ⟨r, hr, hs⟩ := Option.bind_eq_some_iff.mp hs
    obtain ⟨rfl, rfl⟩ := Prod.mk.inj (Option.some.inj hs)
    refine .inr ⟨rfl, s₁, htab, ?_⟩
    rw [walkPages_eq fun t k j r r' _ hs => by
      obtain rfl := Option.some.inj hs
      exact fun _ _ => rfl] at hr
    refine foldlM_prefixes
      (I := fun done (r : Paging × CopySource) => Walked s₁ d done r.1 ∧ r.1.addrSpc = s₁.addrSpc)
      hr ⟨.refl _ _, rfl⟩ ?_
    rintro done ⟨k, j⟩ rest r₁ r₂ - ⟨hw, hsame⟩ hs
    obtain rfl := Option.some.inj hs
    exact ⟨hw.setEntry k j _, hsame⟩

theorem markEntry_keepsTables (d : Addr) (data : UADDR) :
    KeepsTables (fun (s : Paging) k => s.tableOf d k) (markEntry d data) := by
  intro t k j s s' hk hs k' hk'
  rw [markEntry_eq] at hs
  split at hs
  · obtain rfl := Option.some.inj hs
    rfl
  · split at hs
    · exact absurd hs (by simp)
    · obtain rfl := Option.some.inj hs
      exact congrArg physAddr (addrSpc_setUsage _ _ _ _ _ hk')

/-- An unmapping is a fold over the entries of its range. -/
theorem ckMarkPageNotPresent_eq (s : Paging) (d : Addr) (la length data : UADDR) :
    s.ckMarkPageNotPresent d la length data =
      (positions la (la + length) (entryOf (la + length) + 1)).foldlM
        (fun s' p => markEntry d (data <<< 1) (s.tableOf d p.1) p.1 p.2 s') s :=
  walkPages_eq (markEntry_keepsTables d _) _ _ _ _

/-- What `CKmarkPageNotPresent` leaves alone. -/
theorem ckMarkPageNotPresent_walked {la length data : UADDR}
    (h : s.ckMarkPageNotPresent d la length data = some s') :
    Walked s d (positions la (la + length) (entryOf (la + length) + 1)) s' := by
  rw [ckMarkPageNotPresent_eq] at h
  refine foldlM_prefixes (I := fun done s₁ => Walked s d done s₁) h (.refl _ _) ?_
  rintro done ⟨k, j⟩ rest s₁ s₂ - hw hs
  rw [markEntry_eq] at hs
  split at hs
  · obtain rfl := Option.some.inj hs
    exact hw.setEntry k j _
  · split at hs
    · exact absurd hs (by simp)
    · obtain rfl := Option.some.inj hs
      exact (hw.setEntry k j _).setUsage k _

end Paging

end Alliance.CK
