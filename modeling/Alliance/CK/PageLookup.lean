import Alliance.CK.PageMapping

/-!
# Looking up a page (`getPageAddress`)

The processor takes the slot and the entry of an address from its bits. `getPageAddress` shifts
an `ADDR`, which is signed: in the upper half of the address space the slot comes out negative,
and what is read as a directory entry lies in front of the directory. There a lookup has no
meaning here.
-/

namespace Alliance.CK

open Function Lib

namespace Paging

variable {s s₀ : Paging} {d : Addr} {a la pa length attr : UADDR}

/-! ## The hardware -/

/-- The cell of an address in the walk of the processor, if its slot has a table. -/
def cellAt (s : Paging) (d : Addr) (a : UADDR) : Option (UADDR × Nat) :=
  if Present (s.addrSpc d (slotOf a)) then some (s.tableOf d (slotOf a), entryOf a) else none

/-! ## The lookup -/

/-- `getPageAddress`, where `some none` is `NIL`. The slot is an index into the 2048 words of the
address space. -/
def getPageAddress (s : Paging) (d : Addr) (logicalAddr : UADDR) : Option (Option (UADDR × Nat)) :=
  let pageDirectoryEntry := (logicalAddr.sshiftRight 22).toNat
  if pageDirectoryEntry < 2048 then
    if s.tableOf d pageDirectoryEntry = 0#32 then
      some none
    else
      some (some (s.tableOf d pageDirectoryEntry,
        (logicalAddr.sshiftRight 12 &&& 0x3ff#32).toNat))
  else
    none

/-- `CKgetPageMapping`. -/
def ckGetPageMapping (s : Paging) (d : Addr) (logicalPageAddr : UADDR) : Option UADDR :=
  (s.getPageAddress d logicalPageAddr).map fun
    | none => 0#32
    | some page => physAddr (s.cell page) <<< 12

/-- The ten bits of `flags` in a `PageTableEntry`. -/
def setFlags (w flags : UADDR) : UADDR := w &&& 0xfffffc00#32 ||| flags

/-- `CKchangePageAttr`. -/
def ckChangePageAttr (s : Paging) (d : Addr) (logicalPageAddr attr : UADDR) :
    Option (Paging × Bool) :=
  (s.getPageAddress d logicalPageAddr).map fun
    | none => (s, false)
    | some page =>
      if Present (s.cell page) then
        (s.setEntry page.1 page.2
          (setFlags (s.cell page) (s.cell page &&& 1#32 ||| attr &&& 0x1ff#32)), true)
      else
        (s, false)

/-! ## What a lookup is for -/

/-- `s'` differs from `s` in the attributes of one entry: it keeps its frame, the bits that are
free for use, and whether it is present. -/
structure AttrChanged (s : Paging) (c : UADDR × Nat) (attr : UADDR) (s' : Paging) : Prop where
  addrSpc : s'.addrSpc = s.addrSpc
  rest : s'.rest = s.rest
  other : ∀ c', c' ≠ c → s'.cell c' = s.cell c'
  frame : s'.cell c >>> 10 = s.cell c >>> 10
  flags : s'.cell c &&& 0x3ff#32 = s.cell c &&& 1#32 ||| attr &&& 0x1ff#32

/-- The two calls do what the processor's walk says: the frame of the entry, or 0 where there is
no table; and success exactly if the entry is present, with its attributes changed. -/
structure LookupAgrees (s : Paging) (d : Addr) (a attr : UADDR) : Prop where
  get : s.ckGetPageMapping d a = some (match s.cellAt d a with
    | none => 0#32
    | some c => physAddr (s.cell c) <<< 12)
  change : ∃ s' ok, s.ckChangePageAttr d a attr = some (s', ok) ∧
    (ok = true ↔ ∃ c, s.cellAt d a = some c ∧ Present (s.cell c)) ∧
    (ok = false → s' = s) ∧
    ∀ c, s.cellAt d a = some c → ok = true → AttrChanged s c attr s'

/-! ## The index that is computed -/

theorem slot_signed (h : a.toNat < 2 ^ 31) : (a.sshiftRight 22).toNat = slotOf a := by
  have hmsb : a.msb = false := by
    rw [BitVec.msb_eq_decide, decide_eq_false_iff_not]
    omega
  rw [BitVec.toNat_sshiftRight_of_msb_false hmsb, slotOf, BitVec.toNat_ushiftRight]

/-- In the upper half, the index is behind all the words of an address space. -/
theorem slot_signed_upper (h : 2 ^ 31 ≤ a.toNat) : 2048 ≤ (a.sshiftRight 22).toNat := by
  have hmsb : a.msb = true := by
    rw [BitVec.msb_eq_decide, decide_eq_true_iff]
    exact h
  have := a.isLt
  rw [BitVec.toNat_sshiftRight_of_msb_true hmsb, Nat.shiftRight_eq_div_pow]
  omega

/-- The entry does not depend on the sign. -/
theorem entry_signed (a : UADDR) : (a.sshiftRight 12 &&& 0x3ff#32).toNat = entryOf a := by
  have hbits : ∀ i < 32, (0x3ff#32).getLsbD i = decide (i < 10) := by decide
  have hsame : a.sshiftRight 12 &&& 0x3ff#32 = (a >>> 12) &&& 0x3ff#32 := by
    refine BitVec.eq_of_getLsbD_eq fun i hi => ?_
    rw [BitVec.getLsbD_and, BitVec.getLsbD_and, hbits i hi, BitVec.getLsbD_sshiftRight,
      BitVec.getLsbD_ushiftRight]
    by_cases h : i < 10
    · simp [h, show 12 + i < 32 by omega]
      omega
    · simp [h]
  rw [hsame, entryOf]

section

variable (h : s.Separate) (hd : s.live d = true)

include h hd in
/-- Where the directory has no table, it has the page 0, and nowhere else. -/
theorem table_eq_zero_iff {k : Nat} (hk : k < 1024) :
    s.tableOf d k = 0#32 ↔ ¬ Present (s.addrSpc d k) := by
  constructor
  · intro hz hp
    exact (h.table_allocated hd hk hp).1 hz
  · exact h.absent d k hd hk

include h hd in
/-- In the lower half, the cell is the one of the processor. -/
theorem getPageAddress_lower (ha : a.toNat < 2 ^ 31) :
    s.getPageAddress d a = some (s.cellAt d a) := by
  have hslot := slotOf_lt a
  unfold getPageAddress cellAt
  rw [slot_signed ha, entry_signed, if_pos (by omega)]
  simp only [table_eq_zero_iff h hd hslot]
  by_cases hp : Present (s.addrSpc d (slotOf a))
  · rw [if_neg (not_not.mpr hp), if_pos hp]
  · rw [if_pos hp, if_neg hp]

theorem getPageAddress_upper (ha : 2 ^ 31 ≤ a.toNat) : s.getPageAddress d a = none := by
  have := slot_signed_upper ha
  unfold getPageAddress
  exact if_neg (by omega)

/-! ## The attributes of an entry -/

theorem setFlags_frame (w : UADDR) {flags : UADDR} (hf : flags.toNat < 2 ^ 10) :
    setFlags w flags >>> 10 = w >>> 10 := by
  have hmask : ∀ i < 32, (0xfffffc00#32).getLsbD i = decide (10 ≤ i) := by decide
  refine BitVec.eq_of_getLsbD_eq fun i hi => ?_
  rw [BitVec.getLsbD_ushiftRight, BitVec.getLsbD_ushiftRight, setFlags, BitVec.getLsbD_or,
    BitVec.getLsbD_and]
  have hhigh : flags.getLsbD (10 + i) = false := by
    rw [BitVec.getLsbD]
    exact Nat.testBit_lt_two_pow (Nat.lt_of_lt_of_le hf (Nat.pow_le_pow_right (by decide) (by omega)))
  by_cases hlt : 10 + i < 32
  · rw [hmask _ hlt, hhigh]
    simp
  · rw [BitVec.getLsbD_of_ge w _ (by omega), hhigh]
    simp

theorem setFlags_flags (w : UADDR) {flags : UADDR} (hf : flags.toNat < 2 ^ 10) :
    setFlags w flags &&& 0x3ff#32 = flags := by
  have hmask : ∀ i < 32, (0xfffffc00#32).getLsbD i = decide (10 ≤ i) := by decide
  have hlow : ∀ i < 32, (0x3ff#32).getLsbD i = decide (i < 10) := by decide
  refine BitVec.eq_of_getLsbD_eq fun i hi => ?_
  rw [BitVec.getLsbD_and, setFlags, BitVec.getLsbD_or, BitVec.getLsbD_and, hmask i hi, hlow i hi]
  by_cases h10 : i < 10
  · simp [h10, Nat.not_le.mpr h10]
  · have hhigh : flags.getLsbD i = false := by
      rw [BitVec.getLsbD]
      exact Nat.testBit_lt_two_pow
        (Nat.lt_of_lt_of_le hf (Nat.pow_le_pow_right (by decide) (by omega)))
    simp [h10, hhigh]

/-- The flags that `CKchangePageAttr` stores. -/
theorem newFlags_lt (w attr : UADDR) : (w &&& 1#32 ||| attr &&& 0x1ff#32).toNat < 2 ^ 10 := by
  have h1 : (w &&& 1#32).toNat < 2 ^ 10 := by
    rw [BitVec.toNat_and]
    exact Nat.lt_of_le_of_lt Nat.and_le_right (by decide)
  have h2 : (attr &&& 0x1ff#32).toNat < 2 ^ 10 := by
    rw [BitVec.toNat_and]
    exact Nat.lt_of_le_of_lt Nat.and_le_right (by decide)
  rw [BitVec.toNat_or]
  exact Nat.or_lt_two_pow h1 h2

theorem attrChanged_setEntry (s : Paging) (c : UADDR × Nat) (attr : UADDR) :
    AttrChanged s c attr (s.setEntry c.1 c.2
      (setFlags (s.cell c) (s.cell c &&& 1#32 ||| attr &&& 0x1ff#32))) := by
  have hnew := newFlags_lt (s.cell c) attr
  have hcell : (s.setEntry c.1 c.2
      (setFlags (s.cell c) (s.cell c &&& 1#32 ||| attr &&& 0x1ff#32))).cell =
      update s.cell c (setFlags (s.cell c) (s.cell c &&& 1#32 ||| attr &&& 0x1ff#32)) := by
    have hset := setEntry_withCells (s := s) s.cell c.1
      (setFlags (s.cell c) (s.cell c &&& 1#32 ||| attr &&& 0x1ff#32)) c.2
    exact congrArg cell hset
  refine ⟨rfl, rfl, fun c' hne => ?_, ?_, ?_⟩
  · rw [hcell, update_of_ne hne]
  · rw [hcell, update_self]
    exact setFlags_frame _ hnew
  · rw [hcell, update_self]
    exact setFlags_flags _ hnew

/-! ## When a lookup agrees -/

include h hd in
theorem lookup_lower (attr : UADDR) (ha : a.toNat < 2 ^ 31) : LookupAgrees s d a attr := by
  have haddr := getPageAddress_lower h hd ha
  constructor
  · rw [ckGetPageMapping, haddr]
    rfl
  · rw [ckChangePageAttr, haddr]
    cases hc : s.cellAt d a with
    | none => exact ⟨s, false, rfl, by simp, fun _ => rfl, fun c hc' => absurd hc' nofun⟩
    | some c =>
        by_cases hp : Present (s.cell c)
        · refine ⟨_, true, congrArg some (if_pos hp), ?_, fun hok => absurd hok (by simp), ?_⟩
          · exact iff_of_true rfl ⟨c, rfl, hp⟩
          · intro c' hc' _
            obtain rfl := Option.some.inj hc'
            exact attrChanged_setEntry s c attr
        · refine ⟨s, false, congrArg some (if_neg hp), ?_, fun _ => rfl, fun _ _ hok => absurd hok
            (by simp)⟩
          refine iff_of_false (by simp) ?_
          rintro ⟨c', hc', hp'⟩
          obtain rfl := Option.some.inj hc'
          exact hp hp'

/-! ## What was mapped -/

/-- The frame of an entry that was mapped. -/
theorem physAddr_frameEntry (hpa : pa.toNat % 4096 = 0) (i : Nat) :
    physAddr (frameEntry pa attr i) <<< 12 = pa + BitVec.ofNat 32 (i * 4096) := by
  rw [← frameEntry_eq hpa, ← frame_eq hpa]
  generalize pa.sshiftRight 12 + BitVec.ofNat 32 i = q
  have hflags : (pageFlags attr).toNat < 2 ^ 12 := by
    have hattr : (attr &&& 0x1ff#32).toNat < 2 ^ 12 := by
      rw [BitVec.toNat_and]
      exact Nat.lt_of_le_of_lt Nat.and_le_right (by decide)
    rw [pageFlags, BitVec.toNat_or]
    exact Nat.or_lt_two_pow (by decide) hattr
  refine BitVec.eq_of_getLsbD_eq fun j hj => ?_
  rw [BitVec.getLsbD_shiftLeft, physAddr, BitVec.getLsbD_ushiftRight, pageTableEntry,
    BitVec.getLsbD_or, BitVec.getLsbD_shiftLeft, BitVec.getLsbD_shiftLeft]
  by_cases h12 : j < 12
  · simp [h12]
  · have hhigh : (pageFlags attr).getLsbD j = false := by
      rw [BitVec.getLsbD]
      exact Nat.testBit_lt_two_pow
        (Nat.lt_of_lt_of_le hflags (Nat.pow_le_pow_right (by decide) (by omega)))
    have hback : 12 + (j - 12) = j := by omega
    simp [h12, hback, hhigh]

theorem present_frameEntry (pa attr : UADDR) (i : Nat) : Present (frameEntry pa attr i) := by
  intro hz
  have := congrArg (·.getLsbD 0) hz
  simp [frameEntry, pageFlags, PTPRESENT] at this

/-- The cell of an address in a page that was mapped, and what is in it. -/
theorem MapsExactly.cellAt {length : UADDR} {i : Nat} (hm : MapsExactly s₀ d la pa length attr s)
    (hi : i < pageOf length) (ha : pageOf a = pageOf la + i) :
    s.cellAt d a = some (s.cellOf d (pageOf la + i)) ∧
      s.cell (s.cellOf d (pageOf la + i)) = frameEntry pa attr i := by
  obtain ⟨htab, hcell⟩ := hm.mapped i hi
  refine ⟨?_, hcell⟩
  rw [Paging.cellAt, slotOf_pageOf, entryOf_pageOf, ha]
  exact if_pos htab

include h hd in
/-- **The lookup is the walk of the processor** in the lower half of the address space, and
nowhere else. There it finds the frames that were mapped, present. -/
theorem lookup_agrees_iff (a attr : UADDR) :
    (LookupAgrees s d a attr ↔ a.toNat < 2 ^ 31) ∧
      ∀ s₀ la pa length attr₀, pa.toNat % 4096 = 0 → MapsExactly s₀ d la pa length attr₀ s →
        ∀ i < pageOf length, pageOf a = pageOf la + i → a.toNat < 2 ^ 31 →
          s.ckGetPageMapping d a = some (pa + BitVec.ofNat 32 (i * 4096)) ∧
            ∃ s', s.ckChangePageAttr d a attr = some (s', true) := by
  refine ⟨⟨fun hagree => ?_, lookup_lower h hd attr⟩, ?_⟩
  · by_contra ha
    have hget := hagree.get
    rw [ckGetPageMapping, getPageAddress_upper (Nat.le_of_not_lt ha)] at hget
    exact absurd hget nofun
  · intro s₀ la pa length attr₀ hpa hm i hi hpage ha
    have hagree := lookup_lower h hd attr ha
    obtain ⟨hcell, hword⟩ := hm.cellAt hi hpage
    constructor
    · rw [hagree.get, hcell]
      show some (physAddr (s.cell _) <<< 12) = _
      rw [hword, physAddr_frameEntry hpa]
    · obtain ⟨s', ok, hs, hok, -⟩ := hagree.change
      have hpresent : Present (s.cell (s.cellOf d (pageOf la + i))) := by
        rw [hword]
        exact present_frameEntry pa attr₀ i
      rw [hok.mpr ⟨_, hcell, hpresent⟩] at hs
      exact ⟨s', hs⟩

end

/-- In an empty address space, the page at 0 is looked up. -/
theorem lookup_agrees_empty : LookupAgrees emptySpace 100 0#32 2#32 :=
  (lookup_agrees_iff emptySpace_separate (by decide) 0#32 2#32).1.mpr (by decide)

/-- The lookup of 0x80000000 reads in front of the directory, where the processor finds no
table. -/
theorem not_lookup_agrees_upper :
    emptySpace.cellAt 100 0x80000000#32 = none ∧
      emptySpace.ckGetPageMapping 100 0x80000000#32 = none ∧
      ¬ LookupAgrees emptySpace 100 0x80000000#32 2#32 := by
  have hget : emptySpace.ckGetPageMapping 100 0x80000000#32 = none := by decide +kernel
  refine ⟨by decide +kernel, hget, fun hagree => ?_⟩
  have hsome := hagree.get
  rw [hget] at hsome
  exact absurd hsome nofun

end Paging

end Alliance.CK
