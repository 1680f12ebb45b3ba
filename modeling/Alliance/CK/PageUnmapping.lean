import Alliance.CK.PageCopy

/-!
# What `CKmarkPageNotPresent` clears

The walk of an unmapping goes up to the entry of the end of its range, so it clears one page more
than a copy to the same range stores to (`pagesMarked_eq`). A slot whose usage count is not 0 has
it decremented for each page, and a count that gets to 0 is the end of the call, which then waits
for the lock that it holds. So the call returns if the counts last (`Outlasts`), and what it leaves
is `Unmapped`.
-/

namespace Alliance.CK

open Function Lib

/-! ## The pages of a range -/

/-- The pages that `CKcopySharedPageMapping` stores to. -/
def pagesCopied (a length : UADDR) : Nat := pagesWalked a (a + length) (entryOf (a + length))

/-- The pages that `CKmarkPageNotPresent` clears. -/
def pagesMarked (a length : UADDR) : Nat := pagesWalked a (a + length) (entryOf (a + length) + 1)

/-- One of the `n` pages from `a` on. -/
def InPages (a : UADDR) (n p : Nat) : Prop := pageOf a ≤ p ∧ p < pageOf a + n

instance (a : UADDR) (n p : Nat) : Decidable (InPages a n p) := inferInstanceAs (Decidable (_ ∧ _))

/-- The page behind those that are copied to is cleared too, if it is not in front of them. -/
theorem pagesMarked_eq (a length : UADDR) :
    pagesMarked a length = pagesCopied a length + 1 ∨
      pagesMarked a length = 0 ∧ pagesCopied a length = 0 := by
  unfold pagesMarked pagesCopied pagesWalked
  omega

theorem pagesCopied_le (a length : UADDR) : pagesCopied a length ≤ pagesMarked a length := by
  rcases pagesMarked_eq a length with h | ⟨h, h'⟩ <;> omega

theorem page_marked_le (a length : UADDR) : pageOf a + pagesMarked a length ≤ 2 ^ 20 := by
  have hlast : entryOf (a + length) + 1 ≤ 1024 := entryOf_lt (a + length)
  rcases Nat.eq_zero_or_pos (pagesMarked a length) with h0 | hpos
  · have := pageOf_lt a
    omega
  · have := page_walked_lt hlast (show pagesMarked a length - 1 < _ from Nat.sub_one_lt_of_lt hpos)
    omega

namespace Paging

variable {s s' : Paging} {d : Addr} {a length w : UADDR} {n k p : Nat}

/-! ## Usage counts -/

/-- How many of the `n` pages from `a` on are in slot `k`. -/
def inSlot (a : UADDR) (n k : Nat) : Nat :=
  (List.range n).countP fun i => (pageOf a + i) / 1024 = k

/-- The usage counts outlast `n` pages from `a` on: each is 0, or stays above 0. -/
def Outlasts (s : Paging) (d : Addr) (a : UADDR) (n : Nat) : Prop :=
  ∀ k < 1024, s.usage d k = 0#32 ∨ inSlot a n k < (s.usage d k).toNat

theorem inSlot_succ (a : UADDR) (n k : Nat) :
    inSlot a (n + 1) k = inSlot a n k + if (pageOf a + n) / 1024 = k then 1 else 0 := by
  rw [inSlot, List.range_succ, List.countP_append, List.countP_singleton]
  simp only [decide_eq_true_eq]
  rfl

/-- A count that was decremented `c` times. -/
theorem toNat_sub_count {u : UADDR} {c : Nat} (h : c ≤ u.toNat) :
    (u - BitVec.ofNat 32 c).toNat = u.toNat - c := by
  have hbound := u.isLt
  have hc : (BitVec.ofNat 32 c).toNat = c := by
    rw [BitVec.toNat_ofNat, Nat.mod_eq_of_lt (by omega)]
  rw [BitVec.toNat_sub_of_le (BitVec.le_def.mpr (by omega)), hc]

theorem Outlasts.mono (h : s.Outlasts d a (n + 1)) : s.Outlasts d a n := by
  intro k hk
  have hle : inSlot a n k ≤ inSlot a (n + 1) k := by
    rw [inSlot_succ]
    exact Nat.le_add_right ..
  exact (h k hk).imp_right (Nat.lt_of_le_of_lt hle)

/-! ## The walk -/

/-- What is left when the `n` pages from `a` on are cleared with the word `w`. -/
structure Unmapped (s : Paging) (d : Addr) (a : UADDR) (n : Nat) (w : UADDR) (s' : Paging) :
    Prop where
  word : ∀ d', ∀ k < 1024, s'.addrSpc d' k = s.addrSpc d' k
  rest : s'.rest = s.rest
  cell : s'.cell = storeAlong (fun i => s.cellOf d (pageOf a + i)) n (fun _ => w) s.cell
  usage : ∀ k < 1024, s'.usage d k =
    if s.usage d k = 0#32 then 0#32 else s.usage d k - BitVec.ofNat 32 (inSlot a n k)

/-- The next page of the walk. -/
abbrev markPage (s : Paging) (d : Addr) (a w : UADDR) (s' : Paging) (i : Nat) : Option Paging :=
  markEntry d w (s.tableOf d ((pageOf a + i) / 1024)) ((pageOf a + i) / 1024)
    ((pageOf a + i) % 1024) s'

theorem cell_setEntry (s : Paging) (t w : UADDR) (j : Nat) :
    (s.setEntry t j w).cell = update s.cell (t, j) w := by
  have h := setEntry_withCells (s := s) s.cell t w j
  rw [withCells_cell] at h
  rw [h, cell_withCells]

theorem cell_setUsage (s : Paging) (d : Addr) (k : Nat) (w : UADDR) :
    (s.setUsage d k w).cell = s.cell := by
  funext c
  show (s.setUsage d k w).page c.1 c.2 = _
  rw [page_setUsage]
  rfl

/-- **One page more**: the call ends where a count gets to 0, and goes on where it does not. -/
theorem Unmapped.step (h : Unmapped s d a n w s') (hlasts : s.Outlasts d a n)
    (hn : (pageOf a + n) / 1024 < 1024) :
    (s.Outlasts d a (n + 1) ∧ ∃ s₂, markPage s d a w s' n = some s₂ ∧
      Unmapped s d a (n + 1) w s₂) ∨
    ¬ s.Outlasts d a (n + 1) ∧ markPage s d a w s' n = none := by
  have husage := h.usage _ hn
  have hlast := hlasts _ hn
  -- the counts of the other slots stay
  have hother : ∀ k, k ≠ (pageOf a + n) / 1024 → inSlot a (n + 1) k = inSlot a n k := by
    intro k hk
    rw [inSlot_succ, if_neg (Ne.symm hk), Nat.add_zero]
  have hself : inSlot a (n + 1) ((pageOf a + n) / 1024) =
      inSlot a n ((pageOf a + n) / 1024) + 1 := by
    rw [inSlot_succ, if_pos rfl]
  have hcell : ∀ s₂ : Paging, s₂.cell = (s'.setEntry (s.tableOf d ((pageOf a + n) / 1024))
      ((pageOf a + n) % 1024) w).cell → s₂.cell =
        storeAlong (fun i => s.cellOf d (pageOf a + i)) (n + 1) (fun _ => w) s.cell := by
    intro s₂ hs
    rw [hs, cell_setEntry, h.cell, storeAlong_succ]
    rfl
  unfold markPage
  rw [markEntry_eq, husage]
  by_cases h0 : s.usage d ((pageOf a + n) / 1024) = 0#32
  · rw [if_pos h0, if_pos rfl]
    refine .inl ⟨fun k hk => ?_, _, rfl, h.word, h.rest, hcell _ rfl, fun k hk => ?_⟩
    · by_cases hks : k = (pageOf a + n) / 1024
      · exact .inl (hks ▸ h0)
      · rw [hother k hks]
        exact hlasts k hk
    · by_cases hks : k = (pageOf a + n) / 1024
      · subst hks
        rw [usage_setEntry, husage, if_pos h0, if_pos h0]
      · rw [usage_setEntry, hother k hks]
        exact h.usage k hk
  · have hlt := hlast.resolve_left h0
    rw [if_neg h0]
    generalize hu : s.usage d ((pageOf a + n) / 1024) = u at *
    generalize hc : inSlot a n ((pageOf a + n) / 1024) = c at *
    have hleft := toNat_sub_count hlt.le
    have hne : u - BitVec.ofNat 32 c ≠ 0#32 := by
      intro he
      rw [he] at hleft
      have : (0#32).toNat = 0 := rfl
      omega
    rw [if_neg hne]
    by_cases h1 : u - BitVec.ofNat 32 c = 1#32
    · refine .inr ⟨fun hn' => ?_, if_pos h1⟩
      have hmore := (hn' _ hn).resolve_left (hu ▸ h0)
      rw [hself, hu] at hmore
      rw [h1] at hleft
      have : (1#32).toNat = 1 := rfl
      omega
    · have hnot1 : (u - BitVec.ofNat 32 c).toNat ≠ 1 := fun he =>
        h1 (BitVec.eq_of_toNat_eq he)
      rw [if_neg h1]
      refine .inl ⟨fun k hk => ?_, _, rfl, fun d' k hk => ?_, ?_, hcell _ ?_, fun k hk => ?_⟩
      · by_cases hks : k = (pageOf a + n) / 1024
        · subst hks
          rw [hself, hu]
          omega
        · rw [hother k hks]
          exact hlasts k hk
      · exact (addrSpc_setUsage _ _ _ _ _ hk).trans (h.word d' k hk)
      · exact (rest_setUsage ..).trans h.rest
      · exact cell_setUsage ..
      · rw [usage_setUsage]
        by_cases hks : k = (pageOf a + n) / 1024
        · subst hks
          rw [if_pos rfl, hu, if_neg h0, hself, BitVec.ofNat_add, BitVec.sub_sub]
        · rw [if_neg hks, usage_setEntry, hother k hks]
          exact h.usage k hk

/-- The walk of any number of pages. -/
theorem foldlM_markPage (s : Paging) (d : Addr) (a w : UADDR) :
    ∀ n, pageOf a + n ≤ 2 ^ 20 →
      (s.Outlasts d a n ∧ ∃ s', (List.range n).foldlM (markPage s d a w) s = some s' ∧
        Unmapped s d a n w s') ∨
      ¬ s.Outlasts d a n ∧ (List.range n).foldlM (markPage s d a w) s = none := by
  intro n
  induction n with
  | zero =>
    intro _
    refine .inl ⟨fun k _ => ?_, s, rfl, fun _ _ _ => rfl, rfl, rfl, fun k _ => ?_⟩
    · by_cases h0 : s.usage d k = 0#32
      · exact .inl h0
      · refine .inr (Nat.pos_of_ne_zero fun hz => h0 (BitVec.eq_of_toNat_eq hz))
    · split
      · next h0 => exact h0
      · exact (BitVec.sub_zero _).symm
  | succ n ih =>
    intro hn
    rw [List.range_succ, List.foldlM_append]
    rcases ih (by omega) with ⟨hlasts, s', hs, hun⟩ | ⟨hnot, hs⟩
    · rcases hun.step hlasts (by omega) with ⟨hlasts', s₂, hs₂, hun₂⟩ | ⟨hnot, hs₂⟩
      · refine .inl ⟨hlasts', s₂, ?_, hun₂⟩
        rw [hs]
        show (markPage s d a w s' n).bind some = some s₂
        rw [hs₂, Option.bind_some]
      · refine .inr ⟨hnot, ?_⟩
        rw [hs]
        show (markPage s d a w s' n).bind some = none
        rw [hs₂, Option.bind_none]
    · refine .inr ⟨fun hlasts => hnot hlasts.mono, ?_⟩
      rw [hs]
      rfl

/-- **`CKmarkPageNotPresent`** returns if the counts last, and leaves its pages cleared. -/
theorem ckMarkPageNotPresent_results (s : Paging) (d : Addr) (a length data : UADDR) :
    (s.Outlasts d a (pagesMarked a length) ∧ ∃ s',
      s.ckMarkPageNotPresent d a length data = some s' ∧
        Unmapped s d a (pagesMarked a length) (data <<< 1) s') ∨
    ¬ s.Outlasts d a (pagesMarked a length) ∧
      s.ckMarkPageNotPresent d a length data = none := by
  have hlast : entryOf (a + length) + 1 ≤ 1024 := entryOf_lt (a + length)
  rw [ckMarkPageNotPresent_eq, positions_walked hlast, List.foldlM_map]
  exact foldlM_markPage s d a (data <<< 1) _ (page_marked_le a length)

/-! ## The entries that are left -/

/-- Only the page itself has the cell of a page with a table. -/
theorem Separate.page_of_cell (h : s.Separate) (hd : s.live d = true) {q : Nat} (hp : p < 2 ^ 20)
    (hq : q < 2 ^ 20) (htab : s.HasTable d p) (he : s.cellOf d p = s.cellOf d q) : p = q := by
  by_cases htab' : s.HasTable d q
  · exact h.cellOf_inj hd hp hq htab htab' he
  · have hzero := h.absent d (q / 1024) hd (by omega) htab'
    exact absurd ((Prod.mk.inj he).1.trans hzero) (h.table_allocated hd (by omega) htab).1

namespace Unmapped

variable (hun : Unmapped s d a n w s')

include hun in
theorem separate (h : s.Separate) : s'.Separate := h.congr hun.word hun.rest

include hun in
theorem live : s'.live = s.live := (rest_inj hun.rest).2.2.1

include hun in
theorem hasTable_iff (d' : Addr) (hp : p < 2 ^ 20) : s'.HasTable d' p ↔ s.HasTable d' p := by
  rw [HasTable, HasTable, hun.word d' _ (by omega)]

include hun in
theorem cellOf_eq (d' : Addr) (hp : p < 2 ^ 20) : s'.cellOf d' p = s.cellOf d' p :=
  Prod.ext (congrArg physAddr (hun.word d' _ (by omega))) rfl

end Unmapped

/-- The pages of the range have the word, and the others are as they were. -/
theorem Unmapped.entry_word (hun : Unmapped s d a n w s') (h : s.Separate) (hd : s.live d = true)
    (hn : pageOf a + n ≤ 2 ^ 20) (hp : p < 2 ^ 20) (htab : s.HasTable d p) :
    s'.entry d p = if InPages a n p then w else s.entry d p := by
  rw [entry_table ((hun.hasTable_iff d hp).mpr htab), entry_table htab, hun.cellOf_eq d hp,
    hun.cell]
  split
  · next hin =>
    obtain ⟨hle, hlt⟩ := hin
    refine storeAlong_const w ⟨p - pageOf a, by omega, ?_⟩
    rw [Nat.add_sub_cancel' hle]
  · next hout =>
    refine storeAlong_outside fun i hi he => hout ?_
    have := h.page_of_cell hd hp (by omega) htab he
    exact ⟨by omega, by omega⟩

/-- A page whose slot has no table has nothing, before and after. -/
theorem Unmapped.entry_absent (hun : Unmapped s d a n w s') (hp : p < 2 ^ 20)
    (htab : ¬ s.HasTable d p) : s'.entry d p = 0#32 ∧ s.entry d p = 0#32 :=
  ⟨entry_none fun htab' => htab ((hun.hasTable_iff d hp).mp htab'), entry_none htab⟩

/-- The pages are not present any more, and the others are as they were. -/
theorem Unmapped.entry_eq (hun : Unmapped s d a n 0#32 s') (h : s.Separate)
    (hd : s.live d = true) (hn : pageOf a + n ≤ 2 ^ 20) (hp : p < 2 ^ 20) :
    s'.entry d p = if InPages a n p then 0#32 else s.entry d p := by
  by_cases htab : s.HasTable d p
  · exact hun.entry_word h hd hn hp htab
  · obtain ⟨hafter, hbefore⟩ := hun.entry_absent hp htab
    rw [hafter, hbefore, ite_self]

/-- The pages that are not copied to are as they were. -/
theorem entry_copyPages (h : s.Separate) (hd : s.live d = true) (source : Addr) (sa : UADDR)
    (hn : pageOf a + n ≤ 2 ^ 20) (hp : p < 2 ^ 20) (hout : ¬ InPages a n p) :
    (s.copyPages source sa d a n).entry d p = s.entry d p := by
  by_cases htab : s.HasTable d p
  · rw [entry_withCells _ htab, entry_table htab]
    refine copyAlong_outside fun i hi he => hout ?_
    have := h.page_of_cell hd hp (by omega) htab he
    exact ⟨by omega, by omega⟩
  · rw [entry_withCells_none _ htab, entry_none htab]

end Paging

end Alliance.CK
