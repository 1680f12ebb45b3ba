import Alliance.KL.FreeListFit
import Alliance.Lib.Intervals
import Mathlib.Algebra.BigOperators.Group.List.Basic
import Mathlib.Data.BitVec

/-!
# Freeing in any order

The entries of a free list are the maximal runs of free bytes, so the list of them is determined
by what is free (`Entries.canonical`). Blocks that are freed in another order leave the same list,
and freeing a block that was allocated leaves the list as it was before. An allocation of a size
that cannot be rounded up returns an entry that it has not taken; freeing this puts the entry
into the list a second time.
-/

namespace Alliance.KL.KLfreeListDescriptor

open Function Lib
open CK (UADDR)

variable {s s' s'' : KLfreeListDescriptor} {l l' : List UADDR} {e r data size : UADDR}
  {bs bs' : List (UADDR × UADDR)}

/-! ## The list is determined -/

theorem Entries.separated (h : s.Entries l) :
    Separated (l.map fun x => (x.toNat, s.endOf x)) where
  nonempty := by
    intro p hp
    obtain ⟨x, hx, rfl⟩ := List.mem_map.mp hp
    have hroom := h.room x hx
    dsimp only
    unfold endOf
    omega
  apart := List.pairwise_map.mpr h.apart

theorem covered_iff (a : Nat) :
    Covered (l.map fun x => (x.toNat, s.endOf x)) a ↔ s.Free l a := by
  unfold Covered Free
  simp only [List.mem_map, exists_exists_and_eq_and]

/-- **The list of the entries** is determined by what is free. -/
theorem Entries.canonical (h : s.Entries l) (h' : s'.Entries l')
    (hfree : ∀ a, s'.Free l' a ↔ s.Free l a) : l' = l ∧ ∀ x ∈ l, s'.sizeOf x = s.sizeOf x := by
  have hmap : l'.map (fun x => (x.toNat, s'.endOf x)) = l.map fun x => (x.toNat, s.endOf x) :=
    h'.separated.eq_of_covered h.separated fun a => by rw [covered_iff, covered_iff, hfree]
  have hl : l'.map BitVec.toNat = l.map BitVec.toNat := by
    have hfst := congrArg (List.map Prod.fst) hmap
    rwa [List.map_map, List.map_map] at hfst
  obtain rfl : l' = l := List.map_injective_iff.mpr (fun _ _ => BitVec.eq_of_toNat_eq) hl
  refine ⟨rfl, fun x hx => BitVec.eq_of_toNat_eq ?_⟩
  have hend := congrArg Prod.snd (List.map_inj_left.mp hmap x hx)
  dsimp only at hend
  unfold endOf at hend
  omega

/-- The list of the entries of `s'` is that of `s`, with the same sizes and the same count. -/
structure Same (s : KLfreeListDescriptor) (l : List UADDR) (s' : KLfreeListDescriptor) : Prop where
  entries : s'.Entries l
  sizes : ∀ x ∈ l, s'.sizeOf x = s.sizeOf x
  count : s'.FreeMemory = s.FreeMemory

/-! ## Orders -/

/-- Live blocks, each with the size that it was asked for, leave the same list in whatever order
they are freed. -/
def OrderIndependent (s : KLfreeListDescriptor) (l : List UADDR) : Prop :=
  ∀ had bs bs', Ledger had s l (bs.map blockOf) → bs'.Perm bs →
    ∃ s₁ s₂ l', s.freeAll bs = some s₁ ∧ s.freeAll bs' = some s₂ ∧ s₁.Entries l' ∧ Same s₁ l' s₂

theorem Ledger.perm {had : Nat → Prop} {live live' : List (UADDR × UADDR)}
    (h : Ledger had s l live) (hp : live'.Perm live) : Ledger had s l live' where
  entries := h.entries
  block b hb := h.block b (hp.mem_iff.mp hb)
  apart := hp.symm.pairwise h.apart fun hxy a ha ha' => hxy a ha' ha
  taken b hb := h.taken b (hp.mem_iff.mp hb)
  conserved a := (h.conserved a).trans (or_congr_right (exists_congr fun _ =>
    and_congr_left fun _ => hp.mem_iff.symm))

/-- **Freeing in any order.** -/
theorem orderIndependent (s : KLfreeListDescriptor) (l : List UADDR) : s.OrderIndependent l := by
  intro had bs bs' h hp
  obtain ⟨s₁, l₁, hs₁, h₁, hmem₁⟩ := h.freeAll
  obtain ⟨s₂, l₂, hs₂, h₂, hmem₂⟩ := (h.perm (hp.map blockOf)).freeAll
  have hfree : ∀ a, s₂.Free l₂ a ↔ s₁.Free l₁ a := by
    intro a
    have hhad₁ := h₁.conserved a
    have hhad₂ := h₂.conserved a
    simp only [List.not_mem_nil, false_and, exists_false, or_false] at hhad₁ hhad₂
    exact hhad₂.symm.trans hhad₁
  obtain ⟨rfl, hsizes⟩ := h₁.entries.canonical h₂.entries hfree
  have hsum : (bs'.map fun b => adjustSize b.2).sum = (bs.map fun b => adjustSize b.2).sum :=
    (hp.map _).sum_eq
  exact ⟨s₁, s₂, l₂, hs₁, hs₂, h₁.entries, h₂.entries, hsizes, by rw [hmem₁, hmem₂, hsum]⟩

/-! ## Undoing an allocation -/

/-- Freeing the block that the call returned leaves the list as it was before the call. -/
def Undone (s : KLfreeListDescriptor) (l : List UADDR) (size : UADDR)
    (call : Option (KLfreeListDescriptor × UADDR)) : Prop :=
  ∃ s' r, call = some (s', r) ∧
    (r ≠ NIL → ∃ s'', s'.klFreeListMemFree .none r size = some s'' ∧ Same s l s'')

/-- **A block that was taken** can be put back. -/
theorem Took.undone (h : s.Entries l) (hsize : adjustSize size ≠ 0#32)
    (ht : Took s l s' l' r (adjustSize size)) (hr : r ≠ NIL) :
    ∃ s'', s'.klFreeListMemFree .none r size = some s'' ∧ Same s l s'' := by
  obtain ⟨h', ⟨h0, -, -⟩ | ⟨-, hmem, hfree, hin⟩⟩ := ht
  · exact absurd h0 hr
  have hbytes : ∀ a, InBlock r (adjustSize size) a → a < ADDRESSES ∧ ¬ s'.Free l' a := by
    intro a ha
    obtain ⟨x, hx, hxa⟩ := hin a ha
    exact ⟨Nat.lt_of_lt_of_le hxa.2 (h.bound x hx), fun hf => ((hfree a).mp hf).2 ha⟩
  obtain ⟨s'', l'', hs'', h'', hmem'', hfree''⟩ :=
    klFreeListMemFree_gives h' (h'.freeable hr hsize hbytes)
  have hback : ∀ a, s''.Free l'' a ↔ s.Free l a := by
    intro a
    rw [hfree'', hfree]
    have := hin a
    tauto
  obtain ⟨rfl, hsizes⟩ := h.canonical h'' hback
  exact ⟨s'', hs'', h'', hsizes, by rw [hmem'', hmem, BitVec.sub_add_cancel]⟩

/-! ## Sizes that cannot be rounded up -/

/-- No entry ends where another one starts, or where it starts itself. -/
theorem Entries.add_size_ne (h : s.Entries l) (he : e ∈ l) (hx : r ∈ l) : r + s.sizeOf r ≠ e := by
  intro heq
  have hsum : (r.toNat + (s.sizeOf r).toNat) % 2 ^ 32 = e.toNat := by
    rw [← heq, BitVec.toNat_add]
  have hroom := h.room r hx
  have hbound := h.bound r hx
  have hpos := toNat_pos (h.links.ne_nil he)
  have hlt := (s.sizeOf r).isLt
  unfold endOf ADDRESSES at hbound
  by_cases hne : r = e
  · subst hne
    omega
  · have hsep := h.separate he hx hne
    unfold endOf at hsep
    omega

/-- An entry that is freed once more, without a size, is put into the list behind itself. -/
theorem klFreeListMemFree_entry (h : s.Entries l) (he : e ∈ l) (hsize : adjustSize size = 0#32)
    (hs : s.klFreeListMemFree .none e size = some s') : s'.sizeOf e = 0#32 := by
  have hnil : e ≠ NIL := h.links.ne_nil he
  obtain ⟨as, bs, rfl, hplace, -, hbs⟩ := placeOf_cases h e
  have hprev : ¬ (as.getLastD NIL ≠ NIL ∧
      as.getLastD NIL + (s.mem (as.getLastD NIL)).size = e) := by
    rintro ⟨hne, htouch⟩
    refine h.add_size_ne he (List.mem_append_left bs ?_) htouch
    rcases List.eq_nil_or_concat as with rfl | ⟨as, x, rfl⟩
    · exact absurd rfl hne
    · rw [List.concat_eq_append, List.getLastD_concat]
      simp
  have hnext : ¬ (bs.headD NIL ≠ NIL ∧ e + 0#32 = bs.headD NIL) := by
    rintro ⟨hne, htouch⟩
    cases bs with
    | nil => exact hne rfl
    | cons y bs =>
        have hlt := hbs y (.head _)
        rw [BitVec.add_zero, List.headD_cons] at htouch
        rw [htouch] at hlt
        exact Nat.lt_irrefl _ hlt
  unfold klFreeListMemFree at hs
  rw [hplace, hsize] at hs
  obtain rfl := Option.some.inj hs
  unfold joinPrev
  rw [if_neg hprev]
  unfold KLfreeListDescriptor.joinNext
  rw [if_neg hnext, klFreeListMemFreeChunk_none, (klFreeListInsert_rest hnil).1, sizeOf_setSize,
    update_self]

/-- A block without a size is taken out of any list that has entries, and cannot be put back. -/
theorem not_undone (h : s.Entries l) (hne : l ≠ []) (hsize : adjustSize size = 0#32) :
    ¬ s.Undone l size (s.klFreeListMemAlloc .none size) := by
  rintro ⟨s', r, hs, hundone⟩
  obtain ⟨s₁, l₁, r₁, hs₁, h₁, htaken⟩ := klFreeListMemAlloc_took h size
  obtain ⟨rfl, rfl⟩ := Prod.mk.inj (Option.some.inj (hs₁.symm.trans hs))
  rw [hsize] at htaken
  rcases klFreeListMemAlloc_smallest h size with ⟨-, hnone⟩ | ⟨e, hsmall, _, hs'⟩
  · obtain ⟨e, he⟩ := List.exists_mem_of_ne_nil l hne
    refine hnone e he (.inr ?_)
    have hroom := h.room e he
    rw [hsize]
    simpa using hroom
  · obtain ⟨-, rfl⟩ := Prod.mk.inj (Option.some.inj (hs₁.symm.trans hs'))
    have hnil := h.links.ne_nil hsmall.1
    obtain ⟨-, -, hfree, -⟩ := htaken.resolve_left fun h0 => hnil h0.1
    have hempty : ∀ a, ¬ InBlock r₁ 0#32 a := by
      intro a ha
      unfold InBlock at ha
      simp only [BitVec.toNat_ofNat, Nat.zero_mod] at ha
      omega
    obtain ⟨rfl, -⟩ := h.canonical h₁ fun a => (hfree a).trans (and_iff_left (hempty a))
    obtain ⟨s'', hs'', hsame⟩ := hundone hnil
    have hzero := klFreeListMemFree_entry h₁ hsmall.1 hsize hs''
    have hroom := h.room r₁ hsmall.1
    rw [← hsame.sizes r₁ hsmall.1, hzero] at hroom
    exact absurd hroom (by decide)

/-- **Freeing** is independent of the order, and undoes the allocation of a size, if and only if
the size can be rounded up or there is nothing to allocate. -/
theorem freeing_undoes_iff (h : s.Entries l) (size : UADDR) :
    s.OrderIndependent l ∧ s.Undone l size (s.klFreeListMemAlloc .none size) ∧
        (∀ k, s.Undone l size (s.klFreeListMemAllocAlign .none size k)) ↔
      size.toNat + 3 < ADDRESSES ∨ l = [] := by
  rw [← Nat.not_le, ← adjustSize_eq_zero]
  constructor
  · rintro ⟨-, hundone, -⟩
    by_contra hnot
    obtain ⟨hsize, hne⟩ := not_or.mp hnot
    exact not_undone h hne (not_not.mp hsize) hundone
  · intro hc
    have htook : ∀ {call}, (∃ s' l' r, call = some (s', r) ∧ Took s l s' l' r (adjustSize size)) →
        adjustSize size ≠ 0#32 → s.Undone l size call := by
      rintro call ⟨s', l', r, rfl, ht⟩ hsize
      exact ⟨s', r, rfl, ht.undone h hsize⟩
    rcases hc with hsize | rfl
    · exact ⟨s.orderIndependent l, htook (klFreeListMemAlloc_took h size) hsize,
        fun k => htook (klFreeListMemAllocAlign_took h k hsize) hsize⟩
    · -- an empty list has nothing to take
      have hnone : ∀ fit : UADDR → UADDR → Option (UADDR × UADDR),
          s.allocWith .none fit (adjustSize size) = some (s, NIL) := by
        intro fit
        rcases allocWith_cases fit (adjustSize size) h.links with hs | ⟨e, he, -⟩
        · exact hs
        · exact absurd he nofun
      exact ⟨s.orderIndependent [], ⟨s, NIL, hnone _, fun h0 => absurd rfl h0⟩,
        fun k => ⟨s, NIL, hnone _, fun h0 => absurd rfl h0⟩⟩

/-- 16 bytes of 64 can be allocated and freed again. -/
theorem freeing_undoes_iff_sixteen : ∃ s, freeListAtBoot.freeAll [(0x1000#32, 64#32)] = some s ∧
    s.OrderIndependent [0x1000#32] ∧
    s.Undone [0x1000#32] 16#32 (s.klFreeListMemAlloc .none 16#32) ∧
    ∀ k, s.Undone [0x1000#32] 16#32 (s.klFreeListMemAllocAlign .none 16#32 k) := by
  obtain ⟨s, hs, hl, -⟩ := freeAll_boot [(0x1000#32, 64#32)] (l := [0x1000#32]) (fun _ => true)
    (by decide) (by decide) (by decide +kernel)
  exact ⟨s, hs, (freeing_undoes_iff hl 16#32).mpr (.inl (by decide))⟩

/-- A request for all bytes but one returns the entry, and when that is freed the entry has no
size and is followed by itself. -/
theorem freeing_wrapped : ∃ s, freeListAtBoot.freeAll [(0x1000#32, 64#32)] = some s ∧
    (s.klFreeListMemAlloc .none 0xffffffff#32).any (fun out =>
      decide (out.2 = 0x1000#32 ∧
        (out.1.klFreeListMemFree .none out.2 0xffffffff#32).any (fun s =>
          decide (s.sizeOf 0x1000#32 = 0#32 ∧ s.nextOf 0x1000#32 = 0x1000#32)) = true)) = true ∧
    s.Entries [0x1000#32] ∧
    ¬ (s.OrderIndependent [0x1000#32] ∧
      s.Undone [0x1000#32] 0xffffffff#32 (s.klFreeListMemAlloc .none 0xffffffff#32) ∧
      ∀ k, s.Undone [0x1000#32] 0xffffffff#32
        (s.klFreeListMemAllocAlign .none 0xffffffff#32 k)) := by
  obtain ⟨s, hs, hl, hp⟩ : ∃ s, freeListAtBoot.freeAll [(0x1000#32, 64#32)] = some s ∧
      s.Entries [0x1000#32] ∧ (s.klFreeListMemAlloc .none 0xffffffff#32).any (fun out =>
        decide (out.2 = 0x1000#32 ∧
          (out.1.klFreeListMemFree .none out.2 0xffffffff#32).any (fun s =>
            decide (s.sizeOf 0x1000#32 = 0#32 ∧ s.nextOf 0x1000#32 = 0x1000#32)) = true)) = true :=
    freeAll_boot _ _ (by decide) (by decide) (by decide +kernel)
  exact ⟨s, hs, hp, hl, fun h => not_undone hl (List.cons_ne_nil _ _) (by decide) h.2.1⟩

end Alliance.KL.KLfreeListDescriptor
