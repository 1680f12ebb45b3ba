import Alliance.KL.FreeListCalls
import Mathlib.Data.Set.Card
import Mathlib.Order.Interval.Finset.Nat
import Mathlib.Order.Interval.Set.Infinite
import Mathlib.Data.BitVec

/-!
# Who has the memory

`Ledger` is what callers of a free list rely on: the bytes that the list has had are its free
bytes and those of the blocks that were taken and not given back, and no byte is in two of
these. It is kept by every allocation and by every freeing of such a block.

The free bytes are as many as the sizes of the entries add up to (`sum_sizeOf`), so that a count
of free bytes can be kept by looking at bytes only (`Counted`).
-/

namespace Alliance.KL.KLfreeListDescriptor

open Lib
open CK (UADDR)

variable {s s' : KLfreeListDescriptor} {l l' : List UADDR} {data size r : UADDR}
  {live : List (UADDR × UADDR)} {b : UADDR × UADDR} {had : Nat → Prop}

/-! ## Blocks -/

/-- The bytes of `had` are free or in the blocks of `live`, which are given by their addresses
and sizes. -/
structure Ledger (had : Nat → Prop) (s : KLfreeListDescriptor) (l : List UADDR)
    (live : List (UADDR × UADDR)) : Prop where
  entries : s.Entries l
  block : ∀ b ∈ live, b.1 ≠ NIL ∧ b.2 ≠ 0#32
  apart : live.Pairwise fun b b' => ∀ a, InBlock b.1 b.2 a → ¬ InBlock b'.1 b'.2 a
  taken : ∀ b ∈ live, ∀ a, InBlock b.1 b.2 a → a < ADDRESSES ∧ ¬ s.Free l a
  conserved : ∀ a, had a ↔ s.Free l a ∨ ∃ b ∈ live, InBlock b.1 b.2 a

namespace Ledger

theorem start (h : s.Entries l) : Ledger (s.Free l) s l [] where
  entries := h
  block := nofun
  apart := .nil
  taken := nofun
  conserved a := by simp

theorem congr {had' : Nat → Prop} (h : Ledger had s l live) (he : ∀ a, had' a ↔ had a) :
    Ledger had' s l live :=
  { h with conserved := fun a => (he a).trans (h.conserved a) }

theorem freeable (h : Ledger had s l live) (hb : b ∈ live) : s.Freeable l b.1 b.2 :=
  h.entries.freeable (h.block b hb).1 (h.block b hb).2 (h.taken b hb)

/-- A block is apart from every other one. -/
theorem apart_erase (h : Ledger had s l live) (hb : b ∈ live) :
    (∀ b' ∈ live.erase b, ∀ a, InBlock b.1 b.2 a → ¬ InBlock b'.1 b'.2 a) ∧
      (live.erase b).Pairwise fun b b' => ∀ a, InBlock b.1 b.2 a → ¬ InBlock b'.1 b'.2 a :=
  List.pairwise_cons.mp
    ((List.perm_cons_erase hb).pairwise h.apart fun hxy a ha ha' => hxy a ha' ha)

/-- **An allocation** moves its block from the free bytes to the blocks. -/
theorem took (h : Ledger had s l live) (hsize : size ≠ 0#32) (ht : Took s l s' l' r size) :
    Ledger had s' l' (if r = NIL then live else (r, size) :: live) := by
  obtain ⟨hentries, ⟨rfl, rfl, rfl⟩ | ⟨hr, -, hfree, hin⟩⟩ := ht
  · rwa [if_pos rfl]
  rw [if_neg hr]
  refine ⟨hentries, List.forall_mem_cons.mpr ⟨⟨hr, hsize⟩, h.block⟩,
    List.pairwise_cons.mpr ⟨fun b hb a ha hba => (h.taken b hb a hba).2 (hin a ha), h.apart⟩,
    List.forall_mem_cons.mpr ⟨fun a ha => ?_, fun b hb a ha => ?_⟩, fun a => ?_⟩
  · obtain ⟨x, hx, hxa⟩ := hin a ha
    exact ⟨Nat.lt_of_lt_of_le hxa.2 (h.entries.bound x hx), fun hf => ((hfree a).mp hf).2 ha⟩
  · exact ⟨(h.taken b hb a ha).1, fun hf => (h.taken b hb a ha).2 ((hfree a).mp hf).1⟩
  · rw [h.conserved, hfree, List.exists_mem_cons_iff]
    have := hin a
    tauto

/-- **Freeing** moves the bytes of a block back. -/
theorem gives (h : Ledger had s l live) (hb : b ∈ live) (hentries : s'.Entries l')
    (hfree : ∀ a, s'.Free l' a ↔ s.Free l a ∨ InBlock b.1 b.2 a) :
    Ledger had s' l' (live.erase b) := by
  obtain ⟨hother, hapart⟩ := h.apart_erase hb
  have hrest : ∀ b' ∈ live.erase b, b' ∈ live := fun _ => List.mem_of_mem_erase
  refine ⟨hentries, fun b' hb' => h.block b' (hrest b' hb'), hapart,
    fun b' hb' a ha => ⟨(h.taken b' (hrest b' hb') a ha).1, fun hf => ?_⟩, fun a => ?_⟩
  · exact ((hfree a).mp hf).elim (h.taken b' (hrest b' hb') a ha).2
      fun hin => hother b' hb' a hin ha
  · have hblocks : (∃ x ∈ live, InBlock x.1 x.2 a) ↔
        InBlock b.1 b.2 a ∨ ∃ x ∈ live.erase b, InBlock x.1 x.2 a :=
      (exists_congr fun x => and_congr_left fun _ => (List.perm_cons_erase hb).mem_iff).trans
        (List.exists_mem_cons_iff (fun x => InBlock x.1 x.2 a) b (live.erase b))
    rw [h.conserved, hfree, hblocks, or_assoc]

/-- **New memory** that is put into the list. -/
theorem grows (h : Ledger had s l live) (hnew : ∀ a, InBlock data size a → ¬ had a)
    (hentries : s'.Entries l') (hfree : ∀ a, s'.Free l' a ↔ s.Free l a ∨ InBlock data size a) :
    Ledger (fun a => had a ∨ InBlock data size a) s' l' live where
  entries := hentries
  block := h.block
  apart := h.apart
  taken b hb a ha := ⟨(h.taken b hb a ha).1, fun hf => ((hfree a).mp hf).elim
    (h.taken b hb a ha).2 fun hin => hnew a hin ((h.conserved a).mpr (.inr ⟨b, hb, ha⟩))⟩
  conserved a := by
    rw [h.conserved, hfree]
    exact or_right_comm

end Ledger

/-! ## Freeing all blocks -/

/-- A block of memory as its owner asks for it, and as the list has it. -/
def blockOf (b : UADDR × UADDR) : UADDR × UADDR := (b.1, adjustSize b.2)

/-- Blocks are freed one after the other. -/
def freeAll (s : KLfreeListDescriptor) : List (UADDR × UADDR) → Option KLfreeListDescriptor
  | [] => some s
  | b :: bs => (s.klFreeListMemFree .none b.1 b.2).bind fun s => s.freeAll bs

/-- Blocks that a descriptor is given at the start. -/
theorem Ledger.boot {live : List (UADDR × UADDR)} (hblock : ∀ b ∈ live, b.1 ≠ NIL ∧ b.2 ≠ 0#32)
    (hbound : ∀ b ∈ live, b.1.toNat + b.2.toNat ≤ ADDRESSES)
    (hapart : live.Pairwise fun b b' => b.1.toNat + b.2.toNat ≤ b'.1.toNat) :
    Ledger (fun a => ∃ b ∈ live, InBlock b.1 b.2 a) freeListAtBoot [] live where
  entries := freeListAtBoot_entries
  block := hblock
  apart := hapart.imp fun h a ha ha' => by
    unfold InBlock at ha ha'
    omega
  taken b hb a ha := ⟨Nat.lt_of_lt_of_le ha.2 (hbound b hb), nofun⟩
  conserved a := (or_iff_right nofun).symm

/-- **Freeing all blocks** leaves all bytes free. -/
theorem Ledger.freeAll {bs : List (UADDR × UADDR)} (h : Ledger had s l (bs.map blockOf)) :
    ∃ s' l', s.freeAll bs = some s' ∧ Ledger had s' l' [] ∧
      s'.FreeMemory = s.FreeMemory + (bs.map fun b => adjustSize b.2).sum := by
  induction bs generalizing s l with
  | nil => exact ⟨s, l, rfl, h, by simp⟩
  | cons b bs ih =>
      have hb : blockOf b ∈ (b :: bs).map blockOf := List.mem_map_of_mem (.head _)
      obtain ⟨s₁, l₁, hs₁, hl₁, hmem₁, hfree₁⟩ := klFreeListMemFree_gives h.entries (h.freeable hb)
      have hledger := h.gives hb hl₁ hfree₁
      rw [List.map_cons, List.erase_cons_head] at hledger
      obtain ⟨s', l', hs', hl', hmem'⟩ := ih hledger
      refine ⟨s', l', ?_, hl', ?_⟩
      · show (s.klFreeListMemFree .none (blockOf b).1 b.2).bind _ = _
        rw [hs₁, Option.bind_some, hs']
      · rw [hmem', hmem₁, List.map_cons, List.sum_cons, BitVec.add_assoc]

/-- The list that a descriptor has after it was given blocks at the start, with what can be
evaluated of it. -/
theorem freeAll_boot (bs : List (UADDR × UADDR)) {l : List UADDR} (p : KLfreeListDescriptor → Bool)
    (hblocks : ((bs.map blockOf).all fun b =>
      decide (b.1 ≠ NIL ∧ b.2 ≠ 0#32 ∧ b.1.toNat + b.2.toNat ≤ ADDRESSES)) = true)
    (hapart : (bs.map blockOf).Pairwise fun b b' => b.1.toNat + b.2.toNat ≤ b'.1.toNat)
    (hp : (freeListAtBoot.freeAll bs).any (fun s =>
      decide (Chained NIL s.nextOf s.FirstFreeEntry l) && p s) = true) :
    ∃ s, freeListAtBoot.freeAll bs = some s ∧ s.Entries l ∧ p s = true := by
  have hblock : ∀ b ∈ bs.map blockOf,
      b.1 ≠ NIL ∧ b.2 ≠ 0#32 ∧ b.1.toNat + b.2.toNat ≤ ADDRESSES := fun b hb =>
    of_decide_eq_true (List.all_eq_true.mp hblocks b hb)
  have hledger := Ledger.boot (fun b hb => ⟨(hblock b hb).1, (hblock b hb).2.1⟩)
    (fun b hb => (hblock b hb).2.2) hapart
  obtain ⟨s, l', hs, hl', -⟩ := hledger.freeAll
  rw [hs, Option.any_some, Bool.and_eq_true] at hp
  have hc := hl'.entries.links.addr.chained
  rw [nextOf_nil] at hc
  obtain rfl := hc.unique (of_decide_eq_true hp.1)
  exact ⟨s, hs, hl'.entries, hp.2⟩

/-! ## Counting -/

theorem Entries.free_finite (h : s.Entries l) : {a | s.Free l a}.Finite :=
  (Set.finite_Iio ADDRESSES).subset fun _ ⟨x, hx, hxa⟩ => Nat.lt_of_lt_of_le hxa.2 (h.bound x hx)

theorem ncard_block (data size : UADDR) : {a | InBlock data size a}.ncard = size.toNat := by
  have hset : {a | InBlock data size a} = ↑(Finset.Ico data.toNat (data.toNat + size.toNat)) := by
    ext a
    simp [InBlock]
  rw [hset, Set.ncard_coe_finset, Nat.card_Ico, Nat.add_sub_cancel_left]

/-- Bytes that are put to others. -/
theorem ncard_or_block {P Q : Nat → Prop} (hQ : {a | Q a}.Finite)
    (hP : ∀ a, P a ↔ Q a ∨ InBlock data size a) (hapart : ∀ a, InBlock data size a → ¬ Q a) :
    {a | P a}.ncard = {a | Q a}.ncard + size.toNat := by
  have hset : {a | P a} = {a | Q a} ∪ {a | InBlock data size a} := Set.ext hP
  have hdisj : Disjoint {a | Q a} {a | InBlock data size a} :=
    Set.disjoint_left.mpr fun a ha hin => hapart a hin ha
  have hfin : {a | InBlock data size a}.Finite :=
    (Set.finite_Iio (data.toNat + size.toNat)).subset fun _ ha => ha.2
  rw [hset, Set.ncard_union_eq hdisj hQ hfin, ncard_block]

/-- **The sizes of the entries** add up to the number of free bytes. -/
theorem Entries.sum_sizeOf (h : s.Entries l) :
    (l.map fun x => (s.sizeOf x).toNat).sum = {a | s.Free l a}.ncard := by
  have hapart := h.apart
  have hfin : ∀ l' ⊆ l, {a | s.Free l' a}.Finite := fun l' hl =>
    h.free_finite.subset fun a ⟨x, hx, hxa⟩ => ⟨x, hl hx, hxa⟩
  clear h
  induction l with
  | nil => simp [Free]
  | cons x l ih =>
      obtain ⟨hx, hl⟩ := List.pairwise_cons.mp hapart
      have hcons : ∀ a, s.Free (x :: l) a ↔ s.Free l a ∨ InBlock x (s.sizeOf x) a := fun a =>
        (List.exists_mem_cons_iff _ x l).trans or_comm
      have hout : ∀ a, InBlock x (s.sizeOf x) a → ¬ s.Free l a := by
        rintro a ⟨-, hxa⟩ ⟨y, hy, hya, -⟩
        have := hx y hy
        unfold endOf at this
        omega
      have hrest := ih hl fun l' hl' => hfin l' (List.subset_cons_of_subset x hl')
      rw [List.map_cons, List.sum_cons, hrest,
        ncard_or_block (hfin l (List.subset_cons_self x l)) hcons hout]
      exact Nat.add_comm _ _

/-- `FreeMemory` is the number of free bytes. -/
def Counted (s : KLfreeListDescriptor) (l : List UADDR) : Prop :=
  s.FreeMemory.toNat = {a | s.Free l a}.ncard

/-- There are fewer free bytes than addresses. -/
theorem Entries.ncard_lt (h : s.Entries l) : {a | s.Free l a}.ncard < ADDRESSES := by
  have hsub : {a | s.Free l a} ⊆ ↑(Finset.Ico 1 ADDRESSES) := by
    rintro a ⟨x, hx, hxa⟩
    have := toNat_pos (h.links.ne_nil hx)
    have := h.bound x hx
    simp only [Finset.coe_Ico, Set.mem_Ico]
    omega
  refine Nat.lt_of_le_of_lt (Set.ncard_le_ncard hsub (Finset.finite_toSet _)) ?_
  rw [Set.ncard_coe_finset, Nat.card_Ico]
  decide

theorem Counted.took (h : s.Counted l) (hl : s.Entries l) (ht : Took s l s' l' r size) :
    s'.Counted l' := by
  obtain ⟨hentries, ⟨-, rfl, rfl⟩ | ⟨-, hmem, hfree, hin⟩⟩ := ht
  · exact h
  have hcard : {a | s.Free l a}.ncard = {a | s'.Free l' a}.ncard + size.toNat := by
    have hboth : ∀ a, s.Free l a ↔ s'.Free l' a ∨ InBlock r size a := by
      intro a
      rw [hfree]
      have := hin a
      tauto
    exact ncard_or_block hentries.free_finite hboth fun a ha hf => ((hfree a).mp hf).2 ha
  unfold Counted at h ⊢
  rw [hmem]
  bv_omega

theorem Counted.gives (h : s.Counted l) (hl : s.Entries l) (hentries : s'.Entries l')
    (hmem : s'.FreeMemory = s.FreeMemory + size)
    (hfree : ∀ a, s'.Free l' a ↔ s.Free l a ∨ InBlock data size a)
    (hapart : ∀ a, InBlock data size a → ¬ s.Free l a) : s'.Counted l' := by
  have hcard := ncard_or_block hl.free_finite hfree hapart
  have hlt := hentries.ncard_lt
  unfold Counted at h ⊢
  unfold ADDRESSES at hlt
  rw [hmem, BitVec.toNat_add, hcard, h]
  exact Nat.mod_eq_of_lt (by omega)

end Alliance.KL.KLfreeListDescriptor
