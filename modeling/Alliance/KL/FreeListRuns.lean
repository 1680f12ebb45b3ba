import Alliance.KL.FreeListLedger
import Alliance.Lib.Run

/-!
# Runs of the free list

A descriptor is used by calls of `KLfreeListMemAlloc`, `KLfreeListMemAllocAlign` and
`KLfreeListMemFree`, in any order; `KLfreeListMemFree` is given a block back, or memory that
the list did not have. After every call of a run the lists are as they should be
(`WellFormed`), and what a call returns is nobody else's (`Granted`).

Memory that is given to a list need not have a size that is a multiple of 4. `AdjustSize`
rounds it up, into the word that it ends in. All blocks and entries start at a word, so nobody
has the rest of it.

Address 0 is `NIL`. Memory that starts there can not be put into the list: as an entry it is
the end of the list.
-/

namespace Alliance.KL

open Lib
open CK (UADDR)

namespace KLfreeListDescriptor

variable {s s' : KLfreeListDescriptor} {l : List UADDR} {e x data size r : UADDR} {k : Nat}

/-- The lists of a descriptor. The address list goes through the entries of `l` in their order,
and no entry touches the next one. Each entry has room for a header and is in one size list,
that of its size. -/
structure WellFormed (s : KLfreeListDescriptor) (l : List UADDR) : Prop where
  address : Linked NIL NIL s.nextOf s.prevOf l
  sorted : l.Pairwise fun x y => s.endOf x < y.toNat
  room : ∀ x ∈ l, HEADER ≤ s.sizeOf x
  sizes : ∀ t, ∃ m, Linked NIL NIL (s.nextsizeOf t) s.prevsizeOf m ∧
    ∀ x, x ∈ m ↔ x ∈ l ∧ klGetFastLookupToUse (s.sizeOf x) = t
  counted : s.FreeMemory.toNat = (l.map fun x => (s.sizeOf x).toNat).sum

theorem Entries.wellFormed (h : s.Entries l) (hcount : s.Counted l) : s.WellFormed l where
  address := h.links.addr
  sorted := h.apart
  room x hx := BitVec.le_def.mpr (h.room x hx)
  sizes t := by
    obtain ⟨m, hm, hmem⟩ := h.links.size t
    refine ⟨m, hm, fun x => (hmem x).trans (and_congr_right fun hx => ?_)⟩
    rw [h.table x hx]
  counted := hcount.trans h.sum_sizeOf.symm

theorem WellFormed.unique {l' : List UADDR} (h : s.WellFormed l) (h' : s.WellFormed l') : l = l' :=
  h.address.unique h'.address

/-- A descriptor before its first use. -/
structure Blank (s : KLfreeListDescriptor) : Prop where
  address : s.FirstFreeEntry = NIL
  sizes : ∀ t, s.FirstFreeSizeEntry t = NIL
  count : s.FreeMemory = 0#32

theorem Blank.entries (h : s.Blank) : s.Entries [] where
  links := ⟨Linked.empty (nextOf_nil.trans h.address), fun t =>
    ⟨[], Linked.empty (nextsizeOf_nil.trans (h.sizes t)), fun x => by simp⟩⟩
  table := nofun
  room := nofun
  bound := nofun
  apart := .nil

theorem Blank.counted (h : s.Blank) : s.Counted [] := by
  rw [Counted, ← h.entries.sum_sizeOf, h.count]
  rfl

theorem freeListAtBoot_blank : freeListAtBoot.Blank := ⟨rfl, fun _ => rfl, rfl⟩

/-! ## Where blocks start -/

theorem dvd_alignUp (k : Nat) (x : UADDR) : 2 ^ k ∣ (alignUp k x).toNat := by
  rw [alignUp, toNat_and_neg]
  exact Nat.dvd_mul_left ..

/-- Rounding up leads from a word to a word. -/
theorem four_dvd_alignUp (k : Nat) (hx : 4 ∣ x.toNat) : 4 ∣ (alignUp k x).toNat := by
  by_cases hk : 2 ≤ k
  · exact Nat.dvd_trans (Nat.pow_dvd_pow 2 hk) (dvd_alignUp k x)
  -- a smaller alignment changes nothing
  have hlt := x.isLt
  obtain rfl | rfl : k = 0 ∨ k = 1 := by omega
  · have h := toNat_and_neg (x + (1#32 <<< 0 - 1#32)) 0
    have hadd : (x + (1#32 <<< 0 - 1#32)).toNat = x.toNat := by simp
    rw [alignUp, h, hadd]
    omega
  · have h := toNat_and_neg (x + (1#32 <<< 1 - 1#32)) 1
    have hadd : (x + (1#32 <<< 1 - 1#32)).toNat = (x.toNat + 1) % 2 ^ 32 := BitVec.toNat_add ..
    rw [alignUp, h, hadd]
    omega

theorem four_dvd_adjustSize (size : UADDR) : 4 ∣ (adjustSize size).toNat := by
  have h := toNat_adjustSize size
  unfold roundedSize ADDRESSES at h
  split at h <;> omega

theorem fitAligned_start {left : UADDR}
    (hf : fitAligned size k e (s.sizeOf e) = some (data, left)) :
    data = alignUp k e ∨ data = alignUp k (e + HEADER) := by
  unfold fitAligned at hf
  split at hf
  · dsimp only at hf
    generalize hd : (if alignUp k e - e ≠ 0#32 ∧ alignUp k e - e < HEADER then
      alignUp k (e + HEADER) else alignUp k e) = d at hf
    split at hf
    · obtain ⟨rfl, -⟩ := Prod.mk.inj (Option.some.inj hf)
      rw [← hd]
      split
      · exact .inr rfl
      · exact .inl rfl
    · exact absurd hf (by simp)
  · exact absurd hf (by simp)

/-- What `KLfreeListMemAlloc` returns is an entry. -/
theorem klFreeListMemAlloc_start (h : s.Links l)
    (hs : s.klFreeListMemAlloc .none size = some (s', r)) (hr : r ≠ NIL) : r ∈ l := by
  rcases allocWith_cases (fitAt (adjustSize size)) (adjustSize size) h with
    hc | ⟨e, he, data, left, hf, -, hc⟩
  · obtain ⟨-, rfl⟩ := Prod.mk.inj (Option.some.inj (hs.symm.trans hc))
    exact absurd rfl hr
  · obtain ⟨-, rfl⟩ := Prod.mk.inj (Option.some.inj (hs.symm.trans hc))
    obtain ⟨rfl, -⟩ := fitAt_ends hf
    exact he

/-- What `KLfreeListMemAllocAlign` returns is an entry or its address behind a header, rounded
up. -/
theorem klFreeListMemAllocAlign_start (h : s.Links l)
    (hs : s.klFreeListMemAllocAlign .none size k = some (s', r)) (hr : r ≠ NIL) :
    ∃ e ∈ l, r = alignUp k e ∨ r = alignUp k (e + HEADER) := by
  rcases allocWith_cases (fitAligned (adjustSize size) k) (adjustSize size) h with
    hc | ⟨e, he, data, left, hf, -, hc⟩
  · obtain ⟨-, rfl⟩ := Prod.mk.inj (Option.some.inj (hs.symm.trans hc))
    exact absurd rfl hr
  · obtain ⟨-, rfl⟩ := Prod.mk.inj (Option.some.inj (hs.symm.trans hc))
    exact ⟨e, he, fitAligned_start hf⟩

/-! ## Words -/

/-- The free bytes are whole words. -/
def Words (s : KLfreeListDescriptor) (l : List UADDR) : Prop :=
  ∀ a b, a / 4 = b / 4 → s.Free l a → s.Free l b

/-- An entry starts at a word: the byte before it is not free. -/
theorem Words.start (h : s.Words l) (hl : s.Entries l) (hx : x ∈ l) : 4 ∣ x.toNat := by
  have hroom := hl.room x hx
  have hend : s.endOf x = x.toNat + (s.sizeOf x).toNat := rfl
  by_contra hodd
  have hfree : s.Free l x.toNat := ⟨x, hx, le_refl _, by omega⟩
  obtain ⟨y, hy, hle, hlt⟩ := h x.toNat (x.toNat - 1) (by omega) hfree
  have hne : y ≠ x := by
    rintro rfl
    omega
  have := hl.separate hx hy hne
  omega

theorem Words.took {l' : List UADDR} (h : s.Words l) (hr : 4 ∣ r.toNat) (hsize : 4 ∣ size.toNat)
    (hfree : ∀ a, s'.Free l' a ↔ s.Free l a ∧ ¬ InBlock r size a) : s'.Words l' := by
  intro a b hab ha
  obtain ⟨ha, hout⟩ := (hfree a).mp ha
  refine (hfree b).mpr ⟨h a b hab ha, fun hin => hout ?_⟩
  unfold InBlock at hin ⊢
  omega

theorem Words.gives {l' : List UADDR} (h : s.Words l) (hr : 4 ∣ data.toNat)
    (hsize : 4 ∣ size.toNat) (hfree : ∀ a, s'.Free l' a ↔ s.Free l a ∨ InBlock data size a) :
    s'.Words l' := by
  intro a b hab ha
  refine (hfree b).mpr (((hfree a).mp ha).imp (h a b hab) fun hin => ?_)
  unfold InBlock at hin ⊢
  omega

end KLfreeListDescriptor

/-! ## Calls -/

open KLfreeListDescriptor

/-- A descriptor, and the blocks that were taken from it and not given back, by address and
rounded size. -/
structure FreeListState where
  desc : KLfreeListDescriptor
  live : List (UADDR × UADDR)

inductive FreeListOp where
  | alloc (size : UADDR)
  | allocAlign (size : UADDR) (alignment : Nat)
  | free (data size : UADDR)

namespace FreeListOp

/-- What a call does to the descriptor, and what it returns. -/
def call (s : KLfreeListDescriptor) : FreeListOp → Option (KLfreeListDescriptor × UADDR)
  | .alloc size => s.klFreeListMemAlloc .none size
  | .allocAlign size alignment => s.klFreeListMemAllocAlign .none size alignment
  | .free data size => (s.klFreeListMemFree .none data size).map fun s => (s, NIL)

/-- The blocks after a call that returned `r`. -/
def live (bs : List (UADDR × UADDR)) (r : UADDR) : FreeListOp → List (UADDR × UADDR)
  | .alloc size => if r = NIL then bs else (r, adjustSize size) :: bs
  | .allocAlign size _ => if r = NIL then bs else (r, adjustSize size) :: bs
  | .free data size => bs.erase (data, adjustSize size)

/-- The size and the alignment that an allocation asks for. -/
def asks : FreeListOp → Option (UADDR × Nat)
  | .alloc size => some (size, 0)
  | .allocAlign size alignment => some (size, alignment)
  | .free .. => none

end FreeListOp

def freeListStep (st : FreeListState) (op : FreeListOp) : Option FreeListState :=
  (op.call st.desc).map fun out => ⟨out.1, op.live st.live out.2⟩

namespace FreeListState

/-- A region that starts at a word, has room for a header, and that nobody has. -/
structure Region (st : FreeListState) (data size : UADDR) : Prop where
  aligned : 4 ∣ data.toNat
  room : HEADER ≤ size
  bound : data.toNat + size.toNat ≤ ADDRESSES
  live : ∀ b ∈ st.live, ∀ a, InBlock data size a → ¬ InBlock b.1 b.2 a
  free : ∀ l, st.desc.WellFormed l → ∀ a, InBlock data size a → ¬ st.desc.Free l a

/-- What an allocation returns: a block that is as long and as aligned as was asked for, apart
from the blocks and from what stays free. -/
structure Granted (st : FreeListState) (desc : KLfreeListDescriptor) (l : List UADDR)
    (r size : UADDR) (alignment : Nat) : Prop where
  long : size.toNat ≤ (adjustSize size).toNat
  bound : r.toNat + (adjustSize size).toNat ≤ ADDRESSES
  aligned : 2 ^ alignment ∣ r.toNat
  live : ∀ b ∈ st.live, ∀ a, InBlock r (adjustSize size) a → ¬ InBlock b.1 b.2 a
  free : ∀ a, InBlock r (adjustSize size) a → ¬ desc.Free l a

end FreeListState

/-- The sizes do not wrap, and what is given to the list is a block, or a region. -/
def FreeListOp.Given (st : FreeListState) : FreeListOp → Prop
  | .alloc size => size.toNat + 3 < ADDRESSES
  | .allocAlign size _ => size.toNat + 3 < ADDRESSES
  | .free data size => (data, adjustSize size) ∈ st.live ∨ st.Region data size

/-- A region does not start at `NIL`. -/
def FreeListOp.Legal (st : FreeListState) (op : FreeListOp) : Prop :=
  op.Given st ∧ ∀ data size, op = .free data size → data ≠ NIL

namespace FreeListState

variable {st st' : FreeListState} {l l' : List UADDR} {data size r : UADDR} {k : Nat}
  {op : FreeListOp}

/-- What every state of a run has. -/
structure Sound (st : FreeListState) (l : List UADDR) : Prop where
  ledger : ∃ had, Ledger had st.desc l st.live
  counted : st.desc.Counted l
  words : st.desc.Words l
  starts : ∀ b ∈ st.live, 4 ∣ b.1.toNat

theorem Sound.entries (h : st.Sound l) : st.desc.Entries l :=
  have ⟨_, hledger⟩ := h.ledger
  hledger.entries

theorem Sound.wellFormed (h : st.Sound l) : st.desc.WellFormed l :=
  h.entries.wellFormed h.counted

/-! ## Allocating -/

/-- **A block that is taken** from a word on. -/
theorem Sound.took {desc : KLfreeListDescriptor} (h : st.Sound l)
    (hsize : size.toNat + 3 < ADDRESSES)
    (ht : Took st.desc l desc l' r (adjustSize size)) (hstart : r ≠ NIL → 4 ∣ r.toNat) :
    Sound ⟨desc, if r = NIL then st.live else (r, adjustSize size) :: st.live⟩ l' := by
  obtain ⟨had, hledger⟩ := h.ledger
  have hne : adjustSize size ≠ 0#32 := fun h0 =>
    Nat.not_le_of_lt hsize ((adjustSize_eq_zero size).mp h0)
  refine ⟨⟨had, hledger.took hne ht⟩, h.counted.took h.entries ht, ?_, ?_⟩
  · obtain ⟨-, ⟨rfl, rfl, rfl⟩ | ⟨hr, -, hfree, -⟩⟩ := ht
    · exact h.words
    · exact h.words.took (hstart hr) (four_dvd_adjustSize size) hfree
  · dsimp only
    split
    · exact h.starts
    · next hr => exact List.forall_mem_cons.mpr ⟨hstart hr, h.starts⟩

theorem Sound.granted {desc : KLfreeListDescriptor} (h : st.Sound l)
    (hsize : size.toNat + 3 < ADDRESSES) (ht : Took st.desc l desc l' r (adjustSize size))
    (hr : r ≠ NIL) (haligned : 2 ^ k ∣ r.toNat) : st.Granted desc l' r size k := by
  obtain ⟨had, hledger⟩ := h.ledger
  obtain ⟨-, ⟨hnil, -, -⟩ | ⟨-, -, hfree, hin⟩⟩ := ht
  · exact absurd hnil hr
  have hne : adjustSize size ≠ 0#32 := fun h0 =>
    Nat.not_le_of_lt hsize ((adjustSize_eq_zero size).mp h0)
  have hpos := toNat_pos hne
  refine ⟨?_, ?_, haligned, fun b hb a ha hba => (hledger.taken b hb a hba).2 (hin a ha),
    fun a ha hf => ((hfree a).mp hf).2 ha⟩
  · rw [adjustSize_rounded hne]
    exact (roundedSize_bounds size).1
  · -- the last byte of the block is in an entry
    obtain ⟨x, hx, -, hlast⟩ := hin (r.toNat + (adjustSize size).toNat - 1)
      (by unfold InBlock; omega)
    have := h.entries.bound x hx
    omega

/-! ## Freeing -/

/-- A word that meets the rounded region starts in the region. -/
theorem Region.start_of_word (h : st.Region data size) {a : Nat}
    (ha : InBlock data (adjustSize size) a) : InBlock data size (a / 4 * 4) := by
  have hmod := toNat_adjustSize size
  have hroom : 24 ≤ size.toNat := BitVec.le_def.mp h.room
  have hdvd := h.aligned
  have hbound := h.bound
  unfold roundedSize at hmod
  unfold InBlock at ha ⊢
  unfold ADDRESSES at hmod hbound
  rw [if_neg (Nat.not_lt.mpr hroom)] at hmod
  omega

/-- **The rounded region** is free of everything that the region is free of. -/
theorem Region.rounded (h : st.Region data size) (hnil : data ≠ NIL) (hs : st.Sound l) :
    adjustSize size ≠ 0#32 ∧ data.toNat + (adjustSize size).toNat ≤ ADDRESSES ∧
      ∀ a, InBlock data (adjustSize size) a →
        ¬ st.desc.Free l a ∧ ∀ b ∈ st.live, ¬ InBlock b.1 b.2 a := by
  have hpos := toNat_pos hnil
  have hdvd := h.aligned
  have hbound := h.bound
  have hmod := toNat_adjustSize size
  have hroom : 24 ≤ size.toNat := BitVec.le_def.mp h.room
  unfold roundedSize at hmod
  rw [if_neg (Nat.not_lt.mpr hroom)] at hmod
  unfold ADDRESSES at hmod hbound ⊢
  refine ⟨fun h0 => ?_, by omega, fun a ha => ?_⟩
  · rw [h0] at hmod
    simp only [BitVec.toNat_ofNat, Nat.zero_mod] at hmod
    omega
  have hword := h.start_of_word ha
  refine ⟨fun hf => ?_, fun b hb hba => h.live b hb _ hword ?_⟩
  · exact h.free l hs.wellFormed _ hword (hs.words a _ (by omega) hf)
  · -- the block has the start of the word as well
    have := hs.starts b hb
    unfold InBlock at hba ⊢
    omega

/-- **A call of `KLfreeListMemFree`** with a block or a region. -/
theorem Sound.freed (h : st.Sound l) (hop : (FreeListOp.free data size).Legal st) :
    ∃ desc l', st.desc.klFreeListMemFree .none data size = some desc ∧
      Sound ⟨desc, st.live.erase (data, adjustSize size)⟩ l' := by
  obtain ⟨had, hledger⟩ := h.ledger
  obtain ⟨hgiven, hnil⟩ := hop
  have hnil := hnil data size rfl
  by_cases hb : (data, adjustSize size) ∈ st.live
  · obtain ⟨desc, l', hs, hl', hmem, hfree⟩ :=
      klFreeListMemFree_gives h.entries (hledger.freeable hb)
    exact ⟨desc, l', hs, ⟨had, hledger.gives hb hl' hfree⟩,
      h.counted.gives h.entries hl' hmem hfree fun a ha => (hledger.taken _ hb a ha).2,
      h.words.gives (h.starts _ hb) (four_dvd_adjustSize size) hfree,
      fun b hb' => h.starts b (List.mem_of_mem_erase hb')⟩
  · have hregion := hgiven.resolve_left hb
    obtain ⟨hne, hbound, hnone⟩ := hregion.rounded hnil h
    obtain ⟨desc, l', hs, hl', hmem, hfree⟩ := klFreeListMemFree_gives h.entries
      (h.entries.freeable hnil hne fun a ha =>
        ⟨Nat.lt_of_lt_of_le ha.2 hbound, (hnone a ha).1⟩)
    refine ⟨desc, l', hs, ?_⟩
    rw [List.erase_of_not_mem hb]
    refine ⟨⟨_, hledger.grows (fun a ha hhad => ?_) hl' hfree⟩,
      h.counted.gives h.entries hl' hmem hfree fun a ha => (hnone a ha).1,
      h.words.gives hregion.aligned (four_dvd_adjustSize size) hfree, h.starts⟩
    rcases (hledger.conserved a).mp hhad with hf | ⟨b, hb, hba⟩
    · exact (hnone a ha).1 hf
    · exact (hnone a ha).2 b hb hba

/-! ## Runs -/

/-- **One call** returns, and what it returns is nobody else's. -/
theorem Sound.call (h : st.Sound l) (hop : op.Legal st) :
    ∃ desc r l', op.call st.desc = some (desc, r) ∧ Sound ⟨desc, op.live st.live r⟩ l' ∧
      ∀ size k, op.asks = some (size, k) → r ≠ NIL → st.Granted desc l' r size k := by
  cases op with
  | alloc size =>
      obtain ⟨desc, l', r, hs, ht⟩ := klFreeListMemAlloc_took h.entries size
      have hstart : r ≠ NIL → 4 ∣ r.toNat := fun hr =>
        h.words.start h.entries (klFreeListMemAlloc_start h.entries.links hs hr)
      refine ⟨desc, r, l', hs, h.took hop.1 ht hstart, fun size' k hasks hr => ?_⟩
      obtain ⟨rfl, rfl⟩ := Prod.mk.inj (Option.some.inj hasks)
      exact h.granted hop.1 ht hr (Nat.one_dvd _)
  | allocAlign size alignment =>
      have hne : adjustSize size ≠ 0#32 := fun h0 =>
        Nat.not_le_of_lt hop.1 ((adjustSize_eq_zero size).mp h0)
      obtain ⟨desc, l', r, hs, ht⟩ := klFreeListMemAllocAlign_took h.entries alignment hne
      have hstart := klFreeListMemAllocAlign_start h.entries.links hs
      refine ⟨desc, r, l', hs, h.took hop.1 ht fun hr => ?_, fun size' k hasks hr => ?_⟩
      · obtain ⟨e, he, rfl | rfl⟩ := hstart hr
        · exact four_dvd_alignUp _ (h.words.start h.entries he)
        · have he := h.words.start h.entries he
          have hadd : (e + HEADER).toNat = (e.toNat + 24) % 2 ^ 32 := BitVec.toNat_add ..
          exact four_dvd_alignUp _ (by omega)
      · obtain ⟨rfl, rfl⟩ := Prod.mk.inj (Option.some.inj hasks)
        obtain ⟨e, -, rfl | rfl⟩ := hstart hr
        · exact h.granted hop.1 ht hr (dvd_alignUp ..)
        · exact h.granted hop.1 ht hr (dvd_alignUp ..)
  | free data size =>
      obtain ⟨desc, l', hs, hsound⟩ := h.freed hop
      exact ⟨desc, NIL, l', congrArg (Option.map _) hs, hsound, nofun⟩

theorem Sound.step (h : st.Sound l) (hop : op.Legal st) (hs : freeListStep st op = some st') :
    ∃ l', st'.Sound l' := by
  obtain ⟨desc, r, l', hcall, hsound, -⟩ := h.call hop
  rw [freeListStep, hcall, Option.map_some] at hs
  obtain rfl := Option.some.inj hs
  exact ⟨l', hsound⟩

theorem sound_blank {s : KLfreeListDescriptor} (h : s.Blank) : Sound ⟨s, []⟩ [] where
  ledger := ⟨_, Ledger.start h.entries⟩
  counted := h.counted
  words := fun _ _ _ ⟨_, hx, _⟩ => absurd hx nofun
  starts := nofun

end FreeListState

/-- **The free list is safe.** In every state of a run the lists are well formed, and there
every further call returns and leaves them so; what it returns is as long and as aligned as was
asked for, and apart from all blocks and from everything that is free afterwards. -/
theorem free_list_run {s₀ : KLfreeListDescriptor} {ops : List FreeListOp} {st : FreeListState}
    (h₀ : s₀.Blank) (hr : Run freeListStep FreeListOp.Legal ⟨s₀, []⟩ ops st) :
    (∃ l, st.desc.WellFormed l) ∧ ∀ op, FreeListOp.Legal st op →
      ∃ desc r l, op.call st.desc = some (desc, r) ∧ desc.WellFormed l ∧
        ∀ size k, op.asks = some (size, k) → r ≠ NIL → st.Granted desc l r size k := by
  obtain ⟨l, h⟩ := hr.invariant (I := fun st => ∃ l, st.Sound l)
    (fun ⟨_, h⟩ hop hs => h.step hop hs) ⟨[], FreeListState.sound_blank h₀⟩
  refine ⟨⟨l, h.wellFormed⟩, fun op hop => ?_⟩
  obtain ⟨desc, r, l', hcall, hsound, hgranted⟩ := h.call hop
  exact ⟨desc, r, l', hcall, hsound.wellFormed, hgranted⟩

/-- Before the first use every region is nobody's. -/
theorem region_blank {s : KLfreeListDescriptor} {data size : UADDR} (h : s.Blank)
    (haligned : 4 ∣ data.toNat) (hroom : HEADER ≤ size)
    (hbound : data.toNat + size.toNat ≤ ADDRESSES) :
    FreeListState.Region ⟨s, []⟩ data size := by
  refine ⟨haligned, hroom, hbound, nofun, fun l hl a _ ⟨x, hx, _⟩ => ?_⟩
  obtain rfl := hl.unique (h.entries.wellFormed h.counted)
  exact absurd hx nofun

/-- The list is given 1022 bytes, and a block at a multiple of 256 is taken from the middle. -/
theorem free_list_run_two : ∃ st, Run freeListStep FreeListOp.Legal ⟨freeListAtBoot, []⟩
      [.free 0x1004#32 0x3fe#32, .allocAlign 16#32 8] st ∧
    st.live = [(0x1100#32, 24#32)] ∧
    (∃ l, st.desc.WellFormed l) ∧ ∀ op, FreeListOp.Legal st op →
      ∃ desc r l, op.call st.desc = some (desc, r) ∧ desc.WellFormed l ∧
        ∀ size k, op.asks = some (size, k) → r ≠ NIL → st.Granted desc l r size k := by
  obtain ⟨st₁, st, hs₁, hs, hlive⟩ : ∃ st₁ st,
      freeListStep ⟨freeListAtBoot, []⟩ (.free 0x1004#32 0x3fe#32) = some st₁ ∧
      freeListStep st₁ (.allocAlign 16#32 8) = some st ∧ st.live = [(0x1100#32, 24#32)] := by
    have h : ((freeListStep ⟨freeListAtBoot, []⟩ (.free 0x1004#32 0x3fe#32)).bind fun st₁ =>
        freeListStep st₁ (.allocAlign 16#32 8)).any
          (fun st => decide (st.live = [(0x1100#32, 24#32)])) = true := by decide +kernel
    obtain ⟨st, hs, hlive⟩ := (Option.any_eq_true _ _).mp h
    obtain ⟨st₁, hs₁, hs⟩ := Option.bind_eq_some_iff.mp hs
    exact ⟨st₁, st, hs₁, hs, of_decide_eq_true hlive⟩
  have hregion : (FreeListOp.free 0x1004#32 0x3fe#32).Legal ⟨freeListAtBoot, []⟩ := by
    refine ⟨.inr (region_blank freeListAtBoot_blank (by decide) (by decide) (by decide)), ?_⟩
    intro data size hop
    obtain ⟨rfl, -⟩ := FreeListOp.free.inj hop
    decide
  have hr : Run freeListStep FreeListOp.Legal ⟨freeListAtBoot, []⟩
      [.free 0x1004#32 0x3fe#32, .allocAlign 16#32 8] st :=
    .cons hregion hs₁ (.cons ⟨show _ < _ by decide, nofun⟩ hs (.nil st))
  exact ⟨st, hr, hlive, free_list_run freeListAtBoot_blank hr⟩

/-- A region at `NIL` is counted and is not in the list. -/
theorem region_at_nil : ∃ st, Run freeListStep FreeListOp.Given ⟨freeListAtBoot, []⟩
      [.free NIL 64#32] st ∧ ∀ l, ¬ st.desc.WellFormed l := by
  obtain ⟨st, hs, hfirst, hmem⟩ : ∃ st,
      freeListStep ⟨freeListAtBoot, []⟩ (.free NIL 64#32) = some st ∧
      st.desc.FirstFreeEntry = NIL ∧ st.desc.FreeMemory = 64#32 := by
    have h : (freeListStep ⟨freeListAtBoot, []⟩ (.free NIL 64#32)).any (fun st =>
        decide (st.desc.FirstFreeEntry = NIL ∧ st.desc.FreeMemory = 64#32)) = true := by
      decide +kernel
    obtain ⟨st, hs, hp⟩ := (Option.any_eq_true _ _).mp h
    exact ⟨st, hs, of_decide_eq_true hp⟩
  have hregion : (FreeListOp.free NIL 64#32).Given ⟨freeListAtBoot, []⟩ :=
    .inr (region_blank freeListAtBoot_blank (by decide) (by decide) (by decide))
  refine ⟨st, .cons hregion hs (.nil st), fun l hl => ?_⟩
  -- the list is empty
  obtain rfl : l = [] := hl.address.unique (Linked.empty (nextOf_nil.trans hfirst))
  have hcount : st.desc.FreeMemory.toNat = 0 := hl.counted
  rw [hmem] at hcount
  exact absurd hcount (by decide)

end Alliance.KL
