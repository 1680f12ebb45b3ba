import Alliance.CK.Memory
import Alliance.KL.FreeListChunks
import Alliance.KL.FreeListFit

/-!
# Sizes that are too large

A size is rounded up, and a number of pages is shifted, before anything is compared. Both can
wrap around: a size of all bytes but three becomes 0, and 2^20 pages become none. So such a
request is answered with memory if there is any for what is left of it, and `oversized_iff` says
when that is.
-/

namespace Alliance.CK

open KL KL.KLfreeListDescriptor

variable {s : Memory} {d d' : KLfreeListDescriptor} {l l' : List UADDR} {c : Callbacks}
  {size r : UADDR} {free free' : Nat → Prop} {n rounded : Nat}

/-- The call returns `NIL`, as it has to where the size that is meant is no word once it is
rounded; or it returns a block whose `n` bytes were free, and are taken. -/
def Backed (free : Nat → Prop) (n rounded : Nat) (out : Option (KLfreeListDescriptor × UADDR)) :
    Prop :=
  ∃ d' l' r, out = some (d', r) ∧ d'.Entries l' ∧ (KL.ADDRESSES ≤ rounded → r = NIL) ∧
    (r ≠ NIL → ∀ a, r.toNat ≤ a → a < r.toNat + n → free a ∧ ¬ d'.Free l' a)

theorem Backed.congr {out : Option (KLfreeListDescriptor × UADDR)}
    (h : Backed free n rounded out) (hfree : ∀ a, free a ↔ free' a) :
    Backed free' n rounded out := by
  rwa [← show free = free' from funext fun a => propext (hfree a)]

/-- A block that was taken is as long as the size it was taken for. -/
theorem backed_of_took (ht : Took d l d' l' r size) (hn : n ≤ size.toNat)
    (hrounded : rounded < KL.ADDRESSES) : Backed (d.Free l) n rounded (some (d', r)) := by
  refine ⟨d', l', r, rfl, ht.entries, fun h0 => absurd h0 (Nat.not_le.mpr hrounded), ?_⟩
  intro hr a hra har
  rcases ht.taken with ⟨h0, -⟩ | ⟨-, -, hfree, hin⟩
  · exact absurd h0 hr
  · have ha : InBlock r size a := ⟨hra, by omega⟩
    exact ⟨hin a ha, fun hf => ((hfree a).mp hf).2 ha⟩

/-! ## Sizes -/

/-- **A size** is served as it should be if and only if it can be rounded up, or nothing is
free. -/
theorem klFreeListMemAlloc_backed_iff (h : d.Entries l) (size : UADDR) :
    Backed (d.Free l) size.toNat (roundedSize size) (d.klFreeListMemAlloc .none size) ↔
      size.toNat + 3 < KL.ADDRESSES ∨ l = [] := by
  rw [← Nat.not_le, ← adjustSize_eq_zero]
  by_cases hsize : adjustSize size = 0#32
  · rw [or_iff_right (not_not_intro hsize)]
    rcases klFreeListMemAlloc_smallest h size with ⟨hs, hnone⟩ | ⟨e, hsmall, _, hs⟩
    · refine iff_of_true ⟨d, l, NIL, hs, h, fun _ => rfl, fun h0 => absurd rfl h0⟩ ?_
      -- every entry has room for nothing
      refine List.eq_nil_iff_forall_not_mem.mpr fun e he => hnone e he (.inr ?_)
      have hroom := h.room e he
      rw [hsize]
      simpa using hroom
    · refine iff_of_false ?_ fun h0 => absurd (h0 ▸ hsmall.1) nofun
      rintro ⟨d', l', r, hs', -, hnil, -⟩
      obtain ⟨-, rfl⟩ := Prod.mk.inj (Option.some.inj (hs.symm.trans hs'))
      exact h.links.ne_nil hsmall.1 (hnil (Nat.le_of_eq (roundedSize_wrapped hsize).symm))
  · obtain ⟨d', l', r, hs, ht⟩ := klFreeListMemAlloc_took h size
    have hrounded := adjustSize_rounded hsize
    have hlt := (adjustSize size).isLt
    rw [hs]
    refine iff_of_true (backed_of_took ht ?_ ?_) (.inl hsize)
    · rw [hrounded]
      exact (roundedSize_bounds size).1
    · rwa [← hrounded]

/-! ## Pages -/

theorem pages_toNat {nopages : UADDR} (h : nopages.toNat < 2 ^ 20) :
    (nopages <<< PAGEBITS).toNat = nopages.toNat * 4096 := by
  rw [BitVec.toNat_shiftLeft, Nat.shiftLeft_eq]
  show nopages.toNat * 4096 % 2 ^ 32 = _
  omega

/-- The pages that are left of a number of pages fit in no entry. -/
def NoneFits (d : KLfreeListDescriptor) (l : List UADDR) (nopages : UADDR) : Prop :=
  ∀ e ∈ l, ∀ data left,
    ¬ d.Eligible (fitAligned (adjustSize (nopages <<< PAGEBITS)) PAGEBITS) e data left

/-- **A number of pages** is served as it should be if and only if it is less than 2^20, or what
is left of it fits nowhere. -/
theorem allocPages_backed_iff (h : d.Entries l) (nopages : UADDR) :
    Backed (d.Free l) (nopages.toNat * 4096) (nopages.toNat * 4096)
        (d.klFreeListMemAllocAlign .none (nopages <<< PAGEBITS) PAGEBITS) ↔
      nopages.toNat < 2 ^ 20 ∨ NoneFits d l nopages := by
  have hsize := adjustSize_pages nopages
  by_cases hlt : nopages.toNat < 2 ^ 20
  · obtain ⟨d', l', r, hs, ht⟩ := klFreeListMemAllocAlign_took h PAGEBITS hsize
    have hrounded := adjustSize_rounded hsize
    have hle := (roundedSize_bounds (nopages <<< PAGEBITS)).1
    have hpages := pages_toNat hlt
    rw [hs]
    refine iff_of_true (backed_of_took ht (by omega) ?_) (.inl hlt)
    unfold KL.ADDRESSES
    omega
  · rw [or_iff_right hlt]
    have hpos := toNat_pos hsize
    have hfit : ∀ e ∈ l, ∀ data left,
        fitAligned (adjustSize (nopages <<< PAGEBITS)) PAGEBITS e (d.sizeOf e) = some (data, left) →
          adjustSize (nopages <<< PAGEBITS) ≤ d.sizeOf e := by
      intro e _ data left hf
      unfold fitAligned at hf
      split at hf
      · assumption
      · exact absurd hf nofun
    rcases allocWith_best h hfit with ⟨hs, hnone⟩ | ⟨e, he, data, left, hel, hs, -⟩
    · exact iff_of_true ⟨d, l, NIL, hs, h, fun _ => rfl, fun h0 => absurd rfl h0⟩ hnone
    · refine iff_of_false ?_ fun hnone => hnone e he data left hel
      rintro ⟨d', l', r, hs', -, hnil, -⟩
      obtain ⟨-, rfl⟩ := Prod.mk.inj (Option.some.inj (hs.symm.trans hs'))
      obtain rfl := hnil (by unfold KL.ADDRESSES; omega)
      -- a block is not at the address 0
      obtain ⟨hbefore, -⟩ := fitAligned_ends (h.bound e he) (h.links.ne_nil he) hpos hel.1
      rcases hbefore with rfl | ⟨hle, -⟩
      · exact h.links.ne_nil he rfl
      · exact absurd hle (by simp [NIL])

/-! ## Memory from elsewhere -/

/-- What `AllocChunk` has to keep to: the memory is there and not free yet, it needs no rounding,
and nothing of it is let go at once. -/
structure Gets (d : KLfreeListDescriptor) (l : List UADDR) (c : Callbacks)
    (chunk : UADDR × UADDR) : Prop where
  bound : chunk.1.toNat + chunk.2.toNat ≤ KL.ADDRESSES
  fresh : ∀ a, InBlock chunk.1 chunk.2 a → ¬ d.Free l a
  rounded : adjustSize chunk.2 = chunk.2
  kept : { d with DisallowFreeChunk := false }.KeepsFreed c chunk.1 chunk.2

/-- The memory that the call gets. -/
def got (d : KLfreeListDescriptor) (c : Callbacks) (size : UADDR) : Option (UADDR × UADDR) :=
  d.obtained c (fitAt (adjustSize size)) (adjustSize size)

/-- **A call that gets memory** is one without callbacks, with the memory in the list. -/
theorem klFreeListMemAlloc_got (h : d.Entries l) (hgets : ∀ chunk ∈ got d c size, Gets d l c chunk) :
    ∃ (d₁ : KLfreeListDescriptor) (l₁ : List UADDR), d₁.Entries l₁ ∧
      d.klFreeListMemAlloc c size = d₁.klFreeListMemAlloc .none size ∧
      (∀ a, d₁.Free l₁ a ↔ d.Free l a ∨ ∃ chunk ∈ got d c size, InBlock chunk.1 chunk.2 a) ∧
      (l₁ = [] ↔ l = [] ∧ got d c size = none) := by
  cases hgot : got d c size with
  | none =>
      refine ⟨d, l, h, allocWith_obtained_none hgot, fun a => ?_, (and_iff_left rfl).symm⟩
      simp
  | some chunk =>
      obtain ⟨hbound, hfresh, hrounded, hkept⟩ := hgets chunk hgot
      obtain ⟨hnil, hcall⟩ := allocWith_obtained_some hgot
      have hne : chunk.2 ≠ 0#32 := by
        intro h0
        rw [h0] at hrounded
        exact absurd hrounded (by decide)
      have hentries := h.flags false d.freedChunks
      obtain ⟨d₁, l₁, hs₁, h₁, -, hfree₁, -⟩ := klFreeListMemFree_keeps hentries
        (hrounded.symm ▸ hentries.freeable hnil hne fun a ha =>
          ⟨Nat.lt_of_lt_of_le ha.2 hbound, hfresh a ha⟩) (hrounded.symm ▸ hkept)
      rw [hrounded] at hfree₁
      refine ⟨{ d₁ with DisallowFreeChunk := true }, l₁, h₁.flags true d₁.freedChunks, ?_,
        fun a => ?_, iff_of_false ?_ fun h0 => absurd h0.2 nofun⟩
      · unfold klFreeListMemAlloc
        dsimp only
        rw [hcall, hs₁]
        rfl
      · refine (hfree₁ a).trans (or_congr_right ?_)
        simp
      · -- the memory is free now
        rintro rfl
        have hpos := toNat_pos hne
        obtain ⟨x, hx, -⟩ := (hfree₁ chunk.1.toNat).mpr (.inr ⟨Nat.le_refl _, by omega⟩)
        exact absurd hx nofun

/-- Where nothing is free all depends on `AllocChunk`. -/
theorem got_nil (h : d.Entries []) :
    got d c size = none ↔ ∀ allocChunk ∈ c.AllocChunk, (allocChunk (adjustSize size)).1 = 0#32 := by
  obtain ⟨lists, hm, hlists⟩ := h.links.sizeLists
  have hs : d.searchFrom (fitAt (adjustSize size)) (adjustSize size) = some _ :=
    searchTables_eq (fitAt (adjustSize size)) hm (fun t => (hlists t).2)
      (8 - klGetFastLookupToUse (adjustSize size)) (klGetFastLookupToUse (adjustSize size))
  have hnone : d.bestFrom (fitAt (adjustSize size)) lists
      (8 - klGetFastLookupToUse (adjustSize size)) (klGetFastLookupToUse (adjustSize size)) =
        .none := by
    rcases bestFrom_first hm List.not_mem_nil (fitAt (adjustSize size))
      (8 - klGetFastLookupToUse (adjustSize size)) (klGetFastLookupToUse (adjustSize size)) with
      ⟨hb, -⟩ | ⟨t, -, -, hmem, -⟩
    · exact hb
    · exact absurd (((hm t).2 _).mp hmem).1 nofun
  unfold got obtained
  rw [hs, hnone]
  cases c.AllocChunk with
  | none => simp
  | some allocChunk =>
      simp [Best.none]

/-! ## Requests -/

/-- What a call of `memory.c` leaves and returns. -/
def answer (out : Except MemFault (Memory × UADDR)) : Option (KLfreeListDescriptor × UADDR) :=
  out.toOption.map fun (s, r) => (s.CKFreeListDescriptor, r)

theorem answer_locked (h : s.CKFreeListLock = false)
    (f : KLfreeListDescriptor → Option (KLfreeListDescriptor × UADDR)) :
    answer (s.locked f) = f s.CKFreeListDescriptor := by
  rw [locked_of_free f h]
  cases f s.CKFreeListDescriptor with
  | none => rfl
  | some r => rfl

/-- **Requests that are too large** fail if and only if nothing is free for what is left of them
after the wrap-around. All other requests are served with as much as they ask for, or fail. -/
theorem oversized_iff (hlock : s.CKFreeListLock = false) (h : s.CKFreeListDescriptor.Entries l) :
    (∀ size, Backed (s.CKFreeListDescriptor.Free l) size.toNat (roundedSize size)
        (answer (s.ckMemAlloc size)) ↔ size.toNat + 3 < KL.ADDRESSES ∨ l = []) ∧
    (∀ nopages, Backed (s.CKFreeListDescriptor.Free l) (nopages.toNat * 4096)
        (nopages.toNat * 4096) (answer (s.ckMemAllocPages nopages)) ↔
      nopages.toNat < 2 ^ 20 ∨ NoneFits s.CKFreeListDescriptor l nopages) ∧
    ∀ c size, (∀ chunk ∈ got s.CKFreeListDescriptor c size, Gets s.CKFreeListDescriptor l c chunk) →
      (Backed (fun a => s.CKFreeListDescriptor.Free l a ∨
          ∃ chunk ∈ got s.CKFreeListDescriptor c size, InBlock chunk.1 chunk.2 a)
        size.toNat (roundedSize size) (s.CKFreeListDescriptor.klFreeListMemAlloc c size) ↔
      size.toNat + 3 < KL.ADDRESSES ∨
        l = [] ∧ ∀ allocChunk ∈ c.AllocChunk, (allocChunk (adjustSize size)).1 = 0#32) := by
  refine ⟨fun size => ?_, fun nopages => ?_, fun c size hgets => ?_⟩
  · unfold Memory.ckMemAlloc
    rw [answer_locked hlock]
    exact klFreeListMemAlloc_backed_iff h size
  · unfold Memory.ckMemAllocPages
    rw [answer_locked hlock]
    exact allocPages_backed_iff h nopages
  · obtain ⟨d₁, l₁, h₁, hcall, hfree, hnil⟩ := klFreeListMemAlloc_got h hgets
    have hempty : l₁ = [] ↔
        l = [] ∧ ∀ allocChunk ∈ c.AllocChunk, (allocChunk (adjustSize size)).1 = 0#32 := by
      refine hnil.trans (and_congr_right fun h0 => ?_)
      subst h0
      exact got_nil h
    rw [hcall, ← hempty, ← klFreeListMemAlloc_backed_iff h₁ size]
    exact ⟨fun hb => hb.congr fun a => (hfree a).symm, fun hb => hb.congr hfree⟩

/-- Before there is memory a request fails, whatever its size. With 256 bytes from `AllocChunk` one
for 16 is served. -/
theorem oversized_iff_boot :
    Backed (freeListAtBoot.Free []) (0xffffffff#32).toNat (roundedSize 0xffffffff#32)
      (answer (memoryAtBoot.ckMemAlloc 0xffffffff#32)) ∧
    Backed (fun a => freeListAtBoot.Free [] a ∨
        ∃ chunk ∈ got freeListAtBoot (giving fun _ _ => none) 16#32, InBlock chunk.1 chunk.2 a)
      (16#32).toNat (roundedSize 16#32)
      (freeListAtBoot.klFreeListMemAlloc (giving fun _ _ => none) 16#32) := by
  obtain ⟨hsize, -, hgot⟩ := oversized_iff (s := memoryAtBoot) rfl freeListAtBoot_entries
  refine ⟨(hsize 0xffffffff#32).mpr (.inr rfl), (hgot _ 16#32 ?_).mpr (.inl (by decide))⟩
  intro chunk hchunk
  obtain rfl := obtained_giving hchunk
  refine ⟨by decide, fun a _ => nofun, by decide, ?_⟩
  intro place _
  refine .inr (.inr fun prepare hprepare chunk hchunk => ?_)
  obtain rfl := Option.some.inj hprepare
  exact absurd hchunk nofun

/-- With 64 bytes free, a request for all bytes but one is answered, and so is one for 2^20
pages. -/
theorem oversized_answered : ∃ d, freeListAtBoot.freeAll [(0x1000#32, 64#32)] = some d ∧
    d.Entries [0x1000#32] ∧
    (answer ((Memory.mk d false).ckMemAlloc 0xffffffff#32)).any
      (fun out => decide (out.2 = 0x1000#32)) = true ∧
    (answer ((Memory.mk d false).ckMemAllocPages 0x100000#32)).any
      (fun out => decide (out.2 = 0x1000#32)) = true ∧
    ¬ Backed (d.Free [0x1000#32]) (0xffffffff#32).toNat (roundedSize 0xffffffff#32)
      (answer ((Memory.mk d false).ckMemAlloc 0xffffffff#32)) ∧
    ¬ Backed (d.Free [0x1000#32]) ((0x100000#32).toNat * 4096) ((0x100000#32).toNat * 4096)
      (answer ((Memory.mk d false).ckMemAllocPages 0x100000#32)) := by
  obtain ⟨d, hs, hl, hp⟩ := freeAll_boot [(0x1000#32, 64#32)] (l := [0x1000#32]) (fun d =>
      (answer ((Memory.mk d false).ckMemAlloc 0xffffffff#32)).any
        (fun out => decide (out.2 = 0x1000#32)) &&
      (answer ((Memory.mk d false).ckMemAllocPages 0x100000#32)).any
        fun out => decide (out.2 = 0x1000#32))
    (by decide) (by decide) (by decide +kernel)
  obtain ⟨hsize, hpages⟩ := Bool.and_eq_true_iff.mp hp
  -- the address that is returned is not `NIL`
  have hnot : ∀ {n rounded : Nat} {out : Option (KLfreeListDescriptor × UADDR)},
      out.any (fun out => decide (out.2 = 0x1000#32)) = true → KL.ADDRESSES ≤ rounded →
        ¬ Backed (d.Free [0x1000#32]) n rounded out := by
    rintro n rounded out hany hle ⟨d', l', r, rfl, -, hnil, -⟩
    rw [Option.any_some, hnil hle] at hany
    have hnil : NIL = 0x1000#32 := of_decide_eq_true hany
    exact absurd hnil (by decide)
  exact ⟨d, hs, hl, hsize, hpages, hnot hsize (by decide), hnot hpages (by decide)⟩

end Alliance.CK
