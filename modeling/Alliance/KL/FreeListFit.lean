import Alliance.KL.FreeListLedger

/-!
# The best fit

`KLfreeListMemAlloc` stops at the first size list with an entry for the block. Entries of later
lists are larger (`table_lt`), and the walk along one list finds the one that leaves least, so
the entry is the smallest of all that the block can be taken out of.
-/

namespace Alliance.KL.KLfreeListDescriptor

open Lib
open CK (UADDR)

variable {s s' : KLfreeListDescriptor} {l : List UADDR} {e x data size left : UADDR}
  {fit : UADDR → UADDR → Option (UADDR × UADDR)} {n : Nat}

/-- `n` bytes can be taken from the start of the entry: they are all of it, or leave room for a
header. -/
def HasRoom (s : KLfreeListDescriptor) (e : UADDR) (n : Nat) : Prop :=
  (s.sizeOf e).toNat = n ∨ n + 24 ≤ (s.sizeOf e).toNat

/-- A block at the start of an entry, and what it leaves. -/
theorem eligible_fitAt : s.Eligible (fitAt size) e data left ↔
    data = e ∧ size.toNat + left.toNat = (s.sizeOf e).toNat ∧ s.HasRoom e size.toNat := by
  unfold Eligible HasRoom
  constructor
  · rintro ⟨hfit, hleft⟩
    obtain ⟨rfl, hends⟩ := fitAt_ends hfit
    unfold endOf at hends
    refine ⟨rfl, by omega, ?_⟩
    rcases hleft with rfl | hleft
    · simp only [BitVec.toNat_ofNat, Nat.zero_mod] at hends
      omega
    · omega
  · rintro ⟨rfl, hsum, hroom⟩
    have hle : size ≤ s.sizeOf data := BitVec.le_def.mpr (by omega)
    have hsub := BitVec.toNat_sub_of_le hle
    obtain rfl : left = s.sizeOf data - size := BitVec.eq_of_toNat_eq (by omega)
    refine ⟨if_pos hle, ?_⟩
    rcases hroom with heq | hroom
    · exact .inl (BitVec.eq_of_toNat_eq (show _ = 0 by omega))
    · exact .inr (by omega)

theorem HasRoom.eligible (h : s.HasRoom e size.toNat) :
    s.Eligible (fitAt size) e e (s.sizeOf e - size) := by
  have hle : size.toNat ≤ (s.sizeOf e).toNat := by
    rcases h with heq | hroom
    · exact Nat.le_of_eq heq.symm
    · omega
  have hsub := BitVec.toNat_sub_of_le (BitVec.le_def.mpr hle)
  exact eligible_fitAt.mpr ⟨rfl, by omega, h⟩

/-- The entries of a later size list are larger. -/
theorem Entries.table_lt (h : s.Entries l) (he : e ∈ l) (hx : x ∈ l)
    (hlt : s.tableOf e < s.tableOf x) : (s.sizeOf e).toNat < (s.sizeOf x).toNat := by
  by_contra hle
  rw [h.table e he, h.table x hx] at hlt
  exact absurd hlt (Nat.not_lt.mpr
    (klGetFastLookupToUse_mono (BitVec.le_def.mpr (Nat.not_lt.mp hle))))

/-! ## The search -/

/-- **An allocation** fails if no entry is eligible, and else uses one that leaves least of those
in the first size list that has any. -/
theorem allocWith_best (h : s.Entries l) (hfit : ∀ e ∈ l, ∀ data left,
      fit e (s.sizeOf e) = some (data, left) → size ≤ s.sizeOf e) :
    s.allocWith .none fit size = some (s, NIL) ∧
        (∀ e ∈ l, ∀ data left, ¬ s.Eligible fit e data left) ∨
      ∃ e ∈ l, ∃ data left, s.Eligible fit e data left ∧
        s.allocWith .none fit size = some (s.takeBlock e data size left, data) ∧
        ∀ x ∈ l, ∀ data' left', s.Eligible fit x data' left' →
          s.tableOf e < s.tableOf x ∨ s.tableOf e = s.tableOf x ∧ left ≤ left' := by
  obtain ⟨lists, hm, hlists⟩ := h.links.sizeLists
  have hs : s.searchFrom fit size = some _ := searchTables_eq fit hm
    (fun t => (hlists t).2) (8 - klGetFastLookupToUse size) (klGetFastLookupToUse size)
  -- an eligible entry is in one of the lists that are searched
  have hlist : ∀ x ∈ l, ∀ data left, s.Eligible fit x data left →
      klGetFastLookupToUse size ≤ s.tableOf x ∧
      s.tableOf x < klGetFastLookupToUse size + (8 - klGetFastLookupToUse size) ∧
      x ∈ lists (s.tableOf x) := by
    intro x hx data left hel
    have hle := klGetFastLookupToUse_mono (hfit x hx data left hel.1)
    have hlt := klGetFastLookupToUse_lt (s.sizeOf x)
    rw [← h.table x hx] at hlt hle
    exact ⟨hle, by omega, ((hm _).2 x).mpr ⟨hx, rfl⟩⟩
  unfold allocWith
  rw [hs]
  rcases bestFrom_first hm h.links.addr.nil_notMem fit (8 - klGetFastLookupToUse size)
    (klGetFastLookupToUse size) with ⟨hb, hnone⟩ | ⟨t, -, -, hmem, hb, hearlier⟩
  · rw [hb]
    refine .inl ⟨rfl, fun e he data left hel => ?_⟩
    obtain ⟨hle, hlt, hin⟩ := hlist e he data left hel
    exact hnone _ hle hlt e hin data left hel
  · generalize s.bestFrom fit lists (8 - klGetFastLookupToUse size)
      (klGetFastLookupToUse size) = b at hmem hb
    obtain ⟨he, rfl⟩ := ((hm t).2 _).mp hmem
    have hnil := h.links.ne_nil he
    rcases hb with ⟨h0, -⟩ | ⟨-, helig, hmin⟩
    · rw [h0] at hnil
      exact absurd rfl hnil
    refine .inr ⟨_, he, _, _, helig, ?_, fun x hx data' left' hel => ?_⟩
    · simp only [Option.bind_eq_bind, Option.bind_some]
      rw [if_pos hnil]
    · obtain ⟨hle, hlt, hin⟩ := hlist x hx data' left' hel
      rcases Nat.lt_trichotomy (s.tableOf x) (s.tableOf b.bestentry) with hlt | heq | hlt
      · exact absurd hel (hearlier _ hle hlt x hin data' left')
      · exact .inr ⟨heq.symm, hmin x data' left' (heq ▸ hin) hel⟩
      · exact .inl hlt

/-! ## The smallest entry -/

/-- The smallest of the entries that have room for the block. -/
def Smallest (s : KLfreeListDescriptor) (l : List UADDR) (n : Nat) (e : UADDR) : Prop :=
  e ∈ l ∧ s.HasRoom e n ∧ ∀ x ∈ l, s.HasRoom x n → (s.sizeOf e).toNat ≤ (s.sizeOf x).toNat

/-- **A call** takes the block out of the smallest entry that has room for it. -/
theorem klFreeListMemAlloc_smallest (h : s.Entries l) (size : UADDR) :
    s.klFreeListMemAlloc .none size = some (s, NIL) ∧
        (∀ e ∈ l, ¬ s.HasRoom e (adjustSize size).toNat) ∨
      ∃ e, s.Smallest l (adjustSize size).toNat e ∧ ∃ left,
        s.klFreeListMemAlloc .none size = some (s.takeBlock e e (adjustSize size) left, e) := by
  have hfit : ∀ e ∈ l, ∀ data left,
      fitAt (adjustSize size) e (s.sizeOf e) = some (data, left) → adjustSize size ≤ s.sizeOf e := by
    intro e _ data left hf
    unfold fitAt at hf
    split at hf
    · assumption
    · exact absurd hf nofun
  rcases allocWith_best h hfit with ⟨hs, hnone⟩ | ⟨e, he, data, left, helig, hs, hmin⟩
  · exact .inl ⟨hs, fun e he hroom => hnone e he _ _ hroom.eligible⟩
  · obtain ⟨rfl, hsum, hroom⟩ := eligible_fitAt.mp helig
    refine .inr ⟨data, ⟨he, hroom, fun x hx hroom' => ?_⟩, left, hs⟩
    rcases hmin x hx _ _ hroom'.eligible with hlt | ⟨-, hle⟩
    · exact Nat.le_of_lt (h.table_lt he hx hlt)
    · have hle := BitVec.le_def.mp hle
      have hsum' := (eligible_fitAt.mp hroom'.eligible).2.1
      omega

/-- **Best fit**: a size that can be rounded up is found if and only if an entry has it or is
larger by a header at least, and is taken from the smallest of these entries. -/
theorem klFreeListMemAlloc_best_fit (h : s.Entries l) (size : UADDR)
    (hsize : roundedSize size < ADDRESSES) :
    ∃ s' l' r, s.klFreeListMemAlloc .none size = some (s', r) ∧
      Took s l s' l' r (adjustSize size) ∧ (adjustSize size).toNat = roundedSize size ∧
      (r = NIL ↔ ∀ e ∈ l, ¬ s.HasRoom e (roundedSize size)) ∧
      (r ≠ NIL → s.Smallest l (roundedSize size) r) := by
  have hne : adjustSize size ≠ 0#32 := fun h0 =>
    absurd (roundedSize_wrapped h0) (Nat.ne_of_lt hsize)
  obtain ⟨s', l', r, hs, htook⟩ := klFreeListMemAlloc_took h size
  refine ⟨s', l', r, hs, htook, adjustSize_rounded hne, ?_⟩
  rw [← adjustSize_rounded hne]
  rcases klFreeListMemAlloc_smallest h size with ⟨hs', hnone⟩ | ⟨e, hsmall, _, hs'⟩
  · obtain ⟨-, rfl⟩ := Prod.mk.inj (Option.some.inj (hs.symm.trans hs'))
    exact ⟨iff_of_true rfl hnone, fun h0 => absurd rfl h0⟩
  · obtain ⟨-, rfl⟩ := Prod.mk.inj (Option.some.inj (hs.symm.trans hs'))
    have hnil := h.links.ne_nil hsmall.1
    exact ⟨iff_of_false hnil fun hnone => hnone r hsmall.1 hsmall.2.1, fun _ => hsmall⟩

/-- Of 64 and 48 bytes the second block is used for 24. -/
theorem klFreeListMemAlloc_best_fit_two : ∃ s,
    freeListAtBoot.freeAll [(0x1000#32, 64#32), (0x2000#32, 48#32)] = some s ∧
    ∃ s' l' r, s.klFreeListMemAlloc .none 16#32 = some (s', r) ∧ r = 0x2000#32 ∧
      Took s [0x1000#32, 0x2000#32] s' l' r (adjustSize 16#32) ∧
      (adjustSize 16#32).toNat = roundedSize 16#32 ∧
      (r = NIL ↔ ∀ e ∈ [0x1000#32, 0x2000#32], ¬ s.HasRoom e (roundedSize 16#32)) ∧
      (r ≠ NIL → s.Smallest [0x1000#32, 0x2000#32] (roundedSize 16#32) r) := by
  obtain ⟨s, hs, hl, hp⟩ := freeAll_boot [(0x1000#32, 64#32), (0x2000#32, 48#32)]
    (l := [0x1000#32, 0x2000#32]) (fun s => (s.klFreeListMemAlloc .none 16#32).any fun out => decide (out.2 = 0x2000#32))
    (by decide) (by decide) (by decide +kernel)
  obtain ⟨s', l', r, hcall, hbest⟩ := klFreeListMemAlloc_best_fit hl 16#32 (by decide)
  rw [hcall, Option.any_some] at hp
  exact ⟨s, hs, s', l', r, hcall, of_decide_eq_true hp, hbest⟩

end Alliance.KL.KLfreeListDescriptor
