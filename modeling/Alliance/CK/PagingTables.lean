import Alliance.CK.PagingProof

/-!
# Whose table a page is

A table of the Cache Kernel is in the same slot of every directory. Any other table is in one
slot of one directory (`Separate`). What the calls change is in the tables of the slots that
they visit, so the tables of all other slots and directories are as they were. The hypothesis
on the allocator is that the pages it gives out hold no table yet (`Fresh`).
-/

namespace Alliance.CK

open Function Lib

namespace Paging

variable {s s' : Paging} {d : Addr}

/-- Slot `k` has a table of the Cache Kernel, in every directory. -/
def CKTable (s : Paging) (k : Nat) : Prop := CKSLOT ≤ k ∧ k < 1024 ∧ Present (s.kernelDir k)

/-- Slot `k` of `d` has a table of its own. -/
def Own (s : Paging) (d : Addr) (k : Nat) : Prop :=
  s.live d = true ∧ k < 1024 ∧ Present (s.addrSpc d k) ∧ ¬ s.CKTable k

/-- The pages for `n` tables can be given out. -/
def Fresh (s : Paging) (pageTables : UADDR) (n : Nat) : Prop :=
  (phys pageTables).toNat + n * 4096 ≤ 2 ^ 32 ∧
    ∀ p ∈ pagesFrom (phys pageTables >>> 12) n, p ≠ 0#32 ∧ s.allocated p = false

-- not the instance that tries every word
instance (s : Paging) (pageTables : UADDR) (n : Nat) : Decidable (s.Fresh pageTables n) :=
  have := List.decidableBAll (p := fun p => p ≠ 0#32 ∧ s.allocated p = false)
    (pagesFrom (phys pageTables >>> 12) n)
  inferInstanceAs (Decidable (_ ∧ _))

/-- The Cache Kernel's tables are distinct pages, and its other slots lead to none. -/
structure KernelTables (s : Paging) : Prop where
  ne : ∀ k, s.CKTable k → physAddr (s.kernelDir k) ≠ 0#32
  allocated : ∀ k, s.CKTable k → s.allocated (physAddr (s.kernelDir k)) = true
  inj : ∀ k k', s.CKTable k → s.CKTable k' →
    physAddr (s.kernelDir k) = physAddr (s.kernelDir k') → k = k'
  absent : ∀ k, CKSLOT ≤ k → k < 1024 → ¬ Present (s.kernelDir k) →
    physAddr (s.kernelDir k) = 0#32

/-- The tables of distinct slots are distinct pages, but for the Cache Kernel's, which are
shared by all directories. -/
structure Separate (s : Paging) : Prop where
  unlocked : s.CKFreeListLock = false
  kernel : s.KernelTables
  shared : ∀ d k, s.live d = true → s.CKTable k → s.addrSpc d k = s.kernelDir k
  absent : ∀ d k, s.live d = true → k < 1024 → ¬ Present (s.addrSpc d k) → s.tableOf d k = 0#32
  own_ne : ∀ d k, s.Own d k → s.tableOf d k ≠ 0#32
  own_allocated : ∀ d k, s.Own d k → s.allocated (s.tableOf d k) = true
  own_kernel : ∀ d k k', s.Own d k → s.CKTable k' → s.tableOf d k ≠ physAddr (s.kernelDir k')
  own_inj : ∀ d k d' k', s.Own d k → s.Own d' k' → s.tableOf d k = s.tableOf d' k' →
    d = d' ∧ k = k'

/-- No slot below 0xc0000000 leads to a table of the Cache Kernel. -/
theorem Separate.not_kernel (h : s.Separate) {k k' : Nat} (hd : s.live d = true)
    (hk : k < CKSLOT) (hk' : s.CKTable k') : s.tableOf d k ≠ physAddr (s.kernelDir k') := by
  have hnot : ¬ s.CKTable k := fun hc => Nat.not_le.mpr hk hc.1
  have h1024 : k < 1024 := hk.trans (by decide)
  by_cases hp : Present (s.addrSpc d k)
  · exact h.own_kernel d k k' ⟨hd, h1024, hp, hnot⟩ hk'
  · rw [h.absent d k hd h1024 hp]
    exact (h.kernel.ne k' hk').symm

/-! ## What keeps the tables apart -/

theorem ckTable_congr (hdir : s'.kernelDir = s.kernelDir) (k : Nat) :
    s'.CKTable k ↔ s.CKTable k := by rw [CKTable, CKTable, hdir]

theorem KernelTables.mono (h : s.KernelTables) (hdir : s'.kernelDir = s.kernelDir)
    (hgrow : ∀ p, s.allocated p = true → s'.allocated p = true) : s'.KernelTables := by
  have hck := ckTable_congr hdir
  constructor <;> rw [hdir]
  case ne => exact fun k hc => h.ne k ((hck k).mp hc)
  case allocated => exact fun k hc => hgrow _ (h.allocated k ((hck k).mp hc))
  case inj => exact fun k k' hc hc' => h.inj k k' ((hck k).mp hc) ((hck k').mp hc')
  case absent => exact h.absent

theorem rest_inj (h : s'.rest = s.rest) : s'.kernelDir = s.kernelDir ∧
    s'.CKFreeListLock = s.CKFreeListLock ∧ s'.live = s.live ∧ s'.allocated = s.allocated := by
  simp only [rest, Prod.mk.injEq] at h
  exact h

/-- Only the directories count. -/
theorem Separate.congr (h : s.Separate) (hword : ∀ d, ∀ k < 1024, s'.addrSpc d k = s.addrSpc d k)
    (hrest : s'.rest = s.rest) : s'.Separate := by
  obtain ⟨hdir, hlock, hlive, halloc⟩ := rest_inj hrest
  have hck := ckTable_congr hdir
  have hown : ∀ d k, s'.Own d k → s.Own d k := fun d k ⟨hl, hk, hp, hn⟩ =>
    ⟨hlive ▸ hl, hk, hword d k hk ▸ hp, fun hc => hn ((hck k).mpr hc)⟩
  have htab : ∀ d, ∀ k < 1024, s'.tableOf d k = s.tableOf d k := fun d k hk =>
    congrArg physAddr (hword d k hk)
  constructor
  case unlocked => exact hlock.trans h.unlocked
  case kernel => exact h.kernel.mono hdir fun p hp => halloc ▸ hp
  case shared =>
    intro d k hl hc
    rw [hword d k hc.2.1, hdir]
    exact h.shared d k (hlive ▸ hl) ((hck k).mp hc)
  case absent =>
    intro d k hl hk hp
    rw [htab d k hk]
    exact h.absent d k (hlive ▸ hl) hk (hword d k hk ▸ hp)
  case own_ne => exact fun d k ho => htab d k ho.2.1 ▸ h.own_ne d k (hown d k ho)
  case own_allocated =>
    exact fun d k ho => htab d k ho.2.1 ▸ halloc ▸ h.own_allocated d k (hown d k ho)
  case own_kernel =>
    intro d k k' ho hc
    rw [htab d k ho.2.1, hdir]
    exact h.own_kernel d k k' (hown d k ho) ((hck k').mp hc)
  case own_inj =>
    intro d k d' k' ho ho' he
    rw [htab d k ho.2.1, htab d' k' ho'.2.1] at he
    exact h.own_inj d k d' k' (hown d k ho) (hown d' k' ho') he

theorem Separate.walked {ps : List (Nat × Nat)} (h : s.Separate) (hw : Walked s d ps s') :
    s'.Separate := h.congr hw.word hw.rest

/-- A new table: its slot had none, and it is one of the pages that were given out. -/
theorem Fresh.page {pageTables : UADDR} {n i : Nat} (h : s.Fresh pageTables n) (hi : i < n) :
    ((phys pageTables >>> 12) + BitVec.ofNat 32 i).toNat =
        (phys pageTables >>> 12).toNat + i ∧
      (phys pageTables >>> 12).toNat + i < 2 ^ 20 ∧
      (phys pageTables >>> 12) + BitVec.ofNat 32 i ≠ 0#32 ∧
      s.allocated ((phys pageTables >>> 12) + BitVec.ofNat 32 i) = false := by
  have hroom := h.1
  have hfirst : (phys pageTables >>> 12).toNat = (phys pageTables).toNat / 2 ^ 12 := by
    rw [BitVec.toNat_ushiftRight, Nat.shiftRight_eq_div_pow]
  refine ⟨?_, by omega, h.2 _ (List.mem_map.mpr ⟨i, List.mem_range.mpr hi, rfl⟩)⟩
  rw [BitVec.toNat_add, BitVec.toNat_ofNat, Nat.mod_eq_of_lt (a := i) (by omega),
    Nat.mod_eq_of_lt (by omega)]

section

variable {pdeStart pdeEnd pageTables : UADDR}

theorem TablesAdded.congr_rest {first : UADDR} (ha : TablesAdded s d pdeStart pdeEnd first s') :
    s'.kernelDir = s.kernelDir ∧ s'.CKFreeListLock = s.CKFreeListLock ∧ s'.live = s.live ∧
      ∀ p, s'.allocated p = (s.allocated p ||
        decide (p ∈ pagesFrom first (s.missing d pdeStart pdeEnd).length)) := by
  have := ha.rest
  simp only [Paging.rest, Prod.mk.injEq] at this
  obtain ⟨hdir, hlock, hlive, halloc⟩ := this
  exact ⟨hdir, hlock, hlive, congrFun halloc⟩

/-- A slot that had no table has a new one. -/
theorem TablesAdded.new {k : Nat} (ha : TablesAdded s d pdeStart pdeEnd (phys pageTables >>> 12) s')
    (hf : s.Fresh pageTables (s.missing d pdeStart pdeEnd).length)
    (hk : k ∈ s.missing d pdeStart pdeEnd) :
    Present (s'.addrSpc d k) ∧
      (s'.tableOf d k).toNat = (phys pageTables >>> 12).toNat +
        (s.missing d pdeStart pdeEnd).idxOf k ∧
      s'.tableOf d k ≠ 0#32 ∧ s.allocated (s'.tableOf d k) = false ∧
      s'.tableOf d k ∈ pagesFrom (phys pageTables >>> 12) (s.missing d pdeStart pdeEnd).length := by
  have hi := List.idxOf_lt_length_of_mem hk
  obtain ⟨hnat, hlt, hne, hfree⟩ := hf.page hi
  have hword := ha.word k (slots_lt (mem_missing.mp hk).1)
  rw [if_pos hk] at hword
  have htab : s'.tableOf d k = (phys pageTables >>> 12) +
      BitVec.ofNat 32 ((s.missing d pdeStart pdeEnd).idxOf k) := by
    rw [tableOf, hword, physAddr_pageTableEntry (by omega)]
  rw [htab, hword]
  exact ⟨present_userEntry _ _, hnat, hne, hfree,
    List.mem_map.mpr ⟨_, List.mem_range.mpr hi, rfl⟩⟩

/-- A slot that has a table of its own had it before, or it is new. -/
theorem TablesAdded.own {k : Nat} {d' : Addr} {first : UADDR}
    (ha : TablesAdded s d pdeStart pdeEnd first s') (ho : s'.Own d' k) :
    (s.Own d' k ∧ s'.tableOf d' k = s.tableOf d' k) ∨
      (d' = d ∧ k ∈ s.missing d pdeStart pdeEnd) := by
  obtain ⟨hl, hk, hp, hn⟩ := ho
  have hl : s.live d' = true := ha.congr_rest.2.2.1 ▸ hl
  have hn : ¬ s.CKTable k := fun hc => hn ((ckTable_congr ha.congr_rest.1 k).mpr hc)
  by_cases hd : d' = d
  · subst hd
    have hword := ha.word k hk
    by_cases hm : k ∈ s.missing d' pdeStart pdeEnd
    · exact .inr ⟨rfl, hm⟩
    · rw [if_neg hm] at hword
      exact .inl ⟨⟨hl, hk, hword ▸ hp, hn⟩, congrArg physAddr hword⟩
  · have hword := congrFun (ha.other d' hd) k
    exact .inl ⟨⟨hl, hk, hword ▸ hp, hn⟩, congrArg physAddr hword⟩

/-- New tables are apart from the old ones and from each other. -/
theorem Separate.tablesAdded (h : s.Separate) (hd : s.live d = true)
    (ha : TablesAdded s d pdeStart pdeEnd (phys pageTables >>> 12) s')
    (hf : s.Fresh pageTables (s.missing d pdeStart pdeEnd).length) : s'.Separate := by
  obtain ⟨hdir, hlock, hlive, halloc⟩ := ha.congr_rest
  have hck := ckTable_congr hdir
  have hgrow : ∀ p, s.allocated p = true → s'.allocated p = true := fun p hp => by
    rw [halloc, hp, Bool.true_or]
  -- a new page differs from every page that holds a table
  have hapart : ∀ k ∈ s.missing d pdeStart pdeEnd, ∀ p, s.allocated p = true →
      s'.tableOf d k ≠ p := fun k hk p hp he => by
    have hfree := (ha.new hf hk).2.2.2.1
    rw [he, hp] at hfree
    exact absurd hfree (by simp)
  constructor
  case unlocked => exact hlock.trans h.unlocked
  case kernel => exact h.kernel.mono hdir hgrow
  case shared =>
    intro d' k hl hc
    have hc := (hck k).mp hc
    have hold := h.shared d' k (hlive ▸ hl) hc
    rw [hdir, ← hold]
    by_cases hdd : d' = d
    · subst hdd
      refine (ha.word k hc.2.1).trans (if_neg fun hm => (mem_missing.mp hm).2 ?_)
      rw [hold]
      exact hc.2.2
    · exact congrFun (ha.other d' hdd) k
  case absent =>
    intro d' k hl hk hp
    have hold : s'.addrSpc d' k = s.addrSpc d' k := by
      by_cases hdd : d' = d
      · subst hdd
        exact (ha.word k hk).trans (if_neg fun hm => hp (ha.new hf hm).1)
      · exact congrFun (ha.other d' hdd) k
    rw [tableOf, hold]
    exact h.absent d' k (hlive ▸ hl) hk (hold ▸ hp)
  case own_ne =>
    intro d' k ho
    rcases ha.own ho with ⟨ho, he⟩ | ⟨rfl, hm⟩
    · exact he ▸ h.own_ne d' k ho
    · exact (ha.new hf hm).2.2.1
  case own_allocated =>
    intro d' k ho
    rcases ha.own ho with ⟨ho, he⟩ | ⟨rfl, hm⟩
    · exact he ▸ hgrow _ (h.own_allocated d' k ho)
    · rw [halloc, decide_eq_true (ha.new hf hm).2.2.2.2, Bool.or_true]
  case own_kernel =>
    intro d' k k' ho hc
    have hc := (hck k').mp hc
    rw [hdir]
    rcases ha.own ho with ⟨ho, he⟩ | ⟨rfl, hm⟩
    · exact he ▸ h.own_kernel d' k k' ho hc
    · exact hapart k hm _ (h.kernel.allocated k' hc)
  case own_inj =>
    intro d₁ k₁ d₂ k₂ ho₁ ho₂ he
    rcases ha.own ho₁ with ⟨ho₁, he₁⟩ | ⟨rfl, hm₁⟩ <;>
      rcases ha.own ho₂ with ⟨ho₂, he₂⟩ | ⟨rfl, hm₂⟩
    · exact h.own_inj d₁ k₁ d₂ k₂ ho₁ ho₂ (he₁ ▸ he₂ ▸ he)
    · exact absurd (he.symm.trans he₁) (hapart k₂ hm₂ _ (h.own_allocated d₁ k₁ ho₁))
    · exact absurd (he.trans he₂) (hapart k₁ hm₁ _ (h.own_allocated d₂ k₂ ho₂))
    · -- both are new, and their pages are numbered
      have hn := congrArg BitVec.toNat he
      rw [(ha.new hf hm₁).2.1, (ha.new hf hm₂).2.1] at hn
      exact ⟨rfl, (List.idxOf_inj hm₁).mp (by omega)⟩

theorem Separate.tablesFor (h : s.Separate) (hd : s.live d = true)
    (ht : TablesFor s d pdeStart pdeEnd pageTables s')
    (hf : pageTables ≠ 0#32 → s.Fresh pageTables (s.missing d pdeStart pdeEnd).length) :
    s'.Separate := by
  rcases ht with ⟨rfl, -⟩ | ⟨-, hne, ha⟩
  · exact h
  · exact h.tablesAdded hd ha (hf hne)

end

/-! ## A new address space -/

/-- What `CKpreProcessAddrSpc` leaves where there was memory for the directory. -/
structure DirectoryAdded (s : Paging) (d : Addr) (s' : Paging) : Prop where
  word : ∀ k < 1024, s'.addrSpc d k = if CKSLOT ≤ k then s.kernelDir k else 0#32
  usage : ∀ k, s'.usage d k = 0#32
  other : ∀ d', d' ≠ d → s'.addrSpc d' = s.addrSpc d'
  page : s'.page = s.page
  rest : s'.rest = (s.kernelDir, s.CKFreeListLock, update s.live d true, s.allocated)

theorem ckPreProcessAddrSpc_cases {e : DATA} (hu : s.CKFreeListLock = false)
    (h : s.ckPreProcessAddrSpc d = some (s', e)) :
    (d = NIL ∧ s' = s) ∨ (d ≠ NIL ∧ DirectoryAdded s d s') := by
  rw [ckPreProcessAddrSpc, ckMemAllocPages_nil hu, Option.bind_eq_bind, Option.bind_some] at h
  split at h
  · next hd =>
    obtain ⟨rfl, -⟩ := Prod.mk.inj (Option.some.inj h)
    exact .inl ⟨hd, rfl⟩
  · next hd =>
    obtain ⟨rfl, -⟩ := Prod.mk.inj (Option.some.inj h)
    refine .inr ⟨hd, fun k hk => ?_, fun k => ?_, fun d' hd' => update_of_ne hd' _ _, rfl, rfl⟩
    · simp [hk]
    · have : ¬ 1024 + k < 1024 := by omega
      simp [usage, this]

theorem Separate.directoryAdded (h : s.Separate) (hd : s.live d = false)
    (ha : DirectoryAdded s d s') : s'.Separate := by
  obtain ⟨hdir, hlock, hlive, halloc⟩ : s'.kernelDir = s.kernelDir ∧
      s'.CKFreeListLock = s.CKFreeListLock ∧ s'.live = update s.live d true ∧
      s'.allocated = s.allocated := by
    have := ha.rest
    simp only [Paging.rest, Prod.mk.injEq] at this
    exact this
  have hck := ckTable_congr hdir
  have hold : ∀ {d'}, s'.live d' = true → d' ≠ d → s.live d' = true := fun hl hdd => by
    rwa [hlive, update_of_ne hdd] at hl
  -- the new directory has the tables of the Cache Kernel and no others
  have hnew : ∀ k, ¬ s'.Own d k := fun k ⟨_, hk, hp, hn⟩ => by
    rw [ha.word k hk] at hp
    split at hp
    · next hs => exact hn ⟨hs, hk, hdir ▸ hp⟩
    · exact not_present_zero hp
  have hown : ∀ {d' k}, s'.Own d' k → s.Own d' k ∧ s'.tableOf d' k = s.tableOf d' k :=
    fun {d' k} ho => by
      have hdd : d' ≠ d := fun he => hnew k (he ▸ ho)
      obtain ⟨hl, hk, hp, hn⟩ := ho
      have hword := congrFun (ha.other d' hdd) k
      exact ⟨⟨hold hl hdd, hk, hword ▸ hp, fun hc => hn ((hck k).mpr hc)⟩,
        congrArg physAddr hword⟩
  constructor
  case unlocked => exact hlock.trans h.unlocked
  case kernel => exact h.kernel.mono hdir fun p hp => halloc ▸ hp
  case shared =>
    intro d' k hl hc
    have hc := (hck k).mp hc
    rw [hdir]
    by_cases hdd : d' = d
    · subst hdd
      rw [ha.word k hc.2.1, if_pos hc.1]
    · rw [ha.other d' hdd]
      exact h.shared d' k (hold hl hdd) hc
  case absent =>
    intro d' k hl hk hp
    by_cases hdd : d' = d
    · subst hdd
      rw [ha.word k hk] at hp
      rw [tableOf, ha.word k hk]
      split
      · next hs => exact h.kernel.absent k hs hk (by rwa [if_pos hs] at hp)
      · rfl
    · rw [ha.other d' hdd] at hp
      rw [tableOf, ha.other d' hdd]
      exact h.absent d' k (hold hl hdd) hk hp
  case own_ne =>
    intro d' k ho
    obtain ⟨ho, he⟩ := hown ho
    exact he ▸ h.own_ne d' k ho
  case own_allocated =>
    intro d' k ho
    obtain ⟨ho, he⟩ := hown ho
    exact he ▸ halloc ▸ h.own_allocated d' k ho
  case own_kernel =>
    intro d' k k' ho hc
    obtain ⟨ho, he⟩ := hown ho
    exact he ▸ hdir ▸ h.own_kernel d' k k' ho ((hck k').mp hc)
  case own_inj =>
    intro d₁ k₁ d₂ k₂ ho₁ ho₂ he
    obtain ⟨ho₁, he₁⟩ := hown ho₁
    obtain ⟨ho₂, he₂⟩ := hown ho₂
    exact h.own_inj d₁ k₁ d₂ k₂ ho₁ ho₂ (he₁ ▸ he₂ ▸ he)

end Paging

end Alliance.CK
