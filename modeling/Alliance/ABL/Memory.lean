import Alliance.Lib.Fill
import Mathlib.Tactic.SplitIfs

/-!
# The page tables of the boot loader (`boot/ABL/architecture/I80X86/memory.c`)

`ABLinitMem` sets memory aside for a page directory and for page tables behind it, and
`ABLsetupMem` fills them: physical memory is mapped at 0 and at 0xc0000000, the devices from
0xfec00000 on at their own addresses. The directory counts in tables of 4 MB and the tables in
pages of 4 KB, both rounded down, so they fit together exactly where no table is filled in part
(`ablSetupMem_iff`).

Physical memory is a function on words of 4 bytes. A word that nobody wrote is `none`.
-/

namespace Alliance.ABL

open Function Lib

/-- `UADDR`: an unsigned 32-bit word. -/
abbrev UADDR := BitVec 32

def PTPRESENT : BitVec 10 := 1#10
def PTWRITE : BitVec 10 := 2#10

/-- `PageTableEntry`. -/
structure PTE where
  flags : BitVec 10
  avail : BitVec 2
  physAddr : BitVec 20
  deriving DecidableEq, Repr

/-- `flags & PTPRESENT`. -/
abbrev PTE.Present (e : PTE) : Prop := e.flags &&& PTPRESENT ≠ 0#10

abbrev Memory := Nat → Option PTE

/-- `ABLmain`: what a boot loader reports of upper memory, in KB, makes `totalMem`. -/
def totalMem (mem_upper : UADDR) : UADDR := (mem_upper + 1024#32) * 1024#32

/-- `mappedPhys`: 16 MB at most. -/
def mappedPhys (totalMem : UADDR) : Nat :=
  if totalMem.toNat < 16 <<< 20 then totalMem.toNat else 16 <<< 20

/-- The word number of `pageDir`, which starts at 0x1000. -/
def pageDir : Nat := 0x1000 / 4

def pageTables : Nat := pageDir + 1024

/-- `lowMemTop`, as `ABLinitMem` leaves it behind the page tables. The boot information
follows. -/
def ablInitMem (totalMem : UADDR) : Nat :=
  4 * pageTables + (mappedPhys totalMem + (20 <<< 20)) / 1024

/-- An entry of the directory or of a table that is in use. -/
def inUse (physAddr : Nat) : Option PTE :=
  some { flags := PTPRESENT ||| PTWRITE, avail := 0#2, physAddr := .ofNat 20 physAddr }

/-- `((UADDR) pageTables) >> 12`. -/
def firstTable : Nat := (4 * pageTables) >>> 12

/-- `ABLsetupMem`, up to the switch to paging. -/
def ablSetupMem (totalMem : UADDR) (mem : Memory) : Memory :=
  let tables := mappedPhys totalMem / (4 * 1024 * 1024)
  let pages := mappedPhys totalMem / (4 * 1024)
  -- clear the page directory
  let mem := fill pageDir 1024 (fun _ => some ⟨0#10, 0#2, 0#20⟩) mem
  -- identity map, and the Cache Kernel at 0xc0000000
  let mem := fill pageDir tables (fun i => inUse (firstTable + i)) mem
  let mem := fill (pageDir + 0xc0000000 / (4 * 1024 * 1024)) tables
    (fun i => inUse (firstTable + i)) mem
  -- device memory at 0xfec00000
  let mem := fill (pageDir + 0xfec00000 / (4 * 1024 * 1024)) 5
    (fun i => inUse (firstTable + i + tables)) mem
  -- physical memory
  let mem := fill pageTables pages inUse mem
  -- devices
  fill (pageTables + pages) (5 * 1024) (fun i => inUse (i + 0xfec00000 / (4 * 1024))) mem

/-- An entry as the processor sees it. -/
def present (e : Option PTE) : Option PTE := e.filter fun e => e.Present

/-- The physical address of a linear one, with `pageDir` in `%cr3`. -/
def translate (mem : Memory) (addr : Nat) : Option Nat := do
  let pde ← present (mem (pageDir + addr / 0x400000))
  let pte ← present (mem (pde.physAddr.toNat * 1024 + addr / 0x1000 % 1024))
  some (pte.physAddr.toNat * 0x1000 + addr % 0x1000)

/-- What the kernel is to find when paging is on, if nothing of `mem` was written before. -/
structure IdentityMapped (totalMem : UADDR) (mem : Memory) : Prop where
  low : ∀ addr < mappedPhys totalMem / 0x1000 * 0x1000, translate mem addr = some addr
  kernel : ∀ addr < mappedPhys totalMem / 0x1000 * 0x1000,
    translate mem (addr + 0xc0000000) = some addr
  devices : ∀ addr, 0xfec00000 ≤ addr → addr < 2 ^ 32 → translate mem addr = some addr
  /-- The entries that the directory leads to were written, inside the memory set aside. -/
  tables : ∀ k < 1024, ∀ pde, present (mem (pageDir + k)) = some pde → ∀ j < 1024,
    mem (pde.physAddr.toNat * 1024 + j) ≠ none ∧ pageTables ≤ pde.physAddr.toNat * 1024 + j ∧
      4 * (pde.physAddr.toNat * 1024 + j) + 4 ≤ ablInitMem totalMem

/-! ## The entries -/

variable {m : UADDR} {mem : Memory} {k i j q addr : Nat}

theorem mappedPhys_le (m : UADDR) : mappedPhys m ≤ 0x1000000 := by
  unfold mappedPhys
  split_ifs with h
  · exact Nat.le_of_lt h
  · exact Nat.le_refl _

theorem present_inUse {physAddr : Nat} :
    present (inUse physAddr) = some ⟨PTPRESENT ||| PTWRITE, 0#2, .ofNat 20 physAddr⟩ := by
  have hflags : (PTPRESENT ||| PTWRITE) &&& PTPRESENT ≠ 0#10 := by decide
  exact if_pos (decide_eq_true hflags)

/-- A directory entry is behind the tables of the identity map or of the kernel, or it is one of
the last five, or it is clear. -/
theorem ablSetupMem_dir (hk : k < 1024) : ablSetupMem m mem (pageDir + k) =
    if 1019 ≤ k then inUse (2 + (k - 1019) + mappedPhys m / 0x400000)
    else if 768 ≤ k ∧ k < 768 + mappedPhys m / 0x400000 then inUse (2 + (k - 768))
    else if k < mappedPhys m / 0x400000 then inUse (2 + k) else some ⟨0#10, 0#2, 0#20⟩ := by
  have hm := mappedPhys_le m
  unfold ablSetupMem
  rw [show firstTable = 2 by decide, fill_outside (.inl (by unfold pageTables; omega)),
    fill_outside (.inl (by unfold pageTables; omega))]
  split_ifs with hdevices hkernel hlow
  · obtain ⟨i, rfl⟩ := Nat.exists_eq_add_of_le hdevices
    rw [← Nat.add_assoc, fill_inside (by omega), Nat.add_sub_cancel_left]
  · obtain ⟨i, rfl⟩ := Nat.exists_eq_add_of_le hkernel.1
    rw [fill_outside (.inl (by omega)), ← Nat.add_assoc, fill_inside (by omega),
      Nat.add_sub_cancel_left]
  · rw [fill_outside (.inl (by omega)), fill_outside (.inl (by omega)), fill_inside hlow]
  · rw [fill_outside (.inl (by omega)), fill_outside (by omega), fill_outside (.inr (by omega)),
      fill_inside hk]

/-- The tables of physical memory, and the device tables behind them. -/
theorem ablSetupMem_table (hj : j < mappedPhys m / 0x1000 + 5 * 1024) :
    ablSetupMem m mem (pageTables + j) =
      inUse (if j < mappedPhys m / 0x1000 then j else j - mappedPhys m / 0x1000 + 0xfec00) := by
  unfold ablSetupMem
  split_ifs with hlow
  · rw [fill_outside (.inl (by omega)), fill_inside hlow]
  · obtain ⟨i, rfl⟩ := Nat.exists_eq_add_of_le (Nat.le_of_not_lt hlow)
    rw [← Nat.add_assoc, fill_inside (by omega), Nat.add_sub_cancel_left]

/-- A walk through a directory entry and a table that are in use. -/
theorem translate_inUse {t p : Nat} (ht : t < 2 ^ 20) (hp : p < 2 ^ 20)
    (hdir : mem (pageDir + addr / 0x400000) = inUse t)
    (htable : mem (t * 1024 + addr / 0x1000 % 1024) = inUse p) :
    translate mem addr = some (p * 0x1000 + addr % 0x1000) := by
  simp only [translate, hdir, present_inUse, Option.bind_eq_bind, Option.bind_some,
    BitVec.toNat_ofNat, Nat.mod_eq_of_lt ht, htable, Nat.mod_eq_of_lt hp]

/-! ## The map -/

/-- **Whole tables** give the identity map. -/
theorem identityMapped (hq : mappedPhys m / 0x1000 % 1024 = 0) :
    IdentityMapped m (ablSetupMem m mem) := by
  have hm := mappedPhys_le m
  have htable : ∀ {j}, j < mappedPhys m / 0x1000 + 5 * 1024 →
      ablSetupMem m mem (2 * 1024 + j) =
        inUse (if j < mappedPhys m / 0x1000 then j else j - mappedPhys m / 0x1000 + 0xfec00) :=
    fun hj => ablSetupMem_table hj
  constructor
  · intro addr haddr
    rw [translate_inUse (t := 2 + addr / 0x400000) (p := addr / 0x1000) (by omega) (by omega)]
    · refine congrArg some ?_
      omega
    · rw [ablSetupMem_dir (by omega), if_neg (by omega), if_neg (by omega), if_pos (by omega)]
    · rw [show (2 + addr / 0x400000) * 1024 + addr / 0x1000 % 1024 = 2 * 1024 + addr / 0x1000 by
        omega, htable (by omega), if_pos (by omega)]
  · intro addr haddr
    rw [translate_inUse (t := 2 + addr / 0x400000) (p := addr / 0x1000) (by omega) (by omega)]
    · refine congrArg some ?_
      omega
    · rw [ablSetupMem_dir (by omega), if_neg (by omega), if_pos (by omega)]
      refine congrArg inUse ?_
      omega
    · rw [show (2 + addr / 0x400000) * 1024 + (addr + 0xc0000000) / 0x1000 % 1024 =
        2 * 1024 + addr / 0x1000 by omega, htable (by omega), if_pos (by omega)]
  · intro addr hlow hhigh
    rw [translate_inUse (t := 2 + (addr / 0x400000 - 1019) + mappedPhys m / 0x400000)
      (p := addr / 0x1000) (by omega) (by omega)]
    · refine congrArg some ?_
      omega
    · rw [ablSetupMem_dir (by omega), if_pos (by omega)]
    · rw [show (2 + (addr / 0x400000 - 1019) + mappedPhys m / 0x400000) * 1024 +
        addr / 0x1000 % 1024 = 2 * 1024 + (mappedPhys m / 0x1000 + (addr / 0x1000 - 0xfec00)) by
          omega, htable (by omega), if_neg (by omega)]
      refine congrArg inUse ?_
      omega
  · intro k hk pde hpde j hj
    -- every table is one of those that were filled
    have key : ∀ {t}, 2 ≤ t → t < 2 + mappedPhys m / 0x400000 + 5 →
        present (inUse t) = some pde →
        ablSetupMem m mem (pde.physAddr.toNat * 1024 + j) ≠ none ∧
          pageTables ≤ pde.physAddr.toNat * 1024 + j ∧
          4 * (pde.physAddr.toNat * 1024 + j) + 4 ≤ ablInitMem m := by
      intro t hlow hhigh ht
      obtain rfl := Option.some.inj (present_inUse.symm.trans ht)
      have hword : t % 2 ^ 20 * 1024 + j = 2 * 1024 + ((t - 2) * 1024 + j) := by omega
      dsimp only
      rw [BitVec.toNat_ofNat, hword, htable (by omega)]
      refine ⟨nofun, ?_, ?_⟩
      · unfold pageTables pageDir
        omega
      · unfold ablInitMem pageTables pageDir
        omega
    rw [ablSetupMem_dir hk] at hpde
    split_ifs at hpde
    · exact key (by omega) (by omega) hpde
    · exact key (by omega) (by omega) hpde
    · exact key (by omega) (by omega) hpde
    · exact absurd hpde nofun

/-- A table that is filled in part has no directory entry. -/
theorem translate_partTable :
    translate (ablSetupMem m mem) (mappedPhys m / 0x400000 * 0x400000) = none := by
  have hm := mappedPhys_le m
  have hdir : ablSetupMem m mem (pageDir + mappedPhys m / 0x400000) = _ :=
    ablSetupMem_dir (by omega)
  rw [if_neg (by omega), if_neg (by omega), if_neg (Nat.lt_irrefl _)] at hdir
  rw [translate, Nat.mul_div_cancel _ (by decide), hdir]
  rfl

/-- **The boot loader's map is the identity** exactly where mapped memory, in pages, fills its
page tables. -/
theorem ablSetupMem_iff (mem_upper : UADDR) :
    IdentityMapped (totalMem mem_upper) (ablSetupMem (totalMem mem_upper) fun _ => none) ↔
      mappedPhys (totalMem mem_upper) / 0x1000 % 1024 = 0 := by
  refine ⟨fun h => ?_, identityMapped⟩
  by_contra hq
  have hlow := h.low (mappedPhys (totalMem mem_upper) / 0x400000 * 0x400000) (by omega)
  rw [translate_partTable] at hlow
  exact absurd hlow nofun

/-- With 5 MB the second table has no directory entry, and the address 4 MB is not mapped. -/
theorem ablSetupMem_partial :
    ¬ IdentityMapped (totalMem 4096#32) (ablSetupMem (totalMem 4096#32) fun _ => none) := by
  intro h
  have hlow := h.low 0x400000 (by decide)
  rw [show 0x400000 = mappedPhys (totalMem 4096#32) / 0x400000 * 0x400000 by decide,
    translate_partTable] at hlow
  exact absurd hlow nofun

end Alliance.ABL
