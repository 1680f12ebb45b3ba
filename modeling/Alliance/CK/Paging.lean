import Alliance.CK.ObjMgmt

/-!
# Page tables (`memhw.c`) and the calls on them (`paging.c`)

An address space is two pages: the page directory, and behind it a count for each slot of the
directory. A directory entry holds the number of the page that is the slot's table, or is
zero. Mapping, sharing and unmapping all step through a range the same way: through whole
tables as long as the directory entry of the end is not reached, then through the table of
the end. They differ in what they do at an entry, and in where the last table is left.

The memory of page tables is `page`, by page number, also where a directory entry is zero and
page 0 is written. `CKmemFreePages` enters the lock of the free list twice, so a call that
frees a page does not return (`none`). What the allocator returns is an argument.
-/

namespace Alliance.CK

open Function

/-! ## Words of the page tables -/

def PTPRESENT : UADDR := 1#32
def PTWRITE : UADDR := 2#32
def PTUSER : UADDR := 4#32

/-- A `PageTableEntry` with nothing in `avail`. -/
def pageTableEntry (physAddr flags : UADDR) : UADDR := physAddr <<< 12 ||| flags

/-- `physAddr` of a `PageTableEntry`. -/
def physAddr (w : UADDR) : UADDR := w >>> 12

/-- `flags & PTPRESENT`. -/
abbrev Present (w : UADDR) : Prop := w &&& PTPRESENT ≠ 0#32

/-- `LINEAR`. -/
def linear (x : UADDR) : UADDR := x + 0xc0000000#32

/-- `PHYS`. -/
def phys (x : UADDR) : UADDR := x - 0xc0000000#32

/-- The slot of an address in the directory, `addr >> 22`. -/
def slotOf (addr : UADDR) : Nat := (addr >>> 22).toNat

/-- The entry of an address in its table, `(addr >> 12) & 0x3ff`. -/
def entryOf (addr : UADDR) : Nat := ((addr >>> 12) &&& 0x3ff#32).toNat

/-- The first slot of the Cache Kernel's own mappings. -/
def CKSLOT : Nat := 768

structure Paging where
  /-- The 2048 words of an address space: directory and usage counts. -/
  addrSpc : Addr → Nat → UADDR
  page : UADDR → Nat → UADDR
  /-- `kernelAddrSpc.pageDir`. -/
  kernelDir : Nat → UADDR
  CKFreeListLock : Bool
  /-- The address spaces that were set up and not freed since. -/
  live : Addr → Bool
  /-- The pages that hold page tables: `CKmemAllocPages` gave them out, or they are the Cache
  Kernel's own. -/
  allocated : UADDR → Bool

namespace Paging

variable (s : Paging)

/-- `usageCountTable[k]`. -/
def usage (d : Addr) (k : Nat) : UADDR := s.addrSpc d (1024 + k)

/-- The page of the table of a slot. -/
def tableOf (d : Addr) (k : Nat) : UADDR := physAddr (s.addrSpc d k)

/-! ## Stores -/

def setWord (d : Addr) (k : Nat) (w : UADDR) : Paging :=
  { s with addrSpc := update s.addrSpc d (update (s.addrSpc d) k w) }

def setUsage (d : Addr) (k : Nat) (n : UADDR) : Paging := s.setWord d (1024 + k) n

def setEntry (t : UADDR) (pte : Nat) (w : UADDR) : Paging :=
  { s with page := update s.page t (update (s.page t) pte w) }

def clearPage (t : UADDR) : Paging := { s with page := update s.page t fun _ => 0#32 }

/-! ## The memory calls -/

/-- `CKenterCritical(&CKFreeListLock)`. -/
def enter : Option Paging :=
  if s.CKFreeListLock then none else some { s with CKFreeListLock := true }

/-- `CKexitCritical(&CKFreeListLock)`. -/
def exit : Paging := { s with CKFreeListLock := false }

/-- `n` pages from page `first` on. -/
def pagesFrom (first : UADDR) (n : Nat) : List UADDR :=
  (List.range n).map fun i => first + BitVec.ofNat 32 i

/-- `CKmemAllocPages`, where it gives out these pages for page tables. -/
def ckMemAllocPages (pages : List UADDR) : Option Paging := do
  let s ← s.enter
  some { s with allocated := fun p => s.allocated p || decide (p ∈ pages) }.exit

/-- `CKmemFree`. -/
def ckMemFree (data : Addr) (size : Nat) : Option Paging := do
  let s ← s.enter
  let pages := pagesFrom (phys (BitVec.ofNat 32 data) >>> 12) (size >>> 12)
  some { s with allocated := fun p => s.allocated p && !decide (p ∈ pages) }.exit

/-- `CKmemFreePages`. -/
def ckMemFreePages (data : Addr) (nopages : Nat) : Option Paging := do
  let s ← s.enter
  let s ← s.ckMemFree data (nopages <<< 12)
  some s.exit

/-! ## The tables of a range -/

/-- The slots that a mapping needs tables in. -/
def slots (pdeStart pdeEnd : UADDR) : List Nat :=
  List.range' (slotOf pdeStart) (slotOf (pdeEnd + 0x3fffff#32) - slotOf pdeStart)

/-- The slots of them that have none. -/
def missing (d : Addr) (pdeStart pdeEnd : UADDR) : List Nat :=
  (slots pdeStart pdeEnd).filter fun k => ¬ Present (s.addrSpc d k)

def clearPages (pages : List UADDR) : Paging := pages.foldl clearPage s

/-- Enter the pages from `first` on into the slots that have no table. -/
def installTables (d : Addr) (first : UADDR) (slots : List Nat) : Paging :=
  (slots.foldl (fun (r : Paging × UADDR) k =>
    if Present (r.1.addrSpc d k) then r
    else (r.1.setWord d k (pageTableEntry r.2 (PTPRESENT ||| PTUSER ||| PTWRITE)), r.2 + 1#32))
    (s, first)).1

/-- The first half of `CKsetPageMapping` and of `CKcopySharedPageMapping`: allocate the page
tables that are missing. The loop has left `pde` behind the last slot when the count is
raised. -/
def addTables (d : Addr) (pdeStart pdeEnd pageTables : UADDR) : Option (Paging × Bool) :=
  let npn := (s.missing d pdeStart pdeEnd).length
  if npn ≠ 0 then do
    let first := phys pageTables >>> 12
    let s ← s.ckMemAllocPages (if pageTables = 0#32 then [] else pagesFrom first npn)
    if pageTables = 0#32 then some (s, false)
    else
      let s := s.clearPages (pagesFrom first npn)
      let pde := slotOf pdeStart + (slots pdeStart pdeEnd).length
      let s := s.setUsage d pde (s.usage d pde + BitVec.ofNat 32 npn)
      some (s.installTables d first (slots pdeStart pdeEnd), true)
  else some (s, true)

end Paging

/-! ## Stepping through a range -/

section

variable {σ : Type} (table : σ → Nat → UADDR) (body : UADDR → Nat → Nat → σ → Option σ)

/-- The entries `lo` to `hi` of one table. -/
def walkTable (body : Nat → σ → Option σ) (lo hi : Nat) (s : σ) : Option σ :=
  (List.range' lo (hi - lo)).foldlM (fun s pte => body pte s) s

/-- The loop over whole tables. Every round goes to the next slot, of which there are 1024. -/
def walkDirectory (pdeEnd : UADDR) : Nat → UADDR → σ → Option (σ × UADDR)
  | 0, pde, s => some (s, pde)
  | n + 1, pde, s =>
    if pde < pdeEnd &&& 0xffc00000#32 then do
      let s ← walkTable (body (table s (slotOf pde)) (slotOf pde)) (entryOf pde) 1024 s
      walkDirectory pdeEnd n (((pde >>> 22) + 1#32) <<< 22) s
    else some (s, pde)

/-- Both loops, where the second one stops before entry `last`. -/
def walkPages (pdeStart pdeEnd : UADDR) (last : Nat) (s : σ) : Option σ := do
  let (s, pde) ← walkDirectory table body pdeEnd 1024 pdeStart s
  walkTable (body (table s (slotOf pde)) (slotOf pde)) (entryOf pde) last s

end

namespace Paging

/-! ## Mapping -/

/-- `CKsetPageMapping`. The last loop goes up to the entry of the end. -/
def ckSetPageMapping (s : Paging) (d : Addr) (logicalPageAddr physicalPageAddr length attr
    pageTables : UADDR) : Option (Paging × Bool) := do
  let pdeEnd := logicalPageAddr + length
  let (s, ok) ← s.addTables d logicalPageAddr pdeEnd pageTables
  if ok then
    let r ← walkPages (fun (r : Paging × UADDR) k => r.1.tableOf d k)
      (fun t _ pte r => some (r.1.setEntry t pte
        (pageTableEntry r.2 (PTPRESENT ||| PTUSER ||| (attr &&& 0x1ff#32))), r.2 + 1#32))
      logicalPageAddr pdeEnd (entryOf pdeEnd + 1) (s, physicalPageAddr.sshiftRight 12)
    some (r.1, true)
  else some (s, false)

/-- Where `CKcopySharedPageMapping` reads: its `pdeS`, `pteS` and `pageTableS`. -/
structure CopySource where
  pdeS : Nat
  pteS : Nat
  pageTableS : UADDR

/-- `pteS++`, and the next table behind the last entry. -/
def CopySource.next (c : CopySource) (s : Paging) (source : Addr) : CopySource :=
  if c.pteS + 1 = 0x400 then ⟨c.pdeS + 1, 0, s.tableOf source (c.pdeS + 1)⟩
  else { c with pteS := c.pteS + 1 }

/-- `CKcopySharedPageMapping`. The last loop stops before the entry of the end. -/
def ckCopySharedPageMapping (s : Paging) (source : Addr) (sourceLogPageAddr : UADDR)
    (dest : Addr) (destLogPageAddr length pageTables : UADDR) : Option (Paging × Bool) := do
  let pdeEndD := destLogPageAddr + length
  let (s, ok) ← s.addTables dest destLogPageAddr pdeEndD pageTables
  if ok then
    let c : CopySource := ⟨slotOf sourceLogPageAddr, entryOf sourceLogPageAddr,
      s.tableOf source (slotOf sourceLogPageAddr)⟩
    let r ← walkPages (fun (r : Paging × CopySource) k => r.1.tableOf dest k)
      (fun t _ pte r =>
        let s := r.1.setEntry t pte (r.1.page r.2.pageTableS r.2.pteS)
        some (s, r.2.next s source))
      destLogPageAddr pdeEndD (entryOf pdeEndD) (s, c)
    some (r.1, true)
  else some (s, false)

/-- One entry of `CKmarkPageNotPresent`: mark the page unused; if it is not a system page,
decrement the usage count, and free the table if it is empty. -/
def markEntry (d : Addr) (data t : UADDR) (k pte : Nat) (s : Paging) : Option Paging :=
  let s := s.setEntry t pte data
  if s.usage d k ≠ 0#32 then
    let s := s.setUsage d k (s.usage d k - 1#32)
    if s.usage d k = 0#32 then do
      let s ← s.ckMemFreePages (linear (t <<< 12)).toNat 1
      some (s.setWord d k 0#32)
    else some s
  else some s

/-- `CKmarkPageNotPresent`. The last loop goes up to the entry of the end. -/
def ckMarkPageNotPresent (s : Paging) (d : Addr) (logicalPageAddr length data : UADDR) :
    Option Paging :=
  let pdeEnd := logicalPageAddr + length
  walkPages (fun (s : Paging) k => s.tableOf d k) (markEntry d (data <<< 1))
    logicalPageAddr pdeEnd (entryOf pdeEnd + 1) s

/-! ## Address spaces -/

/-- `CKpreProcessAddrSpc`, where `d` is the memory for the directory. -/
def ckPreProcessAddrSpc (s : Paging) (d : Addr) : Option (Paging × DATA) := do
  let s ← s.ckMemAllocPages []
  if d = NIL then some (s, ENOMEM)
  else
    some ({ s with
      addrSpc := update s.addrSpc d fun i =>
        if CKSLOT ≤ i ∧ i < 1024 then s.kernelDir i else 0#32
      live := update s.live d true }, 0#32)

/-- `CKpostProcessAddrSpc`. -/
def ckPostProcessAddrSpc (s : Paging) (d : Addr) : Option Paging := do
  let s ← (List.range 1024).foldlM (fun s i =>
    if s.usage d i ≠ 0#32 then s.ckMemFreePages (linear (s.tableOf d i <<< 12)).toNat 1
    else some s) s
  let s ← s.ckMemFreePages d 2
  some { s with live := update s.live d false }

end Paging

end Alliance.CK
