import Alliance.CK.Objects
import Mathlib.Logic.Function.Basic

/-!
# The free list allocator (`FreelistAlloc.c`)

Free memory is a list of entries in the order of their addresses. Each entry has its header in
the first bytes of the memory it stands for, and is in one of eight size lists as well, by its
size. An allocation searches the size lists from that of the wanted size on and takes the
entry that leaves least; freeing walks the list of addresses to its place, and joins the
memory with the entries it touches.

Addresses and sizes are words, and all arithmetic on them wraps. `mem` is the memory of the
headers, by address. A walk along links has as much fuel as there are addresses; where it
does not end, the result is `none`.

A descriptor can have callbacks that get memory from elsewhere and hand it back. What they
answer in one call is `Callbacks`; what `FreeChunk` is told is recorded in `freedChunks`.
-/

namespace Alliance.KL

open Function
open CK (UADDR)

def NIL : UADDR := 0#32

structure KLfreeListEntry where
  prev : UADDR
  next : UADDR
  prevsize : UADDR
  nextsize : UADDR
  size : UADDR
  lookupsize : Nat
  deriving DecidableEq, Repr

/-- `sizeof(KLfreeListEntry)`. -/
def HEADER : UADDR := 24#32

/-- The number of addresses. A walk that takes as many steps is in a circle. -/
def ADDRESSES : Nat := 2 ^ 32

/-- `KLfreeListDescriptor`, with the memory that its pointers point into. -/
structure KLfreeListDescriptor where
  mem : UADDR → KLfreeListEntry
  FirstFreeEntry : UADDR
  FirstFreeSizeEntry : Nat → UADDR
  FreeMemory : UADDR
  DisallowFreeChunk : Bool
  freedChunks : List (UADDR × UADDR)

/-- The callbacks of a descriptor, each `none` or `false` where it is not installed.
`AllocChunk` returns an address and a size, `PrepareFreeChunk` the part of a chunk to be handed
back. -/
structure Callbacks where
  AllocChunk : Option (UADDR → UADDR × UADDR)
  PrepareFreeChunk : Option (UADDR → UADDR → Option (UADDR × UADDR))
  FreeChunk : Bool

/-- No callbacks. -/
def Callbacks.none : Callbacks where
  AllocChunk := .none
  PrepareFreeChunk := .none
  FreeChunk := false

/-- `KLgetFastLookupToUse`. -/
def klGetFastLookupToUse (size : UADDR) : Nat :=
  if 1#32 <<< 13 ≤ size then
    if 1#32 <<< 17 ≤ size then
      if 1#32 <<< 19 ≤ size then 7 else 6
    else if 1#32 <<< 15 ≤ size then 5 else 4
  else if 1#32 <<< 9 ≤ size then
    if 1#32 <<< 11 ≤ size then 3 else 2
  else if 1#32 <<< 7 ≤ size then 1 else 0

/-- `AdjustSize`. -/
def adjustSize (size : UADDR) : UADDR :=
  if size < HEADER then HEADER else (size + 3#32) &&& -4#32

namespace KLfreeListDescriptor

/-! ## Stores -/

def setEntry (s : KLfreeListDescriptor) (e : UADDR) (x : KLfreeListEntry) :
    KLfreeListDescriptor :=
  { s with mem := update s.mem e x }

def setSize (s : KLfreeListDescriptor) (e size : UADDR) : KLfreeListDescriptor :=
  s.setEntry e { s.mem e with size := size }

/-- `e->next=v`, or the start of the list where there is no `e`. -/
def setNext (s : KLfreeListDescriptor) (e v : UADDR) : KLfreeListDescriptor :=
  if e ≠ NIL then s.setEntry e { s.mem e with next := v } else { s with FirstFreeEntry := v }

/-- `if(e!=NIL) e->prev=v`. -/
def setPrev (s : KLfreeListDescriptor) (e v : UADDR) : KLfreeListDescriptor :=
  if e ≠ NIL then s.setEntry e { s.mem e with prev := v } else s

/-- `e->nextsize=v`, or the start of a size list where there is no `e`. -/
def setNextsize (s : KLfreeListDescriptor) (table : Nat) (e v : UADDR) : KLfreeListDescriptor :=
  if e ≠ NIL then s.setEntry e { s.mem e with nextsize := v }
  else { s with FirstFreeSizeEntry := update s.FirstFreeSizeEntry table v }

/-- `if(e!=NIL) e->prevsize=v`. -/
def setPrevsize (s : KLfreeListDescriptor) (e v : UADDR) : KLfreeListDescriptor :=
  if e ≠ NIL then s.setEntry e { s.mem e with prevsize := v } else s

/-! ## The lists -/

/-- `KLfreeListSizeRemove`. -/
def klFreeListSizeRemove (s : KLfreeListDescriptor) (entry : UADDR) : KLfreeListDescriptor :=
  let s := s.setPrevsize (s.mem entry).nextsize (s.mem entry).prevsize
  s.setNextsize (s.mem entry).lookupsize (s.mem entry).prevsize (s.mem entry).nextsize

/-- `KLfreeListSizeInsert`. -/
def klFreeListSizeInsert (s : KLfreeListDescriptor) (entry : UADDR) : KLfreeListDescriptor :=
  let table := klGetFastLookupToUse (s.mem entry).size
  let s := s.setEntry entry
    { s.mem entry with
      lookupsize := table
      prevsize := NIL
      nextsize := s.FirstFreeSizeEntry table }
  let s := s.setPrevsize (s.mem entry).nextsize entry
  { s with FirstFreeSizeEntry := update s.FirstFreeSizeEntry table entry }

/-- `KLfreeListRemove`. -/
def klFreeListRemove (s : KLfreeListDescriptor) (entry : UADDR) : KLfreeListDescriptor :=
  let s := s.setNext (s.mem entry).prev (s.mem entry).next
  let s := s.setPrev (s.mem entry).next (s.mem entry).prev
  s.klFreeListSizeRemove entry

/-- `KLfreeListInsert`. -/
def klFreeListInsert (s : KLfreeListDescriptor) (preventry entry nextentry : UADDR) :
    KLfreeListDescriptor :=
  let s := s.setEntry entry { s.mem entry with prev := preventry, next := nextentry }
  let s := s.setNext preventry entry
  let s := s.setPrev nextentry entry
  s.klFreeListSizeInsert entry

/-! ## Freeing -/

/-- The part of an entry that `PrepareFreeChunk` lets go, if it is asked. -/
def preparedChunk (c : Callbacks) (s : KLfreeListDescriptor) (entry : UADDR) :
    Option (UADDR × UADDR) :=
  if s.DisallowFreeChunk ∨ ¬ c.FreeChunk then none
  else c.PrepareFreeChunk.bind fun prepare => prepare entry (s.mem entry).size

/-- `KLfreeListMemFreeChunk`. An entry of which a part is let go, but not so that both its ends
leave a header's room, is neither freed nor inserted. -/
def klFreeListMemFreeChunk (c : Callbacks) (s : KLfreeListDescriptor)
    (preventry entry nextentry : UADDR) : KLfreeListDescriptor :=
  match s.preparedChunk c entry with
  | none => s.klFreeListInsert preventry entry nextentry
  | some (intdata, size) =>
    let prevsize := intdata - entry
    let nextsize := intdata + size - (entry + (s.mem entry).size)
    if prevsize ≠ 0#32 ∧ HEADER < prevsize ∧ (nextsize = 0#32 ∨ HEADER < nextsize) then
      let s := { s with freedChunks := (intdata, size) :: s.freedChunks }
      let s := (s.setSize entry prevsize).klFreeListInsert preventry entry nextentry
      if nextsize ≠ 0#32 then
        (s.setSize (intdata + size) nextsize).klFreeListInsert entry (intdata + size) nextentry
      else s
    else s

/-- The walk of `KLfreeListMemFree`: to the first entry behind `intdata`, or to the last. -/
def walkTo (s : KLfreeListDescriptor) (intdata : UADDR) : Nat → UADDR → Option UADDR
  | 0, _ => none
  | n + 1, nextentry =>
    if (s.mem nextentry).next = NIL ∨ intdata < nextentry then some nextentry
    else s.walkTo intdata n (s.mem nextentry).next

/-- The entries that the memory is put between. -/
def placeOf (s : KLfreeListDescriptor) (intdata : UADDR) : Option (UADDR × UADDR) :=
  if s.FirstFreeEntry = NIL then some (NIL, NIL)
  else (s.walkTo intdata ADDRESSES s.FirstFreeEntry).map fun nextentry =>
    if intdata < nextentry then ((s.mem nextentry).prev, nextentry) else (nextentry, NIL)

/-- Put memory into the list behind `preventry`, joined with the entry behind it if they
touch. -/
def joinNext (c : Callbacks) (s : KLfreeListDescriptor) (preventry intdata size nextentry : UADDR) :
    KLfreeListDescriptor :=
  if nextentry ≠ NIL ∧ intdata + size = nextentry then
    let size := size + (s.mem nextentry).size
    let after := (s.mem nextentry).next
    let s := (s.klFreeListRemove nextentry).setSize intdata size
    s.klFreeListMemFreeChunk c preventry intdata after
  else (s.setSize intdata size).klFreeListMemFreeChunk c preventry intdata nextentry

/-- The same, joined with the entry before it as well. -/
def joinPrev (c : Callbacks) (s : KLfreeListDescriptor) (preventry intdata size nextentry : UADDR) :
    KLfreeListDescriptor :=
  if preventry ≠ NIL ∧ preventry + (s.mem preventry).size = intdata then
    let size := size + (s.mem preventry).size
    let before := (s.mem preventry).prev
    (s.klFreeListRemove preventry).joinNext c before preventry size nextentry
  else s.joinNext c preventry intdata size nextentry

/-- `KLfreeListMemFree`. -/
def klFreeListMemFree (c : Callbacks) (s : KLfreeListDescriptor) (data size : UADDR) :
    Option KLfreeListDescriptor := do
  let size := adjustSize size
  let (preventry, nextentry) ← s.placeOf data
  let s := { s with FreeMemory := s.FreeMemory + size }
  some (s.joinPrev c preventry data size nextentry)

/-! ## Searching the size lists -/

/-- The best entry so far, the address of the block in it and the bytes left behind the
block. None are left of a perfect match. -/
structure Best where
  bestentry : UADDR
  result : UADDR
  bestleft : UADDR
  deriving DecidableEq, Repr

/-- No entry was found: `bestentry=NIL`, `bestleft=(UADDR)-1`. -/
def Best.none : Best where
  bestentry := NIL
  result := 0#32
  bestleft := -1#32

/-- The walk along one size list. `fit` tells, for an entry and its size, where the block would
be and what it would leave. -/
def searchSize (s : KLfreeListDescriptor) (fit : UADDR → UADDR → Option (UADDR × UADDR)) :
    Nat → UADDR → Best → Option Best
  | 0, _, _ => none
  | n + 1, entry, best =>
    if entry = NIL then some best
    else match fit entry (s.mem entry).size with
      | none => s.searchSize fit n (s.mem entry).nextsize best
      | some (data, left) =>
        if left = 0#32 then some ⟨entry, data, left⟩
        else if HEADER ≤ left ∧ left ≤ best.bestleft then
          s.searchSize fit n (s.mem entry).nextsize ⟨entry, data, left⟩
        else s.searchSize fit n (s.mem entry).nextsize best

/-- The walk along the size lists from `TableNo` on, `k` of them. -/
def searchTables (s : KLfreeListDescriptor) (fit : UADDR → UADDR → Option (UADDR × UADDR)) :
    Nat → Nat → Option Best
  | 0, _ => some .none
  | k + 1, TableNo => do
    let best ← s.searchSize fit ADDRESSES (s.FirstFreeSizeEntry TableNo) .none
    if best.bestentry ≠ NIL then some best else s.searchTables fit k (TableNo + 1)

/-- All size lists that can have an entry for `size`. -/
def searchFrom (s : KLfreeListDescriptor) (fit : UADDR → UADDR → Option (UADDR × UADDR))
    (size : UADDR) : Option Best :=
  s.searchTables fit (8 - klGetFastLookupToUse size) (klGetFastLookupToUse size)

/-- Take a block out of an entry: what is before and behind it stays in the lists. -/
def carve (s : KLfreeListDescriptor) (entry data size left : UADDR) : KLfreeListDescriptor :=
  if left = 0#32 then
    if data = entry then s.klFreeListRemove entry
    else ((s.klFreeListSizeRemove entry).setSize entry (data - entry)).klFreeListSizeInsert entry
  else
    let preventry := (s.mem entry).prev
    let nextentry := (s.mem entry).next
    let s := s.klFreeListRemove entry
    if data ≠ entry then
      let s := (s.setSize entry (data - entry)).klFreeListInsert preventry entry nextentry
      (s.setSize (data + size) left).klFreeListInsert entry (data + size) nextentry
    else (s.setSize (data + size) left).klFreeListInsert preventry (data + size) nextentry

/-- `carve`, and the count of free bytes. -/
def takeBlock (s : KLfreeListDescriptor) (entry data size left : UADDR) : KLfreeListDescriptor :=
  let s := s.carve entry data size left
  { s with FreeMemory := s.FreeMemory - size }

/-! ## Allocating -/

/-- A search, the taking of the block, and where nothing was found a second try with the memory
that `AllocChunk` gets. -/
def allocWith (c : Callbacks) (fit : UADDR → UADDR → Option (UADDR × UADDR))
    (s : KLfreeListDescriptor) (size : UADDR) : Option (KLfreeListDescriptor × UADDR) := do
  let best ← s.searchFrom fit size
  if best.bestentry ≠ NIL then
    some (s.takeBlock best.bestentry best.result size best.bestleft, best.result)
  else match c.AllocChunk with
    | none => some (s, NIL)
    | some allocChunk =>
      let (data, left) := allocChunk size
      if data = 0#32 then some (s, NIL)
      else
        let s ← { s with DisallowFreeChunk := false }.klFreeListMemFree c data left
        let s := { s with DisallowFreeChunk := true }
        let best ← s.searchFrom fit size
        if best.bestentry ≠ NIL then
          some (s.takeBlock best.bestentry best.result size best.bestleft, best.result)
        else some (s, NIL)

/-- A block at the start of an entry. -/
def fitAt (size entry entrysize : UADDR) : Option (UADDR × UADDR) :=
  if size ≤ entrysize then some (entry, entrysize - size) else none

/-- `KLfreeListMemAlloc`. -/
def klFreeListMemAlloc (c : Callbacks) (s : KLfreeListDescriptor) (size : UADDR) :
    Option (KLfreeListDescriptor × UADDR) :=
  let size := adjustSize size
  allocWith c (fitAt size) s size

/-- The next address with the alignment: `(data+alignadd)&alignmask`. -/
def alignUp (alignment : Nat) (data : UADDR) : UADDR :=
  (data + (1#32 <<< alignment - 1#32)) &&& -(1#32 <<< alignment)

/-- What an entry has from an address on. -/
def leftFrom (data entry entrysize : UADDR) : UADDR :=
  if data - entry ≠ 0#32 ∧ entrysize < data - entry then 0#32 else entrysize - (data - entry)

/-- The first aligned block in an entry that leaves nothing or a header's room before it. -/
def fitAligned (size : UADDR) (alignment : Nat) (entry entrysize : UADDR) :
    Option (UADDR × UADDR) :=
  if size ≤ entrysize then
    let data := alignUp alignment entry
    let data :=
      if data - entry ≠ 0#32 ∧ data - entry < HEADER then alignUp alignment (entry + HEADER)
      else data
    let left := leftFrom data entry entrysize
    if size ≤ left then some (data, left - size) else none
  else none

/-- `KLfreeListMemAllocAlign`. -/
def klFreeListMemAllocAlign (c : Callbacks) (s : KLfreeListDescriptor) (size : UADDR)
    (alignment : Nat) : Option (KLfreeListDescriptor × UADDR) :=
  let size := adjustSize size
  allocWith c (fitAligned size alignment) s size

/-! ## Allocating a region -/

/-- How the walk along a size list for a region ends. -/
inductive RegionWalk where
  | found (entry left : UADDR)
  /-- The region starts too close behind an entry: the allocation fails. -/
  | tooClose
  /-- The list has ended, or an entry behind the region was met. -/
  | nextTable
  deriving DecidableEq, Repr

/-- The walk along one size list. -/
def regionSize (s : KLfreeListDescriptor) (data size : UADDR) : Nat → UADDR → Option RegionWalk
  | 0, _ => none
  | n + 1, entry =>
    if entry = NIL then some .nextTable
    else if data < entry then some .nextTable
    else if data - entry ≠ 0#32 ∧ data - entry < HEADER then some .tooClose
    else
      let left := leftFrom data entry (s.mem entry).size
      if size ≤ left then some (.found entry (left - size))
      else s.regionSize data size n (s.mem entry).nextsize

/-- The walk along the size lists. -/
def regionTables (s : KLfreeListDescriptor) (data size : UADDR) : Nat → Nat → Option RegionWalk
  | 0, _ => some .nextTable
  | k + 1, TableNo => do
    let w ← s.regionSize data size ADDRESSES (s.FirstFreeSizeEntry TableNo)
    if w = .nextTable then s.regionTables data size k (TableNo + 1) else some w

/-- `KLfreeListMemAllocRegion`. -/
def klFreeListMemAllocRegion (s : KLfreeListDescriptor) (data size : UADDR) :
    Option (KLfreeListDescriptor × UADDR) := do
  let size := adjustSize size
  match ← s.regionTables data size (8 - klGetFastLookupToUse size) (klGetFastLookupToUse size) with
  | .found entry left => some (s.takeBlock entry data size left, data)
  | _ => some (s, NIL)

end KLfreeListDescriptor

/-- A descriptor as `CKinitMem` sets it up. -/
def freeListAtBoot : KLfreeListDescriptor where
  mem _ := ⟨NIL, NIL, NIL, NIL, 0#32, 0⟩
  FirstFreeEntry := NIL
  FirstFreeSizeEntry _ := NIL
  FreeMemory := 0#32
  DisallowFreeChunk := false
  freedChunks := []

end Alliance.KL
