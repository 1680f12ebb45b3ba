import Alliance.KL.FreeListLedger
import Alliance.Lib.Run

/-!
# Chunks of the free list

A descriptor can get memory from elsewhere when an allocation finds nothing (`AllocChunk`), and
let go of memory that is freed (`PrepareFreeChunk`, `FreeChunk`). What is let go is a part of
the entry that the freed memory has become, and it is lost here: the bytes of a rest that has no
room for a header are in no entry, the size of the rest behind the part has the wrong sign, and
`FreeMemory` keeps the bytes that `FreeChunk` was given. The flag that is to keep memory from
being let go while an allocation waits for it is set the other way round.

All bytes stay where they belong as long as nothing is let go (`chunks_run`): where the flag is
set, where `PrepareFreeChunk` declines, or where the part that it lets go is empty.
-/

namespace Alliance.KL

open Function Lib
open CK (UADDR)

namespace KLfreeListDescriptor

variable {s s' : KLfreeListDescriptor} {c : Callbacks} {cs : List (UADDR × UADDR)}
  {l l' : List UADDR} {e p n v data size preventry intdata nextentry : UADDR} {t : Nat}
  {fit : UADDR → UADDR → Option (UADDR × UADDR)} {r : UADDR}

/-! ## What is let go -/

/-- Of an entry nothing is let go. -/
def Keeps (c : Callbacks) (s : KLfreeListDescriptor) (entry size : UADDR) : Prop :=
  s.DisallowFreeChunk ∨ ¬ c.FreeChunk ∨
    ∀ prepare ∈ c.PrepareFreeChunk, ∀ chunk ∈ prepare entry size,
      chunk = (entry + size, 0#32) ∧ HEADER < size

/-- The size of a block with the entry behind it, if they touch. -/
def withNext (s : KLfreeListDescriptor) (intdata size nextentry : UADDR) : UADDR :=
  if nextentry ≠ NIL ∧ intdata + size = nextentry then size + s.sizeOf nextentry else size

/-- The entry that a block becomes between two others, and its size. -/
def coalesced (s : KLfreeListDescriptor) (preventry intdata size nextentry : UADDR) :
    UADDR × UADDR :=
  if preventry ≠ NIL ∧ preventry + s.sizeOf preventry = intdata then
    (preventry, s.withNext preventry (size + s.sizeOf preventry) nextentry)
  else (intdata, s.withNext intdata size nextentry)

/-- Of the entry that a block becomes nothing is let go. -/
def KeepsFreed (c : Callbacks) (s : KLfreeListDescriptor) (data size : UADDR) : Prop :=
  ∀ place ∈ s.placeOf data, s.Keeps c (s.coalesced place.1 data size place.2).1
    (s.coalesced place.1 data size place.2).2

/-! ## Calls of `FreeChunk` -/

/-- The descriptor after other calls of `FreeChunk`. -/
def withChunks (s : KLfreeListDescriptor) (cs : List (UADDR × UADDR)) : KLfreeListDescriptor :=
  { s with freedChunks := cs }

@[simp] theorem setEntry_withChunks {x : KLfreeListEntry} :
    (s.withChunks cs).setEntry e x = (s.setEntry e x).withChunks cs := rfl

@[simp] theorem setNext_withChunks :
    (s.withChunks cs).setNext e v = (s.setNext e v).withChunks cs := by
  unfold setNext
  split <;> rfl

@[simp] theorem setPrev_withChunks :
    (s.withChunks cs).setPrev e v = (s.setPrev e v).withChunks cs := by
  unfold setPrev
  split <;> rfl

@[simp] theorem setPrevsize_withChunks :
    (s.withChunks cs).setPrevsize e v = (s.setPrevsize e v).withChunks cs := by
  unfold setPrevsize
  split <;> rfl

@[simp] theorem setNextsize_withChunks :
    (s.withChunks cs).setNextsize t e v = (s.setNextsize t e v).withChunks cs := by
  unfold setNextsize
  split <;> rfl

theorem klFreeListSizeInsert_withChunks :
    (s.withChunks cs).klFreeListSizeInsert e = (s.klFreeListSizeInsert e).withChunks cs := by
  rw [klFreeListSizeInsert_eq (s := s) rfl, klFreeListSizeInsert_eq (s := s.withChunks cs) rfl,
    ← setNextsize_withChunks, ← setPrevsize_withChunks, ← setEntry_withChunks]
  rfl

theorem klFreeListInsert_withChunks :
    (s.withChunks cs).klFreeListInsert p e n = (s.klFreeListInsert p e n).withChunks cs := by
  rw [klFreeListInsert_eq, klFreeListInsert_eq, ← klFreeListSizeInsert_withChunks,
    ← setPrev_withChunks, ← setNext_withChunks, ← setEntry_withChunks]
  rfl

/-- The calls are empty, or were made before. -/
def NoneFreed (s : KLfreeListDescriptor) (cs : List (UADDR × UADDR)) : Prop :=
  ∀ chunk ∈ cs, chunk ∈ s.freedChunks ∨ chunk.2 = 0#32

theorem noneFreed_self : s.NoneFreed s.freedChunks := fun _ h => .inl h

theorem NoneFreed.of_eq (h : s'.NoneFreed cs) (he : s'.freedChunks = s.freedChunks) :
    s.NoneFreed cs := fun chunk hc => he ▸ h chunk hc

/-- **An entry of which nothing is let go** is inserted. -/
theorem klFreeListMemFreeChunk_keeps (h : s.Keeps c e (s.sizeOf e)) : ∃ cs, s.NoneFreed cs ∧
    s.klFreeListMemFreeChunk c p e n = (s.klFreeListInsert p e n).withChunks cs := by
  unfold klFreeListMemFreeChunk
  cases hchunk : s.preparedChunk c e with
  | none => exact ⟨s.freedChunks, noneFreed_self, klFreeListInsert_withChunks⟩
  | some chunk =>
      -- the part that is let go is empty, and the whole entry is before it
      unfold preparedChunk at hchunk
      split at hchunk
      · exact absurd hchunk nofun
      · next hallowed =>
        obtain ⟨prepare, hprepare, hchunk⟩ := Option.bind_eq_some_iff.mp hchunk
        obtain ⟨hdisallow, hinstalled⟩ := not_or.mp hallowed
        have hk := (h.resolve_left hdisallow).resolve_left hinstalled
        obtain ⟨rfl, hroom⟩ := hk prepare hprepare chunk hchunk
        have hprev : e + s.sizeOf e - e = s.sizeOf e := by
          rw [BitVec.add_comm, BitVec.add_sub_cancel]
        have hpos : s.sizeOf e ≠ 0#32 := by
          intro h0
          rw [h0] at hroom
          exact absurd hroom (by decide)
        have hsame : (s.withChunks ((e + s.sizeOf e, 0#32) :: s.freedChunks)).setSize e
            (s.sizeOf e) = s.withChunks ((e + s.sizeOf e, 0#32) :: s.freedChunks) := by
          show withChunks { s with mem := update s.mem e (s.mem e) } _ = _
          rw [update_eq_self]
          rfl
        refine ⟨(e + s.sizeOf e, 0#32) :: s.freedChunks,
          List.forall_mem_cons.mpr ⟨.inr rfl, noneFreed_self⟩, ?_⟩
        dsimp only
        rw [BitVec.add_zero, show (s.mem e).size = s.sizeOf e from rfl, BitVec.sub_self, hprev,
          if_pos ⟨hpos, hroom, .inl rfl⟩, if_neg (not_not_intro rfl)]
        show klFreeListInsert (setSize (withChunks s _) e _) p e n = _
        rw [hsame, klFreeListInsert_withChunks]

theorem Keeps.of_rest (h : s.Keeps c e size) (hr : s'.rest = s.rest) : s'.Keeps c e size := by
  unfold Keeps
  rw [show s'.DisallowFreeChunk = s.DisallowFreeChunk from congrArg (·.2.1) hr]
  exact h

/-- Memory that is made an entry of which nothing is let go. -/
theorem setSize_keeps (h : s.Keeps c e v) : ∃ cs, s.NoneFreed cs ∧
    (s.setSize e v).klFreeListMemFreeChunk c p e n =
      ((s.setSize e v).klFreeListInsert p e n).withChunks cs := by
  have hrest : (s.setSize e v).rest = s.rest := setSize_rest.2.2.2.2.2
  have hk : (s.setSize e v).Keeps c e ((s.setSize e v).sizeOf e) := by
    rw [sizeOf_setSize, update_self]
    exact h.of_rest hrest
  obtain ⟨cs, hcs, hs⟩ := klFreeListMemFreeChunk_keeps hk
  exact ⟨cs, hcs.of_eq (congrArg (·.2.2) hrest), hs⟩

theorem joinNext_keeps (preventry : UADDR)
    (h : s.Keeps c intdata (s.withNext intdata size nextentry)) :
    ∃ cs, s.NoneFreed cs ∧ s.joinNext c preventry intdata size nextentry =
      (s.joinNext .none preventry intdata size nextentry).withChunks cs := by
  unfold joinNext
  unfold withNext at h
  simp only [klFreeListMemFreeChunk_none]
  split at h
  · next htouch =>
    have hrest := (klFreeListRemove_rest (s := s) htouch.1).2.2
    obtain ⟨cs, hcs, hs⟩ := setSize_keeps (p := preventry) (n := (s.mem nextentry).next)
      (h.of_rest hrest)
    rw [if_pos htouch, if_pos htouch]
    exact ⟨cs, hcs.of_eq (congrArg (·.2.2) hrest), hs⟩
  · next hc =>
    rw [if_neg hc, if_neg hc]
    exact setSize_keeps h

theorem joinPrev_keeps (h : s.Keeps c (s.coalesced preventry intdata size nextentry).1
    (s.coalesced preventry intdata size nextentry).2) :
    ∃ cs, s.NoneFreed cs ∧ s.joinPrev c preventry intdata size nextentry =
      (s.joinPrev .none preventry intdata size nextentry).withChunks cs := by
  unfold joinPrev
  unfold coalesced at h
  split at h
  · next htouch =>
    obtain ⟨hsize, -, hrest⟩ := klFreeListRemove_rest (s := s) htouch.1
    have hnext : (s.klFreeListRemove preventry).withNext preventry (size + s.sizeOf preventry)
        nextentry = s.withNext preventry (size + s.sizeOf preventry) nextentry := by
      unfold withNext
      rw [hsize]
    rw [← hnext] at h
    obtain ⟨cs, hcs, hs⟩ := joinNext_keeps (s.mem preventry).prev (h.of_rest hrest)
    have htouch : preventry ≠ NIL ∧ preventry + (s.mem preventry).size = intdata := htouch
    rw [if_pos htouch, if_pos htouch]
    exact ⟨cs, hcs.of_eq (congrArg (·.2.2) hrest), hs⟩
  · next hc =>
    have hc : ¬ (preventry ≠ NIL ∧ preventry + (s.mem preventry).size = intdata) := hc
    rw [if_neg hc, if_neg hc]
    exact joinNext_keeps preventry h

/-! ## Calls -/

/-- What the callbacks have to do with is no part of the lists. -/
theorem Entries.flags (h : s.Entries l) (b : Bool) (cs : List (UADDR × UADDR)) :
    { s with DisallowFreeChunk := b, freedChunks := cs }.Entries l where
  links := ⟨h.links.addr, h.links.size⟩
  table := h.table
  room := h.room
  bound := h.bound
  apart := h.apart

theorem Entries.withChunks (h : s.Entries l) (cs : List (UADDR × UADDR)) :
    (s.withChunks cs).Entries l :=
  h.flags s.DisallowFreeChunk cs

/-- **Freeing** memory of which nothing is let go puts it into the list. -/
theorem klFreeListMemFree_keeps (h : s.Entries l) (hb : s.Freeable l data (adjustSize size))
    (hk : s.KeepsFreed c data (adjustSize size)) :
    ∃ s' l', s.klFreeListMemFree c data size = some s' ∧ s'.Entries l' ∧
      s'.FreeMemory = s.FreeMemory + adjustSize size ∧
      (∀ a, s'.Free l' a ↔ s.Free l a ∨ InBlock data (adjustSize size) a) ∧
      s.NoneFreed s'.freedChunks := by
  obtain ⟨s', l', hs, hl', hmem, hfree⟩ := klFreeListMemFree_gives h hb
  obtain ⟨⟨preventry, nextentry⟩, hplace, hs⟩ := Option.bind_eq_some_iff.mp hs
  obtain rfl := Option.some.inj hs
  obtain ⟨cs, hcs, hjoin⟩ := joinPrev_keeps
    (s := { s with FreeMemory := s.FreeMemory + adjustSize size }) (hk _ hplace)
  refine ⟨_, l', ?_, hl'.withChunks cs, hmem, hfree, hcs⟩
  unfold klFreeListMemFree
  rw [hplace, Option.bind_eq_bind, Option.bind_some, ← hjoin]

/-- The memory that an allocation gets from `AllocChunk`, if it finds no entry. -/
def obtained (c : Callbacks) (fit : UADDR → UADDR → Option (UADDR × UADDR))
    (s : KLfreeListDescriptor) (size : UADDR) : Option (UADDR × UADDR) := do
  let best ← s.searchFrom fit size
  let allocChunk ← c.AllocChunk
  if best.bestentry = NIL ∧ (allocChunk size).1 ≠ 0#32 then some (allocChunk size) else none

/-- Without new memory the callbacks do not matter. -/
theorem allocWith_obtained_none (h : s.obtained c fit size = none) :
    s.allocWith c fit size = s.allocWith .none fit size := by
  unfold allocWith
  cases hbest : s.searchFrom fit size with
  | none => rfl
  | some best =>
      simp only [Option.bind_eq_bind, Option.bind_some]
      split
      · rfl
      · next hnil =>
        cases hchunk : c.AllocChunk with
        | none => rfl
        | some allocChunk =>
            simp only [obtained, hbest, hchunk, Option.bind_eq_bind, Option.bind_some] at h
            have hdata : (allocChunk size).1 = 0#32 := by
              by_contra hne
              rw [if_pos ⟨not_not.mp hnil, hne⟩] at h
              exact absurd h nofun
            dsimp only
            rw [if_pos hdata]
            rfl

/-- New memory is put into the list, and the allocation is tried again. -/
theorem allocWith_obtained_some {chunk : UADDR × UADDR} (h : s.obtained c fit size = some chunk) :
    chunk.1 ≠ NIL ∧ s.allocWith c fit size =
      ({ s with DisallowFreeChunk := false }.klFreeListMemFree c chunk.1 chunk.2).bind fun s =>
        { s with DisallowFreeChunk := true }.allocWith .none fit size := by
  obtain ⟨best, hbest, h⟩ := Option.bind_eq_some_iff.mp h
  obtain ⟨allocChunk, hchunk, h⟩ := Option.bind_eq_some_iff.mp h
  split at h
  · next hc =>
    obtain rfl := Option.some.inj h
    refine ⟨hc.2, ?_⟩
    unfold allocWith
    rw [hbest, hchunk, Option.bind_eq_bind, Option.bind_some, if_neg (not_not_intro hc.1)]
    dsimp only
    rw [if_neg hc.2]
    rfl
  · exact absurd h nofun

theorem rest_sizeRemove : (s.klFreeListSizeRemove e).rest = s.rest := by
  unfold klFreeListSizeRemove
  rw [setNextsize_rest.2.2.2.2.2, setPrevsize_rest.2.2.2.2.2]

theorem rest_sizeInsert : (s.klFreeListSizeInsert e).rest = s.rest := by
  rw [klFreeListSizeInsert_eq rfl, setNextsize_rest.2.2.2.2.2, setPrevsize_rest.2.2.2.2.2]
  rfl

theorem rest_remove : (s.klFreeListRemove e).rest = s.rest := by
  unfold klFreeListRemove
  rw [rest_sizeRemove, setPrev_rest.2.2.2.2.2, setNext_rest.2.2.2.2.2]

theorem rest_insert : (s.klFreeListInsert p e n).rest = s.rest := by
  rw [klFreeListInsert_eq, rest_sizeInsert, setPrev_rest.2.2.2.2.2, setNext_rest.2.2.2.2.2]
  rfl

/-- Taking a block calls nobody. -/
theorem takeBlock_freedChunks {left : UADDR} :
    (s.takeBlock e data size left).freedChunks = s.freedChunks := by
  have hrest : (s.carve e data size left).rest = s.rest := by
    unfold carve
    split
    · split
      · exact rest_remove
      · rw [rest_sizeInsert, setSize_rest.2.2.2.2.2, rest_sizeRemove]
    · dsimp only
      split
      · rw [rest_insert, setSize_rest.2.2.2.2.2, rest_insert, setSize_rest.2.2.2.2.2, rest_remove]
      · rw [rest_insert, setSize_rest.2.2.2.2.2, rest_remove]
  exact congrArg (·.2.2) hrest

/-- An allocation without callbacks, from any free list. -/
theorem allocWith_none_freedChunks (h : s.Entries l)
    (hs : s.allocWith .none fit size = some (s', r)) : s'.freedChunks = s.freedChunks := by
  rcases allocWith_cases fit size h.links with hs' | ⟨e, -, data, left, -, -, hs'⟩
  · obtain ⟨rfl, -⟩ := Prod.mk.inj (Option.some.inj (hs.symm.trans hs'))
    rfl
  · obtain ⟨rfl, -⟩ := Prod.mk.inj (Option.some.inj (hs.symm.trans hs'))
    exact takeBlock_freedChunks

theorem klFreeListMemAllocRegion_freedChunks (h : s.Links l)
    (hs : s.klFreeListMemAllocRegion data size = some (s', r)) :
    s'.freedChunks = s.freedChunks := by
  rcases klFreeListMemAllocRegion_cases h data size with hs' | ⟨e, left, -, hs'⟩
  · obtain ⟨rfl, -⟩ := Prod.mk.inj (Option.some.inj (hs.symm.trans hs'))
    rfl
  · obtain ⟨rfl, -⟩ := Prod.mk.inj (Option.some.inj (hs.symm.trans hs'))
    exact takeBlock_freedChunks

end KLfreeListDescriptor

/-! ## Runs -/

open KLfreeListDescriptor

/-- A descriptor, the blocks that are allocated, and the memory that `AllocChunk` has given. -/
structure ChunkState where
  desc : KLfreeListDescriptor
  live : List (UADDR × UADDR)
  got : List (UADDR × UADDR)

/-- The calls, each with what the callbacks answer in it. -/
inductive ChunkOp where
  | alloc (size : UADDR) (c : Callbacks)
  | allocAlign (size : UADDR) (alignment : Nat) (c : Callbacks)
  | allocRegion (data size : UADDR)
  | free (data size : UADDR) (c : Callbacks)

/-- The bytes of one of the blocks. -/
def InBlocks (bs : List (UADDR × UADDR)) (a : Nat) : Prop := ∃ b ∈ bs, InBlock b.1 b.2 a

namespace ChunkState

/-- An allocation that gets the memory `chunk`. -/
def alloc (st : ChunkState) (chunk : Option (UADDR × UADDR)) (size : UADDR)
    (out : Option (KLfreeListDescriptor × UADDR)) : Option ChunkState :=
  out.map fun (desc, r) =>
    { desc
      live := if r = NIL then st.live else (r, size) :: st.live
      got := chunk.toList ++ st.got }

/-- The bytes that the descriptor has had: those of the start, which are `had`, and those it has
got. -/
def Had (had : Nat → Prop) (st : ChunkState) (a : Nat) : Prop := had a ∨ InBlocks st.got a

/-- How many calls of `FreeChunk` have let a byte go. -/
def letGo (st : ChunkState) (a : Nat) : Nat :=
  st.desc.freedChunks.countP fun b => decide (b.1.toNat ≤ a ∧ a < b.1.toNat + b.2.toNat)

/-- **Chunks conserve memory**: each byte is free, in a block or let go once, and the free bytes
are counted. -/
structure Conserves (had : Nat → Prop) (st : ChunkState) (l : List UADDR) : Prop where
  somewhere : ∀ a, st.Had had a ↔ st.desc.Free l a ∨ InBlocks st.live a ∨ 0 < st.letGo a
  once : ∀ a, st.letGo a ≤ 1 ∧ (InBlocks st.live a → st.letGo a = 0) ∧
    (st.desc.Free l a → st.letGo a = 0 ∧ ¬ InBlocks st.live a)
  count : st.desc.FreeMemory.toNat = (l.map fun x => (st.desc.sizeOf x).toNat).sum

/-- An allocation gets memory that the descriptor has not. -/
def Fresh (had : Nat → Prop) (st : ChunkState) (c : Callbacks)
    (fit : UADDR → UADDR → Option (UADDR × UADDR)) (size : UADDR) : Prop :=
  ∀ chunk ∈ st.desc.obtained c fit size, chunk.1.toNat + chunk.2.toNat ≤ ADDRESSES ∧
    ∀ a, InBlock chunk.1 chunk.2 a → ¬ st.Had had a

/-- The size of the block can be rounded up, and of new memory, which needs no rounding, nothing
is let go at once. -/
def KeepsGot (st : ChunkState) (c : Callbacks) (fit : UADDR → UADDR → Option (UADDR × UADDR))
    (size : UADDR) : Prop :=
  size ≠ 0#32 ∧ ∀ chunk ∈ st.desc.obtained c fit size, adjustSize chunk.2 = chunk.2 ∧
    { st.desc with DisallowFreeChunk := false }.KeepsFreed c chunk.1 chunk.2

end ChunkState

local instance block_lawfulBEq : LawfulBEq (UADDR × UADDR) := inferInstance

/-- One call. Only blocks that are allocated are freed. -/
def chunkStep (st : ChunkState) : ChunkOp → Option ChunkState
  | .alloc size c => st.alloc (st.desc.obtained c (fitAt (adjustSize size)) (adjustSize size))
      (adjustSize size) (st.desc.klFreeListMemAlloc c size)
  | .allocAlign size alignment c =>
    st.alloc (st.desc.obtained c (fitAligned (adjustSize size) alignment) (adjustSize size))
      (adjustSize size) (st.desc.klFreeListMemAllocAlign c size alignment)
  | .allocRegion data size =>
    st.alloc none (adjustSize size) (st.desc.klFreeListMemAllocRegion data size)
  | .free data size c =>
    if (data, adjustSize size) ∈ st.live then
      (st.desc.klFreeListMemFree c data size).map fun desc =>
        { st with desc, live := st.live.erase (data, adjustSize size) }
    else none

/-- What is assumed of the callbacks. -/
def ChunkOp.Fresh (had : Nat → Prop) (st : ChunkState) : ChunkOp → Prop
  | .alloc size c => st.Fresh had c (fitAt (adjustSize size)) (adjustSize size)
  | .allocAlign size alignment c =>
    st.Fresh had c (fitAligned (adjustSize size) alignment) (adjustSize size)
  | .allocRegion .. => True
  | .free .. => True

/-- Nothing is let go, and what a region leaves behind it has room for a header. -/
def ChunkOp.Regular (st : ChunkState) : ChunkOp → Prop
  | .alloc size c => st.KeepsGot c (fitAt (adjustSize size)) (adjustSize size)
  | .allocAlign size alignment c =>
    st.KeepsGot c (fitAligned (adjustSize size) alignment) (adjustSize size)
  | .allocRegion data size => adjustSize size ≠ 0#32 ∧
      ∀ l, st.desc.Entries l → st.desc.LeavesRoom l data (adjustSize size)
  | .free data size c => st.desc.KeepsFreed c data (adjustSize size)

namespace ChunkState

variable {st st' st₀ : ChunkState} {had : Nat → Prop} {l l' l₀ : List UADDR} {c : Callbacks}
  {fit : UADDR → UADDR → Option (UADDR × UADDR)} {size : UADDR} {op : ChunkOp}
  {ops : List ChunkOp}

/-- What every state of a run has. -/
structure Holds (had : Nat → Prop) (st : ChunkState) (l : List UADDR) : Prop where
  ledger : Ledger (st.Had had) st.desc l st.live
  counted : st.desc.Counted l
  kept : ∀ chunk ∈ st.desc.freedChunks, chunk.2 = 0#32

theorem Holds.conserves (h : Holds had st l) : Conserves had st l ∧ ∀ a, st.letGo a = 0 := by
  have hkept : ∀ a, st.letGo a = 0 := fun a => List.countP_eq_zero.mpr fun chunk hc => by
    rw [h.kept chunk hc]
    simp
  refine ⟨⟨fun a => ?_, fun a => ⟨by simp [hkept], fun _ => hkept a, fun hf => ⟨hkept a, ?_⟩⟩,
    h.counted.trans h.ledger.entries.sum_sizeOf.symm⟩, hkept⟩
  · rw [h.ledger.conserved, hkept]
    simp [InBlocks]
  · rintro ⟨b, hb, hba⟩
    exact (h.ledger.taken b hb a hba).2 hf

/-- An allocation that gets no memory. -/
theorem Holds.took (h : Holds had st l) {desc : KLfreeListDescriptor} {r : UADDR}
    (hsize : size ≠ 0#32) (ht : Took st.desc l desc l' r size)
    (hfreed : desc.freedChunks = st.desc.freedChunks) :
    Holds had ⟨desc, if r = NIL then st.live else (r, size) :: st.live, st.got⟩ l' where
  ledger := h.ledger.took hsize ht
  counted := h.counted.took h.ledger.entries ht
  kept := hfreed ▸ h.kept

/-- **An allocation** of which nothing is let go. -/
theorem Holds.alloc (h : Holds had st l) {out : Option (KLfreeListDescriptor × UADDR)}
    (hout : st.desc.allocWith c fit size = out)
    (htook : ∀ {s : KLfreeListDescriptor} {l}, s.Entries l → ∃ s' l' r,
      s.allocWith .none fit size = some (s', r) ∧ Took s l s' l' r size)
    (hfresh : st.Fresh had c fit size) (hkeeps : st.KeepsGot c fit size)
    (hs : st.alloc (st.desc.obtained c fit size) size out = some st') :
    ∃ l', Holds had st' l' := by
  obtain ⟨⟨desc, r⟩, rfl, rfl⟩ := Option.map_eq_some_iff.mp hs
  obtain ⟨hsize, hgot⟩ := hkeeps
  cases hobt : st.desc.obtained c fit size with
  | none =>
      rw [allocWith_obtained_none hobt] at hout
      obtain ⟨s', l', r', hs', ht⟩ := htook h.ledger.entries
      obtain ⟨rfl, rfl⟩ := Prod.mk.inj (Option.some.inj (hout.symm.trans hs'))
      exact ⟨l', h.took hsize ht (allocWith_none_freedChunks h.ledger.entries hs')⟩
  | some chunk =>
      obtain ⟨hnil, halloc⟩ := allocWith_obtained_some hobt
      obtain ⟨hround, hkeeps⟩ := hgot chunk hobt
      obtain ⟨hbound, hnew⟩ := hfresh chunk hobt
      have hnone : ∀ a, InBlock chunk.1 chunk.2 a → ¬ st.desc.Free l a :=
        fun a ha hf => hnew a ha ((h.ledger.conserved a).mpr (.inl hf))
      have hchunk : chunk.2 ≠ 0#32 := by
        intro h0
        rw [h0] at hround
        exact absurd hround (by decide)
      have hentries := h.ledger.entries.flags false st.desc.freedChunks
      obtain ⟨s₁, l₁, hs₁, hl₁, hmem, hfree, hfreed⟩ := klFreeListMemFree_keeps hentries
        (hround.symm ▸ hentries.freeable hnil hchunk fun a ha =>
          ⟨Nat.lt_of_lt_of_le ha.2 hbound, hnone a ha⟩) (hround.symm ▸ hkeeps)
      rw [hround] at hmem hfree
      -- the second try
      have hl₂ := hl₁.flags true s₁.freedChunks
      obtain ⟨s', l', r', hs', ht⟩ := htook hl₂
      rw [halloc, hs₁, Option.bind_some] at hout
      obtain ⟨rfl, rfl⟩ := Prod.mk.inj (Option.some.inj (hout.symm.trans hs'))
      have hgrown := h.ledger.grows hnew hl₂ hfree
      refine ⟨l', ((hgrown.took hsize ht).congr fun a => ?_),
        (h.counted.gives h.ledger.entries hl₂ hmem hfree hnone).took hl₂ ht, ?_⟩
      · simp only [Had, InBlocks, Option.toList_some, List.singleton_append,
          List.exists_mem_cons_iff]
        exact ⟨fun h => h.elim (fun h => .inl (.inl h)) fun h => h.elim .inr fun h => .inl (.inr h),
          fun h => h.elim (fun h => h.imp_right .inr) fun h => .inr (.inl h)⟩
      · rw [allocWith_none_freedChunks hl₂ hs']
        intro x hx
        exact (hfreed x hx).elim (h.kept x) id

theorem chunkStep_holds (h : Holds had st l) (hfresh : op.Fresh had st) (hop : op.Regular st)
    (hs : chunkStep st op = some st') : ∃ l', Holds had st' l' := by
  cases op with
  | alloc size c =>
      exact h.alloc rfl (fun hl => klFreeListMemAlloc_took hl size) hfresh hop hs
  | allocAlign size alignment c =>
      exact h.alloc rfl (fun hl => klFreeListMemAllocAlign_took hl alignment hop.1) hfresh hop hs
  | allocRegion data size =>
      obtain ⟨⟨desc, r⟩, hcall, rfl⟩ := Option.map_eq_some_iff.mp hs
      obtain ⟨s', l', r', hs', ht⟩ :=
        klFreeListMemAllocRegion_took h.ledger.entries hop.1 (hop.2 l h.ledger.entries)
      obtain ⟨rfl, rfl⟩ := Prod.mk.inj (Option.some.inj (hcall.symm.trans hs'))
      exact ⟨l', h.took hop.1 ht (klFreeListMemAllocRegion_freedChunks h.ledger.entries.links hs')⟩
  | free data size c =>
      dsimp only [chunkStep] at hs
      split at hs
      · next hb =>
        obtain ⟨desc, hcall, rfl⟩ := Option.map_eq_some_iff.mp hs
        obtain ⟨s', l', hs', hl', hmem, hfree, hfreed⟩ :=
          klFreeListMemFree_keeps h.ledger.entries (h.ledger.freeable hb) hop
        obtain rfl := Option.some.inj (hcall.symm.trans hs')
        exact ⟨l', h.ledger.gives hb hl' hfree, h.counted.gives h.ledger.entries hl' hmem hfree
          fun a ha => (h.ledger.taken _ hb a ha).2, fun x hx => (hfreed x hx).elim (h.kept x) id⟩
      · exact absurd hs nofun

end ChunkState

variable {st st₀ : ChunkState} {l₀ : List UADDR} {ops : List ChunkOp}

/-- **Chunks conserve memory** as long as nothing is let go. In a run in which no freed entry is
let go, and nothing of the memory that an allocation gets, every byte that the descriptor has
had is free or in a block, and `FreeMemory` is what the sizes of the entries add up to. -/
theorem chunks_run (h₀ : st₀.desc.Entries l₀)
    (hcount : st₀.desc.FreeMemory.toNat = (l₀.map fun x => (st₀.desc.sizeOf x).toNat).sum)
    (hfreed : st₀.desc.freedChunks = []) (hlive : st₀.live = []) (hgot : st₀.got = [])
    (hr : Run chunkStep (fun st op => op.Fresh (st₀.desc.Free l₀) st ∧ op.Regular st) st₀ ops st) :
    ∃ l, st.desc.Entries l ∧ st.Conserves (st₀.desc.Free l₀) l ∧ ∀ a, st.letGo a = 0 := by
  obtain ⟨l, h⟩ : ∃ l, ChunkState.Holds (st₀.desc.Free l₀) st l := by
    refine hr.invariant (I := fun st => ∃ l, ChunkState.Holds (st₀.desc.Free l₀) st l)
      (fun ⟨l, h⟩ ⟨hfresh, hop⟩ hs => ChunkState.chunkStep_holds h hfresh hop hs) ⟨l₀, ?_, ?_, ?_⟩
    · rw [hlive]
      exact (Ledger.start h₀).congr fun a => by simp [ChunkState.Had, InBlocks, hgot]
    · exact hcount.trans h₀.sum_sizeOf
    · rw [hfreed]
      exact nofun
  exact ⟨l, h.ledger.entries, h.conserves⟩

/-- A descriptor as `CKinitMem` sets it up, before the first call. -/
def chunkBoot : ChunkState := ⟨freeListAtBoot, [], []⟩

/-- `AllocChunk` gives 256 bytes, and `PrepareFreeChunk` answers as told. -/
def giving (prepare : UADDR → UADDR → Option (UADDR × UADDR)) : Callbacks where
  AllocChunk := some fun _ => (0x1000#32, 0x100#32)
  PrepareFreeChunk := some prepare
  FreeChunk := true

theorem obtained_giving {prepare : UADDR → UADDR → Option (UADDR × UADDR)}
    {fit : UADDR → UADDR → Option (UADDR × UADDR)} {s : KLfreeListDescriptor} {size : UADDR}
    {chunk : UADDR × UADDR} (h : chunk ∈ s.obtained (giving prepare) fit size) :
    chunk = (0x1000#32, 0x100#32) := by
  obtain ⟨best, -, h⟩ := Option.bind_eq_some_iff.mp h
  dsimp only [giving, Option.bind_eq_bind, Option.bind_some] at h
  split at h
  · exact (Option.some.inj h).symm
  · exact absurd h nofun

theorem chunkBoot_fresh {prepare : UADDR → UADDR → Option (UADDR × UADDR)} {size : UADDR} :
    (ChunkOp.alloc size (giving prepare)).Fresh (freeListAtBoot.Free []) chunkBoot := by
  intro chunk hchunk
  obtain rfl := obtained_giving hchunk
  refine ⟨by decide, fun a _ => ?_⟩
  simp [ChunkState.Had, chunkBoot, Free, InBlocks]

/-- An allocation gets 256 bytes, and the block is freed where all that is free would be let go:
the flag is set by now. -/
theorem chunks_run_two : ∃ st l, Run chunkStep
      (fun st op => op.Fresh (freeListAtBoot.Free []) st ∧ op.Regular st) chunkBoot
      [.alloc 16#32 (giving fun _ _ => none),
        .free 0x1000#32 16#32 (giving fun entry size => some (entry, size))] st ∧
    st.got = [(0x1000#32, 0x100#32)] ∧ st.desc.FreeMemory = 0x100#32 ∧
    st.desc.Entries l ∧ st.Conserves (freeListAtBoot.Free []) l ∧ ∀ a, st.letGo a = 0 := by
  obtain ⟨st₁, hs₁, hreg⟩ : ∃ st₁,
      chunkStep chunkBoot (.alloc 16#32 (giving fun _ _ => none)) = some st₁ ∧
      st₁.desc.DisallowFreeChunk = true := by
    have h : (chunkStep chunkBoot (.alloc 16#32 (giving fun _ _ => none))).any
        (fun st => st.desc.DisallowFreeChunk) = true := by decide +kernel
    exact (Option.any_eq_true _ _).mp h
  obtain ⟨st, hs, hgot, hmem⟩ : ∃ st,
      chunkStep st₁ (.free 0x1000#32 16#32 (giving fun entry size => some (entry, size))) =
        some st ∧ st.got = [(0x1000#32, 0x100#32)] ∧ st.desc.FreeMemory = 0x100#32 := by
    have h : ((chunkStep chunkBoot (.alloc 16#32 (giving fun _ _ => none))).bind fun st₁ =>
        chunkStep st₁ (.free 0x1000#32 16#32 (giving fun entry size => some (entry, size)))).any
          (fun st => decide (st.got = [(0x1000#32, 0x100#32)] ∧
            st.desc.FreeMemory = 0x100#32)) = true := by decide +kernel
    rw [hs₁] at h
    obtain ⟨st, hs, hp⟩ := (Option.any_eq_true _ _).mp h
    exact ⟨st, hs, of_decide_eq_true hp⟩
  have hkeeps : chunkBoot.KeepsGot (giving fun _ _ => none) (fitAt (adjustSize 16#32))
      (adjustSize 16#32) := by
    refine ⟨by decide, fun chunk hchunk => ?_⟩
    obtain rfl := obtained_giving hchunk
    refine ⟨by decide, fun place _ => .inr (.inr fun prepare hprepare chunk hchunk => ?_)⟩
    obtain rfl := Option.some.inj hprepare
    exact absurd hchunk nofun
  have hr : Run chunkStep (fun st op => op.Fresh (chunkBoot.desc.Free []) st ∧ op.Regular st)
      chunkBoot [.alloc 16#32 (giving fun _ _ => none),
        .free 0x1000#32 16#32 (giving fun entry size => some (entry, size))] st :=
    .cons ⟨chunkBoot_fresh, hkeeps⟩ hs₁ (.cons ⟨trivial, fun _ _ => Or.inl hreg⟩ hs (.nil st))
  have h₀ : chunkBoot.desc.Entries [] := freeListAtBoot_entries
  obtain ⟨l, hl, hconserves⟩ := chunks_run h₀ rfl rfl rfl rfl hr
  exact ⟨st, l, hr, hgot, hmem, hl, hconserves⟩

/-- While the first allocation waits for the memory that it gets, all of it is let go: the flag
is the wrong way round. `FreeChunk` is not called, and the bytes are nowhere. -/
theorem chunks_lost : ∃ st, Run chunkStep (fun st op => op.Fresh (freeListAtBoot.Free []) st)
      chunkBoot [.alloc 16#32 (giving fun entry size => some (entry, size))] st ∧
    ∀ l, st.desc.Entries l → ¬ st.Conserves (freeListAtBoot.Free []) l := by
  obtain ⟨st, hs, hfirst, hlive, hgot, hfreed⟩ : ∃ st,
      chunkStep chunkBoot (.alloc 16#32 (giving fun entry size => some (entry, size))) = some st ∧
      st.desc.FirstFreeEntry = NIL ∧ st.live = [] ∧ st.got = [(0x1000#32, 0x100#32)] ∧
      st.desc.freedChunks = [] := by
    have h : (chunkStep chunkBoot
        (.alloc 16#32 (giving fun entry size => some (entry, size)))).any
          (fun st => decide (st.desc.FirstFreeEntry = NIL ∧ st.live = [] ∧
            st.got = [(0x1000#32, 0x100#32)] ∧ st.desc.freedChunks = [])) = true := by
      decide +kernel
    obtain ⟨st, hs, hp⟩ := (Option.any_eq_true _ _).mp h
    exact ⟨st, hs, of_decide_eq_true hp⟩
  refine ⟨st, .cons chunkBoot_fresh hs (.nil st), fun l hl hc => ?_⟩
  have hgot : (0x1000#32, 0x100#32) ∈ st.got := by simp [hgot]
  have hbyte := (hc.somewhere 0x1000).mp (.inr ⟨_, hgot, by decide, by decide⟩)
  rcases hbyte with ⟨x, hx, -⟩ | ⟨b, hb, -⟩ | hlet
  · -- the list is empty
    obtain rfl : l = [] := hl.links.addr.unique (Linked.empty hfirst)
    exact absurd hx nofun
  · rw [hlive] at hb
    exact absurd hb nofun
  · unfold ChunkState.letGo at hlet
    rw [hfreed] at hlet
    exact absurd hlet (by simp)

end Alliance.KL
