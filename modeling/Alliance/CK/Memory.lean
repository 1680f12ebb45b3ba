import Alliance.KL.FreeListCalls
import Alliance.Lib.Run

/-!
# The Cache Kernel's private memory (`memory.c`)

One free list, and a lock that every call holds while it works on it. `CKenterCritical` polls
the lock until it is free, so a caller that holds it already polls for ever. The calls here run
alone: a call that finds the lock held has entered it itself.

`memory_calls_lock` says which calls do that. `CKmemFreePages` enters the lock and calls
`CKmemFree`, which enters it again, whatever the state; no other call does, and from any state
that legal calls can reach each of the others ends with the lock free.
-/

namespace Alliance.CK

open Lib
open KL (KLfreeListDescriptor adjustSize)

/-- Why a call does not return: it polls a lock that it holds itself, or a walk along links
does not end. -/
inductive MemFault where
  | deadlock
  | endless
  deriving DecidableEq, Repr

structure Memory where
  CKFreeListDescriptor : KLfreeListDescriptor
  CKFreeListLock : Bool

def PAGEBITS : Nat := 12

namespace Memory

/-- `CKenterCritical(&CKFreeListLock)`. -/
def enter (s : Memory) : Except MemFault Memory :=
  if s.CKFreeListLock then .error .deadlock else .ok { s with CKFreeListLock := true }

/-- `CKexitCritical(&CKFreeListLock)`. -/
def exit (s : Memory) : Memory := { s with CKFreeListLock := false }

/-- A call of the allocator with the lock held, and what it returns. -/
def locked {β : Type} (f : KLfreeListDescriptor → Option (KLfreeListDescriptor × β)) (s : Memory) :
    Except MemFault (Memory × β) := do
  let s ← s.enter
  match f s.CKFreeListDescriptor with
  | none => .error .endless
  | some (d, result) => .ok ({ s with CKFreeListDescriptor := d }.exit, result)

/-- `CKmemAlloc`. -/
def ckMemAlloc (s : Memory) (size : UADDR) : Except MemFault (Memory × UADDR) :=
  s.locked fun d => d.klFreeListMemAlloc .none size

/-- `CKmemAllocAlign`. -/
def ckMemAllocAlign (s : Memory) (size : UADDR) (alignment : Nat) : Except MemFault (Memory × UADDR) :=
  s.locked fun d => d.klFreeListMemAllocAlign .none size alignment

/-- `CKmemAllocPages`. -/
def ckMemAllocPages (s : Memory) (nopages : UADDR) : Except MemFault (Memory × UADDR) :=
  s.locked fun d => d.klFreeListMemAllocAlign .none (nopages <<< PAGEBITS) PAGEBITS

/-- `CKmemAllocRegion`. -/
def ckMemAllocRegion (s : Memory) (data size : UADDR) : Except MemFault (Memory × UADDR) :=
  s.locked fun d => d.klFreeListMemAllocRegion data size

/-- `CKmemFree`. -/
def ckMemFree (s : Memory) (data size : UADDR) : Except MemFault (Memory × Unit) :=
  s.locked fun d => (d.klFreeListMemFree .none data size).map fun d => (d, ())

/-- `CKmemFreePages`: the lock is entered here and in `CKmemFree`. -/
def ckMemFreePages (s : Memory) (data nopages : UADDR) : Except MemFault (Memory × Unit) := do
  let s ← s.enter
  let (s, _) ← s.ckMemFree data (nopages <<< PAGEBITS)
  .ok (s.exit, ())

end Memory

inductive MemCall where
  | alloc (size : UADDR)
  | allocAlign (size : UADDR) (alignment : Nat)
  | allocPages (nopages : UADDR)
  | allocRegion (data size : UADDR)
  | free (data size : UADDR)
  | freePages (data nopages : UADDR)
  deriving DecidableEq, Repr

/-- One call, without what it returns. -/
def memCall (s : Memory) : MemCall → Except MemFault Memory
  | .alloc size => (s.ckMemAlloc size).map Prod.fst
  | .allocAlign size alignment => (s.ckMemAllocAlign size alignment).map Prod.fst
  | .allocPages nopages => (s.ckMemAllocPages nopages).map Prod.fst
  | .allocRegion data size => (s.ckMemAllocRegion data size).map Prod.fst
  | .free data size => (s.ckMemFree data size).map Prod.fst
  | .freePages data nopages => (s.ckMemFreePages data nopages).map Prod.fst

def MemCall.IsFreePages : MemCall → Prop
  | .freePages _ _ => True
  | _ => False

def memStep (s : Memory) (c : MemCall) : Option Memory := (memCall s c).toOption

/-- What the callers of the Cache Kernel keep to: a size can be rounded up, a region leaves
nothing or a header's room behind it, and what is freed is not free. -/
def MemCall.Legal (s : Memory) : MemCall → Prop
  | .alloc _ | .allocPages _ => True
  | .allocAlign size _ => adjustSize size ≠ 0#32
  | .allocRegion data size => adjustSize size ≠ 0#32 ∧
      ∀ l, s.CKFreeListDescriptor.Links l →
        s.CKFreeListDescriptor.LeavesRoom l data (adjustSize size)
  | .free data size =>
      ∀ l, s.CKFreeListDescriptor.Links l →
        s.CKFreeListDescriptor.Freeable l data (adjustSize size)
  | .freePages data nopages =>
      ∀ l, s.CKFreeListDescriptor.Links l →
        s.CKFreeListDescriptor.Freeable l data (adjustSize (nopages <<< PAGEBITS))

/-- After the descriptor is set up, before any memory is put in. -/
def memoryAtBoot : Memory where
  CKFreeListDescriptor := KL.freeListAtBoot
  CKFreeListLock := false

/-! ## The lock -/

variable {s s' : Memory} {c : MemCall} {cs : List MemCall}

/-- The state after a call of the allocator, which left this free list, if it returned. -/
def afterCall : Option KLfreeListDescriptor → Except MemFault Memory
  | none => .error .endless
  | some d => .ok ⟨d, false⟩

/-- A call that finds the lock free. -/
theorem locked_of_free {β : Type} (f : KLfreeListDescriptor → Option (KLfreeListDescriptor × β))
    (h : s.CKFreeListLock = false) :
    s.locked f = match f s.CKFreeListDescriptor with
      | none => .error .endless
      | some (d, result) => .ok (⟨d, false⟩, result) := by
  unfold Memory.locked Memory.enter
  rw [if_neg (by simp [h])]
  rfl

theorem locked_map {β : Type} (f : KLfreeListDescriptor → Option (KLfreeListDescriptor × β))
    (h : s.CKFreeListLock = false) :
    (s.locked f).map Prod.fst = afterCall ((f s.CKFreeListDescriptor).map Prod.fst) := by
  rw [locked_of_free f h]
  cases f s.CKFreeListDescriptor with
  | none => rfl
  | some r => rfl

/-- What a call other than `CKmemFreePages` does to the free list. -/
def MemCall.onList (d : KLfreeListDescriptor) : MemCall → Option KLfreeListDescriptor
  | .alloc size => (d.klFreeListMemAlloc .none size).map Prod.fst
  | .allocAlign size alignment => (d.klFreeListMemAllocAlign .none size alignment).map Prod.fst
  | .allocPages nopages =>
      (d.klFreeListMemAllocAlign .none (nopages <<< PAGEBITS) PAGEBITS).map Prod.fst
  | .allocRegion data size => (d.klFreeListMemAllocRegion data size).map Prod.fst
  | .free data size => d.klFreeListMemFree .none data size
  | .freePages _ _ => none

theorem memCall_of_free (h : s.CKFreeListLock = false) (hc : ¬ c.IsFreePages) :
    memCall s c = afterCall (c.onList s.CKFreeListDescriptor) := by
  cases c with
  | alloc size => rw [memCall, Memory.ckMemAlloc, locked_map _ h, MemCall.onList]
  | allocAlign size k => rw [memCall, Memory.ckMemAllocAlign, locked_map _ h, MemCall.onList]
  | allocPages nopages => rw [memCall, Memory.ckMemAllocPages, locked_map _ h, MemCall.onList]
  | allocRegion data size => rw [memCall, Memory.ckMemAllocRegion, locked_map _ h, MemCall.onList]
  | free data size =>
      rw [memCall, Memory.ckMemFree, locked_map _ h, MemCall.onList, Option.map_map]
      exact congrArg afterCall Option.map_id'
  | freePages data nopages => exact absurd trivial hc

/-- `CKmemFree` is called with the lock held. -/
theorem memCall_freePages (h : s.CKFreeListLock = false) (data nopages : UADDR) :
    memCall s (.freePages data nopages) = .error .deadlock := by
  unfold memCall Memory.ckMemFreePages Memory.enter
  rw [if_neg (by simp [h])]
  dsimp only [bind, Except.bind]
  unfold Memory.ckMemFree Memory.locked Memory.enter
  rw [if_pos rfl]
  rfl

/-! ## The free list -/

/-- Whole pages can be rounded up. -/
theorem adjustSize_pages (nopages : UADDR) : adjustSize (nopages <<< PAGEBITS) ≠ 0#32 := by
  have hpages : (nopages <<< PAGEBITS).toNat = nopages.toNat * 4096 % 2 ^ 32 := by
    rw [BitVec.toNat_shiftLeft, Nat.shiftLeft_eq]
    rfl
  have hadd : (nopages <<< PAGEBITS + 3#32).toNat = ((nopages <<< PAGEBITS).toNat + 3) % 2 ^ 32 :=
    BitVec.toNat_add ..
  unfold adjustSize
  split
  · decide
  · next hlt =>
    have hle : 24 ≤ (nopages <<< PAGEBITS).toNat :=
      Nat.le_of_not_lt fun h => hlt (BitVec.lt_def.mpr h)
    have hmask := KLfreeListDescriptor.toNat_and_neg (nopages <<< PAGEBITS + 3#32) 2
    change ((nopages <<< PAGEBITS + 3#32) &&& -4#32).toNat = _ at hmask
    intro h0
    have h0 : ((nopages <<< PAGEBITS + 3#32) &&& -4#32).toNat = 0 := congrArg BitVec.toNat h0
    omega

variable {d : KLfreeListDescriptor} {l : List UADDR}

/-- On a free list every call of the allocator returns. -/
theorem onList_some (h : d.Entries l) (hc : ¬ c.IsFreePages) : ∃ d', c.onList d = some d' := by
  cases c with
  | alloc size =>
      obtain ⟨d', _, r, hs, _⟩ := KLfreeListDescriptor.klFreeListMemAlloc_took h size
      exact ⟨d', by rw [MemCall.onList, hs]; rfl⟩
  | allocAlign size k =>
      obtain ⟨d', r, hs⟩ := KLfreeListDescriptor.klFreeListMemAllocAlign_some h.links size k
      exact ⟨d', by rw [MemCall.onList, hs]; rfl⟩
  | allocPages nopages =>
      obtain ⟨d', r, hs⟩ := KLfreeListDescriptor.klFreeListMemAllocAlign_some h.links
        (nopages <<< PAGEBITS) PAGEBITS
      exact ⟨d', by rw [MemCall.onList, hs]; rfl⟩
  | allocRegion data size =>
      rcases KLfreeListDescriptor.klFreeListMemAllocRegion_cases h.links data size with
        hs | ⟨e, left, _, hs⟩
      · exact ⟨d, by rw [MemCall.onList, hs]; rfl⟩
      · exact ⟨_, by rw [MemCall.onList, hs]; rfl⟩
  | free data size => exact KLfreeListDescriptor.klFreeListMemFree_some h data size
  | freePages data nopages => exact absurd trivial hc

/-- What a legal call leaves is a free list. -/
theorem onList_entries (h : d.Entries l) (hc : c.Legal ⟨d, false⟩) {d' : KLfreeListDescriptor}
    (hs : c.onList d = some d') : ∃ l', d'.Entries l' := by
  cases c with
  | alloc size =>
      obtain ⟨d₁, l₁, r, hs₁, ht⟩ := KLfreeListDescriptor.klFreeListMemAlloc_took h size
      rw [MemCall.onList, hs₁] at hs
      obtain rfl := Option.some.inj hs
      exact ⟨l₁, ht.entries⟩
  | allocAlign size k =>
      obtain ⟨d₁, l₁, r, hs₁, ht⟩ := KLfreeListDescriptor.klFreeListMemAllocAlign_took h k hc
      rw [MemCall.onList, hs₁] at hs
      obtain rfl := Option.some.inj hs
      exact ⟨l₁, ht.entries⟩
  | allocPages nopages =>
      obtain ⟨d₁, l₁, r, hs₁, ht⟩ := KLfreeListDescriptor.klFreeListMemAllocAlign_took h PAGEBITS
        (adjustSize_pages nopages)
      rw [MemCall.onList, hs₁] at hs
      obtain rfl := Option.some.inj hs
      exact ⟨l₁, ht.entries⟩
  | allocRegion data size =>
      obtain ⟨d₁, l₁, r, hs₁, ht⟩ := KLfreeListDescriptor.klFreeListMemAllocRegion_took h hc.1
        (hc.2 l h.links)
      rw [MemCall.onList, hs₁] at hs
      obtain rfl := Option.some.inj hs
      exact ⟨l₁, ht.entries⟩
  | free data size =>
      obtain ⟨d₁, l₁, hs₁, h₁, _⟩ := KLfreeListDescriptor.klFreeListMemFree_gives h (hc l h.links)
      rw [MemCall.onList, hs₁] at hs
      obtain rfl := Option.some.inj hs
      exact ⟨l₁, h₁⟩
  | freePages data nopages => exact absurd hs (by simp [MemCall.onList])

/-! ## Runs -/

/-- Between two calls the lock is free, and the free list is one. -/
structure Memory.Quiet (s : Memory) : Prop where
  lock : s.CKFreeListLock = false
  list : ∃ l, s.CKFreeListDescriptor.Entries l

theorem memStep_quiet (h : s.Quiet) (hc : c.Legal s) (hs : memStep s c = some s') : s'.Quiet := by
  obtain ⟨l, hl⟩ := h.list
  have hlock := h.lock
  by_cases hp : c.IsFreePages
  · -- the call does not return
    cases c with
    | freePages data nopages =>
        rw [memStep, memCall_freePages hlock] at hs
        exact absurd hs (by simp [Except.toOption])
    | alloc | allocAlign | allocPages | allocRegion | free => exact hp.elim
  · rw [memStep, memCall_of_free hlock hp] at hs
    cases hd : c.onList s.CKFreeListDescriptor with
    | none =>
        rw [hd] at hs
        exact absurd hs (by simp [afterCall, Except.toOption])
    | some d =>
        rw [hd] at hs
        obtain rfl := Option.some.inj hs
        have hs : s = ⟨s.CKFreeListDescriptor, false⟩ := by
          rw [← hlock]
        exact ⟨rfl, onList_entries hl (hs ▸ hc) hd⟩

theorem afterCall_ne_deadlock (d : Option KLfreeListDescriptor) :
    afterCall d ≠ .error .deadlock := by
  cases d with
  | none => simp [afterCall]
  | some d => simp [afterCall]

theorem memCall_deadlock (h : s.CKFreeListLock = false) :
    memCall s c = .error .deadlock ↔ c.IsFreePages := by
  constructor
  · intro hs
    by_contra hc
    rw [memCall_of_free h hc] at hs
    exact afterCall_ne_deadlock _ hs
  · intro hc
    cases c with
    | freePages data nopages => exact memCall_freePages h data nopages
    | alloc | allocAlign | allocPages | allocRegion | free => exact hc.elim

/-- Between two calls, those that are not `CKmemFreePages` return. -/
theorem Memory.Quiet.returns (h : s.Quiet) :
    (∃ s', memCall s c = .ok s' ∧ s'.CKFreeListLock = false) ↔ ¬ c.IsFreePages := by
  constructor
  · intro ⟨s', hs, _⟩ hc
    rw [(memCall_deadlock h.lock).mpr hc] at hs
    exact absurd hs (by simp)
  · intro hc
    obtain ⟨l, hl⟩ := h.list
    obtain ⟨d, hd⟩ := onList_some hl hc
    refine ⟨⟨d, false⟩, ?_, rfl⟩
    rw [memCall_of_free h.lock hc, hd]
    rfl

theorem memory_run_quiet (hr : Run memStep MemCall.Legal memoryAtBoot cs s) : s.Quiet :=
  hr.invariant (fun h hc hs => memStep_quiet h hc hs)
    ⟨rfl, [], KLfreeListDescriptor.freeListAtBoot_entries⟩

/-- **The lock of the free list.** From any state in which the lock is free, `CKmemFreePages`
enters it while holding it and no other call does. Whatever legal calls were made since boot,
each of the others returns with the lock free, and `CKmemFreePages` does not. -/
theorem memory_calls_lock (h : s.CKFreeListLock = false) (c : MemCall) :
    (memCall s c = .error .deadlock ↔ c.IsFreePages) ∧
      ∀ cs, Run memStep MemCall.Legal memoryAtBoot cs s →
        ((∃ s', memCall s c = .ok s' ∧ s'.CKFreeListLock = false) ↔ ¬ c.IsFreePages) := by
  constructor
  · exact memCall_deadlock h
  · intro cs hr
    exact (memory_run_quiet hr).returns

/-- Memory is put in, and a page of it is allocated. -/
def givesPage : List MemCall := [.free 0xc0200000#32 0x10000#32, .allocPages 1#32]

theorem givesPage_run : ∃ s, Run memStep MemCall.Legal memoryAtBoot givesPage s := by
  have hlegal : (MemCall.free 0xc0200000#32 0x10000#32).Legal memoryAtBoot := by
    intro l hl
    obtain rfl := KLfreeListDescriptor.freeListAtBoot_entries.links.addr.unique hl.addr
    exact ⟨by decide, by decide, by decide, by simp⟩
  have hstep : ∀ {s c}, s.Quiet → ¬ c.IsFreePages → ∃ s', memStep s c = some s' := by
    intro s c h hc
    obtain ⟨s', hs, _⟩ := h.returns.mpr hc
    exact ⟨s', by rw [memStep, hs]; rfl⟩
  have hboot : memoryAtBoot.Quiet := ⟨rfl, [], KLfreeListDescriptor.freeListAtBoot_entries⟩
  obtain ⟨s₁, hs₁⟩ := hstep hboot (c := .free 0xc0200000#32 0x10000#32) id
  obtain ⟨s₂, hs₂⟩ := hstep (memStep_quiet hboot hlegal hs₁) (c := .allocPages 1#32) id
  exact ⟨s₂, .cons hlegal hs₁ (.cons trivial hs₂ (.nil s₂))⟩

theorem memory_calls_lock_givesPage : ∃ s, Run memStep MemCall.Legal memoryAtBoot givesPage s ∧
    ∀ c, (memCall s c = .error .deadlock ↔ c.IsFreePages) ∧
      ((∃ s', memCall s c = .ok s' ∧ s'.CKFreeListLock = false) ↔ ¬ c.IsFreePages) := by
  obtain ⟨s, hr⟩ := givesPage_run
  refine ⟨s, hr, fun c => ?_⟩
  obtain ⟨hdeadlock, hreturns⟩ := memory_calls_lock (memory_run_quiet hr).lock c
  exact ⟨hdeadlock, hreturns givesPage hr⟩

/-- Freeing the page deadlocks. -/
theorem free_pages_deadlocks : ∃ s, Run memStep MemCall.Legal memoryAtBoot givesPage s ∧
    s.CKFreeListLock = false ∧
    memCall s (.freePages 0xc0200000#32 1#32) = .error .deadlock := by
  obtain ⟨s, hr⟩ := givesPage_run
  exact ⟨s, hr, (memory_run_quiet hr).lock, memCall_freePages (memory_run_quiet hr).lock _ _⟩

/-! ## Free bytes -/

/-- A byte of the free list. -/
def Memory.FreeByte (s : Memory) (a : Nat) : Prop :=
  ∃ l, s.CKFreeListDescriptor.Entries l ∧ s.CKFreeListDescriptor.Free l a

open KL.KLfreeListDescriptor (InBlock Took)

/-- An allocation that returned `r`: there was no block and nothing changed, or the bytes of the
block are free no longer. -/
def Memory.Takes (s s' : Memory) (r size : UADDR) : Prop :=
  r = KL.NIL ∧ s' = s ∨ r ≠ KL.NIL ∧ (∀ a, InBlock r size a → s.FreeByte a) ∧
    ∀ a, s'.FreeByte a ↔ s.FreeByte a ∧ ¬ InBlock r size a

theorem freeByte_iff (h : d.Entries l) {b : Bool} {a : Nat} :
    Memory.FreeByte ⟨d, b⟩ a ↔ d.Free l a := by
  constructor
  · rintro ⟨l', hl', hf⟩
    rwa [h.links.addr.unique hl'.links.addr]
  · exact fun hf => ⟨l, h, hf⟩

theorem Memory.Quiet.eq (h : s.Quiet) : s = ⟨s.CKFreeListDescriptor, false⟩ := by
  rw [← h.lock]

theorem Memory.Quiet.locked_takes (h : s.Quiet)
    {f : KLfreeListDescriptor → Option (KLfreeListDescriptor × UADDR)} {size : UADDR}
    (hf : ∀ l, s.CKFreeListDescriptor.Entries l → ∃ d' l' r,
      f s.CKFreeListDescriptor = some (d', r) ∧ Took s.CKFreeListDescriptor l d' l' r size) :
    ∃ s' r, s.locked f = .ok (s', r) ∧ s'.Quiet ∧ s.Takes s' r size := by
  obtain ⟨l, hl⟩ := h.list
  obtain ⟨d', l', r, hd, ht⟩ := hf l hl
  refine ⟨⟨d', false⟩, r, ?_, ⟨rfl, l', ht.entries⟩, ?_⟩
  · rw [locked_of_free f h.lock, hd]
  · rcases ht.taken with ⟨hr, hs, _⟩ | ⟨hr, _, hfree, hin⟩
    · exact .inl ⟨hr, by rw [hs, ← h.eq]⟩
    · rw [h.eq]
      refine .inr ⟨hr, fun a ha => (freeByte_iff hl).mpr (hin a ha), fun a => ?_⟩
      rw [freeByte_iff ht.entries, freeByte_iff hl]
      exact hfree a

theorem Memory.Quiet.ckMemAlloc_takes (h : s.Quiet) (size : UADDR) :
    ∃ s' r, s.ckMemAlloc size = .ok (s', r) ∧ s'.Quiet ∧ s.Takes s' r (adjustSize size) :=
  h.locked_takes fun _ hl => KLfreeListDescriptor.klFreeListMemAlloc_took hl size

theorem Memory.Quiet.ckMemAllocAlign_takes (h : s.Quiet) {size : UADDR} (k : Nat)
    (hsize : adjustSize size ≠ 0#32) :
    ∃ s' r, s.ckMemAllocAlign size k = .ok (s', r) ∧ s'.Quiet ∧ s.Takes s' r (adjustSize size) :=
  h.locked_takes fun _ hl => KLfreeListDescriptor.klFreeListMemAllocAlign_took hl k hsize

theorem Memory.Quiet.ckMemAllocRegion_takes (h : s.Quiet) {data size : UADDR}
    (hc : (MemCall.allocRegion data size).Legal s) :
    ∃ s' r, s.ckMemAllocRegion data size = .ok (s', r) ∧ s'.Quiet ∧
      s.Takes s' r (adjustSize size) :=
  h.locked_takes fun _ hl =>
    KLfreeListDescriptor.klFreeListMemAllocRegion_took hl hc.1 (hc.2 _ hl.links)

theorem Memory.Quiet.ckMemAllocPages_takes (h : s.Quiet) (nopages : UADDR) :
    ∃ s' r, s.ckMemAllocPages nopages = .ok (s', r) ∧ s'.Quiet ∧
      s.Takes s' r (adjustSize (nopages <<< PAGEBITS)) :=
  h.ckMemAllocAlign_takes PAGEBITS (adjustSize_pages nopages)

/-- A block that was taken and of which no byte was put back can be freed. -/
theorem Memory.Quiet.ckMemFree_gives (h : s.Quiet) {data size : UADDR} (hdata : data ≠ KL.NIL)
    (hsize : adjustSize size ≠ 0#32) (hbound : data.toNat + (adjustSize size).toNat ≤ KL.ADDRESSES)
    (hfree : ∀ a, InBlock data (adjustSize size) a → ¬ s.FreeByte a) :
    ∃ s', s.ckMemFree data size = .ok (s', ()) ∧ s'.Quiet ∧
      ∀ a, s'.FreeByte a ↔ s.FreeByte a ∨ InBlock data (adjustSize size) a := by
  obtain ⟨l, hl⟩ := h.list
  have hpos := (KLfreeListDescriptor.adjustSize_cases size).resolve_left hsize
  have hapart : ∀ x ∈ l, s.CKFreeListDescriptor.endOf x ≤ data.toNat ∨
      data.toNat + (adjustSize size).toNat ≤ x.toNat := by
    intro x hx
    by_contra hn
    -- an entry that is not apart from the block has a byte of it
    have hroom := hl.room x hx
    have hend : s.CKFreeListDescriptor.endOf x = x.toNat + (s.CKFreeListDescriptor.sizeOf x).toNat :=
      rfl
    exact hfree (max x.toNat data.toNat) ⟨by omega, by omega⟩
      ⟨l, hl, x, hx, by omega, by omega⟩
  obtain ⟨d', l', hd, hl', _, hgives⟩ := KLfreeListDescriptor.klFreeListMemFree_gives hl
    ⟨hdata, hsize, hbound, hapart⟩
  refine ⟨⟨d', false⟩, ?_, ⟨rfl, l', hl'⟩, fun a => ?_⟩
  · unfold Memory.ckMemFree
    rw [locked_of_free _ h.lock, hd]
    rfl
  · rw [h.eq, freeByte_iff hl', freeByte_iff hl]
    exact hgives a

/-- The bytes of a block that was free lie below the end of memory. -/
theorem Memory.FreeByte.bound (h : s.FreeByte a) : a < KL.ADDRESSES := by
  obtain ⟨l, hl, x, hx, _, hlt⟩ := h
  exact Nat.lt_of_lt_of_le hlt (hl.bound x hx)

theorem freeByte_of_takes {size : UADDR} {x : Except MemFault (Memory × UADDR)} {a : Nat}
    (hx : ∃ s₁ r, x = .ok (s₁, r) ∧ s₁.Quiet ∧ s.Takes s₁ r size)
    (hs : (x.map Prod.fst).toOption = some s') (ha : s'.FreeByte a) : s.FreeByte a := by
  obtain ⟨s₁, r, rfl, _, ht⟩ := hx
  obtain rfl : s₁ = s' := Option.some.inj hs
  rcases ht with ⟨_, rfl⟩ | ⟨_, _, hfree⟩
  · exact ha
  · exact ((hfree a).mp ha).1

/-- A legal call makes no bytes free but those it frees. -/
theorem memStep_freeByte (h : s.Quiet) (hc : c.Legal s) (hs : memStep s c = some s') {a : Nat}
    (ha : s'.FreeByte a) :
    s.FreeByte a ∨ ∃ data size, c = .free data size ∧ InBlock data (adjustSize size) a := by
  cases c with
  | alloc size => exact .inl (freeByte_of_takes (h.ckMemAlloc_takes size) hs ha)
  | allocAlign size k => exact .inl (freeByte_of_takes (h.ckMemAllocAlign_takes k hc) hs ha)
  | allocPages nopages => exact .inl (freeByte_of_takes (h.ckMemAllocPages_takes nopages) hs ha)
  | allocRegion data size => exact .inl (freeByte_of_takes (h.ckMemAllocRegion_takes hc) hs ha)
  | free data size =>
      obtain ⟨l, hl⟩ := h.list
      obtain ⟨d', l', hd, hl', _, hgives⟩ := KLfreeListDescriptor.klFreeListMemFree_gives hl
        (hc l hl.links)
      rw [memStep, memCall_of_free h.lock (c := .free data size) id, MemCall.onList, hd] at hs
      obtain rfl : (⟨d', false⟩ : Memory) = s' := Option.some.inj hs
      rw [freeByte_iff hl'] at ha
      rw [h.eq, freeByte_iff hl]
      exact ((hgives a).mp ha).imp_right fun hin => ⟨data, size, rfl, hin⟩
  | freePages data nopages =>
      -- the call does not return
      rw [memStep, memCall_freePages h.lock] at hs
      exact absurd hs (by simp [Except.toOption])

end Alliance.CK
