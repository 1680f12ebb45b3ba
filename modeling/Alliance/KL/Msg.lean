import Alliance.KL.FreeListLedger
import Alliance.Lib.Run

/-!
# Message buffers (`msg.c`)

A message channel keeps its buffers in a free list of its own, under a mutex, so that a step is
a whole call. A buffer is a header of 8 bytes with its data behind it. What is asked for is 4
bytes more than the data: `MsgBuf` is a pointer, and `sizeof` is that of the pointer; what is
given back is the size of the data.

The free list rounds all sizes up, and at least to 24 bytes. For at most 16 bytes of data this
hides both slips (`fits_iff`), and then buffers do not overlap and no memory is lost
(`msg_buffers_run`).

The headers of buffers are kept in a memory of their own here: as long as no buffer meets an
entry of the free list, neither writes to the other.
-/

namespace Alliance.KL

open Function Lib
open CK (UADDR UDATA)
open KLfreeListDescriptor

/-- The header of a buffer. -/
structure MsgBuf where
  signature : UDATA
  size : UADDR
  deriving DecidableEq, Repr

def SIGBUFFER : UDATA := 0x41427566

/-- `sizeof(MsgBuf)`, of the pointer type. -/
def SIZEOF_MSGBUF : UADDR := 4

/-- Where the data of a buffer starts. -/
def MSGBUF_DATA : Nat := 8

/-- `MsgChannel`, as far as buffers are concerned. -/
structure MsgChannel where
  bufFree : KLfreeListDescriptor
  buffers : UADDR → MsgBuf

namespace MsgChannel

/-- `KLallocMsgBuf`. The callbacks of the free list are `NIL`. -/
def klAllocMsgBuf (chan : MsgChannel) (size : UADDR) : Option (MsgChannel × UADDR) := do
  let (bufFree, newbuf) ← chan.bufFree.klFreeListMemAlloc .none (size + SIZEOF_MSGBUF)
  if newbuf = NIL then some ({ chan with bufFree }, NIL)
  else some (⟨bufFree, update chan.buffers newbuf ⟨SIGBUFFER, size⟩⟩, newbuf)

/-- `KLfreeMsgBuf`. -/
def klFreeMsgBuf (chan : MsgChannel) (buffer : UADDR) : Option (MsgChannel × Bool) :=
  if (chan.buffers buffer).signature ≠ SIGBUFFER then some (chan, false)
  else do
    let bufFree ← chan.bufFree.klFreeListMemFree .none buffer (chan.buffers buffer).size
    some ({ chan with bufFree }, true)

/-- A byte of the header or the data of a buffer. -/
def InBuffer (chan : MsgChannel) (buffer : UADDR) (a : Nat) : Prop :=
  buffer.toNat ≤ a ∧ a < buffer.toNat + MSGBUF_DATA + (chan.buffers buffer).size.toNat

/-- The bytes that an allocation of `size` bytes of data takes from the free list. -/
def takenFor (size : UADDR) : UADDR := adjustSize (size + SIZEOF_MSGBUF)

/-- No entry of the free list has room for the buffer. -/
def NoRoom (chan : MsgChannel) (size : UADDR) : Prop :=
  (chan.bufFree.searchFrom (fitAt (takenFor size)) (takenFor size)).any (·.bestentry = NIL) = true

end MsgChannel

inductive MsgOp where
  | alloc (size : UADDR)
  | free (buffer : UADDR)
  deriving DecidableEq, Repr

local instance addr_lawfulBEq : LawfulBEq UADDR := instLawfulBEq

/-- One call, with the buffers that are allocated and not freed. Others are not freed. -/
def msgStep : MsgChannel × List UADDR → MsgOp → Option (MsgChannel × List UADDR)
  | (chan, live), .alloc size => do
    let (chan, newbuf) ← chan.klAllocMsgBuf size
    some (chan, if newbuf = NIL then live else newbuf :: live)
  | (chan, live), .free buffer =>
    if buffer ∈ live then (chan.klFreeMsgBuf buffer).map fun r => (r.1, live.erase buffer) else none

/-- A buffer has at most 16 bytes of data, or there is no memory for it. -/
def MsgOp.Regular (chan : MsgChannel) : MsgOp → Prop
  | .alloc size => size.toNat ≤ 16 ∨ chan.NoRoom size
  | .free _ => True

instance (chan : MsgChannel) (size : UADDR) : Decidable (chan.NoRoom size) :=
  inferInstanceAs (Decidable (_ = true))

instance MsgOp.decidableRegular (chan : MsgChannel) :
    (op : MsgOp) → Decidable (op.Regular chan)
  | .alloc _ => inferInstanceAs (Decidable (_ ∨ _))
  | .free _ => .isTrue trivial

namespace MsgChannel

variable {chan chan' chan₀ : MsgChannel} {l l₀ : List UADDR} {live : List UADDR}
  {size buffer : UADDR} {op : MsgOp} {ops : List MsgOp}

/-! ## Sizes -/

theorem adjustSize_small (h : size.toNat < 24) : adjustSize size = HEADER :=
  if_pos (BitVec.lt_def.mpr h)

theorem takenFor_small (h : size.toNat ≤ 16) : takenFor size = HEADER := by
  refine adjustSize_small ?_
  rw [BitVec.toNat_add, show SIZEOF_MSGBUF.toNat = 4 from rfl, Nat.mod_eq_of_lt (by omega)]
  omega

/-- Rounding adds at most 3 bytes to what has room for a header. -/
theorem adjustSize_le (size : UADDR) : (adjustSize size).toNat ≤ max 24 (size.toNat + 3) := by
  unfold adjustSize
  split
  · exact Nat.le_max_left _ _
  · refine Nat.le_trans ?_ (Nat.le_max_right _ _)
    rw [BitVec.toNat_and]
    refine Nat.le_trans Nat.and_le_left ?_
    rw [BitVec.toNat_add]
    exact Nat.mod_le _ _

/-- **Exactly for 16 bytes of data and less** a buffer lies in the memory that was taken for it. -/
theorem fits_iff : MSGBUF_DATA + size.toNat ≤ (takenFor size).toNat ↔ size.toNat ≤ 16 := by
  constructor
  · intro h
    have hle := adjustSize_le (size + SIZEOF_MSGBUF)
    have hmod : (size + SIZEOF_MSGBUF).toNat ≤ size.toNat + 4 := by
      rw [BitVec.toNat_add]
      exact Nat.mod_le _ _
    unfold MSGBUF_DATA takenFor at h
    omega
  · intro h
    rw [takenFor_small h]
    unfold MSGBUF_DATA
    show 8 + size.toNat ≤ 24
    omega

/-! ## What a channel has -/

/-- The blocks of the live buffers. -/
def blocks (live : List UADDR) : List (UADDR × UADDR) := live.map fun b => (b, HEADER)

theorem mem_blocks (hb : buffer ∈ live) : (buffer, HEADER) ∈ blocks live :=
  List.mem_map_of_mem hb

theorem erase_blocks : (blocks live).erase (buffer, HEADER) = blocks (live.erase buffer) :=
  (List.map_erase (f := fun b => (b, HEADER)) (fun _ _ h => congrArg Prod.fst h) live).symm

theorem inBlock_self (b : UADDR) : InBlock b HEADER b.toNat :=
  ⟨Nat.le_refl _, Nat.lt_add_of_pos_right (by decide)⟩

/-- The free entries `l` and the blocks of the live buffers are the memory of the channel. -/
structure Holds (chan₀ : MsgChannel) (l₀ : List UADDR) (chan : MsgChannel) (live : List UADDR)
    (l : List UADDR) : Prop where
  ledger : Ledger (chan₀.bufFree.Free l₀) chan.bufFree l (blocks live)
  header : ∀ b ∈ live, (chan.buffers b).signature = SIGBUFFER ∧ (chan.buffers b).size.toNat ≤ 16
  count : chan.bufFree.FreeMemory + HEADER * .ofNat 32 live.length = chan₀.bufFree.FreeMemory

theorem Holds.start (h : chan₀.bufFree.Entries l₀) : Holds chan₀ l₀ chan₀ [] l₀ where
  ledger := .start h
  header := nofun
  count := by
    rw [List.length_nil, show BitVec.ofNat 32 0 = 0#32 from rfl, BitVec.mul_zero, BitVec.add_zero]

/-- **An allocation** of a small buffer. -/
theorem Holds.alloc (h : Holds chan₀ l₀ chan live l) (hsize : size.toNat ≤ 16)
    (hs : chan.klAllocMsgBuf size = some (chan', buffer)) :
    ∃ l', Holds chan₀ l₀ chan' (if buffer = NIL then live else buffer :: live) l' := by
  obtain ⟨bufFree, l', r, htook, ht⟩ :=
    klFreeListMemAlloc_took h.ledger.entries (size + SIZEOF_MSGBUF)
  rw [show adjustSize (size + SIZEOF_MSGBUF) = HEADER from takenFor_small hsize] at ht
  have hledger := h.ledger.took (by decide) ht
  unfold klAllocMsgBuf at hs
  rw [htook, Option.bind_eq_bind, Option.bind_some] at hs
  dsimp only at hs
  obtain ⟨rfl, rfl, rfl⟩ | ⟨hr, hmem, -⟩ := ht.taken
  · rw [if_pos rfl] at hs
    obtain ⟨rfl, rfl⟩ := Prod.mk.inj (Option.some.inj hs)
    exact ⟨l', by rwa [if_pos rfl]⟩
  · rw [if_neg hr] at hs hledger
    obtain ⟨rfl, rfl⟩ := Prod.mk.inj (Option.some.inj hs)
    rw [if_neg hr]
    -- the new buffer is none of the others
    have hne : ∀ b ∈ live, b ≠ r := by
      rintro b hb rfl
      exact (List.pairwise_cons.mp hledger.apart).1 _ (mem_blocks hb) _ (inBlock_self b)
        (inBlock_self b)
    refine ⟨l', hledger, List.forall_mem_cons.mpr ⟨?_, fun b hb => ?_⟩, ?_⟩
    · dsimp only
      rw [update_self]
      exact ⟨rfl, hsize⟩
    · dsimp only
      rw [update_of_ne (hne b hb)]
      exact h.header b hb
    · show bufFree.FreeMemory + HEADER * .ofNat 32 (live.length + 1) = _
      rw [hmem, ← h.count, BitVec.ofNat_add, BitVec.mul_add, BitVec.mul_one]
      generalize HEADER * BitVec.ofNat 32 live.length = n
      bv_omega

/-- **A buffer that is freed** gives back the block that was taken for it. -/
theorem Holds.free (h : Holds chan₀ l₀ chan live l) (hb : buffer ∈ live) :
    ∃ chan' l', chan.klFreeMsgBuf buffer = some (chan', true) ∧
      Holds chan₀ l₀ chan' (live.erase buffer) l' ∧
      ∀ a, chan'.bufFree.Free l' a ↔
        chan.bufFree.Free l a ∨ InBlock buffer (takenFor (chan.buffers buffer).size) a := by
  obtain ⟨hsig, hsize⟩ := h.header buffer hb
  have hsize' : adjustSize (chan.buffers buffer).size = HEADER := adjustSize_small (by omega)
  obtain ⟨bufFree, l', hs, hentries, hmem, hfree⟩ := klFreeListMemFree_gives h.ledger.entries
    (hsize' ▸ h.ledger.freeable (mem_blocks hb))
  rw [hsize'] at hmem hfree
  have hledger := h.ledger.gives (mem_blocks hb) hentries hfree
  rw [erase_blocks] at hledger
  refine ⟨{ chan with bufFree }, l', ?_, ⟨hledger,
    fun b hb => h.header b (List.mem_of_mem_erase hb), ?_⟩, ?_⟩
  · unfold klFreeMsgBuf
    rw [if_neg (not_not_intro hsig), hs]
    rfl
  · have hlen : live.length = (live.erase buffer).length + 1 :=
      (List.perm_cons_erase hb).length_eq
    show bufFree.FreeMemory + HEADER * .ofNat 32 (live.erase buffer).length = _
    rw [hmem, ← h.count, hlen, BitVec.ofNat_add, BitVec.mul_add, BitVec.mul_one]
    generalize HEADER * BitVec.ofNat 32 (live.erase buffer).length = n
    bv_omega
  · rw [takenFor_small hsize]
    exact hfree

/-- Where there is no room, nothing happens. -/
theorem klAllocMsgBuf_noRoom (h : chan.NoRoom size) :
    chan.klAllocMsgBuf size = some (chan, NIL) := by
  obtain ⟨best, hbest, hnil⟩ := (Option.any_eq_true _ _).mp h
  have hnone : chan.bufFree.klFreeListMemAlloc .none (size + SIZEOF_MSGBUF) =
      some (chan.bufFree, NIL) := by
    show allocWith .none (fitAt (takenFor size)) chan.bufFree (takenFor size) = _
    unfold allocWith
    rw [hbest, Option.bind_eq_bind, Option.bind_some,
      if_neg (not_not_intro (of_decide_eq_true hnil))]
    rfl
  unfold klAllocMsgBuf
  rw [hnone]
  rfl

theorem msgStep_holds {live' : List UADDR} (h : Holds chan₀ l₀ chan live l) (hop : op.Regular chan)
    (hs : msgStep (chan, live) op = some (chan', live')) : ∃ l', Holds chan₀ l₀ chan' live' l' := by
  cases op with
  | alloc size =>
      obtain ⟨⟨chan₁, newbuf⟩, hcall, hs⟩ := Option.bind_eq_some_iff.mp hs
      obtain ⟨rfl, rfl⟩ := Prod.mk.inj (Option.some.inj hs)
      obtain hsize | hroom := hop
      · exact h.alloc hsize hcall
      · obtain ⟨rfl, rfl⟩ :=
          Prod.mk.inj (Option.some.inj (hcall.symm.trans (klAllocMsgBuf_noRoom hroom)))
        exact ⟨l, by rwa [if_pos rfl]⟩
  | free buffer =>
      dsimp only [msgStep] at hs
      split at hs
      · next hb =>
        obtain ⟨chan₁, l', hcall, h', -⟩ := h.free hb
        rw [hcall] at hs
        obtain ⟨rfl, rfl⟩ := Prod.mk.inj (Option.some.inj hs)
        exact ⟨l', h'⟩
      · exact absurd hs nofun

/-- A small buffer is no longer than its block. -/
theorem Holds.inBlock {a : Nat} (h : Holds chan₀ l₀ chan live l) (hb : buffer ∈ live)
    (ha : chan.InBuffer buffer a) : InBlock buffer HEADER a := by
  have hsize := (h.header buffer hb).2
  unfold InBuffer MSGBUF_DATA at ha
  exact ⟨ha.1, show a < buffer.toNat + 24 by omega⟩

end MsgChannel

open MsgChannel

variable {chan chan₀ : MsgChannel} {l₀ live : List UADDR} {ops : List MsgOp}

/-- **Buffers do not overlap, and no memory is lost.** In a run that allocates no buffer for more
than 16 bytes, except where there is no memory for it, each buffer is apart from the others and
from the free entries; to free it gives back what was taken for it; and where all are freed, the
free memory is that of the start. -/
theorem msg_buffers_run (h₀ : chan₀.bufFree.Entries l₀)
    (hr : Run msgStep (fun p op => op.Regular p.1) (chan₀, []) ops (chan, live)) :
    ∃ l, chan.bufFree.Entries l ∧
      (∀ b ∈ live, ∀ a, chan.InBuffer b a →
        ¬ chan.bufFree.Free l a ∧ ∀ b' ∈ live.erase b, ¬ chan.InBuffer b' a) ∧
      (∀ b ∈ live, ∃ chan' l', chan.klFreeMsgBuf b = some (chan', true) ∧
        chan'.bufFree.Entries l' ∧ ∀ a, chan'.bufFree.Free l' a ↔
          chan.bufFree.Free l a ∨ InBlock b (takenFor (chan.buffers b).size) a) ∧
      (live = [] → chan.bufFree.FreeMemory = chan₀.bufFree.FreeMemory ∧
        ∀ a, chan.bufFree.Free l a ↔ chan₀.bufFree.Free l₀ a) := by
  obtain ⟨l, h⟩ : ∃ l, Holds chan₀ l₀ chan live l := by
    refine hr.invariant (I := fun p => ∃ l, Holds chan₀ l₀ p.1 p.2 l) ?_ ⟨l₀, .start h₀⟩
    rintro ⟨chan, live⟩ ⟨chan', live'⟩ op ⟨l, h⟩ hop hs
    exact msgStep_holds h hop hs
  refine ⟨l, h.ledger.entries, fun b hb a ha => ⟨?_, fun b' hb' ha' => ?_⟩, fun b hb => ?_, ?_⟩
  · exact (h.ledger.taken _ (mem_blocks hb) a (h.inBlock hb ha)).2
  · have hother := (h.ledger.apart_erase (mem_blocks hb)).1
    rw [erase_blocks] at hother
    exact hother _ (mem_blocks hb') a (h.inBlock hb ha)
      (h.inBlock (List.mem_of_mem_erase hb') ha')
  · obtain ⟨chan', l', hs, h', hfree⟩ := h.free hb
    exact ⟨chan', l', hs, h'.ledger.entries, hfree⟩
  · rintro rfl
    refine ⟨?_, fun a => by simp [h.ledger.conserved, blocks]⟩
    rw [← h.count, List.length_nil, show BitVec.ofNat 32 0 = 0#32 from rfl, BitVec.mul_zero,
      BitVec.add_zero]

/-- A channel of 256 bytes. -/
def channelWith : MsgChannel where
  bufFree := (freeListAtBoot.klFreeListMemFree .none 0x1000#32 0x100#32).getD freeListAtBoot
  buffers _ := ⟨0#32, 0#32⟩

theorem channelWith_entries : ∃ l, channelWith.bufFree.Entries l ∧
    ∀ a, channelWith.bufFree.Free l a ↔ InBlock 0x1000#32 0x100#32 a := by
  have hround : adjustSize 0x100#32 = 0x100#32 := by decide
  have hblock : freeListAtBoot.Freeable [] 0x1000#32 (adjustSize 0x100#32) := by
    refine freeListAtBoot_entries.freeable (by decide) (by decide) fun a ha => ⟨?_, by simp [Free]⟩
    rw [hround] at ha
    unfold InBlock at ha
    unfold ADDRESSES
    have : (0x1000#32).toNat + (0x100#32).toNat = 0x1100 := rfl
    omega
  obtain ⟨s, l, hs, hl, -, hfree⟩ := klFreeListMemFree_gives freeListAtBoot_entries hblock
  rw [hround] at hfree
  have hchan : channelWith.bufFree = s := by
    rw [channelWith, hs]
    rfl
  exact ⟨l, hchan ▸ hl, fun a => by rw [hchan, hfree]; simp [Free]⟩

theorem msg_buffers_run_two : ∃ chan l₀ l,
    Run msgStep (fun p op => op.Regular p.1) (channelWith, [])
    [.alloc 16#32, .alloc 4#32, .free 0x1000#32, .free 0x1018#32] (chan, []) ∧
    chan.bufFree.FreeMemory = 0x100#32 ∧ channelWith.bufFree.Entries l₀ ∧ chan.bufFree.Entries l ∧
    ∀ a, chan.bufFree.Free l a ↔ channelWith.bufFree.Free l₀ a := by
  obtain ⟨l₀, h₀, -⟩ := channelWith_entries
  obtain ⟨⟨chan, live⟩, hr, hlive⟩ := Run.of_exec_any
    (show (exec msgStep (fun p op => op.Regular p.1) (channelWith, [])
      [.alloc 16#32, .alloc 4#32, .free 0x1000#32, .free 0x1018#32]).any
        (fun p => decide (p.2 = [])) = true by decide +kernel)
  obtain rfl : live = [] := of_decide_eq_true hlive
  obtain ⟨l, hl, -, -, hback⟩ := msg_buffers_run h₀ hr
  exact ⟨chan, l₀, l, hr, (hback rfl).1.trans (by decide +kernel), h₀, hl, (hback rfl).2⟩

/-- A buffer for 17 bytes of data meets the free entry behind it, and one for 24 bytes is given
back without its last 4 bytes. -/
theorem msg_buffers_overlap_and_leak :
    (∃ chan l, Run msgStep (fun _ _ => True) (channelWith, []) [.alloc 17#32] (chan, [0x1000#32]) ∧
      chan.bufFree.Entries l ∧ chan.InBuffer 0x1000#32 0x1018 ∧ chan.bufFree.Free l 0x1018) ∧
    ∃ chan, Run msgStep (fun _ _ => True) (channelWith, []) [.alloc 24#32, .free 0x1000#32]
      (chan, []) ∧
      channelWith.bufFree.FreeMemory = 0x100#32 ∧ chan.bufFree.FreeMemory = 0xfc#32 := by
  constructor
  · obtain ⟨l₀, h₀, hfree₀⟩ := channelWith_entries
    obtain ⟨bufFree, l, r, htook, hentries, htaken⟩ :=
      klFreeListMemAlloc_took h₀ (17#32 + SIZEOF_MSGBUF)
    have hr : r = 0x1000#32 := by
      have hs : (channelWith.bufFree.klFreeListMemAlloc .none (17#32 + SIZEOF_MSGBUF)).any
          (·.2 = 0x1000#32) = true := by decide +kernel
      rw [htook] at hs
      exact of_decide_eq_true hs
    subst hr
    obtain ⟨hnil, -⟩ | ⟨-, -, hfree, -⟩ := htaken
    · exact absurd hnil (by decide)
    have hcall : channelWith.klAllocMsgBuf 17#32 =
        some (⟨bufFree, update channelWith.buffers 0x1000#32 ⟨SIGBUFFER, 17#32⟩⟩, 0x1000#32) := by
      unfold klAllocMsgBuf
      rw [htook]
      rfl
    refine ⟨_, l, .cons trivial (congrArg (· >>= _) hcall) (.nil _), hentries, ?_, ?_⟩
    · unfold InBuffer
      dsimp only
      rw [update_self]
      decide
    · rw [hfree, hfree₀]
      unfold InBlock
      decide
  · obtain ⟨⟨chan, live⟩, hr, hp⟩ := Run.of_exec_any
      (show (exec msgStep (fun _ _ => True) (channelWith, []) [.alloc 24#32, .free 0x1000#32]).any
        (fun p => decide (p.2 = [] ∧ p.1.bufFree.FreeMemory = 0xfc#32)) = true by decide +kernel)
    obtain ⟨rfl, hmem⟩ := of_decide_eq_true hp
    exact ⟨chan, hr, by decide +kernel, hmem⟩

end Alliance.KL
