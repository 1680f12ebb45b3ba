import Alliance.CK.Memory
import Alliance.CK.Paging
import Alliance.KL.FreeListRegion

/-!
# What boot reserves

`CKpageMarkHardwareDependent` gives the memory below and above the kernel to the free list, and
then takes out of it what must not be given out: the area of the BIOS and the modules that were
loaded. It does not look at what the reservations return. One that fails leaves its bytes free,
and the first one often does: the memory above the kernel comes to stand before the memory that
the area lies in, in one size list, and there `KLfreeListMemAllocRegion` stops.

Where each reservation takes what it is for (`Reserves`), nothing of it is in a block that any
later call returns (`boot_reservations_run`).
-/

namespace Alliance.CK

open Lib
open KL (KLfreeListDescriptor adjustSize)
open KL.KLfreeListDescriptor (InBlock Ledger Took roundedSize)

/-! ## What boot knows -/

/-- What is read of a `bootmodule`. -/
structure BootModule where
  physstart : UADDR
  size : UADDR
  deriving DecidableEq, Repr

/-- What is read of `sysinf`, and the addresses of `_start` and `_end`. `modules` is the list
along `next`; its records are below `lowMemTop`, so freeing does not touch them. -/
structure BootInfo where
  lowMemTop : UADDR
  totalMem : UADDR
  start : UADDR
  kernelEnd : UADDR
  modules : List BootModule

namespace BootModule

/-- The first page of a module. -/
def loc (m : BootModule) : UADDR := linear m.physstart &&& -0x1000#32

/-- The size of a module in whole pages. -/
def pagesSize (m : BootModule) : UADDR :=
  if m.size &&& 0xfff#32 ≠ 0#32 then (m.size &&& -0x1000#32) + 0x1000#32 else m.size

end BootModule

namespace Memory

/-- A reservation: what the call returns is not looked at. -/
def reserve (s : Memory) (data size : UADDR) : Except MemFault Memory :=
  (s.ckMemAllocRegion data size).map Prod.fst

/-- The memory below and above the kernel. -/
def ckFreeAtBoot (s : Memory) (inf : BootInfo) : Except MemFault Memory := do
  let (s, _) ← s.ckMemFree (linear inf.lowMemTop) (inf.start - linear inf.lowMemTop)
  let (s, _) ← s.ckMemFree inf.kernelEnd (linear inf.totalMem - inf.kernelEnd)
  .ok s

/-- `CKpageMarkHardwareDependent`. -/
def ckPageMarkHardwareDependent (s : Memory) (inf : BootInfo) : Except MemFault Memory := do
  let s ← s.ckFreeAtBoot inf
  let s ← s.reserve (linear 0xa0000#32) 0x60000#32
  inf.modules.foldlM (fun s m => s.reserve m.loc m.pagesSize) s

end Memory

/-! ## What is reserved -/

/-- A byte of the BIOS area. -/
def BiosByte (a : Nat) : Prop := 0xc00a0000 ≤ a ∧ a < 0xc0100000

/-- A byte of a page that the module has a byte of. -/
def BootModule.Byte (m : BootModule) (a : Nat) : Prop :=
  ∃ c, InBlock (linear m.physstart) m.size c ∧ c / 4096 = a / 4096

/-- A byte that must not be given out. -/
def BootInfo.Protected (inf : BootInfo) (a : Nat) : Prop :=
  BiosByte a ∨ ∃ m ∈ inf.modules, m.Byte a

/-- Memory lies below the kernel, the kernel has room for a header, and memory ends in the
address space. -/
structure BootInfo.Ordered (inf : BootInfo) : Prop where
  low : 0xc0000000 + inf.lowMemTop.toNat ≤ inf.start.toNat
  kernel : inf.start.toNat + 24 ≤ inf.kernelEnd.toNat
  high : inf.kernelEnd.toNat ≤ 0xc0000000 + inf.totalMem.toNat
  top : 0xc0000000 + inf.totalMem.toNat + 24 ≤ KL.ADDRESSES

/-- A region that is asked for, and the bytes that it is asked for. -/
structure Reservation where
  data : UADDR
  size : UADDR
  bytes : Nat → Prop

/-- The reservations, in their order. -/
def BootInfo.reservations (inf : BootInfo) : List Reservation :=
  ⟨linear 0xa0000#32, 0x60000#32, BiosByte⟩ ::
    inf.modules.map fun m => ⟨m.loc, m.pagesSize, m.Byte⟩

/-- The walk for the region is not misled, and if some of the bytes are free, they are in the
region and it can be taken out of an entry. -/
def Reservation.Fits (s : Memory) (r : Reservation) : Prop :=
  ∀ l, s.CKFreeListDescriptor.Entries l →
    s.CKFreeListDescriptor.RegionServed l r.data r.size ∧
    ∀ a, r.bytes a → s.CKFreeListDescriptor.Free l a →
      InBlock r.data (adjustSize r.size) a ∧
      ∃ e ∈ l, s.CKFreeListDescriptor.RegionFits e r.data (roundedSize r.size)

/-- Each reservation fits in the state that it is made in. -/
def EachFits (s : Memory) : List Reservation → Prop
  | [] => True
  | r :: rs => r.Fits s ∧ ∀ s', s.reserve r.data r.size = .ok s' → EachFits s' rs

/-- After the memory is freed, each reservation fits. -/
def BootInfo.Reserves (inf : BootInfo) : Prop :=
  ∀ s, memoryAtBoot.ckFreeAtBoot inf = .ok s → EachFits s inf.reservations

/-! ## Later calls -/

/-- The memory, and the blocks that were taken and not given back, with rounded sizes. -/
structure MemoryUse where
  mem : Memory
  live : List (UADDR × UADDR)

/-- An allocation of this size. -/
def MemoryUse.alloc (u : MemoryUse) (size : UADDR) (out : Except MemFault (Memory × UADDR)) :
    Option MemoryUse :=
  out.toOption.map fun out =>
    ⟨out.1, if out.2 = KL.NIL then u.live else (out.2, adjustSize size) :: u.live⟩

/-- A call of `CKmemFree` or `CKmemFreePages` with a block that was taken. -/
def MemoryUse.free (u : MemoryUse) (data size : UADDR) (out : Except MemFault (Memory × Unit)) :
    Option MemoryUse :=
  if (data, adjustSize size) ∈ u.live then
    out.toOption.map fun out => ⟨out.1, u.live.erase (data, adjustSize size)⟩
  else none

def useStep (u : MemoryUse) : MemCall → Option MemoryUse
  | .alloc size => u.alloc size (u.mem.ckMemAlloc size)
  | .allocAlign size alignment => u.alloc size (u.mem.ckMemAllocAlign size alignment)
  | .allocPages nopages => u.alloc (nopages <<< PAGEBITS) (u.mem.ckMemAllocPages nopages)
  | .allocRegion data size => u.alloc size (u.mem.ckMemAllocRegion data size)
  | .free data size => u.free data size (u.mem.ckMemFree data size)
  | .freePages data nopages =>
    u.free data (nopages <<< PAGEBITS) (u.mem.ckMemFreePages data nopages)

/-- A size can be rounded up, and a region leaves nothing or a header's room behind it. -/
def MemCall.Sized (u : MemoryUse) : MemCall → Prop
  | .alloc size | .allocAlign size _ => adjustSize size ≠ 0#32
  | .allocRegion data size => adjustSize size ≠ 0#32 ∧
      ∀ l, u.mem.CKFreeListDescriptor.Links l →
        u.mem.CKFreeListDescriptor.LeavesRoom l data (adjustSize size)
  | _ => True

namespace MemoryUse

variable {u u' : MemoryUse} {had : Nat → Prop} {l : List UADDR} {data size : UADDR} {c : MemCall}

/-- The bytes of `had` are free or in the blocks. -/
def Holds (had : Nat → Prop) (u : MemoryUse) : Prop :=
  u.mem.CKFreeListLock = false ∧ ∃ l, Ledger had u.mem.CKFreeListDescriptor l u.live

theorem Holds.alloc (h : u.Holds had) (hsize : adjustSize size ≠ 0#32)
    {f : KLfreeListDescriptor → Option (KLfreeListDescriptor × UADDR)}
    (hf : ∀ l, u.mem.CKFreeListDescriptor.Entries l → ∃ d' l' r,
      f u.mem.CKFreeListDescriptor = some (d', r) ∧
        Took u.mem.CKFreeListDescriptor l d' l' r (adjustSize size))
    (hs : u.alloc size (u.mem.locked f) = some u') : u'.Holds had := by
  obtain ⟨hlock, l, hl⟩ := h
  obtain ⟨d', l', r, hd, ht⟩ := hf l hl.entries
  rw [MemoryUse.alloc, locked_of_free f hlock, hd] at hs
  obtain rfl := Option.some.inj hs
  exact ⟨rfl, l', hl.took hsize ht⟩

theorem Holds.free (h : u.Holds had)
    (hs : u.free data size (u.mem.ckMemFree data size) = some u') : u'.Holds had := by
  obtain ⟨hlock, l, hl⟩ := h
  unfold MemoryUse.free at hs
  split at hs
  · next hb =>
    obtain ⟨d', l', hd, hl', -, hfree⟩ :=
      KLfreeListDescriptor.klFreeListMemFree_gives hl.entries (hl.freeable hb)
    rw [Memory.ckMemFree, locked_of_free _ hlock, hd] at hs
    obtain rfl := Option.some.inj hs
    exact ⟨rfl, l', hl.gives hb hl' hfree⟩
  · cases hs

/-- **A later call** moves bytes between the free list and the blocks. -/
theorem Holds.step (h : u.Holds had) (hc : c.Sized u) (hs : useStep u c = some u') :
    u'.Holds had := by
  cases c with
  | alloc size =>
      exact h.alloc hc (fun l hl => KLfreeListDescriptor.klFreeListMemAlloc_took hl size) hs
  | allocAlign size alignment =>
      exact h.alloc hc
        (fun l hl => KLfreeListDescriptor.klFreeListMemAllocAlign_took hl alignment hc) hs
  | allocPages nopages =>
      have hsize := adjustSize_pages nopages
      have htook := fun l hl => KLfreeListDescriptor.klFreeListMemAllocAlign_took
        (s := u.mem.CKFreeListDescriptor) (l := l) hl PAGEBITS hsize
      generalize hn : nopages <<< PAGEBITS = size at hsize htook
      rw [useStep, Memory.ckMemAllocPages, hn] at hs
      exact h.alloc hsize htook hs
  | allocRegion data size =>
      exact h.alloc hc.1 (fun l hl =>
        KLfreeListDescriptor.klFreeListMemAllocRegion_took hl hc.1 (hc.2 l hl.links)) hs
  | free data size => exact h.free hs
  | freePages data nopages =>
      -- the call waits for the lock that it holds
      have hcall := memCall_freePages h.1 data nopages
      cases hout : u.mem.ckMemFreePages data nopages with
      | ok out =>
          rw [memCall, hout] at hcall
          cases hcall
      | error e =>
          rw [useStep, hout, MemoryUse.free] at hs
          split at hs
          · cases hs
          · cases hs

end MemoryUse

/-! ## Boot -/

variable {s : Memory} {l : List UADDR} {r : Reservation} {rs : List Reservation} {inf : BootInfo}

/-- **A reservation that fits** leaves none of its bytes free. -/
theorem Reservation.Fits.reserves (hlock : s.CKFreeListLock = false)
    (hl : s.CKFreeListDescriptor.Entries l) (hfits : r.Fits s) :
    ∃ d l', s.reserve r.data r.size = .ok ⟨d, false⟩ ∧ d.Entries l' ∧
      (∀ a, d.Free l' a → s.CKFreeListDescriptor.Free l a) ∧ ∀ a, r.bytes a → ¬ d.Free l' a := by
  obtain ⟨hserved, hbytes⟩ := hfits l hl
  obtain ⟨d, l', x, hcall, htook, hx, htaken⟩ :=
    (KLfreeListDescriptor.klFreeListMemAllocRegion_iff hl r.data r.size).mpr hserved
  have hs : s.reserve r.data r.size = .ok ⟨d, false⟩ := by
    rw [Memory.reserve, Memory.ckMemAllocRegion, locked_of_free _ hlock, hcall]
    rfl
  refine ⟨d, l', hs, htook.entries, ?_⟩
  rcases htook.taken with ⟨hnil, rfl, rfl⟩ | ⟨hne, -, hfree, -⟩
  · -- nothing was taken, so none of the bytes was free
    refine ⟨fun a ha => ha, fun a ha hf => htaken.mpr ?_ hnil⟩
    exact (hbytes a ha hf).2
  · refine ⟨fun a ha => ((hfree a).mp ha).1, fun a ha hf => ?_⟩
    obtain ⟨hf, hout⟩ := (hfree a).mp hf
    rw [hx.resolve_left hne] at hout
    exact hout (hbytes a ha hf).1

/-- The reservations one after the other. -/
theorem EachFits.reserves (hlock : s.CKFreeListLock = false)
    (hl : s.CKFreeListDescriptor.Entries l) (hfits : EachFits s rs) :
    ∃ s' l', rs.foldlM (fun s r => s.reserve r.data r.size) s = .ok s' ∧
      s'.CKFreeListLock = false ∧ s'.CKFreeListDescriptor.Entries l' ∧
      (∀ a, s'.CKFreeListDescriptor.Free l' a → s.CKFreeListDescriptor.Free l a) ∧
      ∀ r ∈ rs, ∀ a, r.bytes a → ¬ s'.CKFreeListDescriptor.Free l' a := by
  induction rs generalizing s l with
  | nil => exact ⟨s, l, rfl, hlock, hl, fun _ ha => ha, nofun⟩
  | cons r rs ih =>
      obtain ⟨hfirst, hrest⟩ := hfits
      obtain ⟨d, l₁, hs₁, hl₁, hless₁, hout₁⟩ := hfirst.reserves hlock hl
      obtain ⟨s', l', hs', hlock', hl', hless', hout'⟩ := ih rfl hl₁ (hrest _ hs₁)
      refine ⟨s', l', ?_, hlock', hl', fun a ha => hless₁ a (hless' a ha),
        List.forall_mem_cons.mpr ⟨fun a ha hf => hout₁ a ha (hless' a hf), hout'⟩⟩
      rw [List.foldlM_cons, hs₁]
      exact hs'

theorem linear_of_le {x y : UADDR} (h : 0xc0000000 + x.toNat ≤ y.toNat) :
    (linear x).toNat = 0xc0000000 + x.toNat := by
  have := y.isLt
  rw [linear, BitVec.toNat_add]
  show (x.toNat + 0xc0000000) % 2 ^ 32 = _
  omega

/-- A size that is rounded up is at most 3 bytes longer, or has room for a header. -/
theorem adjustSize_le (size : UADDR) (h : size.toNat + 24 ≤ KL.ADDRESSES) :
    adjustSize size ≠ 0#32 ∧ (adjustSize size).toNat ≤ max 24 (size.toNat + 3) := by
  have hne : adjustSize size ≠ 0#32 := fun h0 => by
    have := (KLfreeListDescriptor.adjustSize_eq_zero size).mp h0
    omega
  refine ⟨hne, ?_⟩
  rw [KLfreeListDescriptor.adjustSize_rounded hne]
  unfold roundedSize
  split <;> omega

theorem memoryAtBoot_quiet : memoryAtBoot.Quiet :=
  ⟨rfl, [], KLfreeListDescriptor.freeListAtBoot_entries⟩

theorem not_freeByte_boot (a : Nat) : ¬ memoryAtBoot.FreeByte a := by
  rintro ⟨l, hl, hf⟩
  obtain rfl := hl.links.addr.unique KLfreeListDescriptor.freeListAtBoot_entries.links.addr
  obtain ⟨x, hx, -⟩ := hf
  exact absurd hx nofun

/-- Two blocks that are freed at the start, one above the other. -/
theorem free_two {data₁ size₁ data₂ size₂ : UADDR} (hnil₁ : data₁ ≠ KL.NIL)
    (hnil₂ : data₂ ≠ KL.NIL) (hne₁ : adjustSize size₁ ≠ 0#32) (hne₂ : adjustSize size₂ ≠ 0#32)
    (hle : data₁.toNat + (adjustSize size₁).toNat ≤ data₂.toNat)
    (hbound : data₂.toNat + (adjustSize size₂).toNat ≤ KL.ADDRESSES) :
    ∃ s₁ s₂, memoryAtBoot.ckMemFree data₁ size₁ = .ok (s₁, ()) ∧
      s₁.ckMemFree data₂ size₂ = .ok (s₂, ()) ∧ s₂.Quiet := by
  obtain ⟨s₁, hs₁, hq₁, hfree₁⟩ := memoryAtBoot_quiet.ckMemFree_gives hnil₁ hne₁ (by omega)
    fun a _ => not_freeByte_boot a
  have hapart : ∀ a, InBlock data₂ (adjustSize size₂) a → ¬ s₁.FreeByte a := by
    intro a ha hf
    rcases (hfree₁ a).mp hf with hf | hin
    · exact not_freeByte_boot a hf
    · unfold InBlock at ha hin
      omega
  obtain ⟨s₂, hs₂, hq₂, -⟩ := hq₁.ckMemFree_gives hnil₂ hne₂ hbound hapart
  exact ⟨s₁, s₂, hs₁, hs₂, hq₂⟩

/-- The block that a difference of two addresses is rounded up to. -/
theorem toNat_adjustSize_sub {x y : UADDR} (hle : x.toNat ≤ y.toNat)
    (hbound : y.toNat + 24 ≤ KL.ADDRESSES) : adjustSize (y - x) ≠ 0#32 ∧
      x.toNat + (adjustSize (y - x)).toNat ≤ y.toNat + 24 := by
  have hsub : (y - x).toNat = y.toNat - x.toNat :=
    BitVec.toNat_sub_of_le (BitVec.le_def.mpr hle)
  obtain ⟨hne, hround⟩ := adjustSize_le (y - x) (by omega)
  rw [hsub] at hround
  refine ⟨hne, ?_⟩
  generalize (adjustSize (y - x)).toNat = n at hround
  omega

/-- **The memory that boot frees** makes a free list. -/
theorem ckFreeAtBoot_quiet (h : inf.Ordered) :
    ∃ s, memoryAtBoot.ckFreeAtBoot inf = .ok s ∧ s.Quiet := by
  obtain ⟨hlow, hkernel, hhigh, htop⟩ := h
  have hstart := linear_of_le hlow
  have hend : (linear inf.totalMem).toNat = 0xc0000000 + inf.totalMem.toNat := by
    unfold KL.ADDRESSES at htop
    rw [linear, BitVec.toNat_add]
    show (inf.totalMem.toNat + 0xc0000000) % 2 ^ 32 = _
    omega
  rw [← hstart] at hlow
  rw [← hend] at hhigh htop
  have hnil : ∀ x : UADDR, 0xc0000000 ≤ x.toNat → x ≠ KL.NIL := by
    intro x hx h0
    rw [h0] at hx
    exact absurd hx (by decide)
  obtain ⟨hne₁, hle₁⟩ := toNat_adjustSize_sub hlow (by omega)
  obtain ⟨hne₂, hle₂⟩ := toNat_adjustSize_sub hhigh htop
  obtain ⟨s₁, s₂, hs₁, hs₂, hq⟩ := free_two (hnil _ (hstart ▸ Nat.le_add_right ..))
    (hnil _ (by omega)) hne₁ hne₂ (hle₁.trans hkernel) (hle₂.trans htop)
  refine ⟨s₂, ?_, hq⟩
  rw [Memory.ckFreeAtBoot, hs₁]
  show (s₁.ckMemFree _ _).bind _ = _
  rw [hs₂]
  rfl

/-- **Boot reservations hold** where each one fits: no later call returns a block with a byte of
the BIOS area or of a page of a module. -/
theorem boot_reservations_run (h : inf.Ordered) (hres : inf.Reserves) :
    ∃ s, memoryAtBoot.ckPageMarkHardwareDependent inf = .ok s ∧
      ∀ {calls u}, Run useStep (fun u c => c.Sized u) ⟨s, []⟩ calls u →
        ∀ b ∈ u.live, ∀ a, InBlock b.1 b.2 a → ¬ inf.Protected a := by
  obtain ⟨s₀, hs₀, hlock₀, l, hl⟩ := ckFreeAtBoot_quiet h
  obtain ⟨s, l', hs, hlock, hl', -, hout⟩ := (hres _ hs₀).reserves hlock₀ hl
  refine ⟨s, ?_, fun {calls u} hr b hb a ha hprotected => ?_⟩
  · simp only [BootInfo.reservations, List.foldlM_cons, List.foldlM_map] at hs
    rw [Memory.ckPageMarkHardwareDependent, hs₀]
    exact hs
  -- what is taken later was free after boot
  obtain ⟨-, l₁, hledger⟩ := hr.invariant
    (I := MemoryUse.Holds (s.CKFreeListDescriptor.Free l')) (fun h hc hs => h.step hc hs)
    ⟨hlock, l', Ledger.start hl'⟩
  have hfree : s.CKFreeListDescriptor.Free l' a := (hledger.conserved a).mpr (.inr ⟨b, hb, ha⟩)
  rcases hprotected with hbios | ⟨m, hm, hbyte⟩
  · exact hout _ (.head _) a hbios hfree
  · exact hout _ (.tail _ (List.mem_map_of_mem hm)) a hbyte hfree

/-! ## Two machines -/

/-- **A region in an entry** that the walk comes to. -/
theorem Reservation.fits_of_entry {e : UADDR} (hl : s.CKFreeListDescriptor.Entries l) (he : e ∈ l)
    (hsize : adjustSize r.size ≠ 0#32)
    (hfit : s.CKFreeListDescriptor.RegionFits e r.data (roundedSize r.size))
    (hreached : s.CKFreeListDescriptor.Reached r.data e)
    (hbytes : ∀ a, r.bytes a → InBlock r.data (adjustSize r.size) a) : r.Fits s := by
  intro l' hl'
  obtain rfl := hl'.links.addr.unique hl.links.addr
  refine ⟨?_, fun a ha _ => ⟨hbytes a ha, e, he, hfit⟩⟩
  have hpos : 0 < roundedSize r.size :=
    Nat.lt_of_lt_of_le (by decide) (KLfreeListDescriptor.roundedSize_bounds r.size).2.1
  unfold KLfreeListDescriptor.RegionServed
  rw [if_neg hsize]
  intro x hx hheld
  obtain rfl := hfit.1.unique_entry hl he hx hpos hheld.le hheld.inside
  exact iff_of_true hfit.2 hreached

/-- 16 MB, with the kernel from 0x150000 to 0x180000. -/
def sixteenMB : BootInfo := ⟨0xb014#32, 0x1000000#32, 0xc0150000#32, 0xc0180000#32, []⟩

/-- The reservation of the BIOS area fails, and 152 pages that are allocated reach into it. -/
theorem boot_gives_bios : ∃ s u, sixteenMB.Ordered ∧
    memoryAtBoot.ckPageMarkHardwareDependent sixteenMB = .ok s ∧
    Run useStep (fun u c => c.Sized u) ⟨s, []⟩ [.allocPages 0x98#32] u ∧
    ∃ b ∈ u.live, ∃ a, InBlock b.1 b.2 a ∧ sixteenMB.Protected a := by
  have h : ((memoryAtBoot.ckPageMarkHardwareDependent sixteenMB).toOption.bind fun s =>
      useStep ⟨s, []⟩ (.allocPages 0x98#32)).any
        (fun u => decide (u.live = [(0xc000c000#32, 0x98000#32)])) = true := by decide +kernel
  obtain ⟨u, hu, hlive⟩ := (Option.any_eq_true _ _).mp h
  obtain ⟨s, hs, hu⟩ := Option.bind_eq_some_iff.mp hu
  have hlive := of_decide_eq_true hlive
  have hs : memoryAtBoot.ckPageMarkHardwareDependent sixteenMB = .ok s := by
    cases hboot : memoryAtBoot.ckPageMarkHardwareDependent sixteenMB with
    | ok s' => exact congrArg Except.ok (Option.some.inj ((congrArg _ hboot).symm.trans hs))
    | error e => exact absurd ((congrArg Except.toOption hboot).symm.trans hs) nofun
  refine ⟨s, u, ⟨by decide, by decide, by decide, by decide⟩, hs, .cons trivial hu (.nil u),
    (0xc000c000#32, 0x98000#32), by rw [hlive]; exact .head _, 0xc00a0000, ?_, ?_⟩
  · exact ⟨by decide, by decide⟩
  · exact .inl ⟨by decide, by decide⟩

/-- 256 KB above the kernel, so that this memory and the memory below the kernel are in different
size lists, and a module at its start. -/
def smallMachine : BootInfo :=
  ⟨0xb014#32, 0x1c0000#32, 0xc0150000#32, 0xc0180000#32, [⟨0x180000#32, 0x1234#32⟩]⟩

/-- What is evaluated of a free list: its entries, the size list of one of them, and the size of
this one. -/
def Listed (d : KLfreeListDescriptor) (l m : List UADDR) (e size : UADDR) : Prop :=
  Chained KL.NIL d.nextOf d.FirstFreeEntry l ∧
    Chained KL.NIL (d.nextsizeOf (d.tableOf e)) (d.FirstFreeSizeEntry (d.tableOf e)) m ∧
    d.sizeOf e = size

instance (d : KLfreeListDescriptor) (l m : List UADDR) (e size : UADDR) :
    Decidable (Listed d l m e size) := inferInstanceAs (Decidable (_ ∧ _))

/-- A region in an entry that is evaluated. -/
theorem Reservation.fits_of_listed (as bs : List UADDR) {e size : UADDR} (hs : s.Quiet)
    (hlisted : Listed s.CKFreeListDescriptor l (as ++ e :: bs) e size) (he : e ∈ l)
    (hsize : adjustSize r.size ≠ 0#32)
    (hbefore : r.data = e ∨ e.toNat + 24 ≤ r.data.toNat)
    (hbehind : r.data.toNat + roundedSize r.size = e.toNat + size.toNat ∨
      r.data.toNat + roundedSize r.size + 24 ≤ e.toNat + size.toNat)
    (has : ∀ x ∈ as, x ≤ r.data)
    (hbytes : ∀ a, r.bytes a → InBlock r.data (adjustSize r.size) a) : r.Fits s := by
  obtain ⟨l', hl⟩ := hs.list
  obtain ⟨hchain, hsizes, hthis⟩ := hlisted
  have hc := hl.links.addr.chained
  rw [KLfreeListDescriptor.nextOf_nil] at hc
  obtain rfl := hc.unique hchain
  have hend : s.CKFreeListDescriptor.endOf e = e.toNat + size.toNat := by
    rw [KLfreeListDescriptor.endOf, hthis]
  refine r.fits_of_entry hl he hsize ⟨⟨hbefore, ?_⟩, ?_⟩ ⟨as, bs, hsizes, has⟩ hbytes
  · rw [hend]
    omega
  · unfold KLfreeListDescriptor.RoomBehind
    rw [hend]
    exact hbehind

/-- The pages of a module that starts at one. -/
theorem BootModule.byte_aligned {m : BootModule} {a : Nat}
    (hstart : (linear m.physstart).toNat = m.loc.toNat) (haligned : m.loc.toNat % 4096 = 0)
    (hsize : m.size.toNat ≤ (adjustSize m.pagesSize).toNat)
    (hpages : (adjustSize m.pagesSize).toNat % 4096 = 0) (h : m.Byte a) :
    InBlock m.loc (adjustSize m.pagesSize) a := by
  obtain ⟨c, hc, hpage⟩ := h
  unfold InBlock at hc ⊢
  omega

/-- On the small machine every reservation fits. -/
theorem boot_reservations_run_small : smallMachine.Ordered ∧
    ∃ s, memoryAtBoot.ckPageMarkHardwareDependent smallMachine = .ok s ∧
      ∀ {calls u}, Run useStep (fun u c => c.Sized u) ⟨s, []⟩ calls u →
        ∀ b ∈ u.live, ∀ a, InBlock b.1 b.2 a → ¬ smallMachine.Protected a := by
  have hordered : smallMachine.Ordered := ⟨by decide, by decide, by decide, by decide⟩
  refine ⟨hordered, boot_reservations_run hordered fun s hs => ?_⟩
  obtain ⟨s₀, hs₀, hq⟩ := ckFreeAtBoot_quiet hordered
  obtain rfl := Except.ok.inj (hs₀.symm.trans hs)
  have hrun : (memoryAtBoot.ckFreeAtBoot smallMachine).toOption.any (fun s =>
      decide (Listed s.CKFreeListDescriptor [0xc000b014#32, 0xc0180000#32] [0xc000b014#32]
        0xc000b014#32 0x144fec#32) &&
      (s.reserve (linear 0xa0000#32) 0x60000#32).toOption.any fun s =>
        decide (Listed s.CKFreeListDescriptor [0xc000b014#32, 0xc0100000#32, 0xc0180000#32]
          [0xc0100000#32, 0xc0180000#32] 0xc0180000#32 0x40000#32)) = true := by decide +kernel
  rw [hs] at hrun
  obtain ⟨hfirst, hsecond⟩ := Bool.and_eq_true_iff.mp hrun
  have hbios : Reservation.Fits s₀ ⟨linear 0xa0000#32, 0x60000#32, BiosByte⟩ :=
    Reservation.fits_of_listed [] [] hq (of_decide_eq_true hfirst) (by decide) (by decide)
      (.inr (by decide)) (.inr (by decide)) nofun fun a ha => ha
  refine ⟨hbios, fun s₁ hs₁ => ⟨?_, fun _ _ => trivial⟩⟩
  rw [hs₁] at hsecond
  have hq₁ : s₁.Quiet := by
    obtain ⟨l, hl⟩ := hq.list
    obtain ⟨d, l', hs', hl', -⟩ := hbios.reserves hq.lock hl
    obtain rfl := Except.ok.inj (hs'.symm.trans hs₁)
    exact ⟨rfl, l', hl'⟩
  refine Reservation.fits_of_listed [0xc0100000#32] [] hq₁ (of_decide_eq_true hsecond)
    (by decide) (by decide) (.inl (by decide)) (.inr (by decide))
    (List.forall_mem_singleton.mpr (by decide)) fun a ha => ?_
  exact BootModule.byte_aligned rfl (by decide) (by decide) (by decide +kernel) ha

end Alliance.CK
