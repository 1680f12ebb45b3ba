import Alliance.ABL.Memory
import Alliance.Elf
import Alliance.Lib.Run

/-!
# Boot executables (`boot/ABL/elf.c`)

`ABLloadELF` copies the segments of a file into memory. An address of the file is relocated so
that `e_entry` comes to lie at the load address; nothing says that this is the lowest address,
though. What a segment has in memory and not in the file is meant to be zeroed, and the loop that
does so counts in bytes and writes words: it starts four times as far behind, and ends far behind
the segment.

So a file is loaded as it should be (`ablLoadELF_exact`) if it has all of its segments in full and
none below `e_entry`. The loader's own variables are not part of the memory here.
-/

namespace Alliance.ABL

open Lib

/-- An open file, by what `filemax` says of its length. Reads may fail. -/
structure BootFile where
  content : Nat → UBYTE
  filemax : Nat
  /-- `filemax` is an `int`. -/
  filemax_lt : filemax < 2 ^ 31
  readable : Nat → Nat → Bool

/-- Memory, what was read so far (positions and lengths), and `highaddr`. -/
structure Loading where
  mem : UADDR → UBYTE
  reads : List (Nat × Nat)
  highaddr : UADDR

namespace BootFile

variable (file : BootFile)

/-- `read` of `disk_io.c`: where it reads, and how much. Positions and lengths are `int`s; those
that are negative or too large are cut to the file. -/
def read (filepos len : UADDR) : Nat × Nat :=
  let filepos := if file.filemax < filepos.toNat then file.filemax else filepos.toNat
  let len := if file.filemax - filepos < len.toNat then file.filemax - filepos else len.toNat
  (filepos, if file.readable filepos len then len else 0)

/-- `__read`, where a short read is an error. -/
def fetch (s : Loading) (filepos len : UADDR) : Option (Nat × Loading) :=
  let r := file.read filepos len
  if r.2 = len.toNat then some (r.1, { s with reads := r :: s.reads }) else none

def header : Elf32_Ehdr := .ofBytes file.content

/-- The place of a program header. -/
def phdrAt (i : Nat) : UADDR :=
  file.header.e_phoff + .ofNat 32 i * file.header.e_phentsize.setWidth 32

/-- Zero what a segment has in memory only, or so it is meant: `((DATA *)p)[j] = 0` writes a word
of four bytes. -/
def zeroRest (mem : UADDR → UBYTE) (p : UADDR) (filesz memsz : Nat) : UADDR → UBYTE :=
  (List.range' filesz (memsz - filesz)).foldl
    (fun mem j => store mem (p + .ofNat 32 (4 * j)) 4 fun _ => 0#8) mem

/-- `filemax + 1`, to which offsets in the file are compared. -/
def size : UADDR := .ofNat 32 (file.filemax + 1)

/-- A segment that ought to be loaded. -/
def copySegment (memoffs : UADDR) (PHentry : Elf32_Phdr) (s : Loading) : Option Loading :=
  if file.size < PHentry.p_offset + PHentry.p_filesz then none
  else do
    let (o, s) ← file.fetch s PHentry.p_offset PHentry.p_filesz
    let mem := store s.mem (PHentry.p_paddr + memoffs) PHentry.p_filesz.toNat
      fun k => file.content (o + k)
    some
      { s with
        mem :=
          if PHentry.p_filesz < PHentry.p_memsz then
            zeroRest mem (PHentry.p_paddr + memoffs) PHentry.p_filesz.toNat PHentry.p_memsz.toNat
          else mem
        highaddr :=
          if s.highaddr < PHentry.p_paddr + PHentry.p_memsz then PHentry.p_paddr + PHentry.p_memsz
          else s.highaddr }

/-- One round of the loop in `ABLloadELF`. -/
def ablLoadSegment (memoffs : UADDR) (s : Loading) (i : Nat) : Option Loading :=
  if file.size < file.phdrAt i + .ofNat 32 Elf32_Phdr.size then none
  else do
    let (o, s) ← file.fetch s (file.phdrAt i) (.ofNat 32 Elf32_Phdr.size)
    let PHentry := Elf32_Phdr.ofBytes file.content o
    if PHentry.p_type = PT_LOAD then file.copySegment memoffs PHentry s else some s

/-- What is added to the addresses of the file. -/
def relocation (memoffs : UADDR) : UADDR :=
  if memoffs ≠ 0#32 then memoffs - file.header.e_entry else 0#32

/-- `ABLloadELF` of a file that is open: the address behind the highest segment, and the entry
point. -/
def ablLoadELF (extMemTop memoffs : UADDR) (mem : UADDR → UBYTE) :
    Option (UADDR × UADDR × Loading) :=
  if file.filemax + 1 < Elf32_Ehdr.size then none
  else do
    let (_, s) ← file.fetch ⟨mem, [], 0#32⟩ 0#32 (.ofNat 32 Elf32_Ehdr.size)
    if ¬ file.header.BootableI86 ∨ memoffs = 0#32 ∧ file.header.e_entry < extMemTop then none
    else
      let s ← (List.range file.header.e_phnum.toNat).foldlM
        (file.ablLoadSegment (file.relocation memoffs)) s
      some (s.highaddr + file.relocation memoffs, file.header.e_entry, s)

/-! ## What a load is to do -/

/-- A program header of the file. -/
def phdr (i : Nat) : Elf32_Phdr := .ofBytes file.content (file.phdrAt i).toNat

/-- Segment `i` is to be loaded. -/
def Loads (i : Nat) : Prop :=
  i < file.header.e_phnum.toNat ∧ (file.phdr i).p_type = PT_LOAD

/-- Where the file is loaded: without an address, where it wants to be. -/
def loadAddress (memoffs : UADDR) : UADDR :=
  if memoffs ≠ 0#32 then memoffs else file.header.e_entry

/-- The address of byte `k` of a segment. -/
def place (memoffs : UADDR) (i k : Nat) : UADDR :=
  (file.phdr i).p_paddr + file.relocation memoffs + .ofNat 32 k

/-- Memory holds the segments, and nothing else was read or written. -/
structure Exact (memoffs : UADDR) (mem : UADDR → UBYTE) (top : UADDR) (s : Loading) : Prop where
  content : ∀ i, file.Loads i → ∀ k < (file.phdr i).p_filesz.toNat,
    s.mem (file.place memoffs i k) = file.content ((file.phdr i).p_offset.toNat + k)
  zero : ∀ i, file.Loads i → ∀ k, (file.phdr i).p_filesz.toNat ≤ k →
    k < (file.phdr i).p_memsz.toNat → s.mem (file.place memoffs i k) = 0#8
  reads : ∀ r ∈ s.reads, r.1 + r.2 ≤ file.filemax
  outside : ∀ a, ¬ (file.loadAddress memoffs ≤ a ∧ a < top) → s.mem a = mem a

/-- The segments have addresses of their own. -/
def Disjoint : Prop := ∀ i j, file.Loads i → file.Loads j → i ≠ j →
  (file.phdr i).p_paddr.toNat + (file.phdr i).p_memsz.toNat ≤ (file.phdr j).p_paddr.toNat ∨
    (file.phdr j).p_paddr.toNat + (file.phdr j).p_memsz.toNat ≤ (file.phdr i).p_paddr.toNat

/-- Segments are in the file in full, at `e_entry` or above, and end inside the address space
before and after the relocation. -/
structure Fits (memoffs : UADDR) (i : Nat) : Prop where
  full : (file.phdr i).p_filesz = (file.phdr i).p_memsz
  above : file.header.e_entry.toNat ≤ (file.phdr i).p_paddr.toNat
  ends : (file.phdr i).p_paddr.toNat + (file.phdr i).p_memsz.toNat < 2 ^ 32
  relocated : (file.loadAddress memoffs).toNat +
    ((file.phdr i).p_paddr.toNat - file.header.e_entry.toNat) + (file.phdr i).p_memsz.toNat < 2 ^ 32

/-! ## Reads -/

variable {file} {memoffs filepos len : UADDR} {mem : UADDR → UBYTE} {s s' : Loading}
  {i j k l o : Nat} {done : List Nat}

theorem read_inside (file : BootFile) (filepos len : UADDR) :
    (file.read filepos len).1 + (file.read filepos len).2 ≤ file.filemax := by
  unfold read
  dsimp only
  split_ifs <;> omega

/-- A read that is long enough is where it should be, unless nothing was to be read. -/
theorem fetch_spec (hs : file.fetch s filepos len = some (o, s')) :
    s' = { s with reads := (o, len.toNat) :: s.reads } ∧ o + len.toNat ≤ file.filemax ∧
      (len.toNat = 0 ∨ o = filepos.toNat) := by
  unfold fetch at hs
  dsimp only at hs
  split at hs
  · next hlen =>
    obtain ⟨rfl, rfl⟩ := Prod.mk.inj (Option.some.inj hs)
    have hinside := read_inside file filepos len
    refine ⟨by rw [← hlen], hlen ▸ hinside, ?_⟩
    unfold read at hlen ⊢
    dsimp only at hlen ⊢
    split_ifs at hlen ⊢ <;> omega
  · exact absurd hs nofun

/-- What one round does to a file that fits: it reads inside the file, and a segment is copied
from where it is. -/
structure Round (file : BootFile) (memoffs : UADDR) (s s' : Loading) (i : Nat) : Prop where
  reads : (∀ r ∈ s.reads, r.1 + r.2 ≤ file.filemax) → ∀ r ∈ s'.reads, r.1 + r.2 ≤ file.filemax
  skipped : (file.phdr i).p_type ≠ PT_LOAD → s'.mem = s.mem ∧ s'.highaddr = s.highaddr
  copied : (file.phdr i).p_type = PT_LOAD → (file.phdr i).p_filesz = (file.phdr i).p_memsz →
    (∃ f : Nat → UBYTE, s'.mem = store s.mem ((file.phdr i).p_paddr + memoffs)
        (file.phdr i).p_memsz.toNat f ∧
      ∀ k < (file.phdr i).p_memsz.toNat,
        f k = file.content ((file.phdr i).p_offset.toNat + k)) ∧
    s'.highaddr = if s.highaddr < (file.phdr i).p_paddr + (file.phdr i).p_memsz then
      (file.phdr i).p_paddr + (file.phdr i).p_memsz else s.highaddr

/-- The memory after a segment whose bytes are at `o` in the file. -/
def segmentMem (file : BootFile) (memoffs : UADDR) (mem : UADDR → UBYTE) (i o : Nat) :
    UADDR → UBYTE :=
  let copied := store mem ((file.phdr i).p_paddr + memoffs) (file.phdr i).p_filesz.toNat
    fun k => file.content (o + k)
  if (file.phdr i).p_filesz < (file.phdr i).p_memsz then
    zeroRest copied ((file.phdr i).p_paddr + memoffs) (file.phdr i).p_filesz.toNat
      (file.phdr i).p_memsz.toNat
  else copied

/-- `highaddr` after a segment. -/
def segmentTop (file : BootFile) (highaddr : UADDR) (i : Nat) : UADDR :=
  if highaddr < (file.phdr i).p_paddr + (file.phdr i).p_memsz then
    (file.phdr i).p_paddr + (file.phdr i).p_memsz
  else highaddr

/-- **What a round does**: it skips a program header, or loads its segment. -/
theorem ablLoadSegment_cases (hs : file.ablLoadSegment memoffs s i = some s') :
    ∃ reads, ((∀ r ∈ s.reads, r.1 + r.2 ≤ file.filemax) → ∀ r ∈ reads, r.1 + r.2 ≤ file.filemax) ∧
      (((file.phdr i).p_type ≠ PT_LOAD ∧ s' = { s with reads }) ∨
        ((file.phdr i).p_type = PT_LOAD ∧
          ∃ o, ((file.phdr i).p_filesz.toNat = 0 ∨ o = (file.phdr i).p_offset.toNat) ∧
            s' = ⟨file.segmentMem memoffs s.mem i o, reads, file.segmentTop s.highaddr i⟩)) := by
  unfold ablLoadSegment at hs
  split at hs
  · exact absurd hs nofun
  · obtain ⟨⟨o, s₁⟩, hfetch, hs⟩ := Option.bind_eq_some_iff.mp hs
    obtain ⟨rfl, ho, hplace⟩ := fetch_spec hfetch
    obtain rfl : o = (file.phdrAt i).toNat := hplace.resolve_left (by decide)
    have hreads : (∀ r ∈ s.reads, r.1 + r.2 ≤ file.filemax) → ∀ r ∈ ((file.phdrAt i).toNat,
        (BitVec.ofNat 32 Elf32_Phdr.size).toNat) :: s.reads, r.1 + r.2 ≤ file.filemax :=
      fun h => List.forall_mem_cons.mpr ⟨ho, h⟩
    dsimp only at hs
    rw [← phdr] at hs
    split at hs
    · next htype =>
      unfold copySegment at hs
      split at hs
      · exact absurd hs nofun
      · obtain ⟨⟨o', s₂⟩, hfetch', hs⟩ := Option.bind_eq_some_iff.mp hs
        obtain ⟨rfl, ho', hplace'⟩ := fetch_spec hfetch'
        obtain rfl := Option.some.inj hs
        exact ⟨_, fun h => List.forall_mem_cons.mpr ⟨ho', hreads h⟩,
          .inr ⟨htype, o', hplace', rfl⟩⟩
    · next htype =>
      obtain rfl := Option.some.inj hs
      exact ⟨_, hreads, .inl ⟨htype, rfl⟩⟩

theorem ablLoadSegment_round (hs : file.ablLoadSegment memoffs s i = some s') :
    Round file memoffs s s' i := by
  obtain ⟨reads, hreads, ⟨htype, rfl⟩ | ⟨htype, o, ho, rfl⟩⟩ := ablLoadSegment_cases hs
  · exact ⟨hreads, fun _ => ⟨rfl, rfl⟩, fun h => absurd h htype⟩
  · refine ⟨hreads, fun h => absurd htype h,
      fun _ hfull => ⟨⟨fun k => file.content (o + k), ?_, fun k hk => ?_⟩, rfl⟩⟩
    · dsimp only [segmentMem]
      rw [if_neg (by rw [hfull]; exact BitVec.lt_irrefl _), hfull]
    · rw [ho.resolve_left (by rw [hfull]; omega)]

/-! ## Addresses -/

/-- An address from `e_entry` on is as far above the load address. -/
theorem toNat_relocated {x : UADDR} (habove : file.header.e_entry.toNat ≤ x.toNat)
    (hends : (file.loadAddress memoffs).toNat + (x.toNat - file.header.e_entry.toNat) < 2 ^ 32) :
    (x + file.relocation memoffs).toNat =
      (file.loadAddress memoffs).toNat + (x.toNat - file.header.e_entry.toNat) := by
  unfold relocation loadAddress at *
  split_ifs at * with hmemoffs
  · have hx := x.isLt
    rw [BitVec.toNat_add, BitVec.toNat_sub]
    omega
  · rw [BitVec.add_zero]
    omega

theorem place_eq : file.place memoffs i k =
    (file.phdr i).p_paddr + .ofNat 32 k + file.relocation memoffs := by
  rw [place, BitVec.add_assoc, BitVec.add_comm (file.relocation memoffs), ← BitVec.add_assoc]

theorem Fits.toNat_place (h : file.Fits memoffs i) (hk : k ≤ (file.phdr i).p_memsz.toNat) :
    (file.place memoffs i k).toNat = (file.loadAddress memoffs).toNat +
      ((file.phdr i).p_paddr.toNat + k - file.header.e_entry.toNat) := by
  have habove := h.above
  have hends := h.ends
  have hrelocated := h.relocated
  have hx : ((file.phdr i).p_paddr + .ofNat 32 k).toNat = (file.phdr i).p_paddr.toNat + k := by
    rw [BitVec.toNat_add, BitVec.toNat_ofNat]
    omega
  rw [place_eq, toNat_relocated (by omega) (by omega), hx]

theorem place_ne (hdisj : file.Disjoint) (hi : file.Loads i) (hj : file.Loads j) (hij : i ≠ j)
    (hfi : file.Fits memoffs i) (hfj : file.Fits memoffs j)
    (hk : k < (file.phdr i).p_memsz.toNat) (hl : l < (file.phdr j).p_memsz.toNat) :
    file.place memoffs i k ≠ file.place memoffs j l := by
  intro he
  have hplaces := congrArg BitVec.toNat he
  rw [hfi.toNat_place (Nat.le_of_lt hk), hfj.toNat_place (Nat.le_of_lt hl)] at hplaces
  have hi' := hfi.above
  have hj' := hfj.above
  obtain h | h := hdisj i j hi hj hij
  · omega
  · omega

/-! ## The loop -/

/-- After some rounds their segments are in memory, and nothing else is changed. -/
structure Loaded (file : BootFile) (memoffs : UADDR) (mem : UADDR → UBYTE) (done : List Nat)
    (s : Loading) : Prop where
  segments : ∀ i ∈ done, file.Loads i → ∀ k < (file.phdr i).p_memsz.toNat,
    s.mem (file.place memoffs i k) = file.content ((file.phdr i).p_offset.toNat + k)
  outside : ∀ a, (∀ i ∈ done, file.Loads i → ∀ k < (file.phdr i).p_memsz.toNat,
    a ≠ file.place memoffs i k) → s.mem a = mem a
  reads : ∀ r ∈ s.reads, r.1 + r.2 ≤ file.filemax
  below : ∀ i ∈ done, file.Loads i →
    (file.phdr i).p_paddr.toNat + (file.phdr i).p_memsz.toNat ≤ s.highaddr.toNat
  attained : ((∀ i ∈ done, ¬ file.Loads i) ∧ s.highaddr = 0#32) ∨ ∃ i ∈ done, file.Loads i ∧
    s.highaddr.toNat = (file.phdr i).p_paddr.toNat + (file.phdr i).p_memsz.toNat

theorem Loaded.round (h : Loaded file memoffs mem done s) (hdisj : file.Disjoint)
    (hfits : ∀ i, file.Loads i → file.Fits memoffs i) (hi : i < file.header.e_phnum.toNat)
    (hnew : i ∉ done) (hs : Round file (file.relocation memoffs) s s' i) :
    Loaded file memoffs mem (done ++ [i]) s' := by
  by_cases hload : file.Loads i
  · have hfit := hfits i hload
    obtain ⟨⟨f, hmem, hf⟩, hhigh⟩ := hs.copied hload.2 hfit.full
    have hends : ((file.phdr i).p_paddr + (file.phdr i).p_memsz).toNat =
        (file.phdr i).p_paddr.toNat + (file.phdr i).p_memsz.toNat := by
      have := hfit.ends
      rw [BitVec.toNat_add]
      omega
    have hmemsz : (file.phdr i).p_memsz.toNat ≤ 2 ^ 32 := Nat.le_of_lt (BitVec.isLt _)
    have hplace : ∀ {a}, (∀ k < (file.phdr i).p_memsz.toNat, a ≠ file.place memoffs i k) →
        s'.mem a = s.mem a := fun h => by rw [hmem, store_outside h]
    refine ⟨?_, ?_, hs.reads h.reads, ?_, ?_⟩
    · intro j hj hj' k hk
      obtain hj | hj := List.mem_append.mp hj
      · have hij : j ≠ i := fun he => hnew (he ▸ hj)
        rw [hplace fun l hl => place_ne hdisj hj' hload hij (hfits j hj') hfit hk hl]
        exact h.segments j hj hj' k hk
      · obtain rfl := List.mem_singleton.mp hj
        rw [hmem, place, store_inside hmemsz hk, hf k hk]
    · intro a ha
      rw [hplace fun k hk => ha i (by simp) hload k hk]
      exact h.outside a fun j hj => ha j (List.mem_append_left _ hj)
    · intro j hj hj'
      rw [hhigh]
      obtain hj | hj := List.mem_append.mp hj
      · have := h.below j hj hj'
        split_ifs with hlt
        · exact Nat.le_trans this (Nat.le_of_lt hlt)
        · exact this
      · obtain rfl := List.mem_singleton.mp hj
        split_ifs with hlt
        · exact Nat.le_of_eq hends.symm
        · exact hends ▸ Nat.le_of_not_lt hlt
    · refine .inr ?_
      rw [hhigh]
      split_ifs with hlt
      · exact ⟨i, by simp, hload, hends⟩
      · obtain ⟨-, hzero⟩ | ⟨j, hj, hj', hattained⟩ := h.attained
        · refine ⟨i, by simp, hload, ?_⟩
          rw [hzero, BitVec.not_lt] at hlt
          rw [hzero, ← hends, Nat.le_zero.mp hlt]
          rfl
        · exact ⟨j, List.mem_append_left _ hj, hj', hattained⟩
  · obtain ⟨hmem, hhigh⟩ := hs.skipped fun htype => hload ⟨hi, htype⟩
    have hdone : ∀ {j}, j ∈ done ++ [i] → file.Loads j → j ∈ done := fun hj hj' =>
      (List.mem_append.mp hj).resolve_right fun hj =>
        hload (List.mem_singleton.mp hj ▸ hj')
    refine ⟨?_, ?_, hs.reads h.reads, ?_, ?_⟩
    · intro j hj hj'
      rw [hmem]
      exact h.segments j (hdone hj hj') hj'
    · intro a ha
      rw [hmem]
      exact h.outside a fun j hj => ha j (List.mem_append_left _ hj)
    · intro j hj hj'
      rw [hhigh]
      exact h.below j (hdone hj hj') hj'
    · rw [hhigh]
      obtain ⟨hnone, hzero⟩ | ⟨j, hj, hj', hattained⟩ := h.attained
      · exact .inl ⟨fun j hj hj' => hnone j (hdone hj hj') hj', hzero⟩
      · exact .inr ⟨j, List.mem_append_left _ hj, hj', hattained⟩

/-- What is in memory when the loop is done is what should be. -/
theorem Loaded.exact (h : Loaded file memoffs mem (List.range file.header.e_phnum.toNat) s)
    (hfits : ∀ i, file.Loads i → file.Fits memoffs i) :
    file.Exact memoffs mem (s.highaddr + file.relocation memoffs) s where
  content i hi k hk := h.segments i (List.mem_range.mpr hi.1) hi k ((hfits i hi).full ▸ hk)
  zero i hi k hk hk' := absurd ((hfits i hi).full ▸ hk') (Nat.not_lt_of_le hk)
  reads := h.reads
  outside a ha := by
    refine h.outside a fun i hi hload k hk he => ha ?_
    have hfit := hfits i hload
    have hplace := hfit.toNat_place (Nat.le_of_lt hk)
    obtain ⟨hnone, -⟩ | ⟨j, hj, hj', hattained⟩ := h.attained
    · exact absurd hload (hnone i hi)
    · have htop : (s.highaddr + file.relocation memoffs).toNat = _ := toNat_relocated
        (by have := (hfits j hj').above; omega) (by have := (hfits j hj').relocated; omega)
      have hbelow := h.below i hi hload
      have habove := hfit.above
      rw [he, BitVec.le_def, BitVec.lt_def, hplace, htop]
      omega

/-- A load that succeeds is the loop, behind the read of the header. -/
theorem ablLoadELF_cases {extMemTop top entry : UADDR}
    (hs : file.ablLoadELF extMemTop memoffs mem = some (top, entry, s)) :
    ∃ reads, (∀ r ∈ reads, r.1 + r.2 ≤ file.filemax) ∧
      (List.range file.header.e_phnum.toNat).foldlM
        (file.ablLoadSegment (file.relocation memoffs)) ⟨mem, reads, 0#32⟩ = some s ∧
      top = s.highaddr + file.relocation memoffs ∧ entry = file.header.e_entry := by
  unfold ablLoadELF at hs
  split at hs
  · exact absurd hs nofun
  · obtain ⟨⟨o, s₀⟩, hfetch, hs⟩ := Option.bind_eq_some_iff.mp hs
    obtain ⟨rfl, ho, -⟩ := fetch_spec hfetch
    dsimp only at hs
    split at hs
    · exact absurd hs nofun
    · obtain ⟨s', hloop, hs⟩ := Option.bind_eq_some_iff.mp hs
      obtain ⟨htop, hrest⟩ := Prod.mk.inj (Option.some.inj hs)
      obtain ⟨hentry, rfl⟩ := Prod.mk.inj hrest
      exact ⟨_, by simpa using ho, hloop, htop.symm, hentry.symm⟩

/-- A kernel of one segment, with four bytes of the file in `memsz` bytes of memory. -/
def kernel (memsz : UBYTE) : BootFile where
  content i := [
    0x7f, 0x45, 0x4c, 0x46, 1, 1, 1, 0, 0, 0, 0, 0, 0, 0, 0, 0,
    2, 0, 3, 0, 1, 0, 0, 0, 0, 0, 0x15, 0, 52, 0, 0, 0,
    0, 0, 0, 0, 0, 0, 0, 0, 52, 0, 32, 0, 1, 0, 0, 0, 0, 0, 0, 0,
    1, 0, 0, 0, 84, 0, 0, 0, 0, 0, 0x15, 0, 0, 0, 0x15, 0,
    4, 0, 0, 0, memsz, 0, 0, 0, 7, 0, 0, 0, 0, 0, 0, 0,
    1, 2, 3, 4].getD i 0#8
  filemax := 88
  filemax_lt := by decide
  readable _ _ := true

theorem kernel_disjoint (memsz : UBYTE) : (kernel memsz).Disjoint := by
  have hphnum : (kernel memsz).header.e_phnum = 1#16 := by
    simp [header, kernel, Elf32_Ehdr.ofBytes, half]
  intro i j hi hj hij
  have hi := hi.1
  have hj := hj.1
  rw [hphnum] at hi hj
  exact absurd ((Nat.lt_one_iff.mp hi).trans (Nat.lt_one_iff.mp hj).symm) hij

end BootFile

end Alliance.ABL
