import Alliance.ABL.LoadELF
import Alliance.Lib.Guard

/-!
# How far a load writes

What `ABLloadELF` returns is behind the last segment, as the program headers have it. A segment
below `e_entry` lies in front of the load address, and the loop that zeroes the rest of a segment
goes four times as far as the segment does. A file is `Bounded` if neither gets out of what is
returned; then a load writes between its address and its result only (`ablLoadELF_range`).

What is in memory decides nothing in a load (`ablLoadELF_map`).
-/

namespace Alliance.ABL

open Lib

namespace BootFile

variable (file : BootFile)

/-- The address behind a segment, as the file has it. -/
def segEnd (i : Nat) : Nat := (file.phdr i).p_paddr.toNat + (file.phdr i).p_memsz.toNat

/-- How far behind its start a segment is written. -/
def extent (i : Nat) : Nat :=
  if (file.phdr i).p_filesz < (file.phdr i).p_memsz then 4 * (file.phdr i).p_memsz.toNat
  else (file.phdr i).p_filesz.toNat

/-- A segment is written from `e_entry` on, and not behind the last segment, which is in the
address space before and after the relocation. -/
structure Bounded (memoffs : UADDR) : Prop where
  top : ∃ i, file.Loads i ∧ file.header.e_entry.toNat ≤ file.segEnd i
  ends : ∀ i, file.Loads i → file.segEnd i < 2 ^ 32 ∧
    (file.loadAddress memoffs).toNat + (file.segEnd i - file.header.e_entry.toNat) < 2 ^ 32
  inside : ∀ i, file.Loads i → file.extent i = 0 ∨
    file.header.e_entry.toNat ≤ (file.phdr i).p_paddr.toNat ∧
      ∃ j, file.Loads j ∧ (file.phdr i).p_paddr.toNat + file.extent i ≤ file.segEnd j

variable {file} {memoffs extMemTop top entry a p : UADDR} {mem mem' : UADDR → UBYTE}
  {s s' : Loading} {i o : Nat} {done : List Nat}

/-! ## One segment -/

theorem zeroRest_outside {filesz memsz : Nat}
    (h : ∀ k < 4 * memsz, a ≠ p + .ofNat 32 k) : zeroRest mem p filesz memsz a = mem a := by
  have key : ∀ (l : List Nat) (mem : UADDR → UBYTE), (∀ j ∈ l, j < memsz) →
      l.foldl (fun mem j => store mem (p + .ofNat 32 (4 * j)) 4 fun _ => 0#8) mem a = mem a := by
    intro l
    induction l with
    | nil => exact fun _ _ => rfl
    | cons j l ih =>
        intro mem hl
        have hj := hl j (.head l)
        rw [List.foldl_cons, ih _ fun j' hj' => hl j' (.tail j hj')]
        refine store_outside fun b hb => ?_
        rw [BitVec.add_assoc, ← BitVec.ofNat_add]
        exact h _ (by omega)
  refine key _ _ fun j hj => ?_
  have := List.mem_range'_1.mp hj
  omega

theorem segmentMem_outside (h : ∀ k < file.extent i, a ≠ file.place memoffs i k) :
    file.segmentMem (file.relocation memoffs) mem i o a = mem a := by
  unfold segmentMem
  unfold extent at h
  split
  · next hlt =>
    rw [if_pos hlt] at h
    have hsize := BitVec.lt_def.mp hlt
    rw [zeroRest_outside h, store_outside fun k hk => h k (by omega)]
  · next hlt =>
    rw [if_neg hlt] at h
    exact store_outside h

/-! ## The loop -/

/-- After some rounds, memory is changed where their segments are written only, and `highaddr` is
behind the last of them. -/
structure Ranged (file : BootFile) (memoffs : UADDR) (mem : UADDR → UBYTE) (done : List Nat)
    (s : Loading) : Prop where
  outside : ∀ a, (∀ i ∈ done, file.Loads i → ∀ k < file.extent i, a ≠ file.place memoffs i k) →
    s.mem a = mem a
  below : ∀ i ∈ done, file.Loads i → file.segEnd i ≤ s.highaddr.toNat
  attained : s.highaddr = 0#32 ∨ ∃ i, file.Loads i ∧ s.highaddr.toNat = file.segEnd i

theorem toNat_segEnd (h : file.segEnd i < 2 ^ 32) :
    ((file.phdr i).p_paddr + (file.phdr i).p_memsz).toNat = file.segEnd i := by
  unfold segEnd at *
  rw [BitVec.toNat_add]
  omega

theorem Ranged.round (h : Ranged file memoffs mem done s) (hb : file.Bounded memoffs)
    (hi : i < file.header.e_phnum.toNat)
    (hs : file.ablLoadSegment (file.relocation memoffs) s i = some s') :
    Ranged file memoffs mem (done ++ [i]) s' := by
  obtain ⟨reads, -, ⟨htype, rfl⟩ | ⟨htype, o, -, rfl⟩⟩ := ablLoadSegment_cases hs
  · have hdone : ∀ {j}, j ∈ done ++ [i] → file.Loads j → j ∈ done := fun hj hj' =>
      (List.mem_append.mp hj).resolve_right fun hj =>
        htype (List.mem_singleton.mp hj ▸ hj'.2)
    refine ⟨fun a ha => ?_, fun j hj hj' => h.below j (hdone hj hj') hj', h.attained⟩
    exact h.outside a fun j hj => ha j (List.mem_append_left _ hj)
  · have hload : file.Loads i := ⟨hi, htype⟩
    have hend := toNat_segEnd (hb.ends i hload).1
    refine ⟨fun a ha => ?_, fun j hj hj' => ?_, ?_⟩
    · dsimp only
      rw [segmentMem_outside fun k hk => ha i (by simp) hload k hk]
      exact h.outside a fun j hj => ha j (List.mem_append_left _ hj)
    · dsimp only
      unfold segmentTop
      rcases List.mem_append.mp hj with hj | hj
      · have := h.below j hj hj'
        split_ifs with hlt
        · exact Nat.le_trans this (Nat.le_of_lt hlt)
        · exact this
      · obtain rfl := List.mem_singleton.mp hj
        split_ifs with hlt
        · exact Nat.le_of_eq hend.symm
        · exact hend ▸ Nat.le_of_not_lt hlt
    · dsimp only
      unfold segmentTop
      split_ifs with hlt
      · exact .inr ⟨i, hload, hend⟩
      · exact h.attained

/-! ## The load -/

/-- **A load of a bounded file** writes between its address and its result. -/
theorem ablLoadELF_range (hb : file.Bounded memoffs)
    (hs : file.ablLoadELF extMemTop memoffs mem = some (top, entry, s)) :
    file.loadAddress memoffs ≤ top ∧
      ∀ a, ¬ (file.loadAddress memoffs ≤ a ∧ a < top) → s.mem a = mem a := by
  obtain ⟨reads, -, hloop, rfl, -⟩ := ablLoadELF_cases hs
  have hr : Ranged file memoffs mem (List.range file.header.e_phnum.toNat) s := by
    refine foldlM_prefixes hloop ⟨fun _ _ => rfl, nofun, .inl rfl⟩ ?_
    intro done i rest s₁ s₂ hsplit h hstep
    have hmem : i ∈ List.range file.header.e_phnum.toNat := by simp [hsplit]
    exact h.round hb (List.mem_range.mp hmem) hstep
  have hbelow : ∀ i, file.Loads i → file.segEnd i ≤ s.highaddr.toNat := fun i hi =>
    hr.below i (List.mem_range.mpr hi.1) hi
  obtain ⟨t, ht, hte⟩ := hb.top
  have habove := Nat.le_trans hte (hbelow t ht)
  have hends : (file.loadAddress memoffs).toNat +
      (s.highaddr.toNat - file.header.e_entry.toNat) < 2 ^ 32 := by
    rcases hr.attained with hzero | ⟨j, hj, he⟩
    · have := (file.loadAddress memoffs).isLt
      rw [hzero]
      show _ + (0 - _) < _
      omega
    · rw [he]
      exact (hb.ends j hj).2
  have htop := toNat_relocated habove hends
  refine ⟨?_, fun a ha => hr.outside a fun i hi hload k hk he => ha ?_⟩
  · rw [BitVec.le_def, htop]
    omega
  · -- a byte of a segment is not behind the last one
    rcases hb.inside i hload with hnone | ⟨hentry, j, hj, hend⟩
    · omega
    · have hj' := (hb.ends j hj).1
      have hle := hbelow j hj
      have hx : ((file.phdr i).p_paddr + .ofNat 32 k).toNat =
          (file.phdr i).p_paddr.toNat + k := by
        rw [BitVec.toNat_add, BitVec.toNat_ofNat]
        omega
      have hplace : (file.place memoffs i k).toNat = (file.loadAddress memoffs).toNat +
          ((file.phdr i).p_paddr.toNat + k - file.header.e_entry.toNat) := by
        rw [place_eq, toNat_relocated (by omega) (by omega), hx]
      rw [he, BitVec.le_def, BitVec.lt_def, hplace, htop]
      omega

/-! ## What is in memory -/

/-- A load without the memory. -/
def progress (s : Loading) : List (Nat × Nat) × UADDR := (s.reads, s.highaddr)

theorem fetch_progress (h : progress s = progress s') (filepos len : UADDR) :
    (file.fetch s filepos len).map (fun r => (r.1, progress r.2)) =
      (file.fetch s' filepos len).map (fun r => (r.1, progress r.2)) := by
  obtain ⟨hreads, hhigh⟩ := Prod.mk.inj h
  unfold fetch
  dsimp only
  split
  · simp only [Option.map_some, progress, hreads, hhigh]
  · rfl

theorem ablLoadSegment_progress (h : progress s = progress s') :
    (file.ablLoadSegment memoffs s i).map progress =
      (file.ablLoadSegment memoffs s' i).map progress := by
  unfold ablLoadSegment
  split
  · rfl
  · refine bind_map_congr (fetch_progress h _ _) ?_
    rintro ⟨o, t⟩ ⟨o', t'⟩ he
    obtain ⟨rfl, ht⟩ : o = o' ∧ progress t = progress t' := Prod.mk.inj he
    dsimp only
    split
    · unfold copySegment
      split
      · rfl
      · refine bind_map_congr (fetch_progress ht _ _) ?_
        rintro ⟨_, u⟩ ⟨_, u'⟩ he'
        obtain ⟨hreads, hhigh⟩ : u.reads = u'.reads ∧ u.highaddr = u'.highaddr :=
          Prod.mk.inj (Prod.mk.inj he').2
        simp only [Option.map_some, progress, hreads, hhigh]
    · exact congrArg some ht

/-- What is in memory decides nothing in a load. -/
theorem ablLoadELF_map (file : BootFile) (extMemTop memoffs : UADDR) (mem mem' : UADDR → UBYTE) :
    (file.ablLoadELF extMemTop memoffs mem).map (fun r => (r.1, r.2.1)) =
      (file.ablLoadELF extMemTop memoffs mem').map fun r => (r.1, r.2.1) := by
  unfold ablLoadELF
  split
  · rfl
  · have hstart : progress ⟨mem, [], 0#32⟩ = progress ⟨mem', [], 0#32⟩ := rfl
    refine bind_map_congr (fetch_progress hstart _ _) ?_
    rintro ⟨_, t⟩ ⟨_, t'⟩ he
    have ht : progress t = progress t' := (Prod.mk.inj he).2
    dsimp only
    split
    · rfl
    · have hround : ∀ u u' i, progress u = progress u' →
          (file.ablLoadSegment (file.relocation memoffs) u i).map progress =
            (file.ablLoadSegment (file.relocation memoffs) u' i).map progress :=
        fun _ _ _ h => ablLoadSegment_progress h
      have hloop : ((List.range file.header.e_phnum.toNat).foldlM
          (file.ablLoadSegment (file.relocation memoffs)) t).map progress =
          ((List.range file.header.e_phnum.toNat).foldlM
            (file.ablLoadSegment (file.relocation memoffs)) t').map progress :=
        foldlM_map_congr hround ht
      simp only [Option.bind_eq_bind]
      refine bind_map_congr hloop fun u u' he' => ?_
      have hhigh : u.highaddr = u'.highaddr := (Prod.mk.inj he').2
      simp only [Option.map_some, hhigh]

end BootFile

end Alliance.ABL
