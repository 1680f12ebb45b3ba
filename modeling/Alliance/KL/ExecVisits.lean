import Mathlib.Order.Basic
import Alliance.KL.ExecBounds

/-!
# Every section once (`ELFSectionProcessing`)

The caller of `KLexecLoad` reads what it is told to and calls again. A call in the state
`elfSection` looks at one section, and the one that looks at the last is to end the state. The
test for that stands at the end of `ELFSectionProcessing`, behind the returns for sections
that are skipped: if the last section is one of these, the next call takes what is behind the
array for a section.

So a load comes past every section once, and to its end, exactly if the last section is kept, and
each call finds what it relies on (`visits_iff`).
-/

namespace Alliance.KL.Exec

open Function Lib

/-- A file to be loaded, and all else that the calls depend on: `heap` and `stack` say what
the `n`-th call finds. -/
structure Loading where
  file : Nat → UBYTE
  junk : Nat → UBYTE
  st : Statics
  heap : Nat → Heap
  stack : Nat → UWORD32

namespace Loading

/-- All before the `n`-th call. -/
def before (l : Loading) : Nat → Option (Statics × Executable)
  | 0 => some (l.st, (Executable.opened l.junk).fill l.file)
  | n + 1 => (before l n).bind fun s =>
    (s.2.load s.1 (l.heap n) (l.stack n)).map fun r => (r.1, r.2.1.fill l.file)

/-- The sections that the first `n` calls look at. -/
def processed (l : Loading) : Nat → List Nat
  | 0 => []
  | n + 1 =>
    match l.before n with
    | some (_, x) => if x.state = .elfSection then processed l n ++ [x.iterator] else processed l n
    | none => processed l n

variable (l : Loading)

def header : Elf32_Ehdr := .ofBytes l.file

def e_shnum : Nat := l.header.e_shnum.toNat

/-- The load ends, and has come past each section once. -/
def Visits : Prop :=
  ∃ n s, l.before n = some s ∧ s.2.state = .finalState ∧ l.processed n = List.range l.e_shnum

/-- Memory is enough for each call. -/
def EnoughMemory : Prop := ∀ n, (l.heap n).block.isSome ∧ (l.heap n).pointers = true

end Loading

/-- Section `i` is in use, and not to be loaded. -/
def ELF.Skipped (elf : ELF) (i : Nat) : Prop :=
  (elf.sections i).sh_type ≠ SHT_NULL ∧ elf.skips i (elf.sections i) = some true

instance (elf : ELF) (i : Nat) : Decidable (elf.Skipped i) := inferInstanceAs (Decidable (_ ∧ _))

/-- What a load needs: a section with the names, names that end, a last section that is kept, and
tables that the last step finds. -/
structure Loading.Visitable (l : Loading) : Prop where
  names : l.header.e_shstrndx ≠ SHN_UNDEF ∧ l.header.e_shstrndx.toNat < l.e_shnum
  sections : ∀ i < l.e_shnum, ∀ s, l.before (i + 2) = some s → s.2.elf.SectionInBounds i
  last : ∀ s, l.before (l.e_shnum + 1) = some s → ¬ s.2.elf.Skipped (l.e_shnum - 1)
  postLoad : ∀ s, l.before (l.e_shnum + 2) = some s →
    s.2.elf.PostLoadInBounds s.1 (l.heap (l.e_shnum + 2)) (l.stack (l.e_shnum + 2))

/-! ## One section -/

variable {l : Loading} {st : Statics} {x : Executable} {heap : Heap} {n i : Nat}
  {r : Statics × Executable × FsmResult} {s s' : Statics × Executable}

theorem Executable.header_fill (h : x.record.buffer ≠ .header) (file : Nat → UBYTE) :
    (x.fill file).elf.header = x.elf.header ∧ (x.fill file).state = x.state ∧
      (x.fill file).iterator = x.iterator := by
  refine ⟨?_, rfl, rfl⟩
  unfold fill
  dsimp only
  split
  · rfl
  · rfl
  · next hbuffer => exact absurd hbuffer h
  · rfl
  · rfl

/-- A call leaves the header, goes on to the next section, and does not ask for the header. -/
structure Executable.Goes (x x' : Executable) : Prop where
  header : x'.elf.header = x.elf.header
  state : x'.state = x.state
  iterator : x'.iterator = x.iterator + 1
  buffer : x'.record.buffer ≠ .header

/-- A section that is kept has room, and the test for the last one is made. -/
theorem Executable.allocate_goes {sh : Elf32_Shdr} (hmem : heap.block.isSome)
    (hbuffer : x.record.buffer ≠ .header) :
    x.Goes (x.allocate sh heap).1 ∧ (x.allocate sh heap).2 =
      if x.elf.e_shnum = x.iterator + 1 then .stopIteration else .continueIteration := by
  obtain ⟨answer, hanswer⟩ := Option.isSome_iff_exists.mp hmem
  have hmalloc : ∀ size, heap.malloc size = some ⟨answer.1, size.toNat, answer.2⟩ := fun size => by
    rw [Heap.malloc, hanswer]
    rfl
  unfold allocate
  simp only [hmalloc]
  split
  · exact ⟨⟨rfl, rfl, rfl, nofun⟩, rfl⟩
  · split
    · exact ⟨⟨rfl, rfl, rfl, nofun⟩, rfl⟩
    · refine ⟨⟨rfl, rfl, rfl, ?_⟩, rfl⟩
      show (if x.record.buffer = .data x.iterator then Buffer.lost else x.record.buffer) ≠ .header
      split
      · nofun
      · exact hbuffer

/-- **A call for a section**: the test is made unless the section is skipped. -/
theorem elfSectionProcessing_goes (hmem : heap.block.isSome) (hbuffer : x.record.buffer ≠ .header)
    (hs : elfSectionProcessing st x heap = some r) : x.Goes r.2.1 ∧ r.2.2 =
      if x.elf.e_shnum = x.iterator + 1 ∧ ¬ x.elf.Skipped x.iterator then .stopIteration
      else .continueIteration := by
  obtain ⟨sh, hsh, hs⟩ := Option.bind_eq_some_iff.mp hs
  obtain rfl : x.elf.sections x.iterator = sh := by
    unfold ELF.shdr at hsh
    split at hsh
    · exact Option.some.inj hsh
    · exact absurd hsh nofun
  split at hs
  · next hnull =>
    obtain rfl := Option.some.inj hs
    have hkept : ¬ x.elf.Skipped x.iterator := fun h => h.1 hnull
    refine ⟨⟨rfl, rfl, rfl, nofun⟩, ?_⟩
    simp only [hkept, not_false_eq_true, and_true]
    rfl
  · next hnull =>
    split at hs
    · exact absurd hs nofun
    · obtain ⟨st', -, hs⟩ := Option.bind_eq_some_iff.mp hs
      obtain ⟨skip, hskip, rfl⟩ := Option.map_eq_some_iff.mp hs
      cases skip with
      | true =>
          have hskipped : x.elf.Skipped x.iterator := ⟨hnull, hskip⟩
          refine ⟨⟨rfl, rfl, rfl, nofun⟩, ?_⟩
          simp only [hskipped, not_true_eq_false, and_false, if_false]
          rfl
      | false =>
          have hkept : ¬ x.elf.Skipped x.iterator := fun h => by
            rw [ELF.Skipped, hskip] at h
            exact absurd h.2 nofun
          simp only [hkept, not_false_eq_true, and_true]
          exact x.allocate_goes hmem hbuffer

/-! ## The calls one after the other -/

namespace Loading

/-- The call before had a result. -/
theorem before_succ (hs : l.before (n + 1) = some s') : ∃ s, l.before n = some s ∧ ∃ r,
    s.2.load s.1 (l.heap n) (l.stack n) = some r ∧ s' = (r.1, r.2.1.fill l.file) := by
  obtain ⟨s, hn, hs⟩ := Option.bind_eq_some_iff.mp hs
  obtain ⟨r, hr, rfl⟩ := Option.map_eq_some_iff.mp hs
  exact ⟨s, hn, r, hr, rfl⟩

theorem before_of_le {m : Nat} (hm : m ≤ n) (hs : l.before n = some s) :
    ∃ s', l.before m = some s' := by
  induction n generalizing s with
  | zero =>
      obtain rfl := Nat.le_zero.mp hm
      exact ⟨s, hs⟩
  | succ n ih =>
      obtain rfl | hm := Nat.eq_or_lt_of_le hm
      · exact ⟨s, hs⟩
      · obtain ⟨s', hs', -⟩ := before_succ hs
        exact ih (Nat.le_of_lt_succ hm) hs'

/-- Before the names are asked for. -/
theorem before_one (hmem : l.EnoughMemory) : ∃ s, l.before 1 = some s ∧
    s.2.state = .elfSectionNames ∧ s.2.elf.header = l.header ∧ s.2.elf.arrays = .both ∧
    s.2.iterator = 0 := by
  obtain ⟨hblock, hpointers⟩ := hmem 0
  obtain ⟨⟨addr, junk⟩, hblock⟩ := Option.isSome_iff_exists.mp hblock
  have hheader : ∀ elf : ELF, elfSectionHeaderProcessing elf (l.heap 0) =
      (⟨elf.header, .both, fun i => .ofBytes junk (Elf32_Shdr.size * i), fun _ => none⟩,
        ⟨elf.header.e_shoff, .ofNat 32 (Elf32_Shdr.size * elf.e_shnum), .sections⟩,
        .nextState) := fun elf => by
    rw [elfSectionHeaderProcessing, hblock, hpointers]
    rfl
  have hfile : (fun k => l.file ((0#32).toNat + k)) = l.file := by
    funext k
    rw [BitVec.toNat_zero, Nat.zero_add]
  obtain ⟨s, hs⟩ : ∃ s, l.before 1 = some s := ⟨_, rfl⟩
  refine ⟨s, hs, ?_⟩
  obtain ⟨s₀, hs₀, r, hr, rfl⟩ := before_succ hs
  obtain rfl := Option.some.inj hs₀
  rw [Executable.load] at hr
  dsimp only [Executable.fill, Executable.opened] at hr
  rw [hheader, hfile] at hr
  obtain rfl := Option.some.inj hr
  exact ⟨rfl, rfl, rfl, rfl⟩

/-- Before section `i`. -/
structure AtSection (l : Loading) (i : Nat) (s : Statics × Executable) : Prop where
  state : s.2.state = .elfSection
  iterator : s.2.iterator = i
  header : s.2.elf.header = l.header
  buffer : s.2.record.buffer ≠ .header

theorem before_two (hmem : l.EnoughMemory) (hs : l.before 2 = some s) :
    (l.header.e_shstrndx = SHN_UNDEF → s.2.state = .elfInvalid) ∧
    (l.header.e_shstrndx ≠ SHN_UNDEF →
      l.header.e_shstrndx.toNat < l.e_shnum ∧ l.AtSection 0 s) := by
  obtain ⟨s₁, hs₁, hstate, hheader, -, hiterator⟩ := before_one hmem
  obtain ⟨s₁', hs₁', r, hr, rfl⟩ := before_succ hs
  obtain rfl := Option.some.inj (hs₁.symm.trans hs₁')
  rw [Executable.load, hstate] at hr
  obtain ⟨⟨elf, record, result⟩, hnames, rfl⟩ := Option.map_eq_some_iff.mp hr
  rw [elfSectionNamesProcessing, hheader] at hnames
  constructor
  · intro hundef
    rw [if_neg (not_not_intro hundef)] at hnames
    obtain ⟨-, -, rfl⟩ : _ ∧ _ ∧ FsmResult.stateError = result := by simpa using hnames
    rfl
  · intro hdef
    rw [if_pos hdef] at hnames
    obtain ⟨sh, hsh, hnames⟩ := Option.map_eq_some_iff.mp hnames
    have hinside : s₁.2.elf.Inside s₁.2.elf.e_shstrndx := by
      by_contra hout
      rw [ELF.shdr, if_neg hout] at hsh
      cases hsh
    rw [ELF.Inside, ELF.e_shstrndx, ELF.e_shnum, hheader] at hinside
    obtain ⟨answer, hanswer⟩ := Option.isSome_iff_exists.mp (hmem 1).1
    rw [Heap.malloc, hanswer] at hnames
    obtain ⟨rfl, rfl, rfl⟩ : _ = elf ∧ _ = record ∧ FsmResult.nextState = result := by
      simpa using hnames
    refine ⟨hinside.2, ?_⟩
    obtain ⟨hfill, hfillState, hfillIterator⟩ := Executable.header_fill
      (x := { s₁.2 with
        elf := s₁.2.elf.setData s₁.2.elf.e_shstrndx _
        record := ⟨sh.sh_offset, sh.sh_size, .data s₁.2.elf.e_shstrndx⟩
        state := .elfSection }) (by simp) l.file
    have hbuffer : Buffer.data s₁.2.elf.e_shstrndx ≠ .header := by simp
    exact ⟨rfl, hiterator, hfill.trans hheader, hbuffer⟩

theorem atSection_succ (hmem : l.EnoughMemory) (hn : l.before n = some s)
    (h : l.AtSection i s) (hs : l.before (n + 1) = some s') :
    s.2.elf.SectionInBounds i ∧
    (l.e_shnum = i + 1 ∧ ¬ s.2.elf.Skipped i → s'.2.state = .postLoad) ∧
    (¬ (l.e_shnum = i + 1 ∧ ¬ s.2.elf.Skipped i) → l.AtSection (i + 1) s') := by
  obtain ⟨s₁, hs₁, r, hr, rfl⟩ := before_succ hs
  obtain rfl := Option.some.inj (hn.symm.trans hs₁)
  rw [Executable.load, h.state] at hr
  obtain ⟨⟨st, x, result⟩, hsection, rfl⟩ := Option.map_eq_some_iff.mp hr
  obtain ⟨⟨hheader, hstate, hiterator, hbuffer⟩, hresult⟩ :=
    elfSectionProcessing_goes (hmem n).1 h.buffer hsection
  have hin := isSome_elfSectionProcessing.mp (Option.isSome_iff_exists.mpr ⟨_, hsection⟩)
  rw [h.iterator] at hin hresult hiterator
  have hshnum : s.2.elf.e_shnum = l.e_shnum := by rw [ELF.e_shnum, h.header, e_shnum]
  rw [hshnum] at hresult
  dsimp only at hheader hstate hiterator hbuffer hresult
  refine ⟨hin, fun hlast => ?_, fun hnext => ?_⟩
  · rw [if_pos hlast] at hresult
    subst hresult
    rfl
  · rw [if_neg hnext] at hresult
    subst hresult
    have hfill := (Executable.header_fill hbuffer l.file).1
    exact ⟨hstate.trans h.state, hiterator, hfill.trans (hheader.trans h.header), hbuffer⟩

/-- **The sections come one after the other.** -/
theorem atSection (hmem : l.EnoughMemory) (hdef : l.header.e_shstrndx ≠ SHN_UNDEF)
    (hi : i < l.e_shnum) (hs : l.before (i + 2) = some s) : l.AtSection i s := by
  induction i generalizing s with
  | zero => exact ((before_two hmem hs).2 hdef).2
  | succ i ih =>
      obtain ⟨s', hs', -⟩ := before_succ hs
      have h := ih (Nat.lt_of_succ_lt hi) hs'
      exact (atSection_succ hmem hs' h hs).2.2 fun hlast => by omega

theorem processed_eq (hmem : l.EnoughMemory) (hdef : l.header.e_shstrndx ≠ SHN_UNDEF)
    (hi : i ≤ l.e_shnum) (hs : l.before (i + 2) = some s) : l.processed (i + 2) = List.range i := by
  induction i generalizing s with
  | zero =>
      obtain ⟨s₁, hs₁, hstate, -⟩ := before_one hmem
      rw [processed, hs₁]
      dsimp only
      rw [if_neg (hstate ▸ nofun)]
      rfl
  | succ i ih =>
      obtain ⟨s', hs', -⟩ := before_succ hs
      have h := atSection hmem hdef hi hs'
      rw [processed, hs', ih (Nat.le_of_succ_le hi) hs', List.range_succ]
      dsimp only
      rw [if_pos h.state, h.iterator]

theorem before_last (hn : l.before n = some s)
    (hstate : s.2.state = .postLoad) (hs : l.before (n + 1) = some s') :
    s.2.elf.PostLoadInBounds s.1 (l.heap n) (l.stack n) ∧ s'.2.state = .finalState := by
  obtain ⟨s₁, hs₁, r, hr, rfl⟩ := before_succ hs
  obtain rfl := Option.some.inj (hn.symm.trans hs₁)
  rw [Executable.load, hstate] at hr
  obtain ⟨elf, helf, rfl⟩ := Option.map_eq_some_iff.mp hr
  exact ⟨ELF.isSome_elfPostLoad.mp (Option.isSome_iff_exists.mpr ⟨elf, helf⟩), rfl⟩

/-- A load that has failed stays so. -/
theorem invalid_stays {m : Nat} (hn : l.before n = some s) (hstate : s.2.state = .elfInvalid)
    (hm : n ≤ m) (hs : l.before m = some s') : s'.2.state = .elfInvalid := by
  induction m, hm using Nat.le_induction generalizing s' with
  | base =>
      obtain rfl := Option.some.inj (hn.symm.trans hs)
      exact hstate
  | succ m _ ih =>
      obtain ⟨s₁, hs₁, r, hr, rfl⟩ := before_succ hs
      have hinvalid := ih hs₁
      rw [Executable.load, hinvalid] at hr
      obtain rfl := Option.some.inj hr
      exact hinvalid

/-- A call has a result if it finds what it relies on. -/
theorem before_next (hn : l.before n = some s)
    (hin : (ExecOp.load (l.heap n) (l.stack n)).InBounds s) : ∃ s', l.before (n + 1) = some s' := by
  have hload := isSome_execStep.mpr hin
  rw [execStep, Option.isSome_map] at hload
  obtain ⟨r, hr⟩ := Option.isSome_iff_exists.mp hload
  exact ⟨_, by rw [before, hn, Option.bind_some, hr, Option.map_some]⟩

/-- Where the last section is looked at. -/
theorem before_end (h : 0 < l.e_shnum) (hs : l.before (l.e_shnum + 1) = some s) :
    l.before (l.e_shnum - 1 + 2) = some s := by
  rwa [show l.e_shnum - 1 + 2 = l.e_shnum + 1 by omega]

/-- A load that comes to its end has what it needs. -/
theorem Visits.visitable (hmem : l.EnoughMemory) (h : l.Visits) : l.Visitable := by
  obtain ⟨N, s, hN, hfinal, -⟩ := h
  have hbefore : ∀ m ≤ N, ∃ s, l.before m = some s := fun m hm => before_of_le hm hN
  -- the load is not at its end in any other state
  have hlt : ∀ m ≤ N, ∀ s', l.before m = some s' → s'.2.state ≠ .finalState → m < N := by
    intro m hm s' hs' hstate
    refine Nat.lt_of_le_of_ne hm fun he => hstate ?_
    obtain rfl := Option.some.inj ((he ▸ hs').symm.trans hN)
    exact hfinal
  have h1 : 0 < N := hlt 0 (Nat.zero_le N) _ rfl nofun
  obtain ⟨s₁, hs₁, hstate₁, -⟩ := before_one hmem
  have h2 : 1 < N := hlt 1 h1 s₁ hs₁ (hstate₁ ▸ nofun)
  obtain ⟨s₂, hs₂⟩ := hbefore 2 h2
  have hdef : l.header.e_shstrndx ≠ SHN_UNDEF := by
    intro hundef
    have hinvalid := invalid_stays hs₂ ((before_two hmem hs₂).1 hundef) h2 hN
    exact absurd (hfinal.symm.trans hinvalid) nofun
  have hnames := ((before_two hmem hs₂).2 hdef).1
  have hshnum : 0 < l.e_shnum := Nat.zero_lt_of_lt hnames
  have hsection : ∀ i < l.e_shnum, i + 2 < N := by
    intro i
    induction i with
    | zero =>
        intro hi
        exact hlt 2 h2 s₂ hs₂ ((atSection hmem hdef hi hs₂).state ▸ nofun)
    | succ i ih =>
        intro hi
        obtain ⟨s', hs'⟩ := hbefore (i + 3) (ih (Nat.lt_of_succ_lt hi))
        exact hlt _ (ih (Nat.lt_of_succ_lt hi)) s' hs' ((atSection hmem hdef hi hs').state ▸ nofun)
  have hend : l.e_shnum + 2 ≤ N := by
    have := hsection (l.e_shnum - 1) (by omega)
    omega
  obtain ⟨s₃, hs₃⟩ := hbefore _ hend
  have hlast : ∀ s, l.before (l.e_shnum + 1) = some s → ¬ s.2.elf.Skipped (l.e_shnum - 1) := by
    intro s hs hskipped
    have hat := atSection hmem hdef (by omega) (before_end hshnum hs)
    have hbehind := (atSection_succ hmem hs hat hs₃).2.2 fun hkept => hkept.2 hskipped
    rw [Nat.sub_add_cancel hshnum] at hbehind
    obtain ⟨s₄, hs₄⟩ := hbefore _ (hlt _ hend s₃ hs₃ (hbehind.state ▸ nofun))
    -- the next call looks at a section that is not there
    have hinside := (atSection_succ hmem hs₃ hbehind hs₄).1.1.2
    rw [ELF.e_shnum, hbehind.header] at hinside
    exact Nat.lt_irrefl _ hinside
  refine ⟨⟨hdef, hnames⟩, fun i hi s hs => ?_, hlast, fun s hs => ?_⟩
  · obtain ⟨s', hs'⟩ := hbefore (i + 3) (hsection i hi)
    exact (atSection_succ hmem hs (atSection hmem hdef hi hs) hs').1
  · obtain rfl := Option.some.inj (hs.symm.trans hs₃)
    obtain ⟨s', hs', -⟩ := before_succ hs
    have hat := atSection hmem hdef (by omega) (before_end hshnum hs')
    have hstate := (atSection_succ hmem hs' hat hs).2.1 ⟨by omega, hlast s' hs'⟩
    obtain ⟨s₄, hs₄⟩ := hbefore _ (hlt _ hend s hs (hstate ▸ nofun))
    exact (before_last hs hstate hs₄).1

theorem Visitable.visits (hmem : l.EnoughMemory) (h : l.Visitable) : l.Visits := by
  obtain ⟨hdef, hnames⟩ := h.names
  have hshnum : 0 < l.e_shnum := Nat.zero_lt_of_lt hnames
  have hsections : ∀ i ≤ l.e_shnum, ∃ s, l.before (i + 2) = some s := by
    intro i
    induction i with
    | zero =>
        intro _
        obtain ⟨s₁, hs₁, hstate, hheader, harrays, -⟩ := before_one hmem
        refine before_next hs₁ ?_
        simp only [ExecOp.InBounds, hstate]
        rw [hheader]
        intro _
        exact ⟨harrays, by rwa [ELF.e_shstrndx, ELF.e_shnum, hheader]⟩
    | succ i ih =>
        intro hi
        obtain ⟨s, hs⟩ := ih (Nat.le_of_succ_le hi)
        have hat := atSection hmem hdef hi hs
        refine before_next hs ?_
        simp only [ExecOp.InBounds, hat.state]
        rw [hat.iterator]
        exact h.sections i hi s hs
  obtain ⟨s, hs⟩ := hsections l.e_shnum (Nat.le_refl _)
  obtain ⟨s', hs', -⟩ := before_succ hs
  have hat := atSection hmem hdef (by omega) (before_end hshnum hs')
  have hstate := (atSection_succ hmem hs' hat hs).2.1 ⟨by omega, h.last s' hs'⟩
  obtain ⟨s'', hs''⟩ := before_next hs (by
    simp only [ExecOp.InBounds, hstate]
    exact h.postLoad s hs)
  refine ⟨_, s'', hs'', (before_last hs hstate hs'').2, ?_⟩
  rw [processed, hs]
  dsimp only
  rw [if_neg (by simp [hstate])]
  exact processed_eq hmem hdef (Nat.le_refl _) hs

end Loading

/-- **A load comes past every section once**, and to its end, exactly if it has what it needs: above
all, a last section that is not skipped. -/
theorem visits_iff (l : Loading) (hmem : l.EnoughMemory) : l.Visits ↔ l.Visitable :=
  ⟨fun h => h.visitable hmem, fun h => h.visits hmem⟩

/-- A section header; all its numbers are small. -/
def sectionBytes (sh_name sh_type sh_offset sh_size sh_link sh_entsize : UBYTE) : List UBYTE :=
  [sh_name, sh_type, 0#8, 0#8, sh_offset, sh_size, sh_link, 0#8, 0#8, sh_entsize].flatMap
    fun b => [b, 0#8, 0#8, 0#8]

/-- The first load after the system has started. -/
def loadingOf (bytes : List UBYTE) : Loading :=
  ⟨fileOf bytes, fun _ => 0#8, .init, memoryAt, fun _ => 0#32⟩

theorem loadingOf_enoughMemory (bytes : List UBYTE) : (loadingOf bytes).EnoughMemory :=
  fun _ => ⟨rfl, rfl⟩

/-- A file with an empty symbol table, which is its last section. -/
def emptySymbols : List UBYTE :=
  headerBytes 88 3 1 ++ literal "" ++ literal ".shstrtab" ++ literal ".symtab" ++
    List.replicate 17 0#8 ++
    sectionBytes 0 0 0 0 0 0 ++ sectionBytes 1 3 52 19 0 0 ++ sectionBytes 11 2 72 16 1 16

theorem visits_iff_emptySymbols :
    (loadingOf emptySymbols).Visits ∧ (loadingOf emptySymbols).Visitable := by
  obtain ⟨s, hs, hstate⟩ := (Option.any_eq_true _ _).mp
    (show ((loadingOf emptySymbols).before 6).any (fun s => decide (s.2.state = .finalState)) = true
      by decide +kernel)
  have hprocessed : (loadingOf emptySymbols).processed 6 =
      List.range (loadingOf emptySymbols).e_shnum := by decide +kernel
  have h : (loadingOf emptySymbols).Visits := ⟨6, s, hs, of_decide_eq_true hstate, hprocessed⟩
  exact ⟨h, (visits_iff _ (loadingOf_enoughMemory _)).mp h⟩

/-- A file whose last section has the names of the sections. -/
def namesLast : List UBYTE :=
  headerBytes 64 2 1 ++ literal "" ++ literal ".shstrtab" ++ [0#8] ++
    sectionBytes 0 0 0 0 0 0 ++ sectionBytes 1 3 52 11 0 0

/-- The load takes what is behind its two section headers for a third one. -/
theorem visits_not_namesLast : probe (loadingOf namesLast).header = .EXEC_PROBE_OK ∧
    ¬ (loadingOf namesLast).Visits := by
  refine ⟨by decide +kernel, fun h => ?_⟩
  obtain ⟨s, hs, hskipped⟩ := (Option.any_eq_true _ _).mp
    (show ((loadingOf namesLast).before 3).any (fun s => decide (s.2.elf.Skipped 1)) = true by
      decide +kernel)
  exact (h.visitable (loadingOf_enoughMemory _)).last s hs (of_decide_eq_true hskipped)

end Alliance.KL.Exec
