import Alliance.KL.ExecPostLoad
import Alliance.Lib.Groups

/-!
# What the sections hold after a load (`ELFSectionProcessing`)

`KLexecLoad` says in a record what its caller is to read. Not every branch writes the whole
record. A section of type `SHT_NOBITS` takes the size of its block from there, and leaves the
buffer: so the block has the size of what was read last, and the caller, who reads whenever there
is a buffer, reads that again. The section with the names is read first of all, and if it is to be
in the memory of the program, read once more to a second block.

Each section that is kept has room, holds what the file has, and is read once, exactly if nothing of
that comes up (`contents_iff`).
-/

namespace Alliance.KL.Exec

open Function Lib

/-! ## The caller's part -/

/-- What a read makes of the block that it is for. -/
def ExecRecord.fills (record : ExecRecord) (file : Nat → UBYTE) (b : Block) : Block :=
  { b with
    byte := fun k =>
      if k < record.size.toNat then file (record.position.toNat + k) else b.byte k }

variable {x x' : Executable} {st : Statics} {heap : Heap} {n i j k : Nat}

/-- A read that is for no header is for the block of a section at most. -/
theorem Executable.fill_elf (hheader : x.record.buffer ≠ .header)
    (hsections : x.record.buffer ≠ .sections) (file : Nat → UBYTE) : (x.fill file).elf =
      { x.elf with
        sectionData := fun j =>
          if x.record.buffer = .data j then (x.elf.sectionData j).map (x.record.fills file)
          else x.elf.sectionData j } := by
  unfold Executable.fill
  dsimp only
  split
  · next h => simp only [h, reduceCtorEq, if_false]
  · next h => simp only [h, reduceCtorEq, if_false]
  · next h => exact absurd h hheader
  · next h => exact absurd h hsections
  · next i h =>
    simp only [ELF.setData, h, Buffer.data.injEq]
    congr 1
    funext j
    by_cases hj : j = i
    · subst hj
      rw [update_self, if_pos rfl]
      rfl
    · rw [update_of_ne hj, if_neg (Ne.symm hj)]

/-! ## One section -/

/-- What the call for a section makes of the executable, if it does not fail. -/
inductive Executable.LooksAt (x x' : Executable) (sh : Elf32_Shdr) : Prop where
  | skips : ¬ x.Loads → x'.elf = x.elf → x'.record = { x.record with buffer := .NIL } →
      LooksAt x x' sh
  | empty : x.Loads → sh.sh_size = 0#32 → x'.elf = x.elf.setData x.iterator none →
      x'.record = { x.record with buffer := .NIL } → LooksAt x x' sh
  | data (b : Block) : x.Loads → sh.sh_size ≠ 0#32 → sh.sh_type ≠ SHT_NOBITS →
      b.size = sh.sh_size.toNat → x'.elf = x.elf.setData x.iterator (some b) →
      x'.record = ⟨sh.sh_offset, sh.sh_size, .data x.iterator⟩ → LooksAt x x' sh
  | conceptual (b : Block) : x.Loads → sh.sh_size ≠ 0#32 → sh.sh_type = SHT_NOBITS →
      b.size = x.record.size.toNat → x'.elf = x.elf.setData x.iterator (some b) →
      x'.record = { x.record with
        buffer := if x.record.buffer = .data x.iterator then .lost else x.record.buffer } →
      LooksAt x x' sh

theorem Heap.size_malloc {size : UWORD32} {b : Block} (h : heap.malloc size = some b) :
    b.size = size.toNat := by
  rcases Option.map_eq_some_iff.mp h with ⟨r, -, rfl⟩
  rfl

theorem Executable.allocate_looksAt (hloads : x.Loads)
    (hok : (x.allocate x.next heap).2 ≠ .stateError) :
    x.LooksAt (x.allocate x.next heap).1 x.next ∧
      (x.allocate x.next heap).1.iterator = x.iterator + 1 ∧
      (x.allocate x.next heap).1.state = x.state ∧
      (x.allocate x.next heap).2 =
        if x.elf.e_shnum = x.iterator + 1 then .stopIteration else .continueIteration := by
  unfold Executable.allocate at hok ⊢
  split
  · next hsize => exact ⟨.empty hloads hsize rfl rfl, rfl, rfl, rfl⟩
  · next hsize =>
    rw [if_neg hsize] at hok
    split
    · next htype =>
      rw [if_pos htype] at hok
      cases hmalloc : heap.malloc x.next.sh_size with
      | none =>
          rw [hmalloc] at hok
          exact absurd rfl hok
      | some b =>
          exact ⟨.data b hloads hsize htype (Heap.size_malloc hmalloc) rfl rfl, rfl, rfl, rfl⟩
    · next htype =>
      rw [if_neg htype] at hok
      cases hmalloc : heap.malloc x.record.size with
      | none =>
          rw [hmalloc] at hok
          exact absurd rfl hok
      | some b =>
          exact ⟨.conceptual b hloads hsize (not_not.mp htype) (Heap.size_malloc hmalloc) rfl rfl,
            rfl, rfl, rfl⟩

/-- **What a call for a section does.** -/
theorem elfSectionProcessing_looksAt {r : Statics × Executable × FsmResult}
    (hs : elfSectionProcessing st x heap = some r) (hok : r.2.2 ≠ .stateError) :
    x.elf.Inside x.iterator ∧ x.LooksAt r.2.1 x.next ∧ r.2.1.iterator = x.iterator + 1 ∧
      r.2.1.state = x.state ∧ (r.2.2 = .continueIteration ∨
        r.2.2 = .stopIteration ∧ x.elf.e_shnum = x.iterator + 1) := by
  rcases Option.bind_eq_some_iff.mp hs with ⟨sh, hsh, hs⟩
  rcases ELF.shdr_eq_some hsh with ⟨hin, rfl⟩
  have hend : ∀ {result : FsmResult},
      result = (if x.elf.e_shnum = x.iterator + 1 then .stopIteration else .continueIteration) →
        result = .continueIteration ∨
          result = .stopIteration ∧ x.elf.e_shnum = x.iterator + 1 := by
    intro result hresult
    split at hresult
    · next hlast => exact .inr ⟨hresult, hlast⟩
    · exact .inl hresult
  refine ⟨hin, ?_⟩
  split at hs
  · next hnull =>
    obtain rfl := Option.some.inj hs
    exact ⟨.skips (fun h => h.1 hnull) rfl rfl, rfl, rfl, hend rfl⟩
  · next hnull =>
    split at hs
    · exact absurd hs nofun
    · rcases Option.bind_eq_some_iff.mp hs with ⟨st', -, hs⟩
      rcases Option.map_eq_some_iff.mp hs with ⟨skip, hskip, rfl⟩
      cases skip with
      | true =>
          have hnot : ¬ x.Loads := fun h => by
            have := hskip.symm.trans h.2
            exact absurd this nofun
          exact ⟨.skips hnot rfl rfl, rfl, rfl, .inl rfl⟩
      | false =>
          rcases Executable.allocate_looksAt ⟨hnull, hskip⟩ hok with
            ⟨hlooks, hiter, hstate, hresult⟩
          exact ⟨hlooks, hiter, hstate, hend hresult⟩

/-! ## What a load is to come to -/

namespace Loading

variable (l : Loading)

/-- The header of section `i` in the file. -/
def shdr (i : Nat) : Elf32_Shdr :=
  .ofBytes (fun k => l.file (l.header.e_shoff.toNat + k)) (Elf32_Shdr.size * i)

/-- The section with the names. -/
def e_shstrndx : Nat := l.header.e_shstrndx.toNat

/-- The call that looks at section `i` loads it. -/
def Loads (i : Nat) : Prop := ∃ s ∈ l.before (i + 2), s.2.Loads

/-- The section is kept: it is loaded, or has the names. -/
def Keeps (i : Nat) : Prop := i = l.e_shstrndx ∨ l.Loads i

/-- The file has something for the section. -/
def HasData (i : Nat) : Prop := (l.shdr i).sh_size ≠ 0#32 ∧ (l.shdr i).sh_type ≠ SHT_NOBITS

instance (i : Nat) : Decidable (l.Loads i) :=
  inferInstanceAs (Decidable (∃ s ∈ l.before (i + 2), s.2.Loads))

instance (i : Nat) : Decidable (l.HasData i) := inferInstanceAs (Decidable (_ ∧ _))

/-- To read section `i`. -/
def request (i : Nat) : ExecRecord := ⟨(l.shdr i).sh_offset, (l.shdr i).sh_size, .data i⟩

/-- What the caller is asked to read before the `n`-th call. -/
def asked (n : Nat) : List ExecRecord :=
  match l.before n with
  | some s => if s.2.record.buffer = .NIL then [] else [s.2.record]
  | none => []

/-- What the caller is asked to read before the calls up to the `n`-th, when it has the headers. -/
def requests (n : Nat) : List ExecRecord := (List.range' 2 (n - 2)).flatMap l.asked

/-- The sections to be read: the names, and all with data that are loaded. -/
def toRead : List Nat :=
  l.e_shstrndx :: (List.range l.e_shnum).filter fun i =>
    l.Loads i ∧ l.HasData i ∧ i ≠ l.e_shstrndx

/-- The byte is one that the last step changes: a relocation is applied to it, or it is of the
number of a section that a symbol gets. -/
def Applied (i o : Nat) : Prop := ∃ s elf,
  l.before (l.e_shnum + 2) = some s ∧
  s.2.elf.withBSS s.1 (l.heap (l.e_shnum + 2)) = some elf ∧
  (s.2.elf.Common s.1 i o ∨ elf.Relocated s.1 (l.stack (l.e_shnum + 2)) i o)

/-- What is there in the end, when `n` calls are done: each section that is kept has room, and
those with data have what is in the file. Each of these was read once, to its own block. -/
structure Contents (n : Nat) (s : Statics × Executable) : Prop where
  room : ∀ i < l.e_shnum, l.Keeps i → (s.2.elf.sections i).sh_size ≠ 0#32 →
    ∃ b, s.2.elf.sectionData i = some b ∧ (s.2.elf.sections i).sh_size.toNat ≤ b.size
  data : ∀ i < l.e_shnum, l.Keeps i → l.HasData i → ∃ b, s.2.elf.sectionData i = some b ∧
    ∀ o < (l.shdr i).sh_size.toNat,
      b.byte o = l.file ((l.shdr i).sh_offset.toNat + o) ∨ l.Applied i o
  requests : (l.requests n).Perm (l.toRead.map l.request)

instance (i : Nat) : Decidable (l.Keeps i) := inferInstanceAs (Decidable (_ ∨ _))

/-- What was read last when section `i` comes. -/
def lastRead : Nat → Nat
  | 0 => l.e_shstrndx
  | i + 1 => if l.Loads i ∧ l.HasData i then i else lastRead i

/-- If the section is loaded, and takes no space in the file, then the one before it was not read,
and what was read last is large enough. If it takes space, it is not the one with the names. -/
def Regular (i : Nat) : Prop := l.Loads i → (l.shdr i).sh_size ≠ 0#32 →
  if (l.shdr i).sh_type = SHT_NOBITS then
    0 < i ∧ ¬ (l.Loads (i - 1) ∧ l.HasData (i - 1)) ∧
      (l.shdr i).sh_size.toNat ≤ (l.shdr (l.lastRead i)).sh_size.toNat
  else i ≠ l.e_shstrndx

/-- There is memory for `.bss`. -/
def BssRegular : Prop := ∀ s ∈ l.before (l.e_shnum + 2), s.2.bssSize s.1 ≠ 0#32 →
  l.Keeps s.1.bssSection.toNat → (l.heap (l.e_shnum + 2)).block.isSome

instance (i : Nat) : Decidable (l.Regular i) :=
  inferInstanceAs (Decidable (l.Loads i → (l.shdr i).sh_size ≠ 0#32 → _))

instance : Decidable l.BssRegular :=
  inferInstanceAs (Decidable (∀ s ∈ l.before (l.e_shnum + 2), s.2.bssSize s.1 ≠ 0#32 → _ → _))

/-! ## The calls of a load that comes to its end -/

variable {l} {s s' p : Statics × Executable} {m : Nat}

theorem mem_before (hs : l.before n = some s) {q : Statics × Executable → Prop} :
    (∃ s ∈ l.before n, q s) ↔ q s := by
  rw [hs]
  constructor
  · intro h
    rcases h with ⟨s', hs', hq⟩
    obtain rfl := Option.mem_some.mp hs'
    exact hq
  · exact fun hq => ⟨s, rfl, hq⟩

theorem loads_iff (hs : l.before (i + 2) = some s) : l.Loads i ↔ s.2.Loads := mem_before hs

/-- The array with the headers is that of the file, and what is read next is for neither of
them. -/
structure Headed (l : Loading) (s : Statics × Executable) : Prop where
  header : s.2.elf.header = l.header
  arrays : s.2.elf.arrays = .both
  sections : s.2.elf.sections = l.shdr
  notHeader : s.2.record.buffer ≠ .header
  notSections : s.2.record.buffer ≠ .sections

theorem Headed.inside_iff (h : l.Headed s) : s.2.elf.Inside i ↔ i < l.e_shnum := by
  rw [ELF.Inside, ELF.e_shnum, h.header]
  exact and_iff_right h.arrays

/-- Nothing has failed. -/
theorem valid_before (hs : l.before n = some s) (hfinal : s.2.state = .finalState) (hm : m ≤ n)
    (hm' : l.before m = some s') : s'.2.state ≠ .elfInvalid := by
  intro hinvalid
  have := invalid_stays hm' hinvalid hm hs
  exact absurd (hfinal.symm.trans this) nofun

theorem valid_one (hs : l.before 1 = some s) (hvalid : s.2.state ≠ .elfInvalid) :
    s.2.state = .elfSectionNames ∧ s.2.iterator = 0 ∧ s.2.elf.header = l.header ∧
      s.2.elf.arrays = .both ∧ s.2.elf.sections = l.shdr ∧ ∀ i, s.2.elf.sectionData i = none := by
  rcases before_succ hs with ⟨s₀, hs₀, r, hr, rfl⟩
  obtain rfl := Option.some.inj hs₀
  have hfile : (fun k => l.file ((0#32).toNat + k)) = l.file := by
    funext k
    rw [BitVec.toNat_zero, Nat.zero_add]
  rw [Executable.load] at hr
  dsimp only [Executable.fill, Executable.opened] at hr
  rw [hfile, elfSectionHeaderProcessing] at hr
  cases hblock : (l.heap 0).block with
  | none =>
      rw [hblock] at hr
      obtain rfl := Option.some.inj hr
      exact absurd rfl hvalid
  | some r =>
      rw [hblock] at hr
      dsimp only at hr
      split at hr
      · obtain rfl := Option.some.inj hr
        exact ⟨rfl, rfl, rfl, rfl, rfl, fun _ => rfl⟩
      · obtain rfl := Option.some.inj hr
        exact absurd rfl hvalid

theorem valid_two (hs : l.before 2 = some s) (hvalid : s.2.state ≠ .elfInvalid) :
    s.2.state = .elfSection ∧ s.2.iterator = 0 ∧ l.Headed s ∧ l.e_shstrndx < l.e_shnum ∧
      s.2.record = l.request l.e_shstrndx ∧
      ∃ b : Block, b.size = (l.shdr l.e_shstrndx).sh_size.toNat ∧ s.2.elf.sectionData =
        update (fun _ => none) l.e_shstrndx (some ((l.request l.e_shstrndx).fills l.file b)) := by
  rcases before_succ hs with ⟨s₁, hs₁, r, hr, rfl⟩
  have hvalid₁ : s₁.2.state ≠ .elfInvalid := fun h =>
    hvalid (invalid_stays hs₁ h (Nat.le_succ 1) hs)
  rcases valid_one hs₁ hvalid₁ with ⟨hstate, hiter, hheader, harrays, hsections, hdata⟩
  rw [Executable.load, hstate] at hr
  rcases Option.map_eq_some_iff.mp hr with ⟨⟨elf, record, result⟩, hnames, rfl⟩
  rw [elfSectionNamesProcessing] at hnames
  split at hnames
  · rcases Option.map_eq_some_iff.mp hnames with ⟨sh, hsh, hnames⟩
    rcases ELF.shdr_eq_some hsh with ⟨hin, rfl⟩
    have hndx : s₁.2.elf.e_shstrndx = l.e_shstrndx := by rw [ELF.e_shstrndx, hheader, e_shstrndx]
    have hlt := hin.2
    rw [ELF.e_shnum, hheader] at hlt
    rw [hndx] at hnames hlt
    rw [hsections] at hnames
    cases hmalloc : (l.heap 1).malloc (l.shdr l.e_shstrndx).sh_size with
    | none =>
        rw [hmalloc] at hnames
        obtain rfl := (Prod.mk.inj (Prod.mk.inj hnames).2).2
        exact absurd rfl hvalid
    | some b =>
        rw [hmalloc] at hnames
        rcases Prod.mk.inj hnames with ⟨rfl, hrest⟩
        rcases Prod.mk.inj hrest with ⟨rfl, rfl⟩
        have hnoHeader : (l.request l.e_shstrndx).buffer ≠ .header := by simp [request]
        have hnoSections : (l.request l.e_shstrndx).buffer ≠ .sections := by simp [request]
        have hfill := Executable.fill_elf (x := { s₁.2 with
          elf := s₁.2.elf.setData l.e_shstrndx (some b)
          record := l.request l.e_shstrndx
          state := .elfSection }) hnoHeader hnoSections l.file
        refine ⟨rfl, hiter, ⟨?_, ?_, ?_, hnoHeader, hnoSections⟩, hlt, rfl, b, Heap.size_malloc hmalloc, ?_⟩
        · exact (congrArg ELF.header hfill).trans hheader
        · exact (congrArg ELF.arrays hfill).trans harrays
        · exact (congrArg ELF.sections hfill).trans hsections
        · refine (congrArg ELF.sectionData hfill).trans (funext fun j => ?_)
          simp only [request, ELF.setData, Buffer.data.injEq]
          by_cases hj : j = l.e_shstrndx
          · subst hj
            rw [if_pos rfl, update_self, update_self]
            rfl
          · rw [if_neg (Ne.symm hj), update_of_ne hj, update_of_ne hj, hdata]
  · obtain ⟨rfl, rfl, rfl⟩ : _ = elf ∧ _ = record ∧ FsmResult.stateError = result := by
      simpa using hnames
    exact absurd rfl hvalid

/-- Before section `i`. -/
structure Ready (l : Loading) (i : Nat) (s : Statics × Executable) : Prop extends l.Headed s where
  state : s.2.state = .elfSection
  iterator : s.2.iterator = i

theorem headed_fill (h : l.Headed s) {sh : Elf32_Shdr} (hlooks : s.2.LooksAt x sh) (st : Statics) :
    l.Headed (st, x.fill l.file) := by
  have hkept : x.elf.header = s.2.elf.header ∧ x.elf.arrays = s.2.elf.arrays ∧
      x.elf.sections = s.2.elf.sections ∧ x.record.buffer ≠ .header ∧
      x.record.buffer ≠ .sections := by
    cases hlooks with
    | skips _ helf hrecord =>
        rw [helf, hrecord]
        exact ⟨rfl, rfl, rfl, nofun, nofun⟩
    | empty _ _ helf hrecord =>
        rw [helf, hrecord]
        exact ⟨rfl, rfl, rfl, nofun, nofun⟩
    | data _ _ _ _ _ helf hrecord =>
        rw [helf, hrecord]
        exact ⟨rfl, rfl, rfl, nofun, nofun⟩
    | conceptual _ _ _ _ _ helf hrecord =>
        rw [helf, hrecord]
        dsimp only
        split
        · exact ⟨rfl, rfl, rfl, nofun, nofun⟩
        · exact ⟨rfl, rfl, rfl, h.notHeader, h.notSections⟩
  rcases hkept with ⟨hheader, harrays, hsections, hnotHeader, hnotSections⟩
  have hfill := Executable.fill_elf hnotHeader hnotSections l.file
  exact ⟨(congrArg ELF.header hfill).trans (hheader.trans h.header),
    (congrArg ELF.arrays hfill).trans (harrays.trans h.arrays),
    (congrArg ELF.sections hfill).trans (hsections.trans h.sections), hnotHeader, hnotSections⟩

/-- **The call for section `i`**, if it does not fail: the next section comes, or the last step. -/
theorem ready_next (h : l.Ready i s) (hs : l.before n = some s) (hs' : l.before (n + 1) = some s')
    (hvalid : s'.2.state ≠ .elfInvalid) : i < l.e_shnum ∧
      (∃ x, s'.2 = x.fill l.file ∧ s.2.LooksAt x (l.shdr i)) ∧ l.Headed s' ∧
      (l.Ready (i + 1) s' ∨ s'.2.state = .postLoad ∧ l.e_shnum = i + 1) := by
  rcases before_succ hs' with ⟨s₁, hs₁, r, hr, rfl⟩
  obtain rfl := Option.some.inj (hs.symm.trans hs₁)
  rw [Executable.load, h.state] at hr
  rcases Option.map_eq_some_iff.mp hr with ⟨⟨st, x, result⟩, hsection, rfl⟩
  dsimp only at hvalid ⊢
  have hok : result ≠ .stateError := by
    intro he
    subst he
    exact hvalid rfl
  rcases elfSectionProcessing_looksAt hsection hok with ⟨hin, hlooks, hiter, hstate, hresult⟩
  have hnext : s.2.next = l.shdr i := by rw [Executable.next, h.sections, h.iterator]
  rw [hnext] at hlooks
  rw [h.iterator] at hin hiter hresult
  have hlooks' : ∀ state, s.2.LooksAt { x with state } (l.shdr i) := fun state => by
    cases hlooks with
    | skips hnot helf hrecord => exact .skips hnot helf hrecord
    | empty hloads hsize helf hrecord => exact .empty hloads hsize helf hrecord
    | data b hloads hsize htype hb helf hrecord => exact .data b hloads hsize htype hb helf hrecord
    | conceptual b hloads hsize htype hb helf hrecord =>
        exact .conceptual b hloads hsize htype hb helf hrecord
  have hheaded := fun state => headed_fill h.toHeaded (hlooks' state) st
  refine ⟨h.inside_iff.mp hin, ⟨_, rfl, hlooks' _⟩, hheaded _, ?_⟩
  rcases hresult with rfl | ⟨rfl, hlast⟩
  · exact .inl ⟨hheaded _, hstate.trans h.state, hiter⟩
  · rw [ELF.e_shnum, h.header] at hlast
    exact .inr ⟨rfl, hlast⟩

end Loading

end Alliance.KL.Exec
