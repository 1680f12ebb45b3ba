import Alliance.KL.ExecReloc

/-!
# What the last step changes (`loader.c`)

When all sections are read, symbols get a place in `.bss`, and the relocations are applied. The
steps here write to blocks that sections have, so these keep their size, and all bytes but the ones
written. Which these are depends on the entries of the tables, as they are when the loops come to
them.
-/

namespace Alliance.KL.Exec

open Function Lib

/-! ## Bytes of sections -/

/-- `b'` is `b` but for bytes in `V`. -/
def Block.ChangedIn (V : Nat → Prop) (b b' : Block) : Prop :=
  b'.size = b.size ∧ ∀ o, b'.byte o = b.byte o ∨ V o

/-- `elf'` is `elf` but for bytes in `W`, which has pairs of a section and a place in its block. -/
structure ELF.ChangedIn (elf : ELF) (W : Nat → Nat → Prop) (elf' : ELF) : Prop where
  header : elf'.header = elf.header
  arrays : elf'.arrays = elf.arrays
  sections : elf'.sections = elf.sections
  data : ∀ j, Option.Rel (Block.ChangedIn (W j)) (elf.sectionData j) (elf'.sectionData j)

section Rel

variable {V V' : Nat → Prop} {q q' q'' : Option Block} {b b' : Block}

theorem rel_refl (q : Option Block) (V : Nat → Prop) : Option.Rel (Block.ChangedIn V) q q := by
  cases q with
  | none => exact .none
  | some b => exact .some ⟨rfl, fun _ => .inl rfl⟩

theorem rel_mono (h : Option.Rel (Block.ChangedIn V) q q') (hV : ∀ o, V o → V' o) :
    Option.Rel (Block.ChangedIn V') q q' := by
  cases h with
  | none => exact .none
  | some hb => exact .some ⟨hb.1, fun o => (hb.2 o).imp_right (hV o)⟩

theorem rel_trans (h : Option.Rel (Block.ChangedIn V) q q')
    (h' : Option.Rel (Block.ChangedIn V) q' q'') : Option.Rel (Block.ChangedIn V) q q'' := by
  cases h with
  | none =>
      cases h' with
      | none => exact .none
  | some hb =>
      cases h' with
      | some hb' =>
          refine .some ⟨hb'.1.trans hb.1, fun o => ?_⟩
          rcases hb'.2 o with he | hw
          · rw [he]
            exact hb.2 o
          · exact .inr hw

theorem rel_size (h : Option.Rel (Block.ChangedIn V) q q') :
    q'.map Block.size = q.map Block.size := by
  cases h with
  | none => rfl
  | some hb => exact congrArg some hb.1

theorem rel_some (h : Option.Rel (Block.ChangedIn V) (some b) q') :
    ∃ b', q' = some b' ∧ b.ChangedIn V b' := by
  cases h with
  | some hb => exact ⟨_, rfl, hb⟩

end Rel

namespace ELF.ChangedIn

variable {elf elf' elf'' : ELF} {W W' : Nat → Nat → Prop} {i : Nat} {b b' : Block}

theorem refl (elf : ELF) (W : Nat → Nat → Prop) : elf.ChangedIn W elf :=
  ⟨rfl, rfl, rfl, fun j => rel_refl (elf.sectionData j) (W j)⟩

theorem mono (h : elf.ChangedIn W elf') (hW : ∀ j o, W j o → W' j o) : elf.ChangedIn W' elf' :=
  ⟨h.header, h.arrays, h.sections, fun j => rel_mono (h.data j) (hW j)⟩

theorem trans (h : elf.ChangedIn W elf') (h' : elf'.ChangedIn W elf'') : elf.ChangedIn W elf'' :=
  ⟨h'.header.trans h.header, h'.arrays.trans h.arrays, h'.sections.trans h.sections,
    fun j => rel_trans (h.data j) (h'.data j)⟩

/-- A write to the block of a section. -/
theorem write {n o : Nat} {w : BitVec n} (hb : elf.block i = some b) (hw : b.write o w = some b') :
    elf.ChangedIn (fun j k => j = i ∧ o ≤ k ∧ k < o + n / 8) (elf.setData i (some b')) := by
  obtain rfl : b' = b.put o w := by
    unfold Block.write at hw
    split at hw
    · exact (Option.some.inj hw).symm
    · exact absurd hw nofun
  refine ⟨rfl, rfl, rfl, fun j => ?_⟩
  rw [sectionData_setData]
  by_cases hj : j = i
  · subst hj
    rw [update_self, (block_eq_some hb).2]
    refine .some ⟨rfl, fun k => ?_⟩
    by_cases hk : o ≤ k ∧ k < o + n / 8
    · exact .inr ⟨rfl, hk⟩
    · exact .inl (Block.byte_put_of_outside w (by omega))
  · rw [update_of_ne hj]
    exact rel_refl _ _

/-- What the steps of a loop over `l` change, each in the state that it finds. -/
def Steps {ρ α : Type} (f : ρ → α → Option ρ) (W : ρ → α → Nat → Nat → Prop) (l : List α) (r : ρ)
    (j o : Nat) : Prop :=
  ∃ done a rest r', l = done ++ a :: rest ∧ done.foldlM f r = some r' ∧ W r' a j o

/-- **A loop** whose steps change bytes only. -/
theorem foldlM {ρ α : Type} {f : ρ → α → Option ρ} {W : ρ → α → Nat → Nat → Prop} (part : ρ → ELF)
    {l : List α} {r r' : ρ}
    (hstep : ∀ {r a r'}, f r a = some r' → (part r).ChangedIn (W r a) (part r'))
    (hs : l.foldlM f r = some r') : (part r).ChangedIn (Steps f W l r) (part r') := by
  have hall := foldlM_prefixes (I := fun done r' => done.foldlM f r = some r' ∧
    (part r).ChangedIn (Steps f W l r) (part r')) hs ⟨rfl, refl _ _⟩ ?_
  · exact hall.2
  · intro done a rest r₁ r₂ hl h hs
    refine ⟨?_, h.2.trans ((hstep hs).mono fun j o hw => ⟨done, a, rest, r₁, hl, h.1, hw⟩)⟩
    rw [List.foldlM_append, h.1]
    exact (congrArg (Option.bind · some) hs)

end ELF.ChangedIn

/-! ## Common storage -/

variable {st : Statics} {elf elf' : ELF} {heap : Heap} {stack : UWORD32} {i k link : Nat}

/-- The section number of a symbol that no section has. -/
def ELF.CommonPlace (elf : ELF) (st : Statics) (k o : Nat) : Prop :=
  ∃ symbols shndx, elf.block st.symTabSection.toNat = some symbols ∧
    symbols.st_shndx k = some shndx ∧ elf.header.e_shnum < shndx ∧
    Elf32_Sym.size * k + 14 ≤ o ∧ o < Elf32_Sym.size * k + 16

theorem bssEntry_changed {r r' : ELF × UWORD32} (hs : bssEntry st r k = some r') :
    r.1.ChangedIn (fun j o => j = st.symTabSection.toNat ∧ r.1.CommonPlace st k o) r'.1 := by
  rcases Option.bind_eq_some_iff.mp hs with ⟨symbols, hsymbols, hs⟩
  rcases Option.bind_eq_some_iff.mp hs with ⟨shndx, hshndx, hs⟩
  split at hs
  · obtain rfl := Option.some.inj hs
    exact .refl _ _
  · next hlt =>
    rcases Option.bind_eq_some_iff.mp hs with ⟨info, -, hs⟩
    split at hs
    · obtain rfl := Option.some.inj hs
      exact .refl _ _
    · rcases Option.bind_eq_some_iff.mp hs with ⟨size, -, hs⟩
      rcases Option.map_eq_some_iff.mp hs with ⟨written, hw, rfl⟩
      refine (ELF.ChangedIn.write hsymbols hw).mono fun j o ho => ⟨ho.1, ?_⟩
      exact ⟨symbols, shndx, hsymbols, hshndx, BitVec.not_le.mp hlt, ho.2.1, ho.2.2⟩

/-- The bytes of the table of symbols that say where common storage is. -/
def ELF.Common (elf : ELF) (st : Statics) (j o : Nat) : Prop :=
  ELF.ChangedIn.Steps (bssEntry st)
    (fun r k j o => j = st.symTabSection.toNat ∧ r.1.CommonPlace st k o)
    (List.range (elf.entries st.symTabSection.toNat)) (elf, 0#32) j o

/-- What is done for `.bss` when all is read. -/
def ELF.withBSS (elf : ELF) (st : Statics) (heap : Heap) : Option ELF :=
  (elf.shdr st.bssSection.toNat).bind fun sh =>
    if sh.sh_size = 0#32 then elfSizeAndAssignMemToBSS st elf heap else some elf

theorem elfPostLoad_eq : elfPostLoad st elf heap stack =
    (elf.withBSS st heap).bind fun elf => elfResolveRelocations st elf stack := by
  unfold elfPostLoad ELF.withBSS
  rw [Option.bind_assoc]

/-- **Common storage**: the table of symbols is changed, and the section gets a block if
there is something to be put there. -/
theorem withBSS_changed {x : Executable} (hs : x.elf.withBSS st heap = some elf') :
    ∃ elf₁, x.elf.ChangedIn (x.elf.Common st) elf₁ ∧
      elf' = if x.bssSize st = 0#32 then elf₁
        else elf₁.assignBSS st.bssSection.toNat (x.bssSize st) heap := by
  rcases Option.bind_eq_some_iff.mp hs with ⟨sh, hsh, hs⟩
  obtain rfl := (ELF.shdr_eq_some hsh).2
  split at hs
  · next hsize =>
    rcases Option.bind_eq_some_iff.mp hs with ⟨table, htable, hs⟩
    obtain rfl := (ELF.shdr_eq_some htable).2
    split at hs
    · exact absurd hs nofun
    · split at hs
      · exact absurd hs nofun
      · rcases Option.bind_eq_some_iff.mp hs with ⟨⟨moved, total⟩, hmoved, hs⟩
        have htotal : x.bssSize st = total := by
          unfold Executable.bssSize
          rw [if_pos hsize, hmoved]
          rfl
        refine ⟨moved, ELF.ChangedIn.foldlM Prod.fst bssEntry_changed hmoved, ?_⟩
        rw [htotal]
        dsimp only at hs
        split at hs
        · next hzero =>
          rw [if_pos hzero]
          exact (Option.some.inj hs).symm
        · next hne =>
          split at hs
          · exact absurd hs nofun
          · rw [if_neg hne]
            exact (Option.some.inj hs).symm
  · next hsize =>
    have hzero : x.bssSize st = 0#32 := if_neg hsize
    refine ⟨x.elf, .refl _ _, ?_⟩
    rw [if_pos hzero]
    exact (Option.some.inj hs).symm

/-! ## Relocations -/

/-- The place of entry `i` of `.rel.text`. -/
def ELF.RelocPlace (elf : ELF) (st : Statics) (i o : Nat) : Prop :=
  ∃ relocs offset, elf.block st.relocTableSection.toNat = some relocs ∧
    relocs.r_offset i = some offset ∧ offset.toNat ≤ o ∧ o < offset.toNat + 4

theorem relocEntry_changed (hs : relocEntry st stack link elf i = some elf') :
    elf.ChangedIn (fun j o => j = st.textSection.toNat ∧ elf.RelocPlace st i o) elf' := by
  unfold relocEntry at hs
  split at hs
  · exact absurd hs nofun
  · rcases Option.bind_eq_some_iff.mp hs with ⟨relocs, hrelocs, hs⟩
    rcases Option.bind_eq_some_iff.mp hs with ⟨info, -, hs⟩
    rcases Option.bind_eq_some_iff.mp hs with ⟨symbols, -, hs⟩
    rcases Option.bind_eq_some_iff.mp hs with ⟨symbolInfo, -, hs⟩
    split at hs
    · obtain rfl := Option.some.inj hs
      exact .refl _ _
    · rcases Option.bind_eq_some_iff.mp hs with ⟨sh, -, hs⟩
      split at hs
      · obtain rfl := Option.some.inj hs
        exact .refl _ _
      · rcases Option.bind_eq_some_iff.mp hs with ⟨offset, hoffset, hs⟩
        rcases Option.bind_eq_some_iff.mp hs with ⟨info', -, hs⟩
        have hplace : ∀ {b b' : Block} {w : UWORD32},
            elf.block st.textSection.toNat = some b → b.write offset.toNat w = some b' →
            elf.ChangedIn (fun j o => j = st.textSection.toNat ∧ elf.RelocPlace st i o)
              (elf.setData st.textSection.toNat (some b')) := fun hb hw =>
          (ELF.ChangedIn.write hb hw).mono fun j o ho =>
            ⟨ho.1, relocs, offset, hrelocs, hoffset, ho.2.1, ho.2.2⟩
        split at hs
        · rcases Option.bind_eq_some_iff.mp hs with ⟨shndx, -, hs⟩
          rcases Option.bind_eq_some_iff.mp hs with ⟨target, -, hs⟩
          rcases Option.bind_eq_some_iff.mp hs with ⟨value, -, hs⟩
          rcases Option.bind_eq_some_iff.mp hs with ⟨text, htext, hs⟩
          rcases Option.bind_eq_some_iff.mp hs with ⟨machineWord, -, hs⟩
          rcases Option.map_eq_some_iff.mp hs with ⟨written, hw, rfl⟩
          exact hplace htext hw
        · split at hs
          · rcases Option.bind_eq_some_iff.mp hs with ⟨value, -, hs⟩
            rcases Option.bind_eq_some_iff.mp hs with ⟨text, htext, hs⟩
            rcases Option.map_eq_some_iff.mp hs with ⟨written, hw, rfl⟩
            exact hplace htext hw
          · obtain rfl := Option.some.inj hs
            exact .refl _ _

/-- The bytes that relocations are applied to. -/
def ELF.Relocated (elf : ELF) (st : Statics) (stack : UWORD32) (j o : Nat) : Prop :=
  ELF.ChangedIn.Steps
    (relocEntry st stack (elf.sections st.relocTableSection.toNat).sh_link.toNat)
    (fun elf i j o => j = st.textSection.toNat ∧ elf.RelocPlace st i o)
    (List.range (elf.entries st.relocTableSection.toNat)) elf j o

theorem elfResolveRelocations_changed (hs : elfResolveRelocations st elf stack = some elf') :
    elf.ChangedIn (elf.Relocated st stack) elf' := by
  unfold elfResolveRelocations at hs
  split at hs
  · obtain rfl := Option.some.inj hs
    exact .refl _ _
  · rcases Option.bind_eq_some_iff.mp hs with ⟨sh, hsh, hs⟩
    obtain rfl := (ELF.shdr_eq_some hsh).2
    split at hs
    · exact absurd hs nofun
    · exact ELF.ChangedIn.foldlM id relocEntry_changed hs

end Alliance.KL.Exec
