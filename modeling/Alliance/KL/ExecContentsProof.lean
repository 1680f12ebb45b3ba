import Alliance.KL.ExecContents

/-!
# What the sections hold after a load, proved

A load that comes to its end calls once for each section, and then for the last step. From what
such a call makes of the blocks (`Called`) follow what the sections hold before the last step, and
what the caller has been asked to read.
-/

namespace Alliance.KL.Exec.Loading

open Function Lib

variable {l : Loading} {s s' p : Statics × Executable} {x : Executable} {n m i j k : Nat}

/-! ## The call for a section, and the read behind it -/

/-- What they make of the data of the sections. -/
inductive Called (l : Loading) (i : Nat) (s s' : Statics × Executable) : Prop where
  | skips : ¬ s.2.Loads → s'.2.elf.sectionData = s.2.elf.sectionData →
      s'.2.record = { s.2.record with buffer := .NIL } → Called l i s s'
  | empty : s.2.Loads → (l.shdr i).sh_size = 0#32 →
      s'.2.elf.sectionData = update s.2.elf.sectionData i none →
      s'.2.record = { s.2.record with buffer := .NIL } → Called l i s s'
  | data (b : Block) : s.2.Loads → l.HasData i → b.size = (l.shdr i).sh_size.toNat →
      s'.2.elf.sectionData =
        update s.2.elf.sectionData i (some ((l.request i).fills l.file b)) →
      s'.2.record = l.request i → Called l i s s'
  | conceptual (b : Block) : s.2.Loads → (l.shdr i).sh_size ≠ 0#32 →
      (l.shdr i).sh_type = SHT_NOBITS → b.size = s.2.record.size.toNat →
      s'.2.elf.sectionData = update
        (fun j => if s.2.record.buffer = .data j
          then (s.2.elf.sectionData j).map (s.2.record.fills l.file) else s.2.elf.sectionData j)
        i (some b) →
      (s'.2.record.buffer = .NIL ↔ s.2.record.buffer = .NIL) →
      s'.2.record.size = s.2.record.size → Called l i s s'

theorem called (hlooks : s.2.LooksAt x (l.shdr i)) (hiter : s.2.iterator = i)
    (hs' : s'.2 = x.fill l.file) (h' : l.Headed s') : l.Called i s s' := by
  have hrecord : s'.2.record = x.record := by
    rw [hs']
    rfl
  have hdata := congrArg ELF.sectionData
    (Executable.fill_elf (hrecord ▸ h'.notHeader) (hrecord ▸ h'.notSections) l.file)
  rw [← hs'] at hdata
  dsimp only at hdata
  cases hlooks with
  | skips hnot helf hx =>
      simp only [hx, reduceCtorEq, if_false] at hdata
      exact .skips hnot (hdata.trans (congrArg ELF.sectionData helf)) (hrecord.trans hx)
  | empty hloads hsize helf hx =>
      simp only [hx, reduceCtorEq, if_false] at hdata
      refine .empty hloads hsize (hdata.trans ?_) (hrecord.trans hx)
      rw [helf, hiter]
      rfl
  | data b hloads hsize htype hb helf hx =>
      rw [hiter] at hx helf
      refine .data b hloads ⟨hsize, htype⟩ hb (hdata.trans (funext fun j => ?_)) (hrecord.trans hx)
      rw [hx, helf, sectionData_setData]
      simp only [Buffer.data.injEq]
      by_cases hj : j = i
      · subst hj
        rw [if_pos rfl, update_self, update_self]
        rfl
      · rw [if_neg (Ne.symm hj), update_of_ne hj, update_of_ne hj]
  | conceptual b hloads hsize htype hb helf hx =>
      rw [hiter] at hx helf
      refine .conceptual b hloads hsize htype hb (hdata.trans (funext fun j => ?_)) ?_ ?_
      · rw [hx, helf, sectionData_setData]
        by_cases hj : j = i
        · -- its own block is not the one that was to be read last
          subst hj
          rw [update_self, update_self, if_neg]
          dsimp only
          split
          · nofun
          · next hne => exact hne
        · rw [update_of_ne hj, update_of_ne hj]
          dsimp only
          split
          · next hbuffer =>
            have hne : s.2.record.buffer ≠ .data j := fun h =>
              hj (Buffer.data.inj (h.symm.trans hbuffer))
            rw [if_neg nofun, if_neg hne]
          · rfl
      · rw [hrecord, hx]
        dsimp only
        split
        · next hbuffer =>
          rw [hbuffer]
          exact ⟨nofun, nofun⟩
        · exact Iff.rfl
      · rw [hrecord, hx]

/-! ## The calls one after the other -/

theorem final_stays (hm : l.before m = some s) (hfinal : s.2.state = .finalState)
    (hnil : s.2.record.buffer = .NIL) (hk : m ≤ k) : l.before k = some s := by
  induction k, hk using Nat.le_induction with
  | base => exact hm
  | succ k _ ih =>
      have hload : s.2.load s.1 (l.heap k) (l.stack k) =
          some (s.1, s.2, .EXEC_LOAD_FINISHED) := by
        rw [Executable.load, hfinal]
      have hfill : s.2.fill l.file = s.2 := by
        unfold Executable.fill
        rw [hnil]
      rw [before, ih, Option.bind_some, hload, Option.map_some, hfill]

/-- The load is not at its end in any other state. -/
theorem lt_of_state (hs : l.before n = some s) (hfinal : s.2.state = .finalState) (hm : m ≤ n)
    (hm' : l.before m = some s') (hstate : s'.2.state ≠ .finalState) : m < n := by
  refine Nat.lt_of_le_of_ne hm fun he => hstate ?_
  subst he
  obtain rfl := Option.some.inj (hm'.symm.trans hs)
  exact hfinal

theorem ready_at (hs : l.before n = some s) (hfinal : s.2.state = .finalState)
    (hi : i < l.e_shnum) : i + 2 < n ∧ ∃ s₁, l.before (i + 2) = some s₁ ∧ l.Ready i s₁ := by
  induction i with
  | zero =>
      have h0 := lt_of_state hs hfinal (Nat.zero_le n) rfl nofun
      rcases before_of_le h0 hs with ⟨s₁, hs₁⟩
      have hstate₁ := (valid_one hs₁ (valid_before hs hfinal h0 hs₁)).1
      have h1 := lt_of_state hs hfinal h0 hs₁ (hstate₁ ▸ nofun)
      rcases before_of_le h1 hs with ⟨s₂, hs₂⟩
      rcases valid_two hs₂ (valid_before hs hfinal h1 hs₂) with ⟨hstate, hiter, hheaded, -⟩
      exact ⟨lt_of_state hs hfinal h1 hs₂ (hstate ▸ nofun), s₂, hs₂, hheaded, hstate, hiter⟩
  | succ i ih =>
      rcases ih (Nat.lt_of_succ_lt hi) with ⟨hlt, s₁, hs₁, hready⟩
      rcases before_of_le hlt hs with ⟨s₂, hs₂⟩
      rcases ready_next hready hs₁ hs₂ (valid_before hs hfinal hlt hs₂) with ⟨-, -, -, hnext⟩
      rcases hnext with hnext | ⟨-, hlast⟩
      · exact ⟨lt_of_state hs hfinal hlt hs₂ (hnext.state ▸ nofun), s₂, hs₂, hnext⟩
      · omega

/-- The call for a section. -/
theorem called_at (hs : l.before n = some s) (hfinal : s.2.state = .finalState)
    (hi : i < l.e_shnum) : ∃ s₁ s₂, l.before (i + 2) = some s₁ ∧ l.before (i + 3) = some s₂ ∧
      l.Ready i s₁ ∧ l.Called i s₁ s₂ := by
  rcases ready_at hs hfinal hi with ⟨hlt, s₁, hs₁, hready⟩
  rcases before_of_le hlt hs with ⟨s₂, hs₂⟩
  rcases ready_next hready hs₁ hs₂ (valid_before hs hfinal hlt hs₂) with
    ⟨-, ⟨x, hx, hlooks⟩, hheaded, -⟩
  exact ⟨s₁, s₂, hs₁, hs₂, hready, called hlooks hready.iterator hx hheaded⟩

/-- The call before the first section. -/
theorem names_at (hs : l.before n = some s) (hfinal : s.2.state = .finalState) :
    l.e_shstrndx < l.e_shnum ∧ ∃ s₁, l.before 2 = some s₁ ∧
      s₁.2.record = l.request l.e_shstrndx ∧
      ∃ b : Block, b.size = (l.shdr l.e_shstrndx).sh_size.toNat ∧ s₁.2.elf.sectionData =
        update (fun _ => none) l.e_shstrndx (some ((l.request l.e_shstrndx).fills l.file b)) := by
  have h0 := lt_of_state hs hfinal (Nat.zero_le n) rfl nofun
  rcases before_of_le h0 hs with ⟨s₁, hs₁⟩
  have hstate₁ := (valid_one hs₁ (valid_before hs hfinal h0 hs₁)).1
  have h1 := lt_of_state hs hfinal h0 hs₁ (hstate₁ ▸ nofun)
  rcases before_of_le h1 hs with ⟨s₂, hs₂⟩
  rcases valid_two hs₂ (valid_before hs hfinal h1 hs₂) with ⟨-, -, -, hlt, hrecord, hdata⟩
  exact ⟨hlt, s₂, hs₂, hrecord, hdata⟩

/-- **The last step**, and what comes behind it. -/
theorem postLoad_at (hs : l.before n = some s) (hfinal : s.2.state = .finalState) :
    l.e_shnum + 3 ≤ n ∧ ∃ p, l.before (l.e_shnum + 2) = some p ∧ l.Headed p ∧
      elfPostLoad p.1 p.2.elf (l.heap (l.e_shnum + 2)) (l.stack (l.e_shnum + 2)) =
        some s.2.elf ∧
      ∀ k, l.e_shnum + 3 ≤ k → l.asked k = [] := by
  have hpos := Nat.zero_lt_of_lt (names_at hs hfinal).1
  have hpred : l.e_shnum - 1 + 1 = l.e_shnum := Nat.sub_add_cancel hpos
  rcases ready_at hs hfinal (Nat.sub_one_lt_of_lt hpos) with ⟨hlt, s₁, hs₁, hready⟩
  have hle : l.e_shnum + 2 ≤ n := by omega
  rcases before_of_le hle hs with ⟨p, hp⟩
  rw [show l.e_shnum - 1 + 2 = l.e_shnum + 1 by omega] at hs₁
  rcases ready_next hready hs₁ hp (valid_before hs hfinal hle hp) with ⟨-, -, hheaded, hnext⟩
  rcases hnext with hnext | ⟨hstate, -⟩
  · -- there is no further section
    rw [hpred] at hnext
    have hlt := lt_of_state hs hfinal hle hp (hnext.state ▸ nofun)
    rcases before_of_le hlt hs with ⟨s₂, hs₂⟩
    have := (ready_next hnext hp hs₂ (valid_before hs hfinal hlt hs₂)).1
    exact absurd this (Nat.lt_irrefl _)
  · have hlt := lt_of_state hs hfinal hle hp (hstate ▸ nofun)
    rcases before_of_le hlt hs with ⟨s₂, hs₂⟩
    rcases before_succ hs₂ with ⟨p', hp', r, hr, hs₂r⟩
    obtain rfl := Option.some.inj (hp.symm.trans hp')
    rw [Executable.load, hstate] at hr
    rcases Option.map_eq_some_iff.mp hr with ⟨elf, helf, rfl⟩
    have hfill : s₂.2.elf = elf ∧ s₂.2.state = .finalState ∧ s₂.2.record.buffer = .NIL := by
      rw [hs₂r]
      exact ⟨rfl, rfl, rfl⟩
    rcases hfill with ⟨rfl, hstate₂, hnil⟩
    obtain rfl := Option.some.inj ((final_stays hs₂ hstate₂ hnil hlt).symm.trans hs)
    refine ⟨hlt, p, hp, hheaded, helf, fun k hk => ?_⟩
    rw [asked, final_stays hs₂ hstate₂ hnil hk]
    exact if_pos hnil

/-! ## What is asked for -/

theorem asked_eq (hs : l.before n = some s) :
    l.asked n = if s.2.record.buffer = .NIL then [] else [s.2.record] := by
  rw [asked, hs]

/-- The call for section `i` finds a record that is fit for it. -/
def Fits (l : Loading) (i : Nat) : Prop := ∀ s ∈ l.before (i + 2), s.2.Loads →
  (l.shdr i).sh_size ≠ 0#32 →
    if (l.shdr i).sh_type = SHT_NOBITS then
      s.2.record.buffer = .NIL ∧ (l.shdr i).sh_size.toNat ≤ s.2.record.size.toNat
    else i ≠ l.e_shstrndx

theorem fits_iff (hs : l.before (i + 2) = some s) :
    l.Fits i ↔ (s.2.Loads → (l.shdr i).sh_size ≠ 0#32 →
      if (l.shdr i).sh_type = SHT_NOBITS then
        s.2.record.buffer = .NIL ∧ (l.shdr i).sh_size.toNat ≤ s.2.record.size.toNat
      else i ≠ l.e_shstrndx) := by
  rw [Fits, hs]
  constructor
  · exact fun h => h s rfl
  · intro h s' hs'
    obtain rfl := Option.mem_some.mp hs'
    exact h

/-- What is to be asked for before the call behind that for section `i`. -/
def toAsk (l : Loading) (i : Nat) : List ExecRecord :=
  if l.Loads i ∧ l.HasData i ∧ i ≠ l.e_shstrndx then [l.request i] else []

theorem map_request_toRead : l.toRead.map l.request =
    l.request l.e_shstrndx :: (List.range l.e_shnum).flatMap l.toAsk := by
  rw [toRead, List.map_cons, List.map_eq_flatMap, flatMap_filter]
  rfl

/-- The caller is asked for the names first, and then after each section. -/
theorem requests_eq (hs : l.before n = some s) (hfinal : s.2.state = .finalState) :
    l.requests n =
      l.request l.e_shstrndx :: (List.range l.e_shnum).flatMap fun i => l.asked (i + 3) := by
  rcases names_at hs hfinal with ⟨-, s₁, hs₁, hrecord, -⟩
  rcases postLoad_at hs hfinal with ⟨hle, -, -, -, -, hend⟩
  have hn : n - 2 = l.e_shnum + (n - 3 - l.e_shnum) + 1 := by omega
  have hfirst : l.asked 2 = [l.request l.e_shstrndx] := by
    rw [asked_eq hs₁, hrecord]
    exact if_neg nofun
  have hrest : (List.range' (3 + l.e_shnum) (n - 3 - l.e_shnum)).flatMap l.asked = [] := by
    refine List.flatMap_eq_nil_iff.mpr fun k hk => hend k ?_
    have := (List.mem_range'_1.mp hk).1
    omega
  have hsplit : List.range' 3 (l.e_shnum + (n - 3 - l.e_shnum)) =
      List.range' 3 l.e_shnum ++ List.range' (3 + l.e_shnum) (n - 3 - l.e_shnum) := by
    rw [← List.range'_append_1]
  rw [requests, hn, List.range'_succ, List.flatMap_cons, hfirst, hsplit, List.flatMap_append, hrest,
    List.append_nil, List.range'_eq_map_range, List.flatMap_map]
  simp only [Nat.add_comm 3]
  rfl

/-- A section to be read is asked for. -/
theorem asked_data (hs : l.before n = some s) (hfinal : s.2.state = .finalState)
    (hi : i < l.e_shnum) (hloads : l.Loads i) (hdata : l.HasData i) :
    l.asked (i + 3) = [l.request i] := by
  rcases called_at hs hfinal hi with ⟨s₁, s₂, hs₁, hs₂, -, hcalled⟩
  rw [loads_iff hs₁] at hloads
  rw [asked_eq hs₂]
  cases hcalled with
  | skips hnot => exact absurd hloads hnot
  | empty _ hsize => exact absurd hsize hdata.1
  | data b _ _ _ _ hrecord =>
      rw [hrecord]
      exact if_neg nofun
  | conceptual b _ _ htype => exact absurd htype hdata.2

theorem toAsk_sublist (hs : l.before n = some s) (hfinal : s.2.state = .finalState)
    (hi : i < l.e_shnum) : (l.toAsk i).Sublist (l.asked (i + 3)) := by
  unfold toAsk
  split
  · next h =>
    rw [asked_data hs hfinal hi h.1 h.2.1]
  · exact List.nil_sublist _

/-- If each section is asked for as it is to be, sections without data find no buffer, and the one
with the names is not loaded again. -/
theorem asked_eq_toAsk_iff (hs : l.before n = some s) (hfinal : s.2.state = .finalState)
    (hi : i < l.e_shnum) (hs₁ : l.before (i + 2) = some s') :
    l.asked (i + 3) = l.toAsk i ↔ (s'.2.Loads → (l.shdr i).sh_size ≠ 0#32 →
      if (l.shdr i).sh_type = SHT_NOBITS then s'.2.record.buffer = .NIL
      else i ≠ l.e_shstrndx) := by
  rcases called_at hs hfinal hi with ⟨s₁, s₂, hs₁', hs₂, -, hcalled⟩
  obtain rfl := Option.some.inj (hs₁.symm.trans hs₁')
  have hloads := loads_iff hs₁
  rw [asked_eq hs₂, toAsk]
  cases hcalled with
  | skips hnot _ hrecord =>
      rw [hrecord, if_pos rfl, if_neg fun h => hnot (hloads.mp h.1)]
      exact ⟨fun _ h => absurd h hnot, fun _ => rfl⟩
  | empty _ hsize _ hrecord =>
      rw [hrecord, if_pos rfl, if_neg fun h => h.2.1.1 hsize]
      exact ⟨fun _ _ h => absurd hsize h, fun _ => rfl⟩
  | data b hyes hdata _ _ hrecord =>
      rw [hrecord, if_neg nofun, if_neg hdata.2]
      by_cases hndx : i = l.e_shstrndx
      · rw [if_neg fun h => h.2.2 hndx]
        exact ⟨fun h => absurd h nofun, fun h => absurd hndx (h hyes hdata.1)⟩
      · rw [if_pos ⟨hloads.mpr hyes, hdata, hndx⟩]
        exact ⟨fun _ _ _ => hndx, fun _ => rfl⟩
  | conceptual b hyes hsize htype _ _ hbuffer =>
      have hnot : ¬ (l.Loads i ∧ l.HasData i ∧ i ≠ l.e_shstrndx) := fun h => h.2.1.2 htype
      rw [if_pos htype, if_neg hnot]
      by_cases hnil : s'.2.record.buffer = .NIL
      · rw [if_pos (hbuffer.mpr hnil)]
        exact ⟨fun _ _ _ => hnil, fun _ => rfl⟩
      · rw [if_neg fun h => hnil (hbuffer.mp h)]
        exact ⟨fun h => absurd h nofun, fun h => absurd (h hyes hsize) hnil⟩

/-! ## What the sections hold before the last step -/

/-- Before section `i`: those that are kept so far have room, and what is in the file. -/
def Filled (l : Loading) (i : Nat) (s : Statics × Executable) : Prop :=
  ∀ j, j = l.e_shstrndx ∨ j < i ∧ l.Loads j → (l.shdr j).sh_size ≠ 0#32 →
    ∃ b, s.2.elf.sectionData j = some b ∧ (l.shdr j).sh_size.toNat ≤ b.size ∧
      ((l.shdr j).sh_type ≠ SHT_NOBITS → ∀ o < (l.shdr j).sh_size.toNat,
        b.byte o = l.file ((l.shdr j).sh_offset.toNat + o))

theorem request_fills (b : Block) {o : Nat} (ho : o < (l.shdr i).sh_size.toNat) :
    ((l.request i).fills l.file b).byte o = l.file ((l.shdr i).sh_offset.toNat + o) := if_pos ho

/-- **A section that finds a record fit for it** gets what it is to hold, and the others keep it. -/
theorem Filled.next (h : l.Filled i s) (hs : l.before (i + 2) = some s) (hfits : l.Fits i)
    (hcalled : l.Called i s s') : l.Filled (i + 1) s' := by
  rw [fits_iff hs] at hfits
  intro j hj hsize
  by_cases he : j = i
  · subst he
    cases hcalled with
    | skips hnot hdata =>
        rw [hdata]
        refine h j (.inl (hj.resolve_right fun hloads => hnot ?_)) hsize
        exact (loads_iff hs).mp hloads.2
    | empty _ hzero => exact absurd hzero hsize
    | data b _ _ hb hdata =>
        rw [hdata, update_self]
        exact ⟨_, rfl, Nat.le_of_eq hb.symm, fun _ o ho => request_fills b ho⟩
    | conceptual b hloads _ htype hb hdata =>
        rw [hdata, update_self]
        have hfit := hfits hloads hsize
        rw [if_pos htype] at hfit
        exact ⟨b, rfl, hb ▸ hfit.2, fun hne => absurd htype hne⟩
  · have hold : s'.2.elf.sectionData j = s.2.elf.sectionData j := by
      cases hcalled with
      | skips _ hdata => rw [hdata]
      | empty _ _ hdata => rw [hdata, update_of_ne he]
      | data _ _ _ _ hdata => rw [hdata, update_of_ne he]
      | conceptual _ hloads hne htype _ hdata =>
          -- nothing is read again
          have hfit := hfits hloads hne
          rw [if_pos htype] at hfit
          rw [hdata, update_of_ne he, hfit.1]
          exact if_neg nofun
    rw [hold]
    refine h j (hj.imp_right fun hloads => ⟨?_, hloads.2⟩) hsize
    omega

theorem filled_at (hs : l.before n = some s) (hfinal : s.2.state = .finalState)
    (hfits : ∀ i < l.e_shnum, l.Fits i) (hi : i ≤ l.e_shnum)
    (hs' : l.before (i + 2) = some s') : l.Filled i s' := by
  induction i generalizing s' with
  | zero =>
      rcases names_at hs hfinal with ⟨-, s₁, hs₁, -, b, hb, hdata⟩
      obtain rfl := Option.some.inj (hs'.symm.trans hs₁)
      intro j hj hsize
      obtain rfl : j = l.e_shstrndx := hj.resolve_right fun h => Nat.not_lt_zero j h.1
      rw [hdata, update_self]
      exact ⟨_, rfl, Nat.le_of_eq hb.symm, fun _ o ho => request_fills b ho⟩
  | succ i ih =>
      rcases called_at hs hfinal hi with ⟨s₁, s₂, hs₁, hs₂, -, hcalled⟩
      obtain rfl := Option.some.inj (hs'.symm.trans hs₂)
      exact (ih (Nat.le_of_succ_le hi) hs₁).next hs₁ (hfits i hi) hcalled

/-- The call for a section leaves the sizes of the other blocks. -/
theorem Called.size (h : l.Called i s s') (hj : j ≠ i) :
    (s'.2.elf.sectionData j).map Block.size = (s.2.elf.sectionData j).map Block.size := by
  cases h with
  | skips _ hdata => rw [hdata]
  | empty _ _ hdata => rw [hdata, update_of_ne hj]
  | data _ _ _ _ hdata => rw [hdata, update_of_ne hj]
  | conceptual _ _ _ _ _ hdata =>
      rw [hdata, update_of_ne hj]
      split
      · rw [Option.map_map]
        rfl
      · rfl

theorem size_stays (hs : l.before n = some s) (hfinal : s.2.state = .finalState)
    (hs₁ : l.before (i + 3) = some s') (hk : i < k) (hk' : k ≤ l.e_shnum)
    (hp : l.before (k + 2) = some p) :
    (p.2.elf.sectionData i).map Block.size = (s'.2.elf.sectionData i).map Block.size := by
  induction k, hk using Nat.le_induction generalizing p with
  | base =>
      obtain rfl := Option.some.inj (hp.symm.trans hs₁)
      rfl
  | succ k hk ih =>
      rcases called_at hs hfinal hk' with ⟨s₁, s₂, hs₁', hs₂, -, hcalled⟩
      obtain rfl := Option.some.inj (hp.symm.trans hs₂)
      rw [hcalled.size (Nat.ne_of_lt hk), ih (Nat.le_of_succ_le hk') hs₁']

/-! ## What the last step leaves -/

/-- The last step makes a block for `.bss`, which was empty. -/
def Grows (p : Statics × Executable) : Prop := p.2.bssSize p.1 ≠ 0#32

theorem postLoad_sections (hp : l.before (l.e_shnum + 2) = some p) (hheaded : l.Headed p)
    (hpost : elfPostLoad p.1 p.2.elf (l.heap (l.e_shnum + 2)) (l.stack (l.e_shnum + 2)) =
      some s.2.elf) :
    (∀ j, (Grows p → j ≠ p.1.bssSection.toNat) → s.2.elf.sections j = l.shdr j ∧
      Option.Rel (Block.ChangedIn (l.Applied j)) (p.2.elf.sectionData j)
        (s.2.elf.sectionData j)) ∧
    (Grows p → p.1.bssSection.toNat < l.e_shnum ∧
      (l.shdr p.1.bssSection.toNat).sh_size = 0#32 ∧
      (s.2.elf.sections p.1.bssSection.toNat).sh_size = p.2.bssSize p.1 ∧
      (s.2.elf.sectionData p.1.bssSection.toNat).map Block.size =
        (l.heap (l.e_shnum + 2)).block.map fun _ => (p.2.bssSize p.1).toNat) := by
  rw [elfPostLoad_eq] at hpost
  rcases Option.bind_eq_some_iff.mp hpost with ⟨elf, hbss, hrelocs⟩
  have hrelocated := elfResolveRelocations_changed hrelocs
  rcases withBSS_changed hbss with ⟨elf₁, hcommon, helf⟩
  have hcommon' : ∀ j, Option.Rel (Block.ChangedIn (l.Applied j)) (p.2.elf.sectionData j)
      (elf₁.sectionData j) := fun j =>
    rel_mono (hcommon.data j) fun o ho => ⟨p, elf, hp, hbss, .inl ho⟩
  have hrelocated' : ∀ j, Option.Rel (Block.ChangedIn (l.Applied j)) (elf.sectionData j)
      (s.2.elf.sectionData j) := fun j =>
    rel_mono (hrelocated.data j) fun o ho => ⟨p, elf, hp, hbss, .inr ho⟩
  have hsections₁ : elf₁.sections = l.shdr := hcommon.sections.trans hheaded.sections
  constructor
  · intro j hj
    have hold : elf.sections j = elf₁.sections j ∧ elf.sectionData j = elf₁.sectionData j := by
      rw [helf]
      split
      · exact ⟨rfl, rfl⟩
      · next hgrows =>
        exact ⟨update_of_ne (hj hgrows) _ _, update_of_ne (hj hgrows) _ _⟩
    refine ⟨?_, rel_trans (hcommon' j) (hold.2 ▸ hrelocated' j)⟩
    rw [hrelocated.sections, hold.1, hsections₁]
  · intro hgrows
    rw [if_neg hgrows] at helf
    rcases Option.bind_eq_some_iff.mp hbss with ⟨sh, hsh, -⟩
    have hin := hheaded.inside_iff.mp (ELF.shdr_eq_some hsh).1
    have hempty : (p.2.elf.sections p.1.bssSection.toNat).sh_size = 0#32 := by
      by_contra hne
      exact hgrows (if_neg hne)
    rw [hheaded.sections] at hempty
    refine ⟨hin, hempty, ?_, ?_⟩
    · rw [hrelocated.sections, helf]
      simp only [ELF.assignBSS, update_self]
    · rw [rel_size (hrelocated' _), helf]
      simp only [ELF.assignBSS, ELF.setData, update_self, Heap.malloc, Option.map_map]
      rfl

/-! ## Exactly when -/

theorem requests_perm_iff (hs : l.before n = some s) (hfinal : s.2.state = .finalState) :
    (l.requests n).Perm (l.toRead.map l.request) ↔
      ∀ i < l.e_shnum, l.asked (i + 3) = l.toAsk i := by
  rw [requests_eq hs hfinal, map_request_toRead, List.perm_cons]
  constructor
  · intro h i hi
    have hall := eq_of_flatMap_length
      (fun i hi => toAsk_sublist hs hfinal (List.mem_range.mp hi)) h.length_eq.symm
    exact (hall i (List.mem_range.mpr hi)).symm
  · intro h
    rw [List.flatMap_congr fun i hi => h i (List.mem_range.mp hi)]

theorem Contents.fits (h : l.Contents n s) (hs : l.before n = some s)
    (hfinal : s.2.state = .finalState) (hi : i < l.e_shnum) : l.Fits i := by
  rcases called_at hs hfinal hi with ⟨s₁, s₂, hs₁, hs₂, -, hcalled⟩
  rcases postLoad_at hs hfinal with ⟨-, p, hp, hheaded, hpost, -⟩
  have hasked := (asked_eq_toAsk_iff hs hfinal hi hs₁).mp
    ((requests_perm_iff hs hfinal).mp h.requests i hi)
  refine (fits_iff hs₁).mpr fun hloads hsize => ?_
  have hbuffer := hasked hloads hsize
  split
  · next htype =>
    rw [if_pos htype] at hbuffer
    rcases postLoad_sections hp hheaded hpost with ⟨hkept, hbss⟩
    have hne : Grows p → i ≠ p.1.bssSection.toNat := by
      intro hgrows he
      subst he
      exact hsize (hbss hgrows).2.1
    rcases hkept i hne with ⟨hsection, hrel⟩
    -- its block has the size that it got
    have hstays := size_stays hs hfinal hs₂ hi (Nat.le_refl _) hp
    rw [← hsection] at hsize
    rcases h.room i hi (.inr ((loads_iff hs₁).mpr hloads)) hsize with ⟨b, hb, hle⟩
    rw [hsection] at hle hsize
    rw [← rel_size hrel, hb] at hstays
    cases hcalled with
    | skips hnot => exact absurd hloads hnot
    | empty _ hzero => exact absurd hzero hsize
    | data _ _ hdata => exact absurd htype hdata.2
    | conceptual b₂ _ _ _ hb₂ hdata =>
        rw [hdata, update_self] at hstays
        have hsame := Option.some.inj hstays
        exact ⟨hbuffer, by omega⟩
  · next htype => rwa [if_neg htype] at hbuffer

theorem Contents.bssRegular (h : l.Contents n s) (hs : l.before n = some s)
    (hfinal : s.2.state = .finalState) : l.BssRegular := by
  rcases postLoad_at hs hfinal with ⟨-, p, hp, hheaded, hpost, -⟩
  intro p' hp' hgrows hkeeps
  obtain rfl := Option.some.inj (hp.symm.trans hp')
  rcases (postLoad_sections hp hheaded hpost).2 hgrows with ⟨hin, -, hsize, hblock⟩
  rcases h.room _ hin hkeeps (hsize ▸ hgrows) with ⟨b, hb, -⟩
  rw [hb] at hblock
  rcases Option.map_eq_some_iff.mp hblock.symm with ⟨r, hr, -⟩
  exact Option.isSome_iff_exists.mpr ⟨r, hr⟩

theorem contents_of_fits (hs : l.before n = some s) (hfinal : s.2.state = .finalState)
    (hfits : ∀ i < l.e_shnum, l.Fits i) (hbss : l.BssRegular) : l.Contents n s := by
  rcases postLoad_at hs hfinal with ⟨-, p, hp, hheaded, hpost, -⟩
  rcases postLoad_sections hp hheaded hpost with ⟨hkept, hgrown⟩
  have hfilled := filled_at hs hfinal hfits (Nat.le_refl _) hp
  -- what a section has before the last step, it has in the end
  have hrest : ∀ j < l.e_shnum, (Grows p → j ≠ p.1.bssSection.toNat) → l.Keeps j →
      (l.shdr j).sh_size ≠ 0#32 → ∃ b, s.2.elf.sectionData j = some b ∧
        (l.shdr j).sh_size.toNat ≤ b.size ∧
        ((l.shdr j).sh_type ≠ SHT_NOBITS → ∀ o < (l.shdr j).sh_size.toNat,
          b.byte o = l.file ((l.shdr j).sh_offset.toNat + o) ∨ l.Applied j o) := by
    intro j hj hne hkeeps hsize
    rcases hfilled j (hkeeps.imp_right fun h => ⟨hj, h⟩) hsize with ⟨b, hb, hle, hbytes⟩
    have hrel := (hkept j hne).2
    rw [hb] at hrel
    rcases rel_some hrel with ⟨b', hb', hsame, hchanged⟩
    refine ⟨b', hb', hsame ▸ hle, fun htype o ho => ?_⟩
    rw [← hbytes htype o ho]
    exact hchanged o
  refine ⟨fun j hj hkeeps hsize => ?_, fun j hj hkeeps hdata => ?_, ?_⟩
  · by_cases hne : Grows p → j ≠ p.1.bssSection.toNat
    · rw [(hkept j hne).1] at hsize ⊢
      rcases hrest j hj hne hkeeps hsize with ⟨b, hb, hle, -⟩
      exact ⟨b, hb, hle⟩
    · push Not at hne
      rcases hne with ⟨hgrows, rfl⟩
      rcases hgrown hgrows with ⟨-, -, hnow, hblock⟩
      rcases Option.isSome_iff_exists.mp (hbss p hp hgrows hkeeps) with ⟨r, hr⟩
      rw [hr, Option.map_some] at hblock
      rcases Option.map_eq_some_iff.mp hblock with ⟨b, hb, hlength⟩
      refine ⟨b, hb, Nat.le_of_eq ?_⟩
      rw [hlength, hnow]
  · have hne : Grows p → j ≠ p.1.bssSection.toNat := by
      intro hgrows he
      subst he
      exact hdata.1 (hgrown hgrows).2.1
    rcases hrest j hj hne hkeeps hdata.1 with ⟨b, hb, -, hbytes⟩
    exact ⟨b, hb, hbytes hdata.2⟩
  · refine (requests_perm_iff hs hfinal).mpr fun i hi => ?_
    rcases called_at hs hfinal hi with ⟨s₁, s₂, hs₁, -⟩
    refine (asked_eq_toAsk_iff hs hfinal hi hs₁).mpr fun hloads hsize => ?_
    have hfit := (fits_iff hs₁).mp (hfits i hi) hloads hsize
    split
    · next htype =>
      rw [if_pos htype] at hfit
      exact hfit.1
    · next htype => rwa [if_neg htype] at hfit

/-- The size in the record is that of what was read last. -/
theorem record_size (hs : l.before n = some s) (hfinal : s.2.state = .finalState)
    (hi : i ≤ l.e_shnum) (hs' : l.before (i + 2) = some s') :
    s'.2.record.size = (l.shdr (l.lastRead i)).sh_size := by
  induction i generalizing s' with
  | zero =>
      rcases names_at hs hfinal with ⟨-, s₁, hs₁, hrecord, -⟩
      obtain rfl := Option.some.inj (hs'.symm.trans hs₁)
      rw [hrecord]
      rfl
  | succ i ih =>
      rcases called_at hs hfinal hi with ⟨s₁, s₂, hs₁, hs₂, -, hcalled⟩
      obtain rfl := Option.some.inj (hs'.symm.trans hs₂)
      have hbefore := ih (Nat.le_of_succ_le hi) hs₁
      rw [lastRead]
      cases hcalled with
      | skips hnot _ hrecord =>
          rw [if_neg fun h => hnot ((loads_iff hs₁).mp h.1), hrecord]
          exact hbefore
      | empty _ hsize _ hrecord =>
          rw [if_neg fun h => h.2.1 hsize, hrecord]
          exact hbefore
      | data b hloads hdata _ _ hrecord =>
          rw [if_pos ⟨(loads_iff hs₁).mpr hloads, hdata⟩, hrecord]
          rfl
      | conceptual b _ _ htype _ _ _ hsize =>
          rw [if_neg fun h => h.2.2 htype, hsize]
          exact hbefore

/-- There is a buffer in the record when a section has been read, or the names. -/
theorem record_buffer (hs : l.before n = some s) (hfinal : s.2.state = .finalState)
    (hi : i ≤ l.e_shnum) (hs' : l.before (i + 2) = some s') (hfits : ∀ j < i, l.Fits j) :
    s'.2.record.buffer = .NIL ↔ 0 < i ∧ ¬ (l.Loads (i - 1) ∧ l.HasData (i - 1)) := by
  cases i with
  | zero =>
      rcases names_at hs hfinal with ⟨-, s₁, hs₁, hrecord, -⟩
      obtain rfl := Option.some.inj (hs'.symm.trans hs₁)
      rw [hrecord]
      exact ⟨nofun, fun h => absurd h.1 (Nat.lt_irrefl 0)⟩
  | succ i =>
      rcases called_at hs hfinal hi with ⟨s₁, s₂, hs₁, hs₂, -, hcalled⟩
      obtain rfl := Option.some.inj (hs'.symm.trans hs₂)
      rw [Nat.add_sub_cancel]
      cases hcalled with
      | skips hnot _ hrecord =>
          rw [hrecord]
          exact ⟨fun _ => ⟨i.succ_pos, fun h => hnot ((loads_iff hs₁).mp h.1)⟩, fun _ => rfl⟩
      | empty _ hsize _ hrecord =>
          rw [hrecord]
          exact ⟨fun _ => ⟨i.succ_pos, fun h => h.2.1 hsize⟩, fun _ => rfl⟩
      | data b hloads hdata _ _ hrecord =>
          rw [hrecord]
          exact ⟨nofun, fun h => absurd ⟨(loads_iff hs₁).mpr hloads, hdata⟩ h.2⟩
      | conceptual b hloads hsize htype _ _ hbuffer =>
          have hfit := (fits_iff hs₁).mp (hfits i i.lt_succ_self) hloads hsize
          rw [if_pos htype] at hfit
          exact ⟨fun _ => ⟨i.succ_pos, fun h => h.2.2 htype⟩, fun _ => hbuffer.mpr hfit.1⟩

/-- Which records the calls find follows from what they load. -/
theorem forall_fits_iff (hs : l.before n = some s) (hfinal : s.2.state = .finalState)
    (hk : k ≤ l.e_shnum) : (∀ i < k, l.Fits i) ↔ ∀ i < k, l.Regular i := by
  induction k with
  | zero => exact ⟨fun _ i hi => absurd hi (Nat.not_lt_zero i), fun _ i hi =>
      absurd hi (Nat.not_lt_zero i)⟩
  | succ k ih =>
      simp only [Nat.forall_lt_succ_right]
      rw [← ih (Nat.le_of_succ_le hk)]
      refine and_congr_right fun hfits => ?_
      rcases called_at hs hfinal hk with ⟨s₁, -, hs₁, -⟩
      rw [fits_iff hs₁, Regular, loads_iff hs₁,
        record_buffer hs hfinal (Nat.le_of_succ_le hk) hs₁ hfits,
        record_size hs hfinal (Nat.le_of_succ_le hk) hs₁, and_assoc]

/-- **Each section holds what is in the file**, and was read once, exactly if each of them finds a
record that is fit for it. -/
theorem contents_iff (hs : l.before n = some s) (hfinal : s.2.state = .finalState) :
    l.Contents n s ↔ (∀ i < l.e_shnum, l.Regular i) ∧ l.BssRegular := by
  rw [← forall_fits_iff hs hfinal (Nat.le_refl _)]
  exact ⟨fun h => ⟨fun _ hi => h.fits hs hfinal hi, h.bssRegular hs hfinal⟩,
    fun h => contents_of_fits hs hfinal h.1 h.2⟩

/-- The header of a section with `SHF_ALLOC`. -/
def allocBytes (sh_name sh_type sh_offset sh_size : UBYTE) : List UBYTE :=
  [sh_name, sh_type, 2#8, 0#8, sh_offset, sh_size, 0#8, 0#8, 0#8, 0#8].flatMap
    fun b => [b, 0#8, 0#8, 0#8]

/-- A file with two sections behind the one with the names. -/
def fileWith (sections : List UBYTE) : List UBYTE :=
  headerBytes 62 4 1 ++ literal "" ++ literal ".bss" ++ [1#8, 2#8, 3#8, 4#8] ++
    sectionBytes 0 0 0 0 0 0 ++ sectionBytes 0 3 52 6 0 0 ++ sections

/-- With `.bss` first, which takes the size of the names. -/
def bssFirst : Loading := loadingOf (fileWith (allocBytes 1 8 62 6 ++ allocBytes 0 1 58 4))

/-- The order that is usual. -/
def bssLast : Loading := loadingOf (fileWith (allocBytes 0 1 58 4 ++ allocBytes 1 8 62 6))

theorem contents_iff_bssFirst : ∃ s, bssFirst.before 7 = some s ∧ bssFirst.Contents 7 s := by
  rcases (Option.any_eq_true _ _).mp
    (show (bssFirst.before 7).any (fun s => decide (s.2.state = .finalState)) = true by
      decide +kernel) with ⟨s, hs, hstate⟩
  refine ⟨s, hs, (contents_iff hs (of_decide_eq_true hstate)).mpr ⟨?_, ?_⟩⟩
  · decide +kernel
  · decide +kernel

/-- The block of `.bss` is as large as the section before it, which is read once more. -/
theorem not_contents_bssLast : ∃ s, bssLast.before 7 = some s ∧ s.2.state = .finalState ∧
    ¬ bssLast.Contents 7 s := by
  rcases (Option.any_eq_true _ _).mp
    (show (bssLast.before 7).any (fun s => decide (s.2.state = .finalState ∧
      (s.2.elf.sections 3).sh_size = 6#32 ∧ (s.2.elf.sectionData 3).map Block.size = some 4)) = true
      by decide +kernel) with ⟨s, hs, hdecide⟩
  rcases of_decide_eq_true hdecide with ⟨hstate, hsize, hblock⟩
  refine ⟨s, hs, hstate, fun h => ?_⟩
  have hkeeps : bssLast.Keeps 3 := .inr (by decide +kernel)
  rcases h.room 3 (by decide) hkeeps (hsize ▸ nofun) with ⟨b, hb, hle⟩
  rw [hb] at hblock
  rw [hsize, Option.some.inj hblock] at hle
  exact absurd hle (by decide)

end Alliance.KL.Exec.Loading
