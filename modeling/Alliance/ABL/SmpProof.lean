import Alliance.ABL.Smp
import Mathlib.Data.List.Infix

/-!
# The maps of the processors are right, and errors are seen

`ABLparseMP` does what the entries say, of whatever length they are (`ablParseMP_table`), and the
two maps then list the boot processor and those that are enabled (`ablInitMP_installed`). They are
the inverses of each other unless two processors have one APIC. A single byte that changes is seen
(`one_byte_refused`), except in the length over which the sum is made.
-/

namespace Alliance.ABL

open Function Lib

variable {mem : Bios} {a b : UADDR} {x : UBYTE} {s s' : Smp} {ids : List UBYTE} {e : Entry}
  {t : List Entry} {fps : ImpsFps} {io : Ioapic}

/-! ## Entries -/

/-- The entry that starts at an address. -/
def entryAt (mem : Bios) (a : UADDR) : Entry :=
  if h : mem a = IMPS_BCT_PROCESSOR then
    .processor (mem (a + 1#32)) (mem (a + 2#32)) (mem (a + 3#32))
      fun i => mem (a + .ofNat 32 (4 + i))
  else .other ⟨mem a, h⟩ fun i => mem (a + .ofNat 32 (1 + i))

theorem liesAt_entryAt (mem : Bios) (a : UADDR) : LiesAt mem a (entryAt mem a).bytes := by
  unfold entryAt
  split
  · next h =>
    refine liesAt_cons.mpr ⟨h, liesAt_cons.mpr ⟨rfl, ?_⟩⟩
    refine liesAt_cons.mpr ⟨?_, liesAt_cons.mpr ⟨?_, ?_⟩⟩
    · rw [BitVec.add_assoc]
      rfl
    · rw [BitVec.add_assoc, BitVec.add_assoc]
      rfl
    · refine liesAt_ofFn.mpr fun i => ?_
      rw [add_ofNat_add, BitVec.add_assoc a, BitVec.add_assoc a, BitVec.add_assoc a]
      rfl
  · refine liesAt_cons.mpr ⟨rfl, liesAt_ofFn.mpr fun i => ?_⟩
    rw [add_ofNat_add]
    rfl

theorem tableBytes_cons : tableBytes (e :: t) = e.bytes ++ tableBytes t := List.flatMap_cons

/-- There is a table everywhere. -/
theorem exists_table (mem : Bios) (a : UADDR) (n : Nat) :
    ∃ t : List Entry, t.length = n ∧ LiesAt mem a (tableBytes t) := by
  induction n generalizing a with
  | zero => exact ⟨[], rfl, liesAt_nil⟩
  | succ n ih =>
      obtain ⟨t, ht, hlies⟩ := ih (a + .ofNat 32 (entryAt mem a).bytes.length)
      refine ⟨entryAt mem a :: t, congrArg (· + 1) ht, ?_⟩
      rw [tableBytes_cons]
      exact liesAt_append.mpr ⟨liesAt_entryAt mem a, hlies⟩

/-- What is done with an entry. -/
def Smp.entry (s : Smp) : Entry → Option Smp
  | .processor apic_id apic_ver flags _ =>
    if flags &&& IMPS_FLAG_ENABLED = 0#8 then some s else s.processor apic_id apic_ver flags
  | .other .. => some s

/-- **The parser** goes through the entries of a table. -/
theorem ablParseMP_table (h : LiesAt mem a (tableBytes t)) (s : Smp) :
    ablParseMP mem a t.length s = t.foldlM Smp.entry s := by
  induction t generalizing a s with
  | nil => rfl
  | cons e t ih =>
      rw [tableBytes_cons, liesAt_append] at h
      obtain ⟨he, ht⟩ := h
      rw [List.length_cons, List.foldlM_cons, ablParseMP]
      cases e with
      | processor apic_id apic_ver flags rest =>
          obtain ⟨htype, he⟩ := liesAt_cons.mp he
          obtain ⟨hid, he⟩ := liesAt_cons.mp he
          obtain ⟨hver, he⟩ := liesAt_cons.mp he
          obtain ⟨hflags, -⟩ := liesAt_cons.mp he
          have hlength : a + 12#32 + 8#32 =
              a + .ofNat 32 (Entry.processor apic_id apic_ver flags rest).bytes.length := by
            rw [BitVec.add_assoc]
            simp only [Entry.bytes, List.length_cons, List.length_ofFn]
            rfl
          rw [BitVec.add_assoc] at hver
          rw [BitVec.add_assoc, BitVec.add_assoc] at hflags
          rw [if_pos htype, show mem (a + 3#32) = flags from hflags,
            show mem (a + 2#32) = apic_ver from hver, show mem (a + 1#32) = apic_id from hid,
            hlength, ih ht]
          unfold Smp.entry
          dsimp only
          split
          · rfl
          · refine bind_congr fun s => ih ht s
      | other type rest =>
          obtain ⟨htype, -⟩ := liesAt_cons.mp he
          rw [if_neg (htype ▸ type.2)]
          refine (congrArg (fun a => ablParseMP mem a t.length s) ?_).trans (ih ht s)
          simp only [Entry.bytes, List.length_cons, List.length_ofFn]

/-! ## The maps -/

/-- What is in the maps fits into them. -/
def InMaps (ids : List UBYTE) : Prop :=
  ids.length ≤ IMPS_MAX_CPUS ∧ ∀ id ∈ ids, id.toNat < IMPS_MAX_CPUS

/-- The maps have the processors, by their APICs. An APIC that there is twice is that of the last
processor that has it. -/
structure Smp.Lists (s : Smp) (ids : List UBYTE) : Prop where
  count : s.imps_num_cpus = ids.length
  fits : InMaps ids
  cpus : ∀ i (h : i < ids.length), s.imps_cpu_apic_map i = ids[i]
  apics : ∀ id ∈ ids, ∃ i, ∃ h : i < ids.length, ids[i] = id ∧
    s.imps_apic_cpu_map id.toNat = .ofNat 8 i ∧ ∀ j (hj : j < ids.length), ids[j] = id → j ≤ i

/-- The APIC of a processor that is enabled, other than the boot processor. -/
def Entry.starts : Entry → Option UBYTE
  | .processor apic_id _ flags _ =>
    if flags &&& IMPS_FLAG_ENABLED ≠ 0#8 ∧ flags &&& IMPS_CPUFLAG_BOOT = 0#8 then some apic_id
    else none
  | .other .. => none

theorem inMaps_append {l : List UBYTE} (h : InMaps (ids ++ l)) : InMaps ids :=
  ⟨Nat.le_trans (by rw [List.length_append]; exact Nat.le_add_right _ _) h.1,
    fun id hid => h.2 id (List.mem_append_left _ hid)⟩

/-- **One more processor** in the maps. -/
theorem Smp.Lists.map (h : s.Lists ids) (id : UBYTE) :
    s.mapCpu s.imps_num_cpus id = none ∧ ¬ InMaps (ids ++ [id]) ∨
      ∃ s', s.mapCpu s.imps_num_cpus id = some s' ∧
        Smp.Lists { s' with imps_num_cpus := s'.imps_num_cpus + 1 } (ids ++ [id]) := by
  rw [h.count, Smp.mapCpu]
  by_cases hfits : ids.length < IMPS_MAX_CPUS ∧ id.toNat < IMPS_MAX_CPUS
  · rw [if_pos hfits]
    refine .inr ⟨_, rfl, ?_, ⟨?_, ?_⟩, ?_, ?_⟩
    · dsimp only
      rw [h.count, List.length_append, List.length_singleton]
    · rw [List.length_append, List.length_singleton]
      exact hfits.1
    · intro id' hid'
      rcases List.mem_append.mp hid' with hold | hnew
      · exact h.fits.2 id' hold
      · rw [List.mem_singleton.mp hnew]
        exact hfits.2
    · intro i hi
      dsimp only
      rw [List.length_append, List.length_singleton] at hi
      rcases Nat.lt_succ_iff_lt_or_eq.mp hi with hlt | rfl
      · rw [update_of_ne (Nat.ne_of_lt hlt), List.getElem_append_left hlt, h.cpus i hlt]
      · rw [update_self, List.getElem_concat_length rfl]
    · intro id' hid'
      dsimp only
      by_cases hsame : id' = id
      · -- the last processor has it
        subst hsame
        refine ⟨ids.length, by simp, List.getElem_concat_length rfl _, update_self .., ?_⟩
        intro j hj _
        rw [List.length_append, List.length_singleton] at hj
        omega
      · have hold : id' ∈ ids := by
          rcases List.mem_append.mp hid' with hold | hnew
          · exact hold
          · exact absurd (List.mem_singleton.mp hnew) hsame
        obtain ⟨i, hi, hget, hmap, hlast⟩ := h.apics id' hold
        have hne : id'.toNat ≠ id.toNat := fun he => hsame (BitVec.eq_of_toNat_eq he)
        refine ⟨i, by rw [List.length_append]; omega, ?_, ?_, ?_⟩
        · rw [List.getElem_append_left hi, hget]
        · rw [update_of_ne hne, hmap]
        · intro j hj he
          rw [List.length_append, List.length_singleton] at hj
          rcases Nat.lt_succ_iff_lt_or_eq.mp hj with hlt | rfl
          · rw [List.getElem_append_left hlt] at he
            exact hlast j hlt he
          · rw [List.getElem_concat_length rfl] at he
            exact absurd he.symm hsame
  · rw [if_neg hfits]
    refine .inl ⟨rfl, fun hf => hfits ⟨?_, hf.2 id (List.mem_append_right _ (.head _))⟩⟩
    have := hf.1
    rw [List.length_append, List.length_singleton] at this
    exact this

/-- The maps do not depend on the kind of the APICs. -/
theorem Smp.Lists.congr (h : s.Lists ids) (hn : s'.imps_num_cpus = s.imps_num_cpus)
    (hc : s'.imps_cpu_apic_map = s.imps_cpu_apic_map)
    (ha : s'.imps_apic_cpu_map = s.imps_apic_cpu_map) : s'.Lists ids :=
  ⟨hn.trans h.count, h.fits, hc ▸ h.cpus, ha ▸ h.apics⟩

/-- **An entry** adds the processor that it starts. -/
theorem Smp.Lists.entry (h : s.Lists ids) (e : Entry) :
    s.entry e = none ∧ ¬ InMaps (ids ++ e.starts.toList) ∨
      ∃ s', s.entry e = some s' ∧ s'.Lists (ids ++ e.starts.toList) := by
  cases e with
  | other type rest =>
      refine .inr ⟨s, rfl, ?_⟩
      rw [Entry.starts, Option.toList_none, List.append_nil]
      exact h
  | processor apic_id apic_ver flags rest =>
      unfold Smp.entry Entry.starts
      dsimp only
      by_cases hon : flags &&& IMPS_FLAG_ENABLED = 0#8
      · rw [if_pos hon, if_neg fun hc => hc.1 hon, Option.toList_none, List.append_nil]
        exact .inr ⟨s, rfl, h⟩
      · rw [if_neg hon]
        unfold Smp.processor
        generalize hs₁ :
          (if 0x0f#8 < apic_ver then { s with imps_all_discrete := false } else s) = s₁
        have h₁ : s₁.Lists ids := by
          rw [← hs₁]
          split
          · exact h.congr rfl rfl rfl
          · exact h
        dsimp only
        by_cases hboot : flags &&& IMPS_CPUFLAG_BOOT = 0#8
        · rw [if_neg (not_not.mpr hboot), if_pos ⟨hon, hboot⟩, Option.toList_some]
          obtain ⟨hnone, hfits⟩ | ⟨s', hs', hlists⟩ := h₁.map apic_id
          · rw [hnone]
            exact .inl ⟨rfl, hfits⟩
          · rw [hs']
            exact .inr ⟨_, rfl, hlists⟩
        · rw [if_pos hboot, if_neg fun hc => hboot hc.2, Option.toList_none, List.append_nil]
          exact .inr ⟨s₁, rfl, h₁⟩

/-- The APICs of the processors that a table starts. -/
def started (t : List Entry) : List UBYTE := t.flatMap fun e => e.starts.toList

/-- **The entries of a table** add the processors that they start. -/
theorem Smp.Lists.table (h : s.Lists ids) (t : List Entry) :
    t.foldlM Smp.entry s = none ∧ ¬ InMaps (ids ++ started t) ∨
      ∃ s', t.foldlM Smp.entry s = some s' ∧ s'.Lists (ids ++ started t) := by
  induction t generalizing s ids with
  | nil =>
      refine .inr ⟨s, rfl, ?_⟩
      rw [started, List.flatMap_nil, List.append_nil]
      exact h
  | cons e t ih =>
      rw [List.foldlM_cons, started, List.flatMap_cons, ← List.append_assoc]
      obtain ⟨hnone, hfits⟩ | ⟨s₁, hs₁, h₁⟩ := h.entry e
      · rw [hnone]
        exact .inl ⟨rfl, fun hf => hfits (inMaps_append hf)⟩
      · rw [hs₁]
        exact ih h₁

/-- **The maps are inverses** of each other if no two processors have one APIC. -/
theorem Smp.Lists.inverse_iff (h : s.Lists ids) :
    (∀ i < s.imps_num_cpus,
      s.imps_apic_cpu_map (s.imps_cpu_apic_map i).toNat = .ofNat 8 i) ↔ ids.Nodup := by
  have hsmall : ∀ {i j : Nat}, i < ids.length → j < ids.length →
      BitVec.ofNat 8 i = .ofNat 8 j → i = j := by
    intro i j hi hj he
    have hle : ids.length ≤ 255 := h.fits.1
    have hnat := congrArg BitVec.toNat he
    rwa [BitVec.toNat_ofNat, BitVec.toNat_ofNat, Nat.mod_eq_of_lt (by omega),
      Nat.mod_eq_of_lt (by omega)] at hnat
  rw [List.nodup_iff_injective_get, h.count]
  constructor
  · intro hinv i j he
    have hi := hinv i i.isLt
    have hj := hinv j j.isLt
    rw [h.cpus i i.isLt] at hi
    rw [h.cpus j j.isLt, show ids[(j : Nat)] = ids[(i : Nat)] from he.symm, hi] at hj
    exact Fin.ext (hsmall i.isLt j.isLt hj)
  · intro hinj i hi
    rw [h.cpus i hi]
    obtain ⟨j, hj, hget, hmap, -⟩ := h.apics ids[i] (List.getElem_mem hi)
    have he : (⟨j, hj⟩ : Fin ids.length) = ⟨i, hi⟩ := hinj hget
    rw [hmap, Fin.mk.inj he]

/-! ## The tables -/

/-- The processors that a structure says are there, the boot processor first. A default
configuration has two. -/
inductive Describes (mem : Bios) (fps : ImpsFps) (boot : UBYTE) : List UBYTE → Prop
  | table {t : List Entry} : fps.cth_ptr ≠ 0#32 →
      t.length = (mem.cth fps.cth_ptr).entry_count.toNat →
      LiesAt mem (fps.cth_ptr + .ofNat 32 sizeofCth) (tableBytes t) →
      Describes mem fps boot (boot :: started t)
  | default : fps.cth_ptr = 0#32 →
      Describes mem fps boot [boot, if boot = 0#8 then 1#8 else 0#8]

/-- The processors have places in the maps, and those of a default configuration also in its own
table. -/
def Placed (fps : ImpsFps) (ids : List UBYTE) : Prop :=
  InMaps ids ∧ (fps.cth_ptr = 0#32 → ids.head? = some 0#8 ∨ ids.head? = some 1#8)

theorem length_tableBytes_le (t : List Entry) : (tableBytes t).length ≤ 20 * t.length := by
  induction t with
  | nil => exact Nat.zero_le _
  | cons e t ih =>
      rw [tableBytes_cons, List.length_append, List.length_cons]
      have he : e.bytes.length ≤ 20 := by
        cases e <;> simp [Entry.bytes]
      omega

theorem liesAt_ownMemory {l : List UBYTE} (h : l.length ≤ 2 ^ 32) :
    LiesAt (ownMemory l) 0#32 l := by
  intro i hi
  rw [ownMemory, BitVec.zero_add, BitVec.toNat_ofNat, Nat.mod_eq_of_lt (by omega),
    List.getD_eq_getElem?_getD, List.getElem?_eq_getElem hi, Option.getD_some]

theorem length_defconfig (feature_info apicid : UBYTE) (io : Ioapic) :
    (defconfig feature_info apicid io).length = DEF_ENTRIES := rfl

/-- A default configuration starts the other processor. -/
theorem started_defconfig (feature_info : UBYTE) {apicid : UBYTE} (h : apicid = 0#8 ∨ apicid = 1#8)
    (io : Ioapic) : started (defconfig feature_info apicid io) =
      [if apicid = 0#8 then 1#8 else 0#8] := by
  rcases h with rfl | rfl <;> rfl

theorem boot_lists (addr : UADDR) (h : s.imps_num_cpus = 1) :
    (s.boot addr).mapCpu 0 (s.boot addr).lapicId = none ∧ ¬ InMaps [(s.boot addr).lapicId] ∨
      ∃ s', (s.boot addr).mapCpu 0 (s.boot addr).lapicId = some s' ∧
        s'.Lists [(s.boot addr).lapicId] := by
  generalize hs : s.boot addr = s₀
  have hcount : s₀.imps_num_cpus = 1 := hs ▸ h
  have hempty : Smp.Lists { s₀ with imps_num_cpus := 0 } [] :=
    ⟨rfl, ⟨Nat.zero_le _, fun _ h => absurd h List.not_mem_nil⟩,
      fun _ h => absurd h (Nat.not_lt_zero _), fun _ h => absurd h List.not_mem_nil⟩
  obtain ⟨hnone, hfits⟩ | ⟨s', hs', hlists⟩ := hempty.map s₀.lapicId
  · refine .inl ⟨?_, hfits⟩
    unfold Smp.mapCpu at hnone ⊢
    split at hnone
    · cases hnone
    · next hf => exact if_neg hf
  · unfold Smp.mapCpu at hs' ⊢
    split at hs'
    · next hf =>
      refine .inr ⟨_, if_pos hf, ?_⟩
      obtain rfl := Option.some.inj hs'
      exact hlists.congr hcount rfl rfl
    · cases hs'

/-- **One structure**, of which the tables are right. -/
theorem ablReadMP_spec (io : Ioapic) (h : s.imps_num_cpus = 1)
    (hcheck : ablCheckMP mem fps = true) :
    ∃ ids, Describes mem fps (s.boot (lapicAddr mem fps)).lapicId ids ∧
      (ablReadMP mem io fps s = none ∧ ¬ Placed fps ids ∨
        ∃ s', ablReadMP mem io fps s = some s' ∧ s'.imps_enabled = true ∧ s'.Lists ids) := by
  generalize hboot : (s.boot (lapicAddr mem fps)).lapicId = apicid
  have hstart := boot_lists (lapicAddr mem fps) h
  rw [hboot] at hstart
  unfold ablReadMP
  rw [if_pos hcheck]
  dsimp only
  rw [hboot]
  by_cases hcth : fps.cth_ptr = 0#32
  · refine ⟨_, .default hcth, ?_⟩
    obtain ⟨hnone, hfits⟩ | ⟨s₁, hs₁, hlists⟩ := hstart
    · rw [hnone]
      exact .inl ⟨rfl, fun hp => hfits (inMaps_append (l := [_]) hp.1)⟩
    · rw [hs₁, Option.bind_eq_bind, Option.bind_some, if_neg (not_not.mpr hcth)]
      by_cases hsmall : apicid = 0#8 ∨ apicid = 1#8
      · have hlt : apicid < 2#8 := by
          rcases hsmall with rfl | rfl <;> decide
        have hlies : LiesAt (ownMemory (tableBytes (defconfig fps.feature_info apicid io))) 0#32
            (tableBytes (defconfig fps.feature_info apicid io)) := by
          refine liesAt_ownMemory (Nat.le_trans (length_tableBytes_le _) ?_)
          rw [length_defconfig]
          decide
        have hparse := ablParseMP_table hlies s₁
        rw [length_defconfig] at hparse
        rw [if_pos hlt, hparse]
        obtain ⟨hnone, hfits⟩ | ⟨s₂, hs₂, hlists₂⟩ :=
          hlists.table (defconfig fps.feature_info apicid io)
        · rw [hnone]
          rw [started_defconfig _ hsmall] at hfits
          exact .inl ⟨rfl, fun hp => hfits hp.1⟩
        · rw [hs₂]
          rw [started_defconfig _ hsmall] at hlists₂
          exact .inr ⟨_, rfl, rfl, hlists₂.congr rfl rfl rfl⟩
      · have hge : ¬ apicid < 2#8 := fun hlt => hsmall (by
          have hnat : apicid.toNat < 2 := hlt
          rcases (show apicid.toNat = 0 ∨ apicid.toNat = 1 by omega) with h0 | h1
          · exact .inl (BitVec.eq_of_toNat_eq h0)
          · exact .inr (BitVec.eq_of_toNat_eq h1))
        rw [if_neg hge]
        refine .inl ⟨rfl, fun hp => hsmall ?_⟩
        rcases hp.2 hcth with h0 | h1
        · exact .inl (Option.some.inj h0)
        · exact .inr (Option.some.inj h1)
  · obtain ⟨t, ht, hlies⟩ := exists_table mem (fps.cth_ptr + .ofNat 32 sizeofCth)
      (mem.cth fps.cth_ptr).entry_count.toNat
    refine ⟨_, .table hcth ht hlies, ?_⟩
    obtain ⟨hnone, hfits⟩ | ⟨s₁, hs₁, hlists⟩ := hstart
    · rw [hnone]
      exact .inl ⟨rfl, fun hp => hfits (inMaps_append (l := started t) hp.1)⟩
    · rw [hs₁, Option.bind_eq_bind, Option.bind_some, if_pos hcth, ← ht, ablParseMP_table hlies]
      obtain ⟨hnone, hfits⟩ | ⟨s₂, hs₂, hlists₂⟩ := hlists.table t
      · rw [hnone]
        exact .inl ⟨rfl, fun hp => hfits hp.1⟩
      · rw [hs₂]
        exact .inr ⟨_, rfl, rfl, hlists₂.congr rfl rfl rfl⟩

/-! ## The search -/

/-- The places of `n` structures, one behind the other. -/
def places (start : UADDR) (n : Nat) : List UADDR :=
  (List.range n).map fun i => start + .ofNat 32 (16 * i)

/-- Where `ABLinitMP` looks, in this order. -/
def candidates (mem : Bios) (mem_lower : UADDR) : List UADDR :=
  if mem_lower < 512#32 * 1024#32 ∨ 640#32 * 1024#32 < mem_lower then []
  else (if ebdaAddr mem mem_lower ≠ 0#32 then places (ebdaAddr mem mem_lower) 64 else []) ++
    places (mem_lower - 1024#32) 64 ++ places 0xf0000#32 4096

/-- The first structure that looks right. -/
def firstFps (mem : Bios) (l : List UADDR) : Option UADDR := l.find? fun a => FpsValid mem a

/-- A structure is read if there is one. -/
def readFirst (mem : Bios) (io : Ioapic) (found : Option UADDR) (s : Smp) : Option (Bool × Smp) :=
  match found with
  | none => some (false, s)
  | some a => (ablReadMP mem io (mem.fps a) s).map fun s => (true, s)

theorem places_succ (start : UADDR) (n : Nat) :
    places start (n + 1) = start :: places (start + 16#32) n := by
  unfold places
  rw [List.range_succ_eq_map, List.map_cons, List.map_map]
  refine congrArg₂ List.cons (BitVec.add_zero start) (List.map_congr_left fun i _ => ?_)
  show start + .ofNat 32 (16 * (i + 1)) = _
  rw [Nat.mul_add, Nat.add_comm, add_ofNat_add]

theorem ablScanMP_eq (start : UADDR) (n : Nat) (s : Smp) :
    ablScanMP mem io start n s = readFirst mem io (firstFps mem (places start n)) s := by
  induction n generalizing start with
  | zero => rfl
  | succ n ih =>
      rw [places_succ, firstFps, List.find?_cons, ablScanMP]
      by_cases hvalid : FpsValid mem start
      · rw [if_pos hvalid, decide_eq_true hvalid]
        rfl
      · rw [if_neg hvalid, decide_eq_false hvalid, ih]
        rfl

/-- What is found in front of other places is read instead of what is there. -/
theorem orScan_readFirst (l : List UADDR) (start : UADDR) (n : Nat) (s : Smp) :
    ((readFirst mem io (firstFps mem l) s).bind fun r => orScan r (ablScanMP mem io start n)) =
      readFirst mem io (firstFps mem (l ++ places start n)) s := by
  have happ : firstFps mem (l ++ places start n) =
      (firstFps mem l).or (firstFps mem (places start n)) := List.find?_append
  rw [happ]
  cases firstFps mem l with
  | none => exact ablScanMP_eq start n s
  | some a =>
      rw [Option.some_or]
      show ((Option.map _ _).bind _) = Option.map _ _
      cases ablReadMP mem io (mem.fps a) s with
      | none => rfl
      | some s => rfl

/-- **The search** reads the first structure that looks right. -/
theorem ablInitMP_eq (mem : Bios) (io : Ioapic) (mem_lower : UADDR) (s : Smp) :
    ablInitMP mem io mem_lower s =
      (readFirst mem io (firstFps mem (candidates mem mem_lower)) s).map fun r =>
        (if r.1 ∧ r.2.imps_enabled then r.2.imps_num_cpus else 1, r.2) := by
  unfold ablInitMP candidates
  split
  · rfl
  · dsimp only
    rw [← orScan_readFirst, ← orScan_readFirst, Option.map_eq_bind, Option.bind_assoc,
      Option.bind_assoc]
    by_cases hebda : ebdaAddr mem mem_lower ≠ 0#32
    · rw [if_pos hebda, if_pos hebda, ablScanMP_eq (ebdaAddr mem mem_lower)]
      rfl
    · rw [if_neg hebda, if_neg hebda]
      rfl

/-- The boot processor's APIC. -/
def bootApic (apic : UADDR → UDATA) (mem : Bios) (fps : ImpsFps) : UBYTE :=
  ((Smp.initial apic).boot (lapicAddr mem fps)).lapicId

theorem foldl_setWidth (l : List UBYTE) (sum : UDATA) :
    (l.foldl (fun sum b => sum + b.setWidth 32) sum).setWidth 8 = sum.setWidth 8 + l.sum := by
  induction l generalizing sum with
  | nil => rw [List.foldl_nil, List.sum_nil, add_zero]
  | cons b l ih =>
      rw [List.foldl_cons, ih, List.sum_cons, BitVec.setWidth_add _ _ (by decide),
        BitVec.setWidth_setWidth_of_le _ (by decide), BitVec.setWidth_eq, BitVec.add_assoc]

theorem low_byte (x : UDATA) : x &&& 0xff#32 = (x.setWidth 8).setWidth 32 := by
  refine BitVec.eq_of_toNat_eq ?_
  rw [BitVec.toNat_and, BitVec.toNat_setWidth, BitVec.toNat_setWidth]
  have hmod : x.toNat &&& 255 = x.toNat % 2 ^ 8 := Nat.and_two_pow_sub_one_eq_mod x.toNat 8
  refine hmod.trans ?_
  omega

theorem low_byte_eq_zero (x : UDATA) : x &&& 0xff#32 = 0#32 ↔ x.setWidth 8 = 0#8 := by
  rw [low_byte]
  constructor
  · intro h
    have := congrArg (BitVec.setWidth 8) h
    rwa [BitVec.setWidth_setWidth_of_le _ (by decide), BitVec.setWidth_eq] at this
  · intro h
    rw [h]
    rfl

theorem ablChecksumMP_setWidth (n : Nat) :
    (ablChecksumMP mem a n).setWidth 8 = (stretch mem a n).sum := by
  rw [ablChecksumMP, low_byte, BitVec.setWidth_setWidth_of_le _ (by decide), BitVec.setWidth_eq,
    sumMP, foldl_setWidth, BitVec.setWidth_zero, BitVec.zero_add]

theorem ablChecksumMP_eq_zero (n : Nat) :
    ablChecksumMP mem a n = 0#32 ↔ (stretch mem a n).sum = 0#8 := by
  rw [← ablChecksumMP_setWidth, ablChecksumMP, low_byte_eq_zero, low_byte,
    BitVec.setWidth_setWidth_of_le _ (by decide), BitVec.setWidth_eq]

/-- What `ABLcheckMP` has seen of a configuration table. -/
theorem ablCheckMP_sums (hcth : fps.cth_ptr ≠ 0#32) (h : ablCheckMP mem fps = true) :
    (stretch mem fps.cth_ptr (mem.cth fps.cth_ptr).base_length.toNat).sum = 0#8 ∧
      ((mem.cth fps.cth_ptr).extended_length ≠ 0#16 →
        (stretch mem (fps.cth_ptr + (mem.cth fps.cth_ptr).base_length.setWidth 32)
          (mem.cth fps.cth_ptr).extended_length.toNat).sum +
            (mem.cth fps.cth_ptr).extended_checksum = 0#8) := by
  unfold ablCheckMP at h
  dsimp only at h
  rw [if_pos hcth] at h
  split at h
  · cases h
  · split at h
    · cases h
    · next hbase =>
      rw [not_or, not_not, not_not] at hbase
      refine ⟨(ablChecksumMP_eq_zero _).mp hbase.2, fun hext => ?_⟩
      split at h
      · cases h
      · rw [decide_eq_true_eq, low_byte_eq_zero, BitVec.setWidth_add _ _ (by decide),
          ablChecksumMP_setWidth, BitVec.setWidth_setWidth_of_le _ (by decide),
          BitVec.setWidth_eq] at h
        exact h

/-! ## Errors -/

/-- The structure looks right, and so do its tables. -/
def Intact (mem : Bios) (a : UADDR) : Prop :=
  FpsValid mem a ∧ ablCheckMP mem (mem.fps a) = true

/-- A byte of the structure, or of a table that starts with a full header, other than the two with
the length of it. -/
def Checked (mem : Bios) (a b : UADDR) : Prop :=
  InStretch a 16 b ∨
    (mem.fps a).cth_ptr ≠ 0#32 ∧
      sizeofCth ≤ (mem.cth (mem.fps a).cth_ptr).base_length.toNat ∧
      ¬ InStretch ((mem.fps a).cth_ptr + 4#32) 2 b ∧
      (InStretch (mem.fps a).cth_ptr (mem.cth (mem.fps a).cth_ptr).base_length.toNat b ∨
        InStretch ((mem.fps a).cth_ptr + (mem.cth (mem.fps a).cth_ptr).base_length.setWidth 32)
          (mem.cth (mem.fps a).cth_ptr).extended_length.toNat b)

theorem update_outside {n : Nat} (h : ¬ InStretch a n b) {k : UADDR} (hk : k.toNat < n) :
    update mem b x (a + k) = mem (a + k) := by
  refine update_of_ne (fun he => h ⟨k.toNat, hk, ?_⟩) _ _
  rw [← he, BitVec.ofNat_toNat, BitVec.setWidth_eq]

theorem fps_update (h : ¬ InStretch a 16 b) : Bios.fps (update mem b x) a = mem.fps a := by
  have hk : ∀ k : UADDR, k.toNat < 16 → update mem b x (a + k) = mem (a + k) :=
    fun k => update_outside h
  have h0 : update mem b x a = mem a := by
    have h0 := hk 0#32 (by decide)
    rwa [BitVec.add_zero] at h0
  simp (disch := decide) only [Bios.fps, Bios.word, Bios.half, BitVec.add_assoc, h0, hk]

theorem cth_update (h : ¬ InStretch a sizeofCth b) : Bios.cth (update mem b x) a = mem.cth a := by
  have hk : ∀ k : UADDR, k.toNat < 44 → update mem b x (a + k) = mem (a + k) :=
    fun k => update_outside h
  have h0 : update mem b x a = mem a := by
    have h0 := hk 0#32 (by decide)
    rwa [BitVec.add_zero] at h0
  simp (disch := decide) only [Bios.cth, Bios.word, Bios.half, BitVec.add_assoc, h0, hk]

theorem base_length_update (h : ¬ InStretch (a + 4#32) 2 b) :
    (Bios.cth (update mem b x) a).base_length = (mem.cth a).base_length := by
  have h0 : update mem b x (a + 4#32 + 0#32) = _ := update_outside h (by decide)
  have h1 : update mem b x (a + 4#32 + 1#32) = _ := update_outside h (by decide)
  rw [BitVec.add_zero] at h0
  show Bios.half (update mem b x) (a + 4#32) = mem.half (a + 4#32)
  rw [Bios.half, Bios.half, h0, h1]

/-- **One wrong byte** in the structure or in its tables is seen. -/
theorem one_byte_refused (h : Intact mem a) (hb : Checked mem a b) (hx : x ≠ mem b) :
    ¬ Intact (update mem b x) a := by
  intro h'
  by_cases hfps : InStretch a 16 b
  · refine sum_stretch_update_ne (by decide) hfps hx ?_
    rw [(ablChecksumMP_eq_zero 16).mp h.1.2.2.2]
    exact (ablChecksumMP_eq_zero 16).mp h'.1.2.2.2
  · obtain ⟨hcth, hheader, hlength, hin⟩ := hb.resolve_left hfps
    have hcheck' := h'.2
    rw [fps_update hfps] at hcheck'
    obtain ⟨hbase, hext⟩ := ablCheckMP_sums hcth h.2
    obtain ⟨hbase', hext'⟩ := ablCheckMP_sums hcth hcheck'
    by_cases hinbase : InStretch (mem.fps a).cth_ptr
        (mem.cth (mem.fps a).cth_ptr).base_length.toNat b
    · rw [base_length_update hlength] at hbase'
      refine sum_stretch_update_ne ?_ hinbase hx (hbase'.trans hbase.symm)
      have := (mem.cth (mem.fps a).cth_ptr).base_length.isLt
      omega
    · have hinext := hin.resolve_left hinbase
      -- the header is in front of it
      have hsame : Bios.cth (update mem b x) (mem.fps a).cth_ptr = mem.cth (mem.fps a).cth_ptr :=
        cth_update fun hin => hinbase (hin.mono hheader)
      have hne : (mem.cth (mem.fps a).cth_ptr).extended_length ≠ 0#16 := by
        intro h0
        obtain ⟨i, hi, -⟩ := hinext
        rw [h0] at hi
        exact absurd hi (Nat.not_lt_zero i)
      rw [hsame] at hext'
      refine sum_stretch_update_ne ?_ hinext hx ?_
      · have := (mem.cth (mem.fps a).cth_ptr).extended_length.isLt
        omega
      · exact add_right_cancel ((hext' hne).trans (hext hne).symm)

/-- A structure at 0 and a table without entries behind it. -/
def emptyTable : Bios := ownMemory
  ([0x5f#8, 0x4d#8, 0x50#8, 0x5f#8, 0x10#8, 0#8, 0#8, 0#8, 1#8, 4#8, 0x90#8, 0#8, 0#8, 0#8, 0#8,
    0#8, 0x50#8, 0x43#8, 0x4d#8, 0x50#8, 0x2c#8, 0#8, 4#8, 0xa0#8] ++ List.replicate 36 0#8)

theorem one_byte_refused_name : ¬ Intact (update emptyTable 0x18#32 0x41#8) 0#32 := by
  have hcth : (emptyTable.fps 0#32).cth_ptr = 0x10#32 := by decide +kernel
  have hlength : (emptyTable.cth 0x10#32).base_length = 44#16 := by decide +kernel
  refine one_byte_refused ⟨by decide +kernel, by decide +kernel⟩ (.inr ?_) (by decide +kernel)
  rw [hcth, hlength]
  refine ⟨by decide, Nat.le_refl _, ?_, .inl ⟨8, by decide, by decide⟩⟩
  rintro ⟨i, hi, he⟩
  obtain rfl | rfl : i = 0 ∨ i = 1 := by omega
  · exact absurd he (by decide)
  · exact absurd he (by decide)

end Alliance.ABL
