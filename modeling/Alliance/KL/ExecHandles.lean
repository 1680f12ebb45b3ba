import Mathlib.Data.List.Perm.Subperm
import Mathlib.Algebra.Group.Nat.Defs
import Alliance.KL.ExecBlocks

/-!
# Handles of executables (`ExecInit.c`, `ExecOpen.c`, `ExecClose.c`)

`KLexecOpen` looks for an entry that is free before it asks how many entries there are, so it
looks behind the table when all are in use. `KLexecClose` frees what the pointers of the `ELF`
lead to, which have to be there: before the section headers are read, or without memory for
them, they are not initialised. As long as the calls keep away from that, and no load loses a
block, the handles are what a caller expects (`handles_hold`).
-/

namespace Alliance.KL.Exec

open Function Lib

/-! ## The table -/

inductive EHandle where
  | handle (eId : Nat)
  | ENO_EXECTABLE
  | ENO_MOREEXECS
  deriving DecidableEq, Repr

/-- `sizeof(ExecutableTable)`. -/
def ExecutableTable.size : Nat := 20

/-- The library; the handles that were returned and not closed; and the blocks that were
allocated for each of them. -/
structure Handles where
  st : Statics
  eTable : Nat → Option Executable
  maxExecutables : Nat
  /-- The entries that the memory of the table has room for. -/
  entries : Nat
  opened : List Nat
  blocks : Nat → List Malloc

namespace Handles

/-- `KLexecInit`, with the memory that it asks for. -/
def klExecInit (numOfExecutables : UWORD32) : Handles where
  st := .init
  eTable := fun _ => none
  maxExecutables := numOfExecutables.toNat
  entries := (numOfExecutables * .ofNat 32 ExecutableTable.size).toNat / ExecutableTable.size
  opened := []
  blocks := fun _ => []

variable (s : Handles)

/-- `while(_eTable[eId].exec!=NIL) eId++;` -/
def firstFree : Option Nat := (List.range s.entries).find? fun eId => (s.eTable eId).isNone

/-- `KLexecOpen`, where there is memory if `junk` is what was in it. -/
def klExecOpen (junk : Option (Nat → UBYTE)) : Option (Handles × EHandle) :=
  s.firstFree.map fun eId =>
    if s.maxExecutables ≤ eId then (s, .ENO_MOREEXECS)
    else
      match junk with
      | none => (s, .ENO_EXECTABLE)
      | some junk =>
        ({ s with
            eTable := update s.eTable eId (some (.opened junk))
            opened := eId :: s.opened
            blocks := update s.blocks eId [.exec] }, .handle eId)

/-- `KLexecClose`, and what it frees. -/
def klExecClose (eId : Nat) : Option (Handles × Bool × List Malloc) :=
  if s.maxExecutables ≤ eId then some (s, false, [])
  else if s.entries ≤ eId then none
  else
    match s.eTable eId with
    | none => some (s, false, [])
    | some x =>
      if x.elf.Closes then
        some
          ({ s with
              eTable := update s.eTable eId none
              opened := s.opened.erase eId
              blocks := update s.blocks eId [] }, true, x.elf.frees ++ [.exec])
      else none

/-- What `KLexecLoad` gets from `KLmalloc` for an entry. -/
def gets (eId : Nat) (heap : Heap) : List Malloc :=
  ((s.eTable eId).map fun x => x.gets s.st heap).getD []

end Handles

inductive HandleOp where
  | opens (junk : Option (Nat → UBYTE))
  | close (eId : Nat)
  | load (eId : Nat) (heap : Heap) (stack : UWORD32)
  /-- The caller reads what the record asks for. -/
  | read (eId : Nat) (file : Nat → UBYTE)
  | setSymbols (eId : Nat) (symbol : List (CString × UWORD32))

namespace Handles

variable (s : Handles)

/-- A call for an entry of the table, which gets `blocks`. -/
def onEntry (eId : Nat) (call : ExecCall) (blocks : List Malloc) : Option Handles :=
  if s.maxExecutables ≤ eId then some s
  else if s.entries ≤ eId then none
  else (callStep s.st (s.eTable eId) call).map fun r =>
    { s with
      st := r.1
      eTable := update s.eTable eId r.2.1
      blocks := update s.blocks eId (s.blocks eId ++ blocks) }

def step (s : Handles) : HandleOp → Option Handles
  | .opens junk => (s.klExecOpen junk).map Prod.fst
  | .close eId => (s.klExecClose eId).map Prod.fst
  | .load eId heap stack => s.onEntry eId (.load heap stack) (s.gets eId heap)
  | .read eId file => s.onEntry eId (.read file) []
  | .setSymbols eId symbol => s.onEntry eId (.setSymbols symbol) []

/-! ## What the handles are for -/

/-- `KLexecOpen` gives out a handle that is not in use as long as there are some, and then says
so. -/
def Opens (junk : Option (Nat → UBYTE)) : Prop :=
  ∃ s' r, s.klExecOpen junk = some (s', r) ∧
    (s.opened.length = s.maxExecutables → r = .ENO_MOREEXECS) ∧
    (s.opened.length < s.maxExecutables → junk.isSome →
      ∃ eId, r = .handle eId ∧ eId < s.maxExecutables ∧ eId ∉ s.opened)

/-- `KLexecClose` of an open handle succeeds once, and frees each of its blocks once. -/
def CloseFrees (eId : Nat) : Prop :=
  (eId ∈ s.opened → ∃ s' frees, s.klExecClose eId = some (s', true, frees) ∧
    frees.Perm (s.blocks eId) ∧ s'.klExecClose eId = some (s', false, [])) ∧
  (eId ∉ s.opened → s.klExecClose eId = some (s, false, []))

/-- A call that keeps away from what is not there: the table is not full, the arrays of an
executable that is closed are initialised, and a load stores to a section without a block. -/
def Fits (s : Handles) : HandleOp → Prop
  | .opens _ => s.opened.length < s.maxExecutables
  | .close eId => ∀ x ∈ s.eTable eId, x.elf.Closes
  | .load eId heap _ => ∀ x ∈ s.eTable eId, x.StoresFresh s.st heap
  | .read _ _ | .setSymbols _ _ => True

instance : ∀ op, Decidable (s.Fits op)
  | .opens _ => inferInstanceAs (Decidable (_ < _))
  | .close eId => inferInstanceAs (Decidable (∀ x ∈ s.eTable eId, x.elf.Closes))
  | .load eId heap _ => inferInstanceAs (Decidable (∀ x ∈ s.eTable eId, x.StoresFresh s.st heap))
  | .read _ _ | .setSymbols _ _ => instDecidableTrue

/-! ## The invariant -/

/-- The handles that were given out are the entries in use, and each has the blocks that were
allocated for it. -/
structure Consistent : Prop where
  entries : s.entries = s.maxExecutables
  nodup : s.opened.Nodup
  opened : ∀ eId, eId ∈ s.opened ↔ (s.eTable eId).isSome
  inside : ∀ eId, (s.eTable eId).isSome → eId < s.maxExecutables
  recorded : ∀ eId, ∀ x ∈ s.eTable eId, x.Recorded
  blocks : ∀ eId, ∀ x ∈ s.eTable eId, (x.elf.frees ++ [Malloc.exec]).Perm (s.blocks eId)

variable {s} {s' : Handles} {eId : Nat} {junk : Option (Nat → UBYTE)}

theorem consistent_init {n : UWORD32} (hn : n.toNat * ExecutableTable.size < 2 ^ 32) :
    (klExecInit n).Consistent := by
  refine ⟨?_, .nil, fun _ => ⟨nofun, nofun⟩, fun _ => nofun, fun _ _ => nofun, fun _ _ => nofun⟩
  show (n * .ofNat 32 ExecutableTable.size).toNat / ExecutableTable.size = n.toNat
  have hsize : (BitVec.ofNat 32 ExecutableTable.size).toNat = ExecutableTable.size := rfl
  rw [BitVec.toNat_mul, hsize, Nat.mod_eq_of_lt hn]
  exact Nat.mul_div_cancel _ (by decide)

theorem eTable_firstFree (hfree : s.firstFree = some eId) : s.eTable eId = none := by
  have hfound := List.find?_some hfree
  exact Option.isNone_iff_eq_none.mp hfound

/-- While not all handles are in use, there is an entry that is free. -/
theorem Consistent.exists_free (h : s.Consistent) (hroom : s.opened.length < s.maxExecutables) :
    ∃ eId, s.firstFree = some eId ∧ eId < s.maxExecutables ∧ s.eTable eId = none := by
  cases hfree : s.firstFree with
  | some eId =>
      have hmem := List.mem_of_find?_eq_some hfree
      rw [h.entries] at hmem
      exact ⟨eId, rfl, List.mem_range.mp hmem, eTable_firstFree hfree⟩
  | none =>
      -- all entries are in use, so as many handles were given out
      have hall : List.range s.maxExecutables ⊆ s.opened := by
        intro eId hmem
        rw [← h.entries] at hmem
        have hused := List.find?_eq_none.mp hfree eId hmem
        rw [h.opened, ← Option.not_isNone, Bool.not_eq_true']
        exact Bool.eq_false_iff.mpr hused
      have := (List.subperm_of_subset List.nodup_range hall).length_le
      rw [List.length_range] at this
      omega

/-- In a full table the search does not end. -/
theorem Consistent.full (h : s.Consistent) (hfull : s.maxExecutables ≤ s.opened.length) :
    s.firstFree = none := by
  have hin : s.opened ⊆ List.range s.maxExecutables := fun eId hmem =>
    List.mem_range.mpr (h.inside eId ((h.opened eId).mp hmem))
  have hperm := (List.subperm_of_subset h.nodup hin).perm_of_length_le
    (by rwa [List.length_range])
  refine List.find?_eq_none.mpr fun eId hmem => ?_
  rw [h.entries] at hmem
  have hused := (h.opened eId).mp (hperm.mem_iff.mpr hmem)
  rw [← Option.not_isSome, hused]
  nofun

/-- **When `KLexecOpen` does what it should.** -/
theorem Consistent.opens_iff (h : s.Consistent) (junk : Option (Nat → UBYTE)) :
    s.Opens junk ↔ s.opened.length < s.maxExecutables := by
  constructor
  · rintro ⟨s', r, hs, -⟩
    by_contra hfull
    rw [klExecOpen, h.full (Nat.not_lt.mp hfull)] at hs
    exact absurd hs nofun
  · intro hroom
    obtain ⟨eId, hfree, hlt, hnone⟩ := h.exists_free hroom
    have hnot : eId ∉ s.opened := by
      rw [h.opened, hnone]
      exact nofun
    unfold Opens klExecOpen
    rw [hfree, Option.map_some, if_neg (by omega)]
    cases junk with
    | none => exact ⟨_, _, rfl, fun he => by omega, fun _ => nofun⟩
    | some junk => exact ⟨_, _, rfl, fun he => by omega, fun _ _ => ⟨eId, rfl, hlt, hnot⟩⟩

/-- **When `KLexecClose` does what it should.** -/
theorem Consistent.closeFrees_iff (h : s.Consistent) (eId : Nat) :
    s.CloseFrees eId ↔ ∀ x ∈ s.eTable eId, x.elf.Closes := by
  unfold CloseFrees
  cases hx : s.eTable eId with
  | none =>
      have hnot : eId ∉ s.opened := by
        rw [h.opened, hx]
        exact nofun
      refine iff_of_true ⟨fun hmem => absurd hmem hnot, fun _ => ?_⟩ nofun
      unfold klExecClose
      split
      · rfl
      · next hlt =>
        rw [h.entries, if_neg hlt, hx]
  | some x =>
      have hmem : eId ∈ s.opened := by
        rw [h.opened, hx]
        rfl
      have hlt := h.inside eId (by rw [hx]; rfl)
      have hclose : s.klExecClose eId = if x.elf.Closes then
          some
            ({ s with
                eTable := update s.eTable eId none
                opened := s.opened.erase eId
                blocks := update s.blocks eId [] }, true, x.elf.frees ++ [.exec])
          else none := by
        unfold klExecClose
        rw [h.entries, if_neg (by omega), if_neg (by omega), hx]
      rw [hclose]
      constructor
      · rintro ⟨hopen, -⟩ y hy
        obtain rfl := Option.some.inj hy
        obtain ⟨s', frees, hs, -⟩ := hopen hmem
        split at hs
        · next hcloses => exact hcloses
        · exact absurd hs nofun
      · intro hcloses
        refine ⟨fun _ => ?_, fun hnot => absurd hmem hnot⟩
        rw [if_pos (hcloses x rfl)]
        refine ⟨_, _, rfl, h.blocks eId x hx, ?_⟩
        -- the entry is free now
        unfold klExecClose
        dsimp only
        rw [h.entries, if_neg (by omega), if_neg (by omega), update_self]

/-! ## Runs -/

theorem recorded_opened (junk : Nat → UBYTE) : (Executable.opened junk).Recorded :=
  ⟨fun _ hne => absurd rfl hne, fun _ => rfl, fun _ => rfl, nofun⟩

theorem Consistent.klExecOpen {r : EHandle} (h : s.Consistent)
    (hs : s.klExecOpen junk = some (s', r)) : s'.Consistent := by
  obtain ⟨eId, hfree, hs⟩ := Option.map_eq_some_iff.mp hs
  split at hs
  · obtain ⟨rfl, -⟩ := Prod.mk.inj hs
    exact h
  · next hlt =>
    split at hs
    · obtain ⟨rfl, -⟩ := Prod.mk.inj hs
      exact h
    · next junk hcall =>
      obtain ⟨rfl, -⟩ := Prod.mk.inj hs
      have hnot : eId ∉ s.opened := by
        rw [h.opened, eTable_firstFree hfree]
        exact nofun
      -- an entry in use is the new one, or it was in use
      have hcases : ∀ {e x}, x ∈ update s.eTable eId (some (.opened junk)) e →
          (e = eId ∧ x = .opened junk) ∨ (e ≠ eId ∧ x ∈ s.eTable e) := by
        intro e x hx
        by_cases he : e = eId
        · subst he
          rw [update_self] at hx
          exact .inl ⟨rfl, (Option.some.inj hx).symm⟩
        · exact .inr ⟨he, by rwa [update_of_ne he] at hx⟩
      constructor
      case entries => exact h.entries
      case nodup => exact List.nodup_cons.mpr ⟨hnot, h.nodup⟩
      case opened =>
        intro e
        by_cases he : e = eId
        · subst he
          simp
        · simp [he, h.opened]
      case inside =>
        intro e he
        obtain ⟨x, hx⟩ := Option.isSome_iff_exists.mp he
        rcases hcases hx with ⟨rfl, -⟩ | ⟨-, hx⟩
        · exact Nat.not_le.mp hlt
        · exact h.inside e (by rw [hx]; rfl)
      case recorded =>
        intro e x hx
        rcases hcases hx with ⟨-, rfl⟩ | ⟨-, hx⟩
        · exact recorded_opened junk
        · exact h.recorded e x hx
      case blocks =>
        intro e x hx
        show (x.elf.frees ++ [Malloc.exec]).Perm (update s.blocks eId [.exec] e)
        rcases hcases hx with ⟨rfl, rfl⟩ | ⟨he, hx⟩
        · rw [update_self, (recorded_opened junk).frees_start rfl, List.nil_append]
        · rw [update_of_ne he]
          exact h.blocks e x hx

theorem Consistent.klExecClose {r : Bool × List Malloc} (h : s.Consistent)
    (hs : s.klExecClose eId = some (s', r)) : s'.Consistent := by
  unfold Handles.klExecClose at hs
  split at hs
  · obtain ⟨rfl, -⟩ := Prod.mk.inj (Option.some.inj hs)
    exact h
  · split at hs
    · exact absurd hs nofun
    · split at hs
      · obtain ⟨rfl, -⟩ := Prod.mk.inj (Option.some.inj hs)
        exact h
      · split at hs
        · obtain ⟨rfl, -⟩ := Prod.mk.inj (Option.some.inj hs)
          have hkept : ∀ {e x}, x ∈ update s.eTable eId none e → e ≠ eId ∧ x ∈ s.eTable e := by
            intro e x hx
            by_cases he : e = eId
            · subst he
              rw [update_self] at hx
              exact absurd hx nofun
            · exact ⟨he, by rwa [update_of_ne he] at hx⟩
          constructor
          case entries => exact h.entries
          case nodup => exact h.nodup.erase eId
          case opened =>
            intro e
            rw [h.nodup.mem_erase_iff, h.opened]
            by_cases he : e = eId
            · subst he
              simp
            · simp [he]
          case inside =>
            intro e he
            obtain ⟨x, hx⟩ := Option.isSome_iff_exists.mp he
            exact h.inside e (by rw [(hkept hx).2]; rfl)
          case recorded => exact fun e x hx => h.recorded e x (hkept hx).2
          case blocks =>
            intro e x hx
            show (x.elf.frees ++ [Malloc.exec]).Perm (update s.blocks eId [] e)
            rw [update_of_ne (hkept hx).1]
            exact h.blocks e x (hkept hx).2
        · exact absurd hs nofun

/-- A call for an entry that adds what it gets to what will be freed. -/
theorem Consistent.onEntry {call : ExecCall} {blocks : List Malloc} (h : s.Consistent)
    (hnone : s.eTable eId = none → ∀ r, callStep s.st none call = some r → r.2.1 = none)
    (hadds : ∀ x, s.eTable eId = some x → ∀ r, callStep s.st (some x) call = some r →
      ∃ x', r.2.1 = some x' ∧ x'.Recorded ∧ x'.elf.frees.Perm (x.elf.frees ++ blocks))
    (hs : s.onEntry eId call blocks = some s') : s'.Consistent := by
  unfold Handles.onEntry at hs
  split at hs
  · obtain rfl := Option.some.inj hs
    exact h
  · split at hs
    · exact absurd hs nofun
    · obtain ⟨r, hr, rfl⟩ := Option.map_eq_some_iff.mp hs
      have hsome : r.2.1.isSome = (s.eTable eId).isSome := by
        cases hx : s.eTable eId with
        | none =>
            rw [hx] at hr
            rw [hnone hx r hr]
        | some x =>
            rw [hx] at hr
            obtain ⟨x', hx', -⟩ := hadds x hx r hr
            rw [hx']
            rfl
      -- an executable is one that the call was for, or another one
      have hcases : ∀ {e x'}, x' ∈ update s.eTable eId r.2.1 e →
          (e = eId ∧ ∃ x, s.eTable eId = some x ∧ x'.Recorded ∧
            x'.elf.frees.Perm (x.elf.frees ++ blocks)) ∨ (e ≠ eId ∧ x' ∈ s.eTable e) := by
        intro e x' hx'
        by_cases he : e = eId
        · subst he
          rw [update_self] at hx'
          obtain ⟨x, hx⟩ := Option.isSome_iff_exists.mp (hsome ▸ Option.isSome_of_eq_some hx')
          rw [hx] at hr
          obtain ⟨y, hy, hadded⟩ := hadds x hx r hr
          obtain rfl := Option.some.inj (hx'.symm.trans hy)
          exact .inl ⟨rfl, x, hx, hadded⟩
        · exact .inr ⟨he, by rwa [update_of_ne he] at hx'⟩
      have hsame : ∀ e, (update s.eTable eId r.2.1 e).isSome = (s.eTable e).isSome := by
        intro e
        by_cases he : e = eId
        · subst he
          rw [update_self, hsome]
        · rw [update_of_ne he]
      constructor
      case entries => exact h.entries
      case nodup => exact h.nodup
      case opened => exact fun e => (h.opened e).trans (by rw [hsame e])
      case inside => exact fun e he => h.inside e (hsame e ▸ he)
      case recorded =>
        intro e x' hx'
        rcases hcases hx' with ⟨-, x, -, hrecorded, -⟩ | ⟨-, hx'⟩
        · exact hrecorded
        · exact h.recorded e x' hx'
      case blocks =>
        intro e x' hx'
        show (x'.elf.frees ++ [Malloc.exec]).Perm (update s.blocks eId (s.blocks eId ++ blocks) e)
        rcases hcases hx' with ⟨rfl, x, hx, -, hfrees⟩ | ⟨he, hx'⟩
        · -- the new blocks, and the `ELF` behind the old ones
          rw [update_self]
          refine (hfrees.append_right _).trans ?_
          rw [List.append_assoc]
          refine (List.perm_append_comm.append_left _).trans ?_
          rw [← List.append_assoc]
          exact (h.blocks e x hx).append_right _
        · rw [update_of_ne he]
          exact h.blocks e x' hx'

theorem onEntry_maxExecutables {call : ExecCall} {blocks : List Malloc}
    (hs : s.onEntry eId call blocks = some s') : s'.maxExecutables = s.maxExecutables := by
  unfold onEntry at hs
  split at hs
  · obtain rfl := Option.some.inj hs
    rfl
  · split at hs
    · exact absurd hs nofun
    · obtain ⟨r, -, rfl⟩ := Option.map_eq_some_iff.mp hs
      rfl

theorem step_maxExecutables {op : HandleOp} (hs : s.step op = some s') :
    s'.maxExecutables = s.maxExecutables := by
  cases op with
  | opens junk =>
      obtain ⟨r, hr, rfl⟩ := Option.map_eq_some_iff.mp hs
      obtain ⟨eId, -, rfl⟩ := Option.map_eq_some_iff.mp hr
      split
      · rfl
      · split
        · rfl
        · rfl
  | close eId =>
      obtain ⟨r, hr, rfl⟩ := Option.map_eq_some_iff.mp hs
      unfold klExecClose at hr
      split at hr
      · obtain rfl := Option.some.inj hr
        rfl
      · split at hr
        · exact absurd hr nofun
        · split at hr
          · obtain rfl := Option.some.inj hr
            rfl
          · split at hr
            · obtain rfl := Option.some.inj hr
              rfl
            · exact absurd hr nofun
  | load | read | setSymbols => exact onEntry_maxExecutables hs

theorem consistent_step {op : HandleOp} (h : s.Consistent) (hfits : s.Fits op)
    (hs : s.step op = some s') : s'.Consistent := by
  cases op with
  | opens junk =>
      obtain ⟨⟨_, r⟩, hr, rfl⟩ := Option.map_eq_some_iff.mp hs
      exact h.klExecOpen hr
  | close eId =>
      obtain ⟨⟨_, r⟩, hr, rfl⟩ := Option.map_eq_some_iff.mp hs
      exact h.klExecClose hr
  | load eId heap stack =>
      refine h.onEntry ?_ (fun x hx r hr => ?_) hs
      · intro _ r hr
        obtain rfl := Option.some.inj hr
        rfl
      · obtain ⟨⟨st, x', status⟩, hload, rfl⟩ := Option.map_eq_some_iff.mp hr
        obtain ⟨hrecorded, hfrees⟩ := load_frees (h.recorded eId x hx) (hfits x hx) hload
        refine ⟨x', rfl, hrecorded, ?_⟩
        rw [gets, hx]
        exact hfrees
  | read eId file =>
      refine h.onEntry ?_ (fun x hx r hr => ?_) hs
      · intro _ r hr
        obtain rfl := Option.some.inj hr
        rfl
      · obtain rfl := Option.some.inj hr
        obtain ⟨hrecorded, hfrees⟩ := fill_frees (h.recorded eId x hx) file
        refine ⟨x.fill file, rfl, hrecorded, ?_⟩
        rw [List.append_nil]
        exact hfrees
  | setSymbols eId symbol =>
      refine h.onEntry ?_ (fun x hx r hr => ?_) hs
      · intro _ r hr
        obtain rfl := Option.some.inj hr
        rfl
      · obtain ⟨linked, hlinked, rfl⟩ := Option.map_eq_some_iff.mp hr
        have hsame := elfSetSymbols_same hlinked
        refine ⟨_, rfl, (h.recorded eId x hx).same hsame id rfl, ?_⟩
        rw [List.append_nil, hsame.frees_eq]

/-- **Handles**: as long as the calls fit, the open handles are distinct ones of the table, and the
next calls do what they should exactly if they fit, too. -/
theorem handles_hold {n : UWORD32} (hn : n.toNat * ExecutableTable.size < 2 ^ 32)
    {ops : List HandleOp} (hr : Run step Fits (klExecInit n) ops s) :
    s.opened.Nodup ∧ (∀ eId ∈ s.opened, eId < n.toNat) ∧
      (∀ junk, s.Opens junk ↔ s.Fits (.opens junk)) ∧
      ∀ eId, s.CloseFrees eId ↔ s.Fits (.close eId) := by
  have h : s.Consistent := hr.invariant consistent_step (consistent_init hn)
  have hmax : s.maxExecutables = n.toNat :=
    hr.invariant (I := fun s => s.maxExecutables = n.toNat)
      (fun h _ hs => (step_maxExecutables hs).trans h) rfl
  refine ⟨h.nodup, fun eId hmem => ?_, h.opens_iff, h.closeFrees_iff⟩
  rw [← hmax]
  exact h.inside eId ((h.opened eId).mp hmem)

/-- An executable is loaded, another one is opened, and the first one closed. -/
def openTwo : List HandleOp :=
  .opens (some fun _ => 0xff#8) ::
    ((List.range 7).flatMap fun n =>
      [.read 0 (fileOf symTabFirst), .load 0 (memoryAt n) 0#32]) ++
    [.opens (some fun _ => 0xff#8), .close 0]

theorem handles_hold_openTwo :
    ∃ s, Run step Fits (klExecInit 2#32) openTwo s ∧ s.opened.Nodup := by
  obtain ⟨s, hr, -⟩ := Run.of_exec_any (show (exec step Fits (klExecInit 2#32) openTwo).any
    (fun _ => true) = true by decide +kernel)
  exact ⟨s, hr, (handles_hold (by decide) hr).1⟩

/-- After the first of two calls of `KLexecOpen` with a table for one executable, the second one
looks behind the table, and `KLexecClose` follows pointers that are not initialised. -/
theorem handles_not_hold_full :
    ∃ s, Run step (fun _ _ => True) (klExecInit 1#32) [.opens (some fun _ => 0xff#8)] s ∧
      ¬ s.Opens (some fun _ => 0xff#8) ∧ ¬ s.CloseFrees 0 := by
  refine ⟨_, .cons trivial rfl (.nil _), ?_, ?_⟩
  · rintro ⟨s', r, hs, -⟩
    exact absurd hs nofun
  · rintro ⟨hclose, -⟩
    obtain ⟨s', frees, hs, -⟩ := hclose (by decide)
    exact absurd hs nofun

end Handles

end Alliance.KL.Exec
