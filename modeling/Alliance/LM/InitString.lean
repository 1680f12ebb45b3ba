import Alliance.Lib.CString
import Mathlib.Logic.Function.Basic
import Mathlib.Tactic.SplitIfs

/-!
# Init strings of loadable modules (`ParseInitString.c`)

An init string is the name of a module with its arguments in parentheses, among them at most one
module of the same form. `LMparseInitString` reads the nested module first and its own arguments
after it, up to the first `)`, and then goes on to the next comma.

For a nested module the first `)` is the nested module's, and without one there is no comma
behind it. So no init string is read as it is meant (`init_string_never`).

Reading behind the 0 at the end of the string has no meaning. Tables have room for everything
that is written to them.
-/

namespace Alliance.LM

open Function Lib

/-- A character. -/
abbrev STRING := BitVec 8

/-- `(`, `)`, `,` and a blank. -/
def lpar : STRING := 40#8

def rpar : STRING := 41#8

def comma : STRING := 44#8

def blank : STRING := 32#8

/-- `KLstringMatch` for one character: what is in front of it and what is behind it. -/
def klStringMatch (s : List STRING) (c : STRING) : Option (List STRING × List STRING) := cut s c

/-- `Symbol`. -/
structure Symbol where
  Name : Nat → STRING
  Parameter : Nat → Nat → STRING

/-- `LMIndex` and the table that is filled. -/
structure InitStrings where
  LMIndex : Nat
  LMchainInitStrings : Nat → Symbol

namespace InitStrings

def setSymbol (s : InitStrings) (sym : Symbol) : InitStrings :=
  { s with LMchainInitStrings := update s.LMchainInitStrings s.LMIndex sym }

/-- The entry at `LMIndex`. -/
def symbol (s : InitStrings) : Symbol := s.LMchainInitStrings s.LMIndex

/-- `KLstringNumCopy` to `Name`, and its 0. -/
def setName (s : InitStrings) (name : List STRING) : InitStrings :=
  s.setSymbol { s.symbol with
    Name := fun k => if k ≤ name.length then name.getD k 0#8 else s.symbol.Name k }

/-- `Parameter[j][i] = c`. -/
def setParameter (s : InitStrings) (j i : Nat) (c : STRING) : InitStrings :=
  s.setSymbol { s.symbol with
    Parameter := update s.symbol.Parameter j (update (s.symbol.Parameter j) i c) }

/-- The name of a module is found, and a nested one may follow. -/
def enter (s : InitStrings) (name : List STRING) : InitStrings :=
  let s := s.setName name
  let s := { s with LMIndex := s.LMIndex + 1 }
  s.setName []

/-- One character of the arguments, with the counters `j` and `i`. -/
def collect (r : InitStrings × Nat × Nat) (c : STRING) : InitStrings × Nat × Nat :=
  if c = blank then r
  else if c = comma then (r.1.setParameter r.2.1 r.2.2 0#8, r.2.1 + 1, 0)
  else (r.1.setParameter r.2.1 r.2.2 c, r.2.1, r.2.2 + 1)

/-- The arguments in front of `EndPointer`, and the string from there on. Without a `)` the
pointer is `NIL`, and nothing is in front of that. -/
def arguments (ScanPointer : List STRING) : List STRING × List STRING :=
  match klStringMatch ScanPointer rpar with
  | some (args, rest) => (args, rpar :: rest)
  | none => ([], ScanPointer)

/-- The arguments behind a name, when a nested module is done. -/
def leave (s : InitStrings) (ScanPointer : List STRING) : Option InitStrings :=
  let r := (arguments ScanPointer).1.foldl collect ({ s with LMIndex := s.LMIndex - 1 }, 0, 0)
  -- the search for a comma goes on behind the end of the string
  if comma ∈ (arguments ScanPointer).2 then some (r.1.setParameter r.2.1 r.2.2 0#8) else none

end InitStrings

/-- `LMparseInitString`, of a string without its 0. -/
def lmParseInitString (Text : List STRING) (s : InitStrings) : Option InitStrings :=
  match _h : klStringMatch Text lpar with
  | none => some s
  | some (name, ScanPointer) =>
    (lmParseInitString ScanPointer (s.enter name)).bind fun s => s.leave ScanPointer
termination_by Text.length
decreasing_by
  rw [(cut_eq _h).1, List.length_append, List.length_cons]
  omega

/-! ## Init strings -/

/-- Neither the end of a string nor a delimiter. -/
def Plain (c : STRING) : Prop := c ≠ 0#8 ∧ c ≠ lpar ∧ c ≠ rpar ∧ c ≠ comma

instance (c : STRING) : Decidable (Plain c) := inferInstanceAs (Decidable (_ ∧ _))

/-- The text of a name or of an argument, with its blanks. -/
structure Word where
  text : List STRING
  plain : ∀ c ∈ text, Plain c

/-- The word without its blanks. -/
def Word.value (w : Word) : List STRING := w.text.filter (· ≠ blank)

/-- A module with plain arguments, or one with a nested module among them. -/
inductive Module where
  | plain (name : Word) (args : List Word)
  | chain (name : Word) (before : List Word) (nested : Module) (after : List Word)

/-- Arguments, each with a comma behind it. -/
def behind (args : List Word) : List STRING := (args.map fun w => w.text ++ [comma]).flatten

/-- Arguments, each with a comma in front of it. -/
def inFront (args : List Word) : List STRING := (args.map fun w => comma :: w.text).flatten

/-- The arguments of a plain module. -/
def separated : List Word → List STRING
  | [] => []
  | w :: args => w.text ++ inFront args

def Module.text : Module → List STRING
  | .plain name args => name.text ++ lpar :: (separated args ++ [rpar])
  | .chain name before nested after =>
    name.text ++ lpar :: (behind before ++ nested.text ++ inFront after ++ [rpar])

/-- An entry of the table has a module's name and its plain arguments. -/
structure Entry (sym : Symbol) (name : Word) (args : List Word) : Prop where
  name : IsString sym.Name name.value
  args : ∀ j w, args[j]? = some w → IsString (sym.Parameter j) w.value

/-- The table has a module at `i` and the modules nested in it behind it; an empty name is the
end. -/
def Listed (table : Nat → Symbol) : Nat → Module → Prop
  | i, .plain name args => Entry (table i) name args ∧ IsString (table (i + 1)).Name []
  | i, .chain name before nested after =>
    Entry (table i) name (before ++ after) ∧ Listed table (i + 1) nested

/-- The string is read, and read again with the same result. -/
def ReadAsMeant (m : Module) (table : Nat → Symbol) : Prop :=
  ∃ s s', lmParseInitString m.text ⟨0, table⟩ = some s ∧ Listed s.LMchainInitStrings 0 m ∧
    lmParseInitString m.text s = some s' ∧ Listed s'.LMchainInitStrings 0 m

/-! ## What a call leaves alone -/

namespace InitStrings

variable {s s' : InitStrings} {r : InitStrings × Nat × Nat} {name ScanPointer cs : List STRING}
  {c : STRING} {i j k : Nat}

theorem setSymbol_of_ne {sym : Symbol} (hk : k ≠ s.LMIndex) :
    (s.setSymbol sym).LMchainInitStrings k = s.LMchainInitStrings k := update_of_ne hk ..

theorem symbol_setSymbol {sym : Symbol} : (s.setSymbol sym).symbol = sym := update_self ..

theorem foldl_collect_rest (cs : List STRING) (r : InitStrings × Nat × Nat) :
    (cs.foldl collect r).1.LMIndex = r.1.LMIndex ∧
    ∀ k ≠ r.1.LMIndex, (cs.foldl collect r).1.LMchainInitStrings k = r.1.LMchainInitStrings k := by
  induction cs generalizing r with
  | nil => exact ⟨rfl, fun _ _ => rfl⟩
  | cons c cs ih =>
      have hstep : (collect r c).1.LMIndex = r.1.LMIndex ∧ ∀ k ≠ r.1.LMIndex,
          (collect r c).1.LMchainInitStrings k = r.1.LMchainInitStrings k := by
        unfold collect
        split_ifs
        · exact ⟨rfl, fun _ _ => rfl⟩
        · exact ⟨rfl, fun _ hk => setSymbol_of_ne hk⟩
        · exact ⟨rfl, fun _ hk => setSymbol_of_ne hk⟩
      obtain ⟨hindex, hrest⟩ := ih (r := collect r c)
      exact ⟨hindex.trans hstep.1, fun k hk => (hrest k (hstep.1 ▸ hk)).trans (hstep.2 k hk)⟩

theorem arguments_append {front rest : List STRING} (h : rpar ∉ front) :
    arguments (front ++ rpar :: rest) = (front, rpar :: rest) := by
  rw [arguments, klStringMatch, cut_append h]

/-- The arguments go to the entry in front of `LMIndex`. -/
theorem leave_rest (hs : s.leave ScanPointer = some s') : s'.LMIndex = s.LMIndex - 1 ∧
    ∀ k ≠ s.LMIndex - 1, s'.LMchainInitStrings k = s.LMchainInitStrings k := by
  unfold leave at hs
  split at hs
  · obtain rfl := Option.some.inj hs
    obtain ⟨hindex, hrest⟩ := foldl_collect_rest _ ({ s with LMIndex := s.LMIndex - 1 }, 0, 0)
    exact ⟨hindex, fun k hk => (setSymbol_of_ne (hindex ▸ hk)).trans (hrest k hk)⟩
  · exact absurd hs nofun

theorem enter_rest (hk : k < s.LMIndex) :
    (s.enter name).LMchainInitStrings k = s.LMchainInitStrings k :=
  (setSymbol_of_ne (Nat.ne_of_lt (Nat.lt_succ_of_lt hk))).trans
    (setSymbol_of_ne (Nat.ne_of_lt hk))

/-! ## A parenthesis among the arguments -/

/-- What is collected of the current argument has no 0. -/
def Filled (r : InitStrings × Nat × Nat) : Prop :=
  ∀ q < r.2.2, r.1.symbol.Parameter r.2.1 q ≠ 0#8

/-- Argument `j` has a `(`. -/
structure HasLpar (a : Nat → Nat → STRING) (j i : Nat) : Prop where
  lpar : a j i = lpar
  nonzero : ∀ q < i, a j q ≠ 0#8

/-- It has, and collecting goes on behind it. -/
structure Marked (r : InitStrings × Nat × Nat) (j i : Nat) : Prop where
  hasLpar : HasLpar r.1.symbol.Parameter j i
  behind : r.2.1 = j ∧ i < r.2.2 ∨ j < r.2.1

theorem setParameter_of_ne {j' i' : Nat} (h : j' ≠ j ∨ i' ≠ i) :
    (s.setParameter j i c).symbol.Parameter j' i' = s.symbol.Parameter j' i' := by
  rw [setParameter, symbol_setSymbol]
  by_cases hj : j' = j
  · subst hj
    dsimp only
    rw [update_self, update_of_ne (h.resolve_left (not_not_intro rfl))]
  · exact congrFun (update_of_ne hj ..) i'

theorem setParameter_self : (s.setParameter j i c).symbol.Parameter j i = c := by
  rw [setParameter, symbol_setSymbol]
  dsimp only
  rw [update_self, update_self]

/-- Writing behind the `(`. -/
theorem HasLpar.setParameter {j' i' : Nat} (h : HasLpar s.symbol.Parameter j i)
    (hb : j' = j ∧ i < i' ∨ j < j') : HasLpar (s.setParameter j' i' c).symbol.Parameter j i where
  lpar := by rw [setParameter_of_ne (by omega), h.lpar]
  nonzero q hq := by
    rw [setParameter_of_ne (by omega)]
    exact h.nonzero q hq

theorem Marked.foldl (h : Marked r j i) (cs : List STRING) : Marked (cs.foldl collect r) j i := by
  induction cs generalizing r with
  | nil => exact h
  | cons c cs ih =>
      refine ih ?_
      unfold collect
      split_ifs
      · exact h
      · exact ⟨h.hasLpar.setParameter h.behind, .inr (by have := h.behind; dsimp only; omega)⟩
      · exact ⟨h.hasLpar.setParameter h.behind, by have := h.behind; dsimp only; omega⟩

/-- Characters in front of the `(`: every comma starts an argument. -/
theorem Filled.foldl (h : Filled r) (hcs : 0#8 ∉ cs) : Filled (cs.foldl collect r) ∧
    (cs.foldl collect r).2.1 = r.2.1 + cs.count comma := by
  induction cs generalizing r with
  | nil => exact ⟨h, rfl⟩
  | cons c cs ih =>
      obtain ⟨hc, hcs⟩ := not_or.mp (mt List.mem_cons.mpr hcs)
      have hstep : Filled (collect r c) ∧
          (collect r c).2.1 = r.2.1 + if c = comma then 1 else 0 := by
        unfold collect
        split_ifs with hblank hcomma hcomma
        · exact absurd (hblank.symm.trans hcomma) (by decide)
        · exact ⟨h, rfl⟩
        · exact ⟨fun q hq => absurd hq (Nat.not_lt_zero q), rfl⟩
        · refine ⟨fun q hq => ?_, rfl⟩
          by_cases hq' : q = r.2.2
          · subst hq'
            rw [setParameter_self]
            exact Ne.symm hc
          · rw [setParameter_of_ne (.inr hq')]
            exact h q (Nat.lt_of_le_of_ne (Nat.le_of_lt_succ hq) hq')
      obtain ⟨hfilled, hcount⟩ := ih hstep.1 hcs
      refine ⟨hfilled, ?_⟩
      rw [List.foldl_cons, hcount, hstep.2, List.count_cons]
      simp only [beq_iff_eq]
      omega

theorem Filled.lpar (h : Filled r) : ∃ i, Marked (collect r lpar) r.2.1 i := by
  refine ⟨r.2.2, ?_⟩
  rw [collect, if_neg (by decide), if_neg (by decide)]
  refine ⟨⟨setParameter_self, fun q hq => ?_⟩, .inl ⟨rfl, Nat.lt_succ_self _⟩⟩
  rw [setParameter_of_ne (.inr (Nat.ne_of_lt hq))]
  exact h q hq

/-- **The `(` of a nested module** is taken for a part of an argument: of the one that has as
many commas in front of it. -/
theorem leave_hasLpar {front tail : List STRING} (hs : s.leave (front ++ LM.lpar :: tail) = some s')
    (hzero : 0#8 ∉ front) (hrpar : rpar ∉ front) (htail : rpar ∈ tail) :
    ∃ i, HasLpar (s'.LMchainInitStrings (s.LMIndex - 1)).Parameter (front.count comma) i := by
  obtain ⟨⟨args, rest⟩, hmatch⟩ := cut_isSome htail
  obtain ⟨rfl, hargs⟩ := cut_eq hmatch
  have hnot : rpar ∉ front ++ LM.lpar :: args := by
    rw [List.mem_append, List.mem_cons]
    exact not_or.mpr ⟨hrpar, not_or.mpr ⟨by decide, hargs⟩⟩
  have harguments : arguments (front ++ LM.lpar :: (args ++ rpar :: rest)) =
      (front ++ LM.lpar :: args, rpar :: rest) := by
    rw [← List.cons_append, ← List.append_assoc, arguments_append hnot]
  rw [leave, harguments] at hs
  dsimp only at hs
  rw [List.foldl_append, List.foldl_cons] at hs
  obtain ⟨hfilled, hcount⟩ := Filled.foldl
    (r := ({ s with LMIndex := s.LMIndex - 1 }, 0, 0)) (fun q hq => absurd hq (Nat.not_lt_zero q))
    hzero
  obtain ⟨i, hi⟩ := hfilled.lpar
  have hmarked := hi.foldl args
  rw [hcount, Nat.zero_add] at hmarked
  split at hs
  · obtain rfl := Option.some.inj hs
    have hindex : ∀ {r : InitStrings × Nat × Nat}, (collect r LM.lpar).1.LMIndex = r.1.LMIndex :=
      fun {r} => (foldl_collect_rest [LM.lpar] r).1
    have hLMIndex := (foldl_collect_rest args (collect _ LM.lpar)).1.trans
      (hindex.trans (foldl_collect_rest front ({ s with LMIndex := s.LMIndex - 1 }, 0, 0)).1)
    refine ⟨i, ?_⟩
    have h := hmarked.hasLpar.setParameter (c := 0#8) hmarked.behind
    rwa [symbol, show (setParameter _ _ _ _).LMIndex = s.LMIndex - 1 from hLMIndex] at h
  · exact absurd hs nofun

end InitStrings

/-! ## Every init string -/

variable {s s' : InitStrings} {Text front ScanPointer : List STRING} {table table' : Nat → Symbol}

theorem lmParseInitString_plain (h : lpar ∉ Text) : lmParseInitString Text s = some s := by
  unfold lmParseInitString
  split
  · rfl
  · next hm => exact absurd hm (by rw [klStringMatch, cut_none h]; nofun)

theorem lmParseInitString_lpar (h : lpar ∉ front) :
    lmParseInitString (front ++ lpar :: ScanPointer) s =
      (lmParseInitString ScanPointer (s.enter front)).bind fun s => s.leave ScanPointer := by
  rw [lmParseInitString]
  split
  · next hm => exact absurd hm (by rw [klStringMatch, cut_append h]; nofun)
  · next hm =>
    rw [klStringMatch, cut_append h] at hm
    obtain ⟨rfl, rfl⟩ := Prod.mk.inj (Option.some.inj hm)
    rfl

/-- A call leaves the entries in front of `LMIndex` alone. -/
theorem lmParseInitString_rest (hs : lmParseInitString Text s = some s') :
    s'.LMIndex = s.LMIndex ∧
      ∀ k < s.LMIndex, s'.LMchainInitStrings k = s.LMchainInitStrings k := by
  induction hlen : Text.length using Nat.strong_induction_on generalizing Text s s' with
  | _ n ih =>
    unfold lmParseInitString at hs
    split at hs
    · obtain rfl := Option.some.inj hs
      exact ⟨rfl, fun _ _ => rfl⟩
    · next name ScanPointer hm =>
      obtain ⟨s₁, hs₁, hs'⟩ := Option.bind_eq_some_iff.mp hs
      have hlt : ScanPointer.length < n := by
        rw [← hlen, (cut_eq hm).1, List.length_append, List.length_cons]
        omega
      obtain ⟨hindex₁, hrest₁⟩ := ih _ hlt hs₁ rfl
      obtain ⟨hindex, hrest⟩ := InitStrings.leave_rest hs'
      have hLMIndex : s₁.LMIndex = s.LMIndex + 1 := hindex₁
      refine ⟨by omega, fun k hk => ?_⟩
      rw [hrest k (by omega), hrest₁ k (show k < s.LMIndex + 1 by omega),
        InitStrings.enter_rest hk]

/-- What is listed is seen from the entries behind `i`. -/
theorem Listed.congr {m : Module} {i : Nat} (h : Listed table i m)
    (ht : ∀ k, i ≤ k → table' k = table k) : Listed table' i m := by
  induction m generalizing i with
  | plain name args => exact ⟨ht i (Nat.le_refl i) ▸ h.1, ht (i + 1) (Nat.le_succ i) ▸ h.2⟩
  | chain name before nested after ih =>
      exact ⟨ht i (Nat.le_refl i) ▸ h.1, ih h.2 fun k hk => ht k (Nat.le_of_succ_le hk)⟩

/-! ## The text of a module -/

theorem Word.not_mem (w : Word) : 0#8 ∉ w.text ∧ lpar ∉ w.text ∧ rpar ∉ w.text ∧
    comma ∉ w.text :=
  ⟨fun h => (w.plain _ h).1 rfl, fun h => (w.plain _ h).2.1 rfl, fun h => (w.plain _ h).2.2.1 rfl,
    fun h => (w.plain _ h).2.2.2 rfl⟩

theorem not_mem_behind {args : List Word} {c : STRING} (hc : c ≠ comma)
    (h : ∀ w : Word, c ∉ w.text) : c ∉ behind args := by
  simp only [behind, List.mem_flatten, List.mem_map, not_exists, not_and, forall_exists_index,
    and_imp]
  rintro _ w - rfl
  rw [List.mem_append, List.mem_singleton]
  exact not_or.mpr ⟨h w, hc⟩

theorem not_mem_inFront {args : List Word} {c : STRING} (hc : c ≠ comma)
    (h : ∀ w : Word, c ∉ w.text) : c ∉ inFront args := by
  simp only [inFront, List.mem_flatten, List.mem_map, not_exists, not_and, forall_exists_index,
    and_imp]
  rintro _ w - rfl
  rw [List.mem_cons]
  exact not_or.mpr ⟨hc, h w⟩

theorem not_mem_separated {args : List Word} {c : STRING} (hc : c ≠ comma)
    (h : ∀ w : Word, c ∉ w.text) : c ∉ separated args := by
  cases args with
  | nil => exact List.not_mem_nil
  | cons w args =>
      rw [separated, List.mem_append]
      exact not_or.mpr ⟨h w, not_mem_inFront hc h⟩

theorem count_behind (args : List Word) : (behind args).count comma = args.length := by
  induction args with
  | nil => rfl
  | cons w args ih =>
      have hcons : behind (w :: args) = w.text ++ [comma] ++ behind args := rfl
      rw [hcons, List.count_append, List.count_append, ih, List.count_eq_zero.mpr w.not_mem.2.2.2,
        List.count_singleton_self, List.length_cons]
      omega

def Module.name : Module → Word
  | .plain name _ => name
  | .chain name .. => name

theorem Module.text_eq (m : Module) : ∃ tail, m.text = m.name.text ++ lpar :: tail ∧
    rpar ∈ tail := by
  cases m with
  | plain name args => exact ⟨_, rfl, List.mem_append_right _ (.head _)⟩
  | chain name before nested after => exact ⟨_, rfl, List.mem_append_right _ (.head _)⟩

/-- A value does not have a `(`. -/
theorem Word.not_hasLpar {w : Word} {a : Nat → Nat → STRING} {j i : Nat}
    (hw : IsString (a j) w.value) : ¬ InitStrings.HasLpar a j i := by
  intro h
  have hi : i < w.value.length := by
    by_contra hi
    obtain hlt | heq := Nat.lt_or_eq_of_le (Nat.le_of_not_lt hi)
    · exact h.nonzero _ hlt hw.ends
    · exact absurd (h.lpar.symm.trans (heq ▸ hw.ends)) (by decide)
  have hmem : lpar ∈ w.value := by
    rw [← h.lpar]
    exact List.mem_of_getElem? (hw.chars i hi)
  exact w.not_mem.2.1 ((List.mem_filter.mp hmem).1)

/-- The search behind the arguments of a module without a nested one. -/
theorem comma_behind_args {name : Word} {args : List Word} {rest : List STRING}
    (hfront : lpar ∉ front) (hrest : lpar ∉ rest)
    (hs : lmParseInitString (front ++ (Module.plain name args).text ++ rest) s = some s') :
    comma ∈ rest := by
  have htext : front ++ (Module.plain name args).text ++ rest =
      (front ++ name.text) ++ lpar :: (separated args ++ rpar :: rest) := by
    simp [Module.text]
  have hname : lpar ∉ front ++ name.text :=
    List.mem_append.not.mpr (not_or.mpr ⟨hfront, name.not_mem.2.1⟩)
  have htail : lpar ∉ separated args ++ rpar :: rest := by
    rw [List.mem_append, List.mem_cons]
    exact not_or.mpr ⟨not_mem_separated (by decide) fun w => w.not_mem.2.1,
      not_or.mpr ⟨by decide, hrest⟩⟩
  rw [htext, lmParseInitString_lpar hname, lmParseInitString_plain htail, Option.bind_some,
    InitStrings.leave,
    InitStrings.arguments_append (not_mem_separated (by decide) fun w => w.not_mem.2.2.1)] at hs
  split at hs
  · next hcomma => exact (List.mem_cons.mp hcomma).resolve_left (by decide)
  · exact absurd hs nofun

/-- **A comma must follow**: without one behind the outermost module, the search for the comma
ends nowhere, or an argument behind a nested module is not where it should be. -/
theorem comma_behind {m : Module} {rest : List STRING} (hfront : lpar ∉ front)
    (hrest : lpar ∉ rest) (hs : lmParseInitString (front ++ m.text ++ rest) s = some s')
    (hm : Listed s'.LMchainInitStrings s.LMIndex m) : comma ∈ rest := by
  induction m generalizing front rest s s' with
  | plain name args => exact comma_behind_args hfront hrest hs
  | chain name before nested after ih =>
      have htext : front ++ (Module.chain name before nested after).text ++ rest =
          (front ++ name.text) ++
            lpar :: (behind before ++ nested.text ++ (inFront after ++ rpar :: rest)) := by
        simp [Module.text]
      have hname : lpar ∉ front ++ name.text :=
        List.mem_append.not.mpr (not_or.mpr ⟨hfront, name.not_mem.2.1⟩)
      rw [htext, lmParseInitString_lpar hname] at hs
      obtain ⟨s₁, hs₁, hs'⟩ := Option.bind_eq_some_iff.mp hs
      have hindex : s₁.LMIndex = s.LMIndex + 1 := (lmParseInitString_rest hs₁).1
      obtain ⟨-, hsame⟩ := InitStrings.leave_rest hs'
      have hcomma : comma ∈ inFront after ++ rpar :: rest := by
        refine ih (not_mem_behind (by decide) fun w => w.not_mem.2.1) ?_ hs₁
          (hm.2.congr fun k hk => (hsame k (by omega)).symm)
        rw [List.mem_append, List.mem_cons]
        exact not_or.mpr ⟨not_mem_inFront (by decide) fun w => w.not_mem.2.1,
          not_or.mpr ⟨by decide, hrest⟩⟩
      rw [List.mem_append, List.mem_cons] at hcomma
      obtain hafter | hrpar | hcomma := hcomma
      · -- an argument behind the nested module: its place holds the `(` of the nested one
        cases after with
        | nil => exact absurd hafter List.not_mem_nil
        | cons w after =>
            obtain ⟨tail, hnested, htail⟩ := nested.text_eq
            have hsplit : behind before ++ nested.text ++ (inFront (w :: after) ++ rpar :: rest) =
                (behind before ++ nested.name.text) ++
                  lpar :: (tail ++ (inFront (w :: after) ++ rpar :: rest)) := by
              simp [hnested]
            rw [hsplit] at hs'
            obtain ⟨i, hi⟩ := InitStrings.leave_hasLpar hs'
              (List.mem_append.not.mpr (not_or.mpr
                ⟨not_mem_behind (by decide) fun w => w.not_mem.1, nested.name.not_mem.1⟩))
              (List.mem_append.not.mpr (not_or.mpr
                ⟨not_mem_behind (by decide) fun w => w.not_mem.2.2.1, nested.name.not_mem.2.2.1⟩))
              (List.mem_append_left _ htail)
            rw [List.count_append, count_behind, List.count_eq_zero.mpr nested.name.not_mem.2.2.2,
              Nat.add_zero, hindex, Nat.add_sub_cancel] at hi
            refine absurd hi (Word.not_hasLpar (hm.1.args before.length w ?_))
            rw [List.getElem?_append_right (Nat.le_refl _), Nat.sub_self, List.getElem?_cons_zero]
      · exact absurd hrpar (by decide)
      · exact hcomma

/-- **No init string is read as it is meant.** -/
theorem init_string_never (m : Module) (table : Nat → Symbol) : ¬ ReadAsMeant m table := by
  rintro ⟨s, -, hs, hm, -⟩
  rw [← List.nil_append m.text, ← List.append_nil ([] ++ m.text)] at hs
  exact List.not_mem_nil (comma_behind List.not_mem_nil List.not_mem_nil hs hm)

/-- `ide(0, 1024, 512)`, as the source has it for an example. -/
def ide : Module :=
  .plain ⟨chars "ide", by decide⟩
    [⟨chars "0", by decide⟩, ⟨chars " 1024", by decide⟩, ⟨chars " 512", by decide⟩]

/-- The search for a comma behind it runs off the string. -/
theorem init_string_ide : lmParseInitString ide.text ⟨0, fun _ => ⟨fun _ => 0#8, fun _ _ => 0#8⟩⟩ =
    none ∧ ¬ ReadAsMeant ide fun _ => ⟨fun _ => 0#8, fun _ _ => 0#8⟩ := by
  have hnone : ∀ s, lmParseInitString ide.text s = none := by
    intro s
    by_contra h
    obtain ⟨s', hs⟩ := Option.ne_none_iff_exists'.mp h
    rw [← List.nil_append ide.text, ← List.append_nil ([] ++ ide.text)] at hs
    exact List.not_mem_nil (comma_behind_args List.not_mem_nil List.not_mem_nil hs)
  exact ⟨hnone _, fun ⟨_, _, hs, _⟩ => absurd hs (by rw [hnone]; nofun)⟩

end Alliance.LM
