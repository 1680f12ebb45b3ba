import Alliance.IOSK.SystemConfig
import Mathlib.Data.List.Chain
import Mathlib.Algebra.Ring.Nat

/-!
# Attributes of a device (`KLgetNumericParameter`, `KLgetStringParameter`)

The attributes in a line of the device database are numbers, which may have a suffix, and a word in
quotes. Each is read by a call that also returns how many characters it has come past, so that the
next call can start there.

`KLgetNumericParameter` counts the digits, and the blanks and commas behind them. It does not count
blanks in front of the digits, and does not come past a suffix. `KLgetStringParameter` does not
count the quotes. So the count of the last call is never right, and all else is exactly if there are
no suffixes, no blanks in front, and no numbers too long for their array (`advances_iff`).
-/

namespace Alliance.IOSK

open Lib

/-- `"`, `,` and a blank. -/
def quote : STRING := 34#8

def comma : STRING := 44#8

def blank : STRING := 32#8

/-- `KLisDigit`. -/
def IsDigit (c : STRING) : Prop := 48 ≤ c.toNat ∧ c.toNat ≤ 57

def IsSeparator (c : STRING) : Prop := c = blank ∨ c = comma

instance : DecidablePred IsDigit := fun c => inferInstanceAs (Decidable (_ ∧ _))

instance : DecidablePred IsSeparator := fun c => inferInstanceAs (Decidable (_ ∨ _))

/-- `STRING Number[10]`. -/
def NUMBER : Nat := 10

/-- `KLasciiToInt`. -/
def klAsciiToInt (string : List STRING) : BitVec 32 :=
  (string.takeWhile fun c => IsDigit c).foldl
    (fun retValue c => retValue * 10#32 + c.setWidth 32 - 48#32) 0#32

/-- `KLgetNumericParameter`: the value and the count. A number that its array is too small for is
written behind it. -/
def klGetNumericParameter (ArgString : List STRING) : Option (BitVec 32 × Nat) :=
  let Delimiter := ArgString.dropWhile fun c => c = blank
  let Number := Delimiter.takeWhile fun c => IsDigit c
  let Delimiter := Delimiter.dropWhile fun c => IsDigit c
  if Number.length < NUMBER then
    let IntNumber := klAsciiToInt Number
    let IntNumber :=
      if Delimiter.head? = some 75#8 then IntNumber * 1024#32
      else if Delimiter.head? = some 77#8 then IntNumber * (1024#32 * 1024#32)
      else IntNumber
    some (IntNumber, Number.length + (Delimiter.takeWhile fun c => IsSeparator c).length)
  else none

/-- `KLgetStringParameter`: the string and the count. The searches for quotes do not end with the
string. -/
def klGetStringParameter (StringArg : List STRING) : Option (List STRING × Nat) :=
  (cut StringArg quote).bind fun (front, Delimiter) =>
    (cut Delimiter quote).map fun (String, _) => (String, front.length + String.length)

/-- What the calls return. -/
structure Answers where
  numbers : List (BitVec 32 × Nat)
  word : List STRING
  count : Nat

/-- The sum of the counts for the numbers. -/
def Answers.offset (r : Answers) : Nat := (r.numbers.map Prod.snd).sum

/-- Calls for numbers, each at the sum of the counts so far. -/
def numericCalls (Text : List STRING) : Nat → Nat → Option (List (BitVec 32 × Nat))
  | 0, _ => some []
  | n + 1, offset =>
    (klGetNumericParameter (Text.drop offset)).bind fun r =>
      (numericCalls Text n (offset + r.2)).map fun rs => r :: rs

/-- Calls for `n` numbers, and then for a word. -/
def readAttributes (Text : List STRING) (n : Nat) : Option Answers :=
  (numericCalls Text n 0).bind fun numbers =>
    (klGetStringParameter (Text.drop (numbers.map Prod.snd).sum)).map fun r =>
      ⟨numbers, r.1, r.2⟩

/-! ## What attributes are -/

inductive Suffix where
  | none
  | K
  | M
  deriving DecidableEq

def Suffix.text : Suffix → List STRING
  | .none => []
  | .K => [75#8]
  | .M => [77#8]

def Suffix.scale : Suffix → Nat
  | .none => 1
  | .K => 1024
  | .M => 1024 * 1024

/-- A number, with the blanks and commas behind it. -/
structure Number where
  digits : List STRING
  suffix : Suffix
  separators : List STRING
  number : digits ≠ [] ∧ ∀ c ∈ digits, IsDigit c
  separated : ∀ c ∈ separators, IsSeparator c

def decimal (digits : List STRING) : Nat := digits.foldl (fun v c => 10 * v + (c.toNat - 48)) 0

namespace Number

variable (n : Number)

def text : List STRING := n.digits ++ (n.suffix.text ++ n.separators)

def value : Nat := decimal n.digits * n.suffix.scale

/-- There is something between the digits and what follows. -/
def Ends : Prop := n.suffix ≠ .none ∨ n.separators ≠ []

instance : Decidable n.Ends := inferInstanceAs (Decidable (_ ∨ _))

/-- It has no suffix, and is short enough. -/
def Plain : Prop := n.suffix = .none ∧ n.digits.length < NUMBER

end Number

/-- Numbers, and a word in quotes. There may be blanks in front. -/
structure Attributes where
  blanks : Nat
  numbers : List Number
  word : List STRING
  apart : numbers.IsChain fun n _ => n.Ends
  plain : quote ∉ word ∧ 0#8 ∉ word

namespace Attributes

variable (a : Attributes)

def text : List STRING :=
  .replicate a.blanks blank ++ (a.numbers.flatMap Number.text ++ quote :: (a.word ++ [quote]))

/-- The value of each number, and how many characters it takes. -/
def expected : Nat → List Number → List (Nat × Nat)
  | _, [] => []
  | blanks, n :: ns => (n.value, blanks + n.text.length) :: expected 0 ns

/-- The calls return, one after the other, the values and the word. Each count for a number is that
of its characters, so that the next call starts behind them. -/
def Reads : Prop := ∃ r, readAttributes a.text a.numbers.length = some r ∧
  (r.numbers.map fun r => (r.1.toNat, r.2)) = expected a.blanks a.numbers ∧ r.word = a.word

/-- Besides, the last count goes as far as to the quote at the end, or behind it. -/
def Advances : Prop := ∃ r, readAttributes a.text a.numbers.length = some r ∧
  (r.numbers.map fun r => (r.1.toNat, r.2)) = expected a.blanks a.numbers ∧ r.word = a.word ∧
    a.text.length ≤ r.offset + r.count + 1

/-- No blanks in front of a number, and plain numbers. -/
def Regular : Prop := (a.numbers ≠ [] → a.blanks = 0) ∧ ∀ n ∈ a.numbers, n.Plain

end Attributes

/-! ## Digits -/

variable {digits rest tail Text : List STRING} {n : Number} {ns : List Number} {offset blanks : Nat}

theorem decimal_lt (h : ∀ c ∈ digits, IsDigit c) : decimal digits < 10 ^ digits.length := by
  have hfold : ∀ v, digits.foldl (fun v c => 10 * v + (c.toNat - 48)) v <
      (v + 1) * 10 ^ digits.length := by
    induction digits with
    | nil =>
        intro v
        rw [List.foldl_nil, List.length_nil, Nat.pow_zero, Nat.mul_one]
        exact v.lt_succ_self
    | cons c digits ih =>
        intro v
        have hc := h c List.mem_cons_self
        calc (c :: digits).foldl (fun v c => 10 * v + (c.toNat - 48)) v
            < (10 * v + (c.toNat - 48) + 1) * 10 ^ digits.length :=
              ih (fun c hc => h c (List.mem_cons_of_mem _ hc)) _
          _ ≤ ((v + 1) * 10) * 10 ^ digits.length := by
              refine Nat.mul_le_mul_right _ ?_
              have := hc.2
              omega
          _ = (v + 1) * 10 ^ (c :: digits).length := by
              rw [List.length_cons, Nat.pow_succ, Nat.mul_assoc, Nat.mul_comm 10]
  have := hfold 0
  rwa [Nat.zero_add, Nat.one_mul] at this

/-- The words that `KLasciiToInt` comes through. -/
theorem klAsciiToInt_digits (h : ∀ c ∈ digits, IsDigit c) :
    klAsciiToInt digits = .ofNat 32 (decimal digits) := by
  have hfold : ∀ v : Nat,
      digits.foldl (fun w c => w * 10#32 + c.setWidth 32 - 48#32) (.ofNat 32 v) =
        .ofNat 32 (digits.foldl (fun v c => 10 * v + (c.toNat - 48)) v) := by
    induction digits with
    | nil => exact fun _ => rfl
    | cons c digits ih =>
        intro v
        have hc := (h c List.mem_cons_self).1
        have hstep : BitVec.ofNat 32 v * 10#32 + c.setWidth 32 - 48#32 =
            .ofNat 32 (10 * v + (c.toNat - 48)) := by
          rw [← BitVec.ofNat_toNat, ← BitVec.ofNat_mul, ← BitVec.ofNat_add]
          rw [show v * 10 + c.toNat = 10 * v + (c.toNat - 48) + 48 by omega, BitVec.ofNat_add,
            BitVec.add_sub_cancel]
        rw [List.foldl_cons, hstep, ih fun c hc => h c (List.mem_cons_of_mem _ hc)]
        rfl
  rw [klAsciiToInt, List.takeWhile_eq_self_iff.mpr fun c hc => decide_eq_true (h c hc)]
  exact hfold 0

theorem Number.toNat_value (hn : n.Plain) : (klAsciiToInt n.digits).toNat = n.value := by
  have hlt := decimal_lt n.number.2
  have hpow : 10 ^ n.digits.length ≤ 10 ^ 9 :=
    Nat.pow_le_pow_right (by decide) (Nat.le_of_lt_succ hn.2)
  rw [klAsciiToInt_digits n.number.2, BitVec.toNat_ofNat, Nat.mod_eq_of_lt, value, hn.1,
    Suffix.scale, Nat.mul_one]
  omega

/-! ## One call -/

theorem span_blanks (b : Nat) (h : ∀ c ∈ rest.head?, c ≠ blank) :
    (List.replicate b blank ++ rest).dropWhile (fun c => c = blank) = rest := by
  refine (span_append (fun c hc => ?_) fun c hc => ?_).2
  · exact decide_eq_true (List.eq_of_mem_replicate hc)
  · exact decide_eq_false (h c hc)

theorem span_digits (h : ∀ c ∈ digits, IsDigit c) (hrest : ∀ c ∈ rest.head?, ¬ IsDigit c) :
    (digits ++ rest).takeWhile (fun c => IsDigit c) = digits ∧
      (digits ++ rest).dropWhile (fun c => IsDigit c) = rest :=
  span_append (fun c hc => decide_eq_true (h c hc)) fun c hc => decide_eq_false (hrest c hc)

/-- What is behind a number: a quote, or the digits of another one. -/
def Number.Before (n : Number) (rest : List STRING) : Prop :=
  ∃ c, rest.head? = some c ∧ (c = quote ∨ IsDigit c ∧ n.Ends)

/-- A digit and a quote are none of the other characters. -/
theorem Number.Before.ne (h : n.Before rest) :
    ∀ c ∈ rest.head?, ¬ IsSeparator c ∧ c ≠ 75#8 ∧ c ≠ 77#8 := by
  rcases h with ⟨c, hc, hkind⟩
  intro c' hc'
  obtain rfl := Option.some.inj (hc.symm.trans hc')
  rcases hkind with rfl | ⟨hdigit, -⟩
  · decide
  · rw [IsDigit] at hdigit
    refine ⟨fun hsep => ?_, fun he => ?_, fun he => ?_⟩
    · rcases hsep with rfl | rfl
      · exact absurd hdigit (by decide)
      · exact absurd hdigit (by decide)
    · subst he
      exact absurd hdigit (by decide)
    · subst he
      exact absurd hdigit (by decide)

/-- What is behind the digits. -/
theorem Number.not_digit (h : n.Before rest) :
    ∀ c ∈ (n.suffix.text ++ (n.separators ++ rest)).head?, ¬ IsDigit c := by
  intro c hc
  cases hsuffix : n.suffix with
  | none =>
      rw [hsuffix] at hc
      cases hsep : n.separators with
      | nil =>
          rw [hsep] at hc
          rcases h with ⟨c', hc', hkind⟩
          obtain rfl := Option.some.inj (hc'.symm.trans hc)
          rcases hkind with rfl | ⟨-, hends⟩
          · decide
          · exact absurd hsuffix (hends.resolve_right (not_not.mpr hsep))
      | cons c' separators =>
          rw [hsep] at hc
          obtain rfl := Option.some.inj hc
          rcases n.separated c' (hsep ▸ List.mem_cons_self) with rfl | rfl
          · decide
          · decide
  | K =>
      rw [hsuffix] at hc
      obtain rfl := Option.some.inj hc
      decide
  | M =>
      rw [hsuffix] at hc
      obtain rfl := Option.some.inj hc
      decide

theorem Number.takeWhile_separators (h : n.Before rest) :
    ((n.separators ++ rest).takeWhile fun c => IsSeparator c) = n.separators :=
  (span_append (fun c hc => decide_eq_true (n.separated c hc)) fun c hc =>
    decide_eq_false (h.ne c hc).1).1

theorem Number.head_separators (h : n.Before rest) {c : STRING}
    (hc : ¬ IsSeparator c ∧ (c = 75#8 ∨ c = 77#8)) : (n.separators ++ rest).head? ≠ some c := by
  intro hhead
  cases hsep : n.separators with
  | nil =>
      rw [hsep] at hhead
      rcases hc.2 with rfl | rfl
      · exact (h.ne _ hhead).2.1 rfl
      · exact (h.ne _ hhead).2.2 rfl
  | cons c' separators =>
      rw [hsep] at hhead
      obtain rfl := Option.some.inj hhead
      exact hc.1 (n.separated c' (hsep ▸ List.mem_cons_self))

/-- **A call for a number** counts the digits, and what is behind them if that is no suffix. -/
theorem klGetNumericParameter_text (b : Nat) (h : n.Before rest) :
    klGetNumericParameter (.replicate b blank ++ (n.text ++ rest)) =
      if n.digits.length < NUMBER then
        some (klAsciiToInt n.digits * .ofNat 32 n.suffix.scale,
          n.digits.length + if n.suffix = .none then n.separators.length else 0)
      else none := by
  have htext : n.text ++ rest = n.digits ++ (n.suffix.text ++ (n.separators ++ rest)) := by
    rw [Number.text, List.append_assoc, List.append_assoc]
  have hfirst : ∀ c ∈ (n.text ++ rest).head?, c ≠ blank := by
    intro c hc he
    rcases List.exists_cons_of_ne_nil n.number.1 with ⟨d, digits, hdigits⟩
    rw [htext, hdigits] at hc
    obtain rfl := Option.some.inj hc
    have := n.number.2 d (hdigits ▸ List.mem_cons_self)
    rw [he] at this
    exact absurd this (by decide)
  rcases span_digits n.number.2 (Number.not_digit h) with ⟨htake, hdrop⟩
  have hspan := span_blanks b hfirst
  rw [htext] at hspan
  unfold klGetNumericParameter
  simp only [htext, hspan, htake, hdrop]
  congr 1
  cases hsuffix : n.suffix with
  | none =>
      have hK : (Suffix.none.text ++ (n.separators ++ rest)).head? ≠ some 75#8 :=
        Number.head_separators h (by decide)
      have hM : (Suffix.none.text ++ (n.separators ++ rest)).head? ≠ some 77#8 :=
        Number.head_separators h (by decide)
      have hsep := Number.takeWhile_separators h
      rw [if_neg hK, if_neg hM, if_pos rfl, Suffix.scale, BitVec.mul_one]
      simp only [Suffix.text, List.nil_append, hsep]
  | K => rfl
  | M => rfl

/-- **A call for a word** counts what is in front of it, and the word. -/
theorem klGetStringParameter_text {front word : List STRING} (hfront : quote ∉ front)
    (hword : quote ∉ word) : klGetStringParameter (front ++ quote :: (word ++ [quote])) =
      some (word, front.length + word.length) := by
  rw [klGetStringParameter, cut_append hfront, Option.bind_some]
  dsimp only
  rw [cut_append hword]
  rfl

/-! ## All calls -/

open Attributes

theorem before_numbers (hchain : (n :: ns).IsChain fun n _ => n.Ends) :
    n.Before (ns.flatMap Number.text ++ quote :: tail) := by
  cases ns with
  | nil => exact ⟨quote, rfl, .inl rfl⟩
  | cons n' ns =>
      rcases List.exists_cons_of_ne_nil n'.number.1 with ⟨c, digits, hdigits⟩
      refine ⟨c, ?_, .inr ⟨n'.number.2 c (hdigits ▸ List.mem_cons_self), ?_⟩⟩
      · rw [List.flatMap_cons, Number.text, hdigits]
        rfl
      · exact (List.isChain_cons_cons.mp hchain).1

/-- The count for a number is that of its characters if it is plain, and has no blanks in front. -/
theorem count_iff (n : Number) (b : Nat) :
    n.digits.length + (if n.suffix = .none then n.separators.length else 0) =
      b + n.text.length ↔ b = 0 ∧ n.suffix = .none := by
  rw [Number.text, List.length_append, List.length_append]
  cases n.suffix with
  | none =>
      rw [if_pos rfl, Suffix.text, List.length_nil]
      exact ⟨fun h => ⟨by omega, rfl⟩, fun h => by omega⟩
  | K =>
      rw [if_neg nofun, Suffix.text, List.length_singleton]
      exact ⟨fun h => by omega, fun h => absurd h.2 nofun⟩
  | M =>
      rw [if_neg nofun, Suffix.text, List.length_singleton]
      exact ⟨fun h => by omega, fun h => absurd h.2 nofun⟩

/-- **The calls for the numbers**: each value is right, and each count, exactly if the numbers are
plain, and there are no blanks in front. -/
theorem numericCalls_iff (hchain : ns.IsChain fun n _ => n.Ends)
    (hText : Text.drop offset =
      .replicate blanks blank ++ (ns.flatMap Number.text ++ quote :: tail)) :
    (∃ rs, numericCalls Text ns.length offset = some rs ∧
      (rs.map fun r => (r.1.toNat, r.2)) = expected blanks ns) ↔
    (ns ≠ [] → blanks = 0) ∧ ∀ n ∈ ns, n.Plain := by
  induction ns generalizing offset blanks with
  | nil => exact iff_of_true ⟨[], rfl, rfl⟩ ⟨fun h => absurd rfl h, fun n hn => absurd hn nofun⟩
  | cons n ns ih =>
      rw [List.flatMap_cons, List.append_assoc] at hText
      rw [List.length_cons, numericCalls, hText,
        klGetNumericParameter_text blanks (before_numbers hchain), List.forall_mem_cons]
      have hnext : blanks = 0 → Text.drop (offset + n.text.length) =
          .replicate 0 blank ++ (ns.flatMap Number.text ++ quote :: tail) := by
        intro hb
        rw [← List.drop_drop, hText, hb]
        exact List.drop_left
      by_cases hlt : n.digits.length < NUMBER
      · rw [if_pos hlt, Option.bind_some]
        dsimp only
        have hcount := count_iff n blanks
        generalize n.digits.length + (if n.suffix = .none then n.separators.length else 0) = count
          at hcount
        constructor
        · intro h
          rcases h with ⟨rs, hrs, he⟩
          rcases Option.map_eq_some_iff.mp hrs with ⟨rs', hrs', rfl⟩
          rw [List.map_cons, expected] at he
          rcases List.cons.inj he with ⟨hhead, htail⟩
          have hsame : count = blanks + n.text.length := (Prod.mk.inj hhead).2
          rcases hcount.mp hsame with ⟨hb, hsuffix⟩
          rw [hsame, hb, Nat.zero_add] at hrs'
          have hrest := (ih hchain.of_cons (hnext hb)).mp ⟨rs', hrs', htail⟩
          exact ⟨fun _ => hb, ⟨hsuffix, hlt⟩, hrest.2⟩
        · intro h
          rcases h with ⟨hb, hplain, hrest⟩
          have hb := hb (List.cons_ne_nil _ _)
          have hcount := hcount.mpr ⟨hb, hplain.1⟩
          rcases (ih hchain.of_cons (hnext hb)).mpr ⟨fun _ => rfl, hrest⟩ with ⟨rs', hrs', htail⟩
          refine ⟨_ :: rs', Option.map_eq_some_iff.mpr ⟨rs', ?_, rfl⟩, ?_⟩
          · rw [hcount, hb, Nat.zero_add]
            exact hrs'
          · rw [List.map_cons, expected, htail, hcount, hplain.1]
            dsimp only
            rw [Suffix.scale, BitVec.mul_one, Number.toNat_value hplain]
      · rw [if_neg hlt]
        exact iff_of_false (fun h => absurd h.choose_spec.1 nofun) fun h => hlt h.2.1.2

theorem expected_sum (blanks : Nat) (ns : List Number) : ((expected blanks ns).map Prod.snd).sum =
    if ns = [] then 0 else blanks + (ns.flatMap Number.text).length := by
  induction ns generalizing blanks with
  | nil => rfl
  | cons n ns ih =>
      rw [expected, List.map_cons, List.sum_cons, ih, if_neg (List.cons_ne_nil _ _),
        List.flatMap_cons, List.length_append]
      cases ns with
      | nil => rfl
      | cons n' ns =>
          rw [if_neg (List.cons_ne_nil _ _)]
          omega

/-- Where the call for the word starts. -/
theorem drop_numbers {a : Attributes} {rs : List (BitVec 32 × Nat)}
    (hrs : (rs.map fun r => (r.1.toNat, r.2)) = expected a.blanks a.numbers) :
    a.text.drop (rs.map Prod.snd).sum =
      .replicate (if a.numbers = [] then a.blanks else 0) blank ++
        quote :: (a.word ++ [quote]) ∧
    a.text.length = (rs.map Prod.snd).sum + (if a.numbers = [] then a.blanks else 0) +
      a.word.length + 2 := by
  have hcounts : rs.map Prod.snd = (expected a.blanks a.numbers).map Prod.snd := by
    rw [← hrs, List.map_map]
    rfl
  rw [hcounts, expected_sum, Attributes.text]
  split
  · next hnil =>
    rw [hnil]
    refine ⟨rfl, ?_⟩
    simp only [List.length_append, List.length_replicate, List.length_cons, List.length_nil,
      List.flatMap_nil]
    omega
  · have hlength : (List.replicate a.blanks blank ++ a.numbers.flatMap Number.text).length =
        a.blanks + (a.numbers.flatMap Number.text).length := by
      rw [List.length_append, List.length_replicate]
    constructor
    · rw [← List.append_assoc, ← hlength]
      exact List.drop_left
    · simp only [List.length_append, List.length_replicate, List.length_cons, List.length_nil]
      omega

/-- The call for the word, when those for the numbers are right. -/
theorem klGetStringParameter_at {a : Attributes} {rs : List (BitVec 32 × Nat)}
    (hrs : (rs.map fun r => (r.1.toNat, r.2)) = expected a.blanks a.numbers) :
    klGetStringParameter (a.text.drop (rs.map Prod.snd).sum) =
      some (a.word, (if a.numbers = [] then a.blanks else 0) + a.word.length) := by
  have hnot : quote ∉ List.replicate (if a.numbers = [] then a.blanks else 0) blank := fun h =>
    absurd (List.eq_of_mem_replicate h) (by decide)
  rw [(drop_numbers hrs).1, klGetStringParameter_text hnot a.plain.1, List.length_replicate]

theorem Attributes.reads_iff (a : Attributes) : a.Reads ↔ a.Regular := by
  have hText : a.text.drop 0 = .replicate a.blanks blank ++
      (a.numbers.flatMap Number.text ++ quote :: (a.word ++ [quote])) := rfl
  rw [Regular, ← numericCalls_iff a.apart hText]
  constructor
  · intro h
    rcases h with ⟨r, hr, hnumbers, -⟩
    rcases Option.bind_eq_some_iff.mp hr with ⟨rs, hrs, hr⟩
    rcases Option.map_eq_some_iff.mp hr with ⟨w, -, rfl⟩
    exact ⟨rs, hrs, hnumbers⟩
  · intro h
    rcases h with ⟨rs, hrs, hnumbers⟩
    refine ⟨⟨rs, a.word, (if a.numbers = [] then a.blanks else 0) + a.word.length⟩, ?_, hnumbers,
      rfl⟩
    rw [readAttributes, hrs, Option.bind_some, klGetStringParameter_at hnumbers]
    rfl

/-- **The last count is never right.** -/
theorem Attributes.not_advances (a : Attributes) : ¬ a.Advances := by
  intro h
  rcases h with ⟨r, hr, hnumbers, -, hle⟩
  rcases Option.bind_eq_some_iff.mp hr with ⟨rs, -, hr⟩
  rcases Option.map_eq_some_iff.mp hr with ⟨w, hw, rfl⟩
  rw [klGetStringParameter_at hnumbers] at hw
  obtain rfl := Option.some.inj hw
  have hlength := (drop_numbers hnumbers).2
  rw [Answers.offset] at hle
  dsimp only at hle hlength
  omega

/-- **No attributes are read with all counts right**, as the quotes are never counted. Up to the
last count all is right exactly if there are no suffixes, no blanks in front, and no long numbers. -/
theorem advances_iff (a : Attributes) : ¬ a.Advances ∧ (a.Reads ↔ a.Regular) :=
  ⟨a.not_advances, a.reads_iff⟩

/-- `64K, 512, "RW"`. -/
def scaled : Attributes where
  blanks := 0
  numbers := [⟨chars "64", .K, chars ", ", by decide, by decide⟩,
    ⟨chars "512", .none, chars ", ", by decide, by decide⟩]
  word := chars "RW"
  apart := by decide
  plain := by decide

/-- The second call starts at the suffix, and returns 0 where 512 is to be read. -/
theorem not_advances_scaled :
    numericCalls scaled.text 2 0 = some [(65536#32, 2), (0#32, 0)] ∧ ¬ scaled.Reads ∧
      ¬ scaled.Advances := by
  have hcalls : numericCalls scaled.text 2 0 = some [(65536#32, 2), (0#32, 0)] := by decide
  have hnot : ¬ scaled.Reads := by
    intro h
    rcases h with ⟨r, hr, hnumbers, -⟩
    rcases Option.bind_eq_some_iff.mp hr with ⟨rs, hrs, hr⟩
    rcases Option.map_eq_some_iff.mp hr with ⟨w, -, rfl⟩
    obtain rfl := Option.some.inj (hcalls.symm.trans hrs)
    -- the counts are 2 and 0, not 5 and 5
    exact absurd (congrArg (List.map Prod.snd) hnumbers)
      (show ¬ [2, 0] = (expected scaled.blanks scaled.numbers).map Prod.snd by decide)
  refine ⟨hcalls, hnot, fun h => hnot ?_⟩
  rcases h with ⟨r, hr, hnumbers, hword, -⟩
  exact ⟨r, hr, hnumbers, hword⟩

end Alliance.IOSK
