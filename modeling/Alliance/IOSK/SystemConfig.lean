import Alliance.Lib.CString

/-!
# The device database (`KLgetSystemConfig`)

The devices of the system are lines of a table: a category, the init string of a chain of modules,
and attributes. `KLgetSystemConfig` looks for the next line that has the query in it, from a cursor
on that it keeps, and `IOSKinit` calls until there is no more.

The cursor is behind the line that was found when the test for the end of the table is made. If the
line was the last one, then the call returns 0, and its caller takes that for the end. So all
lines are delivered exactly if the last line of the table is not one of them
(`devices_delivered_iff`).
-/

namespace Alliance.IOSK

open Lib

/-- A character. -/
abbrev STRING := BitVec 8

/-- `:` and `=`. -/
def colon : STRING := 58#8

def equals : STRING := 61#8

inductive DevCategory where
  | BLOCKDEVICE
  | CHARDEVICE
  | DEVUNDEFINED
  deriving DecidableEq, Repr

/-- `DBQuery`, with the strings that are in its arrays. -/
structure DBQuery where
  Category : DevCategory
  LMInit : List STRING
  IOSKAttributes : List STRING
  deriving DecidableEq

/-- `iMutex`, and the cursor. -/
structure Database where
  i : Nat
  iMutex : Bool

/-- `STRING Temp[32]`, and the arrays in a `DBQuery`. -/
def ARRAY : Nat := 32

/-- `KLstringMatch`: how far behind the start of `haystack` its result is, if it is not NIL. -/
def klStringMatch (haystack needle : List STRING) : Option Nat := find needle haystack

/-- `KLstringNumCopy` to an array, and a 0 behind. -/
def klStringNumCopy (s2 : List STRING) (n : BitVec 32) : Option (List STRING) :=
  if n.toNat < ARRAY then some (s2.take n.toNat) else none

/-- `KLstringCopy` to an array. -/
def klStringCopy (src : List STRING) : Option (List STRING) :=
  if src.length < ARRAY then some src else none

def category (Temp : List STRING) : DevCategory :=
  if Temp = chars "Blockdevice" then .BLOCKDEVICE
  else if Temp = chars "Chardevice" then .CHARDEVICE
  else .DEVUNDEFINED

/-- The parts of a line that is found. The pointers are as far from its start; they are not to be
NIL. -/
def readLine (line : List STRING) : Option DBQuery :=
  (klStringMatch line [colon]).bind fun Delimiter =>
  (klStringNumCopy line (.ofNat 32 Delimiter)).bind fun Temp =>
  (klStringMatch line [equals]).bind fun Delimiter2 =>
  (klStringNumCopy (line.drop (Delimiter + 1))
    (.ofNat 32 Delimiter2 - .ofNat 32 Delimiter - 1#32)).bind fun LMInit =>
  (klStringCopy (line.drop (Delimiter2 + 1))).map fun IOSKAttributes =>
    ⟨category Temp, LMInit, IOSKAttributes⟩

/-- The loop over the lines from the cursor on. A table ends with an empty one. -/
def search (Query : List STRING) : List (List STRING) → Nat → DBQuery → Option (Nat × DBQuery)
  | [], _, _ => none
  | line :: rest, i, Result =>
    if line = [] then some (i, Result)
    else if (klStringMatch line Query).isSome then (readLine line).map fun Result => (i + 1, Result)
    else search Query rest (i + 1) Result

/-- `KLgetSystemConfig`. -/
def klGetSystemConfig (Ptr : List (List STRING)) (Query : List STRING) (s : Database)
    (Result : DBQuery) : Option (BitVec 32 × Database × DBQuery) :=
  Ptr[s.i]?.bind fun line =>
    if line = [] then some (0#32, s, Result)
    else if s.iMutex then none
    else
      (search Query (Ptr.drop s.i) s.i Result).bind fun (i, Result) =>
        -- the line at the cursor is the one behind what was found
        Ptr[i]?.map fun line => (if line = [] then 0#32 else 1#32, ⟨i, false⟩, Result)

/-- The loop in `IOSKinit`: what is delivered until a call returns 0. -/
def queryAll (Ptr : List (List STRING)) (Query : List STRING) :
    Nat → Database → DBQuery → Option (List DBQuery × Database)
  | 0, _, _ => none
  | rounds + 1, s, data =>
    (klGetSystemConfig Ptr Query s data).bind fun (queryResult, s, data) =>
      if queryResult = 0#32 then some ([], s)
      else (queryAll Ptr Query rounds s data).map fun (delivered, s) => (data :: delivered, s)

/-! ## What a table is for -/

/-- A line whose parts fit in the arrays for them. -/
structure Line where
  category : List STRING
  init : List STRING
  attributes : List STRING
  nonzero : 0#8 ∉ category ∧ 0#8 ∉ init ∧ 0#8 ∉ attributes
  plain : colon ∉ category ∧ equals ∉ category ∧ equals ∉ init
  fits : category.length < ARRAY ∧ init.length < ARRAY ∧ attributes.length < ARRAY

namespace Line

def text (line : Line) : List STRING :=
  line.category ++ colon :: (line.init ++ equals :: line.attributes)

/-- What is to be delivered for it. -/
def data (line : Line) : DBQuery := ⟨IOSK.category line.category, line.init, line.attributes⟩

/-- The query is somewhere in the line. -/
def Matches (Query : List STRING) (line : Line) : Prop := Query <:+: line.text

instance (Query : List STRING) : DecidablePred (Matches Query) := fun line =>
  inferInstanceAs (Decidable (Query <:+: line.text))

end Line

def table (lines : List Line) : List (List STRING) := lines.map Line.text ++ [[]]

/-- The calls that `IOSKinit` makes come to an end, and deliver each line with the query in it. -/
def Delivers (lines : List Line) (Query : List STRING) (data : DBQuery) : Prop :=
  ∃ rounds s, queryAll (table lines) Query rounds ⟨0, false⟩ data =
    some ((lines.filter (Line.Matches Query)).map Line.data, s)

/-! ## One call -/

variable {Query : List STRING} {lines pre post rest front : List Line} {line : Line}
  {Result data : DBQuery} {i rounds : Nat}

theorem Line.text_ne_nil (line : Line) : line.text ≠ [] := fun h => by
  rw [text, List.append_eq_nil_iff] at h
  exact absurd h.2 nofun

theorem Line.matches_iff {line : Line} :
    (klStringMatch line.text Query).isSome = true ↔ line.Matches Query := find_isSome

theorem readLine_text (line : Line) : readLine line.text = some line.data := by
  rcases line.fits with ⟨hcategory, hinit, hattributes⟩
  rcases line.plain with ⟨hcolon, hequals, hequals'⟩
  have htext : line.text = (line.category ++ colon :: line.init) ++ equals :: line.attributes := by
    rw [Line.text, List.append_assoc, List.cons_append]
  have hnot : equals ∉ line.category ++ colon :: line.init := by
    rw [List.mem_append, List.mem_cons]
    exact not_or.mpr ⟨hequals, not_or.mpr ⟨by decide, hequals'⟩⟩
  have hfind : klStringMatch line.text [equals] =
      some (line.category.length + 1 + line.init.length) := by
    rw [klStringMatch, htext, find_char hnot, List.length_append, List.length_cons]
    congr 1
    omega
  have hdrop : line.text.drop (line.category.length + 1) =
      line.init ++ equals :: line.attributes := by
    rw [Line.text, List.drop_append, List.drop_eq_nil_of_le (Nat.le_succ _),
      Nat.add_sub_cancel_left]
    rfl
  have hdrop' : line.text.drop (line.category.length + 1 + line.init.length + 1) =
      line.attributes := by
    rw [Nat.add_assoc, ← List.drop_drop, hdrop, List.drop_append,
      List.drop_eq_nil_of_le (Nat.le_succ _), Nat.add_sub_cancel_left]
    rfl
  have hlength : (BitVec.ofNat 32 line.category.length).toNat = line.category.length := by
    rw [BitVec.toNat_ofNat, Nat.mod_eq_of_lt]
    rw [ARRAY] at hcategory
    omega
  have hlength' : (BitVec.ofNat 32 (line.category.length + 1 + line.init.length) -
      BitVec.ofNat 32 line.category.length - 1#32).toNat = line.init.length := by
    rw [ARRAY] at hcategory hinit
    bv_omega
  have hcut : klStringMatch line.text [colon] = some line.category.length := find_char hcolon
  rw [readLine, hcut, hfind]
  simp only [Option.bind_some, klStringNumCopy, hlength, hlength', if_pos hcategory, if_pos hinit,
    hdrop, hdrop', klStringCopy, if_pos hattributes, Option.map_some]
  rw [Line.text, List.take_left, List.take_left]
  rfl

theorem search_none (h : ∀ line ∈ rest, ¬ line.Matches Query) :
    search Query (table rest) i Result = some (i + rest.length, Result) := by
  induction rest generalizing i with
  | nil => rfl
  | cons line rest ih =>
      have hline : ¬ (klStringMatch line.text Query).isSome = true := fun hfind =>
        h line List.mem_cons_self (Line.matches_iff.mp hfind)
      have hrest := ih (i := i + 1) fun line hl => h line (List.mem_cons_of_mem _ hl)
      rw [table, List.map_cons, List.cons_append, search, if_neg line.text_ne_nil, if_neg hline,
        ← table, hrest, List.length_cons, Nat.add_right_comm, Nat.add_assoc]

theorem search_found (hpre : ∀ line ∈ pre, ¬ line.Matches Query) (hline : line.Matches Query) :
    search Query (table (pre ++ line :: post)) i Result =
      some (i + pre.length + 1, line.data) := by
  induction pre generalizing i with
  | nil =>
      rw [List.nil_append, table, List.map_cons, List.cons_append, search,
        if_neg line.text_ne_nil, if_pos (Line.matches_iff.mpr hline), readLine_text]
      rfl
  | cons line' pre ih =>
      have hnot : ¬ (klStringMatch line'.text Query).isSome = true := fun hfind =>
        hpre line' List.mem_cons_self (Line.matches_iff.mp hfind)
      have hrest := ih (i := i + 1) fun line hl => hpre line (List.mem_cons_of_mem _ hl)
      rw [List.cons_append, table, List.map_cons, List.cons_append, search,
        if_neg line'.text_ne_nil, if_neg hnot, ← table, hrest, List.length_cons]
      congr 2
      omega

theorem table_append (front rest : List Line) :
    table (front ++ rest) = front.map Line.text ++ table rest := by
  rw [table, table, List.map_append, List.append_assoc]

/-- The line at the cursor. -/
theorem table_at (front rest : List Line) (k : Nat) :
    (table (front ++ rest))[front.length + k]? = (table rest)[k]? := by
  rw [table_append, List.getElem?_append_right (by rw [List.length_map]; omega), List.length_map,
    Nat.add_sub_cancel_left]

theorem table_drop (front rest : List Line) :
    (table (front ++ rest)).drop front.length = table rest := by
  rw [table_append, ← List.length_map Line.text, List.drop_left]

theorem table_length (lines : List Line) : (table lines)[lines.length]? = some [] := by
  have h := table_at lines [] 0
  rwa [List.append_nil] at h

/-- **A call that finds nothing** returns 0. -/
theorem klGetSystemConfig_none (h : ∀ line ∈ rest, ¬ line.Matches Query) :
    klGetSystemConfig (table (front ++ rest)) Query ⟨front.length, false⟩ Result =
      some (0#32, ⟨front.length + rest.length, false⟩, Result) := by
  have hend := table_length (front ++ rest)
  rw [List.length_append] at hend
  have hhere := table_at front rest 0
  rw [Nat.add_zero] at hhere
  rw [klGetSystemConfig]
  dsimp only
  rw [hhere, table_drop, search_none h]
  cases rest with
  | nil => rfl
  | cons line rest =>
      have hline : (table (line :: rest))[0]? = some line.text := rfl
      rw [hline, Option.bind_some, if_neg line.text_ne_nil, if_neg Bool.false_ne_true,
        Option.bind_some]
      dsimp only
      rw [hend, Option.map_some, if_pos rfl]

/-- **A call that finds a line** returns 0 for the last one of the table, and 1 for another. -/
theorem klGetSystemConfig_found (hpre : ∀ line ∈ pre, ¬ line.Matches Query)
    (hline : line.Matches Query) :
    klGetSystemConfig (table (front ++ (pre ++ line :: post))) Query ⟨front.length, false⟩ Result =
      some
        (if post = [] then 0#32 else 1#32, ⟨front.length + pre.length + 1, false⟩, line.data) := by
  have hhere := table_at front (pre ++ line :: post) 0
  rw [Nat.add_zero] at hhere
  have hbehind : (table (front ++ (pre ++ line :: post)))[front.length + pre.length + 1]? =
      (table post)[0]? := by
    have h := table_at (front ++ (pre ++ [line])) post 0
    rw [List.append_assoc, List.append_assoc, List.singleton_append] at h
    rw [← h, List.length_append, List.length_append, List.length_singleton, ← Nat.add_assoc]
  have hfirst : ∃ l, (table (pre ++ line :: post))[0]? = some l ∧ l ≠ [] := by
    cases pre with
    | nil => exact ⟨line.text, rfl, line.text_ne_nil⟩
    | cons line' pre => exact ⟨line'.text, rfl, line'.text_ne_nil⟩
  rcases hfirst with ⟨l, hl, hne⟩
  rw [klGetSystemConfig]
  dsimp only
  rw [hhere, hl, Option.bind_some, if_neg hne, if_neg Bool.false_ne_true, table_drop,
    search_found hpre hline, Option.bind_some]
  dsimp only
  rw [hbehind]
  cases post with
  | nil => rfl
  | cons line' post =>
      have hline' : (table (line' :: post))[0]? = some line'.text := rfl
      rw [hline', Option.map_some, if_neg line'.text_ne_nil, if_neg (List.cons_ne_nil _ _)]

/-! ## All calls -/

variable {Ptr : List (List STRING)} {s s' : Database} {data' : DBQuery}
  {delivered : List DBQuery}

/-- A call that returns 0 is the last one. -/
theorem queryAll_zero (h : klGetSystemConfig Ptr Query s data = some (0#32, s', data')) :
    (∃ rounds t, queryAll Ptr Query rounds s data = some (delivered, t)) ↔ delivered = [] := by
  constructor
  · intro hall
    rcases hall with ⟨rounds, t, hall⟩
    cases rounds with
    | zero => exact absurd hall nofun
    | succ rounds =>
        rw [queryAll, h, Option.bind_some] at hall
        exact (Prod.mk.inj (Option.some.inj hall)).1.symm
  · intro he
    subst he
    refine ⟨1, s', ?_⟩
    rw [queryAll, h, Option.bind_some]
    rfl

/-- One that returns 1 delivers, and the others come behind. -/
theorem queryAll_one (h : klGetSystemConfig Ptr Query s data = some (1#32, s', data')) :
    (∃ rounds t, queryAll Ptr Query rounds s data = some (delivered, t)) ↔
      ∃ rest, (∃ rounds t, queryAll Ptr Query rounds s' data' = some (rest, t)) ∧
        delivered = data' :: rest := by
  constructor
  · intro hall
    rcases hall with ⟨rounds, t, hall⟩
    cases rounds with
    | zero => exact absurd hall nofun
    | succ rounds =>
        rw [queryAll, h, Option.bind_some] at hall
        dsimp only at hall
        rw [if_neg (by decide)] at hall
        rcases Option.map_eq_some_iff.mp hall with ⟨⟨rest, t'⟩, hrest, he⟩
        exact ⟨rest, ⟨rounds, t', hrest⟩, (Prod.mk.inj he).1.symm⟩
  · intro hall
    rcases hall with ⟨rest, ⟨rounds, t, hrest⟩, rfl⟩
    refine ⟨rounds + 1, t, ?_⟩
    rw [queryAll, h, Option.bind_some]
    dsimp only
    rw [if_neg (by decide), hrest]
    rfl

theorem filter_eq_nil (h : ∀ line ∈ rest, ¬ line.Matches Query) :
    rest.filter (fun line => decide (line.Matches Query)) = [] :=
  List.filter_eq_nil_iff.mpr fun line hl => by
    rw [decide_eq_true_eq]
    exact h line hl

/-- **The last line is not delivered**, and all others with the query in them are. -/
theorem queryAll_lines :
    (∃ rounds t, queryAll (table (front ++ rest)) Query rounds ⟨front.length, false⟩ data =
      some (delivered, t)) ↔
    delivered = (rest.dropLast.filter (Line.Matches Query)).map Line.data := by
  induction hn : rest.length using Nat.strong_induction_on
    generalizing front rest data delivered with
  | _ n ih =>
    cases hfind : rest.find? (fun line => decide (line.Matches Query)) with
    | none =>
        have hnone : ∀ line ∈ rest, ¬ line.Matches Query := fun line hl hmatches =>
          List.find?_eq_none.mp hfind line hl (decide_eq_true hmatches)
        rw [queryAll_zero (klGetSystemConfig_none hnone),
          filter_eq_nil fun line hl => hnone line (List.dropLast_subset _ hl)]
        rfl
    | some line =>
        rcases List.find?_eq_some_iff_append.mp hfind with ⟨hline, pre, post, rfl, hpre⟩
        have hpre' : ∀ line ∈ pre, ¬ line.Matches Query := fun line hl hmatches => by
          have := hpre line hl
          rw [decide_eq_true hmatches] at this
          exact absurd this nofun
        have hcall : klGetSystemConfig (table (front ++ (pre ++ line :: post))) Query
            ⟨front.length, false⟩ data = some (if post = [] then 0#32 else 1#32,
              ⟨front.length + pre.length + 1, false⟩, line.data) :=
          klGetSystemConfig_found hpre' (of_decide_eq_true hline)
        cases post with
        | nil =>
            rw [if_pos rfl] at hcall
            rw [queryAll_zero hcall, List.dropLast_concat, filter_eq_nil hpre']
            rfl
        | cons line' post =>
            rw [if_neg (List.cons_ne_nil _ _)] at hcall
            have htable : front ++ (pre ++ line :: line' :: post) =
                (front ++ (pre ++ [line])) ++ (line' :: post) := by
              rw [List.append_assoc, List.append_assoc, List.singleton_append]
            have hlength : front.length + pre.length + 1 = (front ++ (pre ++ [line])).length := by
              rw [List.length_append, List.length_append, List.length_singleton, Nat.add_assoc]
            have hlt : (line' :: post).length < n := by
              rw [← hn, List.length_append, List.length_cons (a := line)]
              omega
            have hdrop : ((pre ++ line :: line' :: post).dropLast.filter (Line.Matches Query)) =
                line :: (line' :: post).dropLast.filter (Line.Matches Query) := by
              rw [List.dropLast_append_of_ne_nil (List.cons_ne_nil _ _),
                List.dropLast_cons_of_ne_nil (List.cons_ne_nil _ _), List.filter_append,
                filter_eq_nil hpre', List.nil_append,
                List.filter_cons, if_pos hline]
            rw [queryAll_one hcall, hdrop, htable, hlength]
            constructor
            · intro h
              rcases h with ⟨rest, hrest, rfl⟩
              rw [(ih _ hlt rfl).mp hrest]
              rfl
            · intro h
              exact ⟨_, (ih _ hlt rfl).mpr rfl, h⟩

theorem delivers_iff_dropLast : Delivers lines Query data ↔
    (lines.filter (Line.Matches Query)).map Line.data =
      (lines.dropLast.filter (Line.Matches Query)).map Line.data := by
  have h : (∃ rounds t, queryAll (table ([] ++ lines)) Query rounds
      ⟨([] : List Line).length, false⟩ data =
        some ((lines.filter (Line.Matches Query)).map Line.data, t)) ↔ _ := queryAll_lines
  exact h

/-- **Every line is delivered once**, exactly if the last line of the table does not have the query
in it. -/
theorem devices_delivered_iff (lines : List Line) (Query : List STRING) (data : DBQuery) :
    Delivers lines Query data ↔ ∀ line ∈ lines.getLast?, ¬ line.Matches Query := by
  rw [delivers_iff_dropLast]
  -- what is missing is what the last line has
  rcases List.eq_nil_or_concat lines with rfl | ⟨front, line, rfl⟩
  · exact ⟨fun _ _ hl => absurd hl nofun, fun _ => rfl⟩
  · rw [List.concat_eq_append, List.dropLast_concat, List.getLast?_concat, List.filter_append,
      List.map_append, List.append_right_eq_self, List.map_eq_nil_iff]
    constructor
    · intro h line' hl hmatches
      obtain rfl := Option.mem_some.mp hl
      rw [List.filter_cons, if_pos (decide_eq_true hmatches)] at h
      exact absurd h nofun
    · intro h
      exact filter_eq_nil fun line' hl => List.mem_singleton.mp hl ▸ h line rfl

/-- `FakeSystemDevicesFile`, with `"` around the first `RW`. -/
def fakeSystemDevicesFile : List (List STRING) :=
  [chars "Blockdevice:Cache(IDE(0, 16, 1024), 128K)=512, 64K, " ++ [34#8] ++ chars "RW" ++ [34#8],
    chars "Blockdevice:IDE(1)=RW", chars "Blockdevice:SCSI(3)=RO", chars "Blockdevice:SCSI(4)=WO",
    chars "Chardevice:Serial(0)=RW", chars ""]

def systemDevices : List Line :=
  [⟨chars "Blockdevice", chars "Cache(IDE(0, 16, 1024), 128K)",
      chars "512, 64K, " ++ [34#8] ++ chars "RW" ++ [34#8], by decide, by decide, by decide⟩,
    ⟨chars "Blockdevice", chars "IDE(1)", chars "RW", by decide, by decide, by decide⟩,
    ⟨chars "Blockdevice", chars "SCSI(3)", chars "RO", by decide, by decide, by decide⟩,
    ⟨chars "Blockdevice", chars "SCSI(4)", chars "WO", by decide, by decide, by decide⟩,
    ⟨chars "Chardevice", chars "Serial(0)", chars "RW", by decide, by decide, by decide⟩]

example : table systemDevices = fakeSystemDevicesFile := by decide

/-- `IOSKinit` does not get `Chardevice:Serial(0)`. -/
theorem not_delivers_systemDevices : ¬ Delivers systemDevices [] ⟨.DEVUNDEFINED, [], []⟩ := by
  intro h
  have := congrArg List.length (delivers_iff_dropLast.mp h)
  rw [List.length_map, List.length_map] at this
  exact absurd this (by decide)

end Alliance.IOSK
