import Mathlib.Data.List.Basic
import Mathlib.Data.Nat.Digits.Defs

/-!
# Header files of the IDL compiler (`hFile.c`, `toString.c`, `utils.c`)

A declaration of an IDL file is printed in two passes. A walk over a list of the tree fills a
list of strings, with one string for each parameter and with two for each identifier, the
plain and the scoped name. A loop then prints from the list, and goes on by two.

A header is the list of the texts that `fprintf` prints. A result is `none` where the
compiler aborts, writes behind the end of the list of strings, or prints a string that
it has not.
-/

namespace Alliance.SORB

/-! ## The tree -/

/-- `IDLN_IDENT`: the name, and the repository id, in which a `:` follows the scoped name. -/
structure Ident where
  str : String
  repoId : String
  colon : ':' ∈ repoId.toList.drop 4

inductive FloatType where
  | float
  | double
  | longdouble

inductive IntegerType where
  | short
  | long
  | longlong

/-- A type that is named, or `noType` for `NULL`. -/
inductive TypeSpec where
  | noType
  | float (fType : FloatType)
  | fixed
  | integer (fType : IntegerType) (signed : Bool)
  | char
  | wideChar
  | string
  | boolean
  | octet
  | any
  | object
  | enum
  | sequence (simpleType : TypeSpec)
  | array
  | struct
  | union
  | ident (name : Ident)
  | other

/-- `IDL_param_attr`. -/
inductive ParamAttr where
  | input
  | output
  | inout
  deriving DecidableEq

/-- `IDLN_PARAM_DCL`. -/
structure ParamDcl where
  attr : ParamAttr
  paramTypeSpec : TypeSpec
  simpleDeclarator : Ident

/-- `IDLN_OP_DCL`. -/
structure OpDcl where
  ident : Ident
  opTypeSpec : TypeSpec
  parameterDcls : List ParamDcl

/-- A declared name: an identifier, or one with the sizes of an array behind it
(`IDLN_TYPE_ARRAY`). -/
inductive Declarator where
  | ident (name : Ident)
  | array (name : Ident)

/-- `IDLN_TYPE_DCL`. -/
structure TypeDcl where
  typeSpec : TypeSpec
  dcls : List Declarator

/-- `IDLN_TYPE_ENUM`. -/
structure TypeEnum where
  ident : Ident
  enumeratorList : List Ident

/-- `IDLN_MEMBER`. The grammar has no member without a name. -/
structure Member where
  typeSpec : TypeSpec
  dcls : List Declarator
  named : dcls ≠ []

/-- `IDLN_EXCEPT_DCL`. -/
structure ExceptDcl where
  ident : Ident
  members : List Member

/-! ## Texts (`toString.c`, `utils.c`) -/

/-- `getScopedName`: skip four characters, and go on to the next `:`. -/
def getScopedName (node : Ident) : String :=
  String.ofList (((node.repoId.toList.drop 4).takeWhile (· ≠ ':')).map fun c =>
    if c = '/' then '_' else c)

def sequenceToString (sequenceType : String) : String :=
  "typedef struct \x7b\n\tCORBA_unsigned_long __maximum;\n\tCORBA_unsigned_long _length;\n\t" ++
    sequenceType ++ " *_buffer;\n\tUBYTE _release : 1; /* 1-bit release flag */\n\x7d "

def typeToString : TypeSpec → String
  | .noType => "VOID"
  | .float .float => "CORBA_float"
  | .float .double => "CORBA_doble"
  | .float .longdouble => "CORBA_long_double"
  | .fixed => "fixed_not_yet_implemented"
  | .integer .short signed => if signed then "CORBA_short" else "CORBA_unsigned_short"
  | .integer .long signed => if signed then "CORBA_long" else "CORBA_unsigned_long"
  | .integer .longlong signed =>
    if signed then "CORBA_long_long" else "CORBA_unsigned_long_long"
  | .char => "CORBA_char"
  | .wideChar => "CORBA_wchar"
  | .string => "CORBA_char *"
  | .boolean => "CORBA_boolean"
  | .octet => "CORBA_octet"
  | .any => "CORBA_any"
  | .object => "Only_basic_types_implemented"
  | .enum => "Only_basic_types_implemented"
  | .sequence simpleType => sequenceToString (typeToString simpleType)
  | .array => "Only_basic_types_implemented"
  | .struct => "Only_basic_types_implemented"
  | .union => "Only_basic_types_implemented"
  | .ident name => getScopedName name
  | .other => "REALLY_WEIRD_THINGS_HAPPEN"

/-- The declaration of one parameter. -/
def paramToString (node : ParamDcl) : String :=
  if node.attr ≠ .input then
    typeToString node.paramTypeSpec ++ " * " ++ node.simpleDeclarator.str
  else
    "INPUT " ++ typeToString node.paramTypeSpec ++ " " ++ node.simpleDeclarator.str

/-- The digit that `%x` prints. -/
def hexDigit (d : Nat) : Char := "0123456789abcdef".toList.getD d '0'

/-- What `%08lx` prints. -/
def lx08 (n : Nat) : List Char :=
  let digits := (Nat.digits 16 n).reverse.map hexDigit
  List.replicate (8 - digits.length) '0' ++ digits

/-! ## Lists of strings -/

/-- The room in `StringList.line`. -/
def MAXLINES : Nat := 255

/-- `StringList`: the lines below `count`. -/
abbrev StringList := List String

/-- A callback is called for each element of a list in turn. -/
def walkInOrder {α : Type} (f : StringList → α → Option StringList) (list : List α) :
    Option StringList :=
  list.foldlM f []

/-- `paramsToStringList`. -/
def paramsToStringList (strParams : StringList) (node : ParamDcl) : Option StringList :=
  if strParams.length < MAXLINES then some (strParams ++ [paramToString node]) else none

/-- `identsToStringList` on an identifier. -/
def identsToStringList (strIdents : StringList) (node : Ident) : Option StringList :=
  if strIdents.length + 1 < MAXLINES then
    some (strIdents ++ [node.str, getScopedName node])
  else
    none

/-- `identsToStringList` on a declarator: it aborts on anything but an identifier. -/
def declsToStringList (strIdents : StringList) : Declarator → Option StringList
  | .ident name => identsToStringList strIdents name
  | .array _ => none

/-- The indices that a loop from `index` up to `count` goes through, by two. -/
def indices (count index : Nat) : List Nat :=
  if index < count then index :: indices count (index + 2) else []
termination_by count - index

/-- An entry of the list of strings, which the loops only read below its count. -/
def line (lines : StringList) (index : Nat) : String := lines.getD index ""

/-! ## Printing (`hFile.c`) -/

def openProtectBlock (name : String) : String := "#ifndef " ++ name ++ "\n#define " ++ name ++ "\n"

def closeProtectBlock : String := "#endif\n\n"

def IMPLICITOBJECT : String := "(CORBA_Object anObject,\n"

def IMPLICITENVIRONMENT : String := "CORBA_Environment *ev)"

def ENUMMAPPING : String := "UINT32"

/-- What an operation starts with, up to the implicit object. -/
def opStart (root : OpDcl) : List String :=
  ["PUBLIC extern " ++ typeToString root.opTypeSpec ++ "\n",
    getScopedName root.ident ++ " " ++ IMPLICITOBJECT]

/-- What an operation ends with, from the implicit environment on. -/
def opEnd : List String := ["\t" ++ IMPLICITENVIRONMENT ++ ";\n", "\n"]

/-- `hMapOperations`. -/
def hMapOperations (root : OpDcl) : Option (List String) :=
  (walkInOrder paramsToStringList root.parameterDcls).map fun params =>
    opStart root ++ (indices params.length 0).map (fun i => "\t" ++ line params i ++ ",\n") ++ opEnd

/-- The declaration of one name of a type. -/
def typedefLines (typeStr name : String) : List String :=
  [openProtectBlock name, "typedef " ++ typeStr ++ " " ++ name ++ ";\n", closeProtectBlock]

/-- `hMapTypeDef`. -/
def hMapTypeDef (root : TypeDcl) : Option (List String) :=
  (walkInOrder declsToStringList root.dcls).map fun typeNames =>
    (indices typeNames.length 1).flatMap fun i =>
      typedefLines (typeToString root.typeSpec) (line typeNames i)

/-- The constant for an enumerator. -/
def enumLine (name : String) (value : Nat) : String :=
  "#define " ++ name ++ " (UINT32)( 0x" ++ String.ofList (lx08 value) ++ " )\n"

/-- What an enumeration starts with. -/
def enumStart (root : TypeEnum) : List String :=
  [openProtectBlock (getScopedName root.ident),
    "typedef " ++ ENUMMAPPING ++ " " ++ getScopedName root.ident ++ ";\n"]

/-- `hMapEnum`. -/
def hMapEnum (root : TypeEnum) : Option (List String) :=
  (walkInOrder identsToStringList root.enumeratorList).map fun enumerators =>
    enumStart root ++
      (indices enumerators.length 0).map (fun i => enumLine (line enumerators (i + 1)) (i / 2)) ++
      [closeProtectBlock]

/-- `hMapMember`. Its first name is printed whether there is one or not. -/
def hMapMember (root : Member) : Option (List String) :=
  (walkInOrder declsToStringList root.dcls).bind fun declarations =>
    declarations.head?.map fun first =>
      ["\t" ++ typeToString root.typeSpec ++ " " ++ first] ++
        (indices declarations.length 2).map (fun i => ", " ++ line declarations i) ++ [";\n"]

/-- What an exception starts with, up to its members. -/
def exceptStart (root : ExceptDcl) : List String :=
  [openProtectBlock (getScopedName root.ident),
    "typedef struct " ++ getScopedName root.ident ++ " \x7b\n"]

/-- What an exception ends with. -/
def exceptEnd (root : ExceptDcl) : List String :=
  let exceptionName := getScopedName root.ident
  ["\x7d " ++ exceptionName ++ ";\n",
    "#define ex_" ++ exceptionName ++ " \"" ++ root.ident.repoId ++ "\"\n",
    "#define " ++ exceptionName ++ "__alloc() (" ++ exceptionName ++
      " *)\\\n\t(malloc(sizeof(" ++ exceptionName ++ ")))\n",
    closeProtectBlock]

/-- `hMapException`. -/
def hMapException (root : ExceptDcl) : Option (List String) :=
  (root.members.mapM hMapMember).map fun members =>
    exceptStart root ++ members.flatten ++ exceptEnd root

/-- A declaration that has a part in the header. -/
inductive Definition where
  | op (root : OpDcl)
  | type (root : TypeDcl)
  | enum (root : TypeEnum)
  | except (root : ExceptDcl)

def hMap : Definition → Option (List String)
  | .op root => hMapOperations root
  | .type root => hMapTypeDef root
  | .enum root => hMapEnum root
  | .except root => hMapException root

/-! ## What a header is for -/

/-- The name that is declared. -/
def Declarator.name : Declarator → Ident
  | .ident name => name
  | .array name => name

/-- The declaration of a member's names. -/
def Member.declared (root : Member) : List String :=
  match root.dcls with
  | [] => []
  | first :: rest =>
    ["\t" ++ typeToString root.typeSpec ++ " " ++ first.name.str] ++
      rest.map (fun d => ", " ++ d.name.str) ++ [";\n"]

/-- Each parameter has its declaration between the implicit arguments, each enumerator a
constant with its position, and each declared name a declarator. -/
def Definition.declared : Definition → List String
  | .op root =>
    opStart root ++ root.parameterDcls.map (fun p => "\t" ++ paramToString p ++ ",\n") ++ opEnd
  | .type root =>
    root.dcls.flatMap fun d => typedefLines (typeToString root.typeSpec) (getScopedName d.name)
  | .enum root =>
    enumStart root ++ root.enumeratorList.mapIdx (fun k e => enumLine (getScopedName e) k) ++
      [closeProtectBlock]
  | .except root => exceptStart root ++ root.members.flatMap Member.declared ++ exceptEnd root

/-- The list of strings has room for what the walk puts there. -/
def Definition.WithinLimit : Definition → Prop
  | .op root => root.parameterDcls.length ≤ MAXLINES
  | .type root => 2 * root.dcls.length ≤ MAXLINES
  | .enum root => 2 * root.enumeratorList.length ≤ MAXLINES
  | .except root => ∀ m ∈ root.members, 2 * m.dcls.length ≤ MAXLINES

/-- A name without sizes of an array. -/
def Declarator.Plain : Declarator → Prop
  | .ident _ => True
  | .array _ => False

/-- An operation has at most one parameter, and no name is declared as an array. -/
def Definition.Simple : Definition → Prop
  | .op root => root.parameterDcls.length ≤ 1
  | .type root => ∀ d ∈ root.dcls, d.Plain
  | .enum _ => True
  | .except root => ∀ m ∈ root.members, ∀ d ∈ m.dcls, d.Plain

/-! ## The walks -/

theorem walk_params {list : List ParamDcl} {strParams : StringList}
    (h : strParams.length + list.length ≤ MAXLINES) :
    list.foldlM paramsToStringList strParams = some (strParams ++ list.map paramToString) := by
  induction list generalizing strParams with
  | nil => simp
  | cons node list ih =>
      rw [List.length_cons] at h
      have hstep : paramsToStringList strParams node =
          some (strParams ++ [paramToString node]) := if_pos (by omega)
      rw [List.foldlM_cons, hstep]
      refine (ih (by simp; omega)).trans ?_
      simp

/-- The two strings for each identifier. -/
def pairs (list : List Ident) : StringList :=
  list.flatMap fun node => [node.str, getScopedName node]

@[simp] theorem length_pairs (list : List Ident) : (pairs list).length = 2 * list.length := by
  induction list with
  | nil => rfl
  | cons node list ih =>
      unfold pairs at ih ⊢
      rw [List.flatMap_cons, List.length_append, ih]
      simp
      omega

theorem walk_idents {list : List Ident} {strIdents : StringList}
    (h : strIdents.length + 2 * list.length ≤ MAXLINES) :
    list.foldlM identsToStringList strIdents = some (strIdents ++ pairs list) := by
  induction list generalizing strIdents with
  | nil => simp [pairs]
  | cons node list ih =>
      rw [List.length_cons] at h
      have hstep : identsToStringList strIdents node =
          some (strIdents ++ [node.str, getScopedName node]) := if_pos (by omega)
      rw [List.foldlM_cons, hstep]
      refine (ih (by simp; omega)).trans ?_
      simp [pairs]

/-- On declarators, the walk succeeds if none is an array. -/
theorem walk_decls {list : List Declarator} {strIdents : StringList}
    (h : strIdents.length + 2 * list.length ≤ MAXLINES) (hp : ∀ d ∈ list, d.Plain) :
    list.foldlM declsToStringList strIdents =
      some (strIdents ++ pairs (list.map Declarator.name)) := by
  have hidents : list.foldlM declsToStringList strIdents =
      (list.map Declarator.name).foldlM identsToStringList strIdents := by
    clear h
    induction list generalizing strIdents with
    | nil => rfl
    | cons d list ih =>
        obtain ⟨hd, hrest⟩ := List.forall_mem_cons.mp hp
        cases d with
        | ident name =>
            rw [List.map_cons, List.foldlM_cons, List.foldlM_cons]
            exact congrArg _ (funext fun _ => ih hrest)
        | array name => exact absurd hd not_false
  rw [hidents, walk_idents (by simpa using h)]

theorem walk_decls_array {list : List Declarator} {strIdents : StringList} {d : Declarator}
    (hd : d ∈ list) (hp : ¬ d.Plain) : list.foldlM declsToStringList strIdents = none := by
  induction list generalizing strIdents with
  | nil => exact absurd hd List.not_mem_nil
  | cons first list ih =>
      rw [List.foldlM_cons]
      rcases List.mem_cons.mp hd with rfl | hd
      · cases d with
        | ident name => exact absurd trivial hp
        | array name => rfl
      · cases declsToStringList strIdents first with
        | none => rfl
        | some strIdents => exact ih hd

/-! ## The loops -/

/-- The indices of a loop, counted. -/
theorem indices_eq (count index : Nat) :
    indices count index = (List.range ((count - index + 1) / 2)).map (index + 2 * ·) := by
  induction index using indices.induct count with
  | case1 index h ih =>
      have hcount : (count - index + 1) / 2 = (count - (index + 2) + 1) / 2 + 1 := by omega
      rw [indices, if_pos h, ih, hcount, List.range_succ_eq_map, List.map_cons, List.map_map]
      congr 1
      refine List.map_congr_left fun k _ => ?_
      simp only [Function.comp_apply]
      omega
  | case2 index h =>
      have hcount : (count - index + 1) / 2 = 0 := by omega
      rw [indices, if_neg h, hcount]
      rfl

theorem line_pairs {list : List Ident} {k : Nat} (h : k < list.length) :
    line (pairs list) (2 * k) = list[k].str ∧
      line (pairs list) (2 * k + 1) = getScopedName list[k] := by
  induction list generalizing k with
  | nil => exact absurd h (Nat.not_lt_zero k)
  | cons node list ih =>
      cases k with
      | zero => exact ⟨rfl, rfl⟩
      | succ k => exact ih (Nat.lt_of_succ_lt_succ h)

/-- The loop over the plain names, from the second on. -/
theorem map_plain {list : List Ident} (f : String → String) :
    (indices (pairs list).length 2).map (fun i => f (line (pairs list) i)) =
      list.tail.map fun node => f node.str := by
  rw [indices_eq, length_pairs, List.map_map]
  refine List.ext_getElem (by simp; omega) fun k hk hk' => ?_
  have hlt : 1 + k < list.length := by simpa [Nat.lt_sub_iff_add_lt'] using hk'
  have hidx : 2 + 2 * k = 2 * (1 + k) := by omega
  simp only [List.getElem_map, List.getElem_range, Function.comp_apply, List.getElem_tail]
  rw [hidx, (line_pairs hlt).1]
  simp only [Nat.add_comm 1 k]

/-- The loop over the scoped names. -/
theorem map_scoped {α : Type} {list : List Ident} (f : String → Nat → α) :
    (indices (pairs list).length 0).map (fun i => f (line (pairs list) (i + 1)) (i / 2)) =
      list.mapIdx fun k node => f (getScopedName node) k := by
  rw [indices_eq, length_pairs, List.map_map]
  refine List.ext_getElem (by simp; omega) fun k hk hk' => ?_
  have hlt : k < list.length := by simpa using hk'
  simp only [List.getElem_map, List.getElem_range, Function.comp_apply, List.getElem_mapIdx,
    Nat.zero_add, (line_pairs hlt).2]
  congr 1
  omega

/-- The same names, where the loop starts at the first of them. -/
theorem map_scoped_odd {α : Type} {list : List Ident} (f : String → α) :
    (indices (pairs list).length 1).map (fun i => f (line (pairs list) i)) =
      list.map fun node => f (getScopedName node) := by
  rw [indices_eq, length_pairs, List.map_map]
  refine List.ext_getElem (by simp; omega) fun k hk hk' => ?_
  have hlt : k < list.length := by simpa using hk'
  simp only [List.getElem_map, List.getElem_range, Function.comp_apply]
  rw [Nat.add_comm 1 (2 * k), (line_pairs hlt).2]

/-! ## The four declarations -/

/-- Every second parameter is printed, which is every parameter if there is no second one. -/
theorem hMapOperations_iff {root : OpDcl} (h : root.parameterDcls.length ≤ MAXLINES) :
    hMapOperations root = some (Definition.op root).declared ↔ root.parameterDcls.length ≤ 1 := by
  obtain ⟨ident, opTypeSpec, params⟩ := root
  unfold hMapOperations walkInOrder Definition.declared
  dsimp only at h ⊢
  rw [walk_params (by simpa using h), Option.map_some, List.nil_append, List.length_map,
    Option.some_inj]
  constructor
  · intro heq
    have hlen := congrArg List.length heq
    rw [indices_eq] at hlen
    simp only [List.length_append, List.length_map, List.length_range, Nat.sub_zero] at hlen
    omega
  · intro hle
    rcases params with - | ⟨p, - | ⟨q, rest⟩⟩
    · rw [indices_eq]
      rfl
    · rw [indices_eq]
      simp [line]
    · simp at hle

theorem hMapEnum_eq {root : TypeEnum} (h : 2 * root.enumeratorList.length ≤ MAXLINES) :
    hMapEnum root = some (Definition.enum root).declared := by
  unfold hMapEnum walkInOrder Definition.declared
  rw [walk_idents (by simpa using h), Option.map_some, List.nil_append, map_scoped enumLine]

theorem hMapTypeDef_iff {root : TypeDcl} (h : 2 * root.dcls.length ≤ MAXLINES) :
    hMapTypeDef root = some (Definition.type root).declared ↔ ∀ d ∈ root.dcls, d.Plain := by
  unfold hMapTypeDef walkInOrder
  constructor
  · intro heq d hd
    by_contra hp
    rw [walk_decls_array hd hp] at heq
    exact absurd heq nofun
  · intro hp
    rw [walk_decls (by simpa using h) hp, Option.map_some, List.nil_append, List.flatMap_def,
      map_scoped_odd (typedefLines (typeToString root.typeSpec)), List.map_map]
    rfl

/-- A member is printed as it is declared, or not at all. -/
theorem hMapMember_eq {root : Member} (h : 2 * root.dcls.length ≤ MAXLINES)
    (hp : ∀ d ∈ root.dcls, d.Plain) : hMapMember root = some root.declared := by
  obtain ⟨typeSpec, dcls, named⟩ := root
  unfold hMapMember walkInOrder Member.declared
  dsimp only at h hp ⊢
  rw [walk_decls (by simpa using h) hp, Option.bind_some, List.nil_append, map_plain (", " ++ ·)]
  cases dcls with
  | nil => exact absurd rfl named
  | cons first rest =>
      rw [List.map_cons, List.tail_cons, List.map_map]
      rfl

theorem hMapMember_array {root : Member} {d : Declarator} (hd : d ∈ root.dcls) (hp : ¬ d.Plain) :
    hMapMember root = none := by
  unfold hMapMember walkInOrder
  rw [walk_decls_array hd hp]
  rfl

/-- The members of an exception are printed if each of them is. -/
theorem map_members {members : List Member} (h : ∀ m ∈ members, 2 * m.dcls.length ≤ MAXLINES)
    (hp : ∀ m ∈ members, ∀ d ∈ m.dcls, d.Plain) :
    members.mapM hMapMember = some (members.map Member.declared) := by
  induction members with
  | nil => rfl
  | cons m members ih =>
      obtain ⟨hm, hrest⟩ := List.forall_mem_cons.mp h
      obtain ⟨hpm, hprest⟩ := List.forall_mem_cons.mp hp
      rw [List.mapM_cons, hMapMember_eq hm hpm, ih hrest hprest]
      rfl

theorem map_members_array {members : List Member} {m : Member} (hm : m ∈ members)
    (hnone : hMapMember m = none) : members.mapM hMapMember = none := by
  induction members with
  | nil => exact absurd hm List.not_mem_nil
  | cons first members ih =>
      rw [List.mapM_cons]
      rcases List.mem_cons.mp hm with rfl | hm
      · rw [hnone]
        rfl
      · cases hMapMember first with
        | none => rfl
        | some text =>
            rw [ih hm]
            rfl

theorem hMapException_iff {root : ExceptDcl}
    (h : ∀ m ∈ root.members, 2 * m.dcls.length ≤ MAXLINES) :
    hMapException root = some (Definition.except root).declared ↔
      ∀ m ∈ root.members, ∀ d ∈ m.dcls, d.Plain := by
  unfold hMapException
  constructor
  · intro heq m hm d hd
    by_contra hp
    rw [map_members_array hm (hMapMember_array hd hp)] at heq
    exact absurd heq nofun
  · intro hp
    rw [map_members h hp]
    rfl

/-! ## The constants -/

/-- The value of a hexadecimal digit. -/
def hexValue (c : Char) : Nat := "0123456789abcdef".toList.idxOf c

/-- The number that hexadecimal digits stand for. -/
def ofHex (s : List Char) : Nat := Nat.ofDigits 16 (s.reverse.map hexValue)

theorem hexValue_hexDigit {d : Nat} (h : d < 16) : hexValue (hexDigit d) = d := by
  revert d
  decide

/-- What is printed for a constant reads as its value. -/
theorem ofHex_lx08 (n : Nat) : ofHex (lx08 n) = n := by
  have hdigits : (Nat.digits 16 n).map (hexValue ∘ hexDigit) = Nat.digits 16 n := by
    refine (List.map_congr_left fun d hd => ?_).trans (List.map_id _)
    exact hexValue_hexDigit (Nat.digits_lt_base (by decide) hd)
  have hzero : hexValue '0' = 0 := by decide
  unfold ofHex lx08
  simp only [List.reverse_append, List.reverse_replicate, List.map_append, List.map_reverse,
    List.reverse_reverse, List.map_map, List.map_replicate, hdigits, hzero,
    Nat.ofDigits_append_replicate_zero, Nat.ofDigits_digits]

/-! ## The header -/

/-- A declaration that keeps to the list limit is printed in full exactly if it is simple: it
is an enumeration, or an operation with at most one parameter, or no array is in it. The
constants of an enumeration have the values that they are printed for. -/
theorem header_complete_iff (d : Definition) (h : d.WithinLimit) :
    (hMap d = some d.declared ↔ d.Simple) ∧ ∀ value, ofHex (lx08 value) = value := by
  refine ⟨?_, ofHex_lx08⟩
  cases d with
  | op root => exact hMapOperations_iff h
  | type root => exact hMapTypeDef_iff h
  | enum root => exact iff_of_true (hMapEnum_eq h) trivial
  | except root => exact hMapException_iff h

/-- `long add (in long a, in long b)`, in an interface `Calc`. -/
def addOp : OpDcl where
  ident := ⟨"add", "IDL:Calc/add:1.0", by decide⟩
  opTypeSpec := .integer .long true
  parameterDcls :=
    [⟨.input, .integer .long true, ⟨"a", "IDL:Calc/add/a:1.0", by decide⟩⟩,
      ⟨.input, .integer .long true, ⟨"b", "IDL:Calc/add/b:1.0", by decide⟩⟩]

/-- The second parameter of `add` is not in the header. -/
theorem addOp_incomplete : (Definition.op addOp).WithinLimit ∧
    hMap (.op addOp) ≠ some (Definition.op addOp).declared := by
  have hlimit : addOp.parameterDcls.length ≤ MAXLINES := by decide
  refine ⟨hlimit, fun heq => ?_⟩
  exact absurd ((hMapOperations_iff hlimit).mp heq) (by decide)

/-- `enum Color { red, green }` -/
def colorEnum : TypeEnum where
  ident := ⟨"Color", "IDL:Color:1.0", by decide⟩
  enumeratorList := [⟨"red", "IDL:red:1.0", by decide⟩, ⟨"green", "IDL:green:1.0", by decide⟩]

theorem header_complete_iff_color :
    hMap (.enum colorEnum) = some (Definition.enum colorEnum).declared :=
  (header_complete_iff (.enum colorEnum) (show 4 ≤ 255 by decide)).1.mpr trivial

end Alliance.SORB
