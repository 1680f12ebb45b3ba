import Alliance.KL.ExecVisits
import Alliance.KL.ExecTable
import Mathlib.Algebra.Group.Nat.Defs

/-!
# Loading and unloading modules (`LMload.c`, `LMunload.c`)

A module that is loaded has an entry in `_lmTable`, with the handle of its executable and the
addresses of three functions in it. `LMload` has opened an executable when it finds out that a
module cannot be loaded, and it closes it on most of the ways out; but it closes that of a module
that has been loaded, too, and `LMunload` closes none.

So executables and modules stay in step exactly as long as no module is loaded, and no `LMload`
comes to one of the ways out that leave something behind (`inStep_iff`).

The file is read by functions that are not part of the library: what they read, and whether they
say that they could, is for the caller to say.
-/

namespace Alliance.LM

open Function Lib KL.Exec

/-! ## Data -/

/-- `Version`, as far as it is looked at. -/
structure Version where
  Major : UBYTE
  Minor : UBYTE

inductive LMError where
  | LM_NOMORE_LMS
  | LM_FILE_ERR
  | LM_WRONG_PLATFORM
  | LM_NODESCRIPTION
  | LM_WRONG_VERS
  | LM_INIT_ERROR
  deriving DecidableEq, Repr

/-- The addresses of `LMinit`, `LMunInit` and `LMprobe`, or NIL. -/
structure EntryPoints where
  LMinit : UWORD32
  LMunInit : UWORD32
  LMprobe : UWORD32
  deriving DecidableEq, Repr

def EntryPoints.toList (p : EntryPoints) : List UWORD32 := [p.LMinit, p.LMunInit, p.LMprobe]

/-- An entry of `_lmTable`. -/
structure LMTable where
  usage : UWORD32
  execHandle : Nat
  entryPoints : EntryPoints
  deriving DecidableEq, Repr

/-- What `lowLevelRead` does: the bytes at each position, and whether it says that it has read. -/
structure Read where
  file : Nat → UBYTE
  ok : Bool

/-- The parameters of `LMload`, and all else that it depends on. -/
structure ModuleFile where
  moduleName : CString
  required : Version
  /-- What `KLexecOpen` gets from `KLmalloc`. -/
  junk : Option (Nat → UBYTE)
  header : Read
  /-- What the `n`-th call of `KLexecLoad` finds, and what is read behind it. -/
  heap : Nat → Heap
  stack : Nat → UWORD32
  read : Nat → Read
  /-- What `LMinit` returns. -/
  LMinit : Bool
  /-- What is behind `listOfSymbols[2]` on the stack may be overwritten. -/
  frame : Bool

/-- The modules, and the executable library. -/
structure LMs where
  st : Statics
  eTable : Nat → Option Executable
  lmTable : Nat → LMTable
  /-- `_maxLMs`, and `_maxExecutables`. -/
  numOfLMs : Nat

def LMTable.unused : LMTable := ⟨0#32, 0, ⟨0#32, 0#32, 0#32⟩⟩

/-- `LMlibInit`. -/
def LMs.init (numOfLMs : Nat) : LMs := ⟨.init, fun _ => none, fun _ => .unused, numOfLMs⟩

/-! ## `LMload` -/

def lmDescription : CString := ⟨chars "lmDescription", by decide⟩

def LMinit : CString := ⟨chars "LMinit", by decide⟩

def LMunInit : CString := ⟨chars "LMunInit", by decide⟩

def LMprobe : CString := ⟨chars "LMprobe", by decide⟩

/-- The byte at an address, in a section. -/
def byteAt (elf : ELF) (address : UWORD32) : Option UBYTE :=
  (List.range elf.e_shnum).findSome? fun i =>
    (elf.block i).bind fun b => b.readByte (address - b.addr).toNat

/-- The release in an `LMDescription` is too old. -/
def olderRelease (elf : ELF) (lmDesc : UWORD32) (required : Version) : Option Bool :=
  (byteAt elf (lmDesc + 10#32)).bind fun major =>
    if major < required.Major then some true
    else (byteAt elf (lmDesc + 11#32)).map fun minor => decide (minor < required.Minor)

/-- The calls of `KLexecLoad` from the `n`-th on, up to one that does not say `EXEC_LOAD_AGAIN` or a
read that fails. -/
def ModuleFile.loadLoop (m : ModuleFile) :
    Nat → Nat → Statics → Executable → Option (Statics × Executable)
  | 0, _, _, _ => none
  | fuel + 1, n, st, x =>
    (x.load st (m.heap n) (m.stack n)).bind fun (st, x, loadState) =>
      if loadState ≠ .EXEC_LOAD_AGAIN then some (st, x)
      else if x.record.buffer = .NIL then loadLoop m fuel (n + 1) st x
      else
        let x := x.fill (m.read n).file
        if (m.read n).ok then loadLoop m fuel (n + 1) st x else some (st, x)

/-- More calls than a load can have. -/
def maxLoadCalls : Nat := 2 ^ 16 + 4

/-- The executable when its header has been asked for. -/
def ModuleFile.opened (m : ModuleFile) (junk : Nat → UBYTE) : Executable :=
  (Executable.opened junk).fill m.header.file

namespace LMs

variable (s : LMs)

/-- The entry that `KLexecOpen` takes. If all are in use, it looks behind the table. -/
def freeExec : Option Nat := (List.range s.numOfLMs).find? fun e => (s.eTable e).isNone

/-- The entry that `LMload` takes. If all are in use, it looks behind the table. -/
def freeLM : Option Nat := (List.range s.numOfLMs).find? fun lmId => (s.lmTable lmId).usage = 0#32

def setLM (lmId : Nat) (entry : LMTable) : LMs :=
  { s with lmTable := update s.lmTable lmId entry }

/-- `KLexecClose`, of executable `x`. -/
def close (execHandle : Nat) (x : Executable) : Option LMs :=
  if x.elf.Closes then some { s with eTable := update s.eTable execHandle none } else none

def fail (execHandle : Nat) (x : Executable) (err : LMError) : Option (LMs × Except LMError Nat) :=
  (s.close execHandle x).map fun s => (s, .error err)

/-- The part of `LMload` behind the check of the version. There are two elements in
`listOfSymbols`, and four are written. -/
def enter (m : ModuleFile) (execHandle : Nat) (x : Executable) :
    Option (LMs × Except LMError Nat) :=
  if ¬ m.frame then none
  else s.freeLM.bind fun lmId =>
    (elfSearchSymbol s.st x.elf LMinit).bind fun init =>
    (elfSearchSymbol s.st x.elf LMunInit).bind fun unInit =>
    (elfSearchSymbol s.st x.elf LMprobe).bind fun probe =>
      let entry := { s.lmTable lmId with entryPoints := ⟨init, unInit, probe⟩ }
      if init ≠ 0#32 ∧ ¬ m.LMinit then (s.setLM lmId entry).fail execHandle x .LM_INIT_ERROR
      else
        let entry := { entry with execHandle, usage := entry.usage + 1#32 }
        ((s.setLM lmId entry).close execHandle x).map fun s => (s, .ok lmId)

/-- The part of `LMload` behind `KLexecOpen`. -/
def loadOpened (m : ModuleFile) (execHandle : Nat) (junk : Nat → UBYTE) :
    Option (LMs × Except LMError Nat) :=
  let x := m.opened junk
  if ¬ m.header.ok then
    some ({ s with eTable := update s.eTable execHandle (some x) }, .error .LM_FILE_ERR)
  else if probe x.elf.header ≠ .EXEC_PROBE_OK then s.fail execHandle x .LM_WRONG_PLATFORM
  else (m.loadLoop maxLoadCalls 0 s.st x).bind fun (st, x) =>
    let s := { s with st }
    (elfSearchSymbol st x.elf lmDescription).bind fun address =>
      if address = 0#32 then s.fail execHandle x .LM_NODESCRIPTION
      else (olderRelease x.elf address m.required).bind fun older =>
        if older then s.fail execHandle x .LM_WRONG_VERS else s.enter m execHandle x

end LMs

/-- `LMload`. -/
def LMload (s : LMs) (m : ModuleFile) : Option (LMs × Except LMError Nat) :=
  if 64 ≤ m.moduleName.chars.length then none
  else s.freeExec.bind fun execHandle =>
    match m.junk with
    | none => some (s, .error .LM_NOMORE_LMS)
    | some junk => s.loadOpened m execHandle junk

/-- `LMunload`. -/
def LMunload (s : LMs) (lmId : Nat) : LMs :=
  if lmId < s.numOfLMs ∧ (s.lmTable lmId).usage ≠ 0#32 then
    s.setLM lmId { s.lmTable lmId with usage := (s.lmTable lmId).usage - 1#32 }
  else s

inductive LMOp where
  | load (m : ModuleFile)
  | unload (lmId : Nat)

/-- A call, and what `LMload` returns. -/
def lmCall (s : LMs) : LMOp → Option (LMs × Except LMError Nat)
  | .load m => LMload s m
  | .unload lmId => some (LMunload s lmId, .ok lmId)

def lmStep (s : LMs) (op : LMOp) : Option LMs := (lmCall s op).map (·.1)

/-! ## The loop ends -/

/-- How many calls of `KLexecLoad` there can still be: one for each section, and those that come
before and after. -/
def callsLeft (iterator : Nat) : FsmState → Nat
  | .saveElfHeader => 2 ^ 16 - iterator + 4
  | .elfSectionNames => 2 ^ 16 - iterator + 3
  | .elfSection => 2 ^ 16 - iterator + 2
  | .postLoad => 2
  | .elfInvalid | .finalState => 1

theorem allocate_continues {x : Executable} {sh : Elf32_Shdr} {heap : Heap}
    (h : (x.allocate sh heap).2 = .continueIteration) :
    (x.allocate sh heap).1.iterator = x.iterator + 1 ∧
      (x.allocate sh heap).1.state = x.state := by
  unfold Executable.allocate at h ⊢
  split at h
  · next hsize => rw [if_pos hsize]; exact ⟨rfl, rfl⟩
  · next hsize =>
    rw [if_neg hsize]
    split at h
    · next htype =>
      rw [if_pos htype]
      split at h
      · exact ⟨rfl, rfl⟩
      · exact absurd h nofun
    · next htype =>
      rw [if_neg htype]
      split at h
      · exact ⟨rfl, rfl⟩
      · exact absurd h nofun

theorem section_continues {st : Statics} {x : Executable} {heap : Heap}
    {r : Statics × Executable × FsmResult} (hs : elfSectionProcessing st x heap = some r)
    (h : r.2.2 = .continueIteration) :
    r.2.1.iterator = x.iterator + 1 ∧ r.2.1.state = x.state := by
  obtain ⟨sh, -, hs⟩ := Option.bind_eq_some_iff.mp hs
  split at hs
  · obtain rfl := Option.some.inj hs
    exact ⟨rfl, rfl⟩
  · split at hs
    · exact absurd hs nofun
    · obtain ⟨st', -, hs⟩ := Option.bind_eq_some_iff.mp hs
      obtain ⟨skip, -, rfl⟩ := Option.map_eq_some_iff.mp hs
      cases skip with
      | true => exact ⟨rfl, rfl⟩
      | false => exact allocate_continues h

/-- **A call** that is not the last leaves fewer calls. -/
theorem callsLeft_load {st : Statics} {x : Executable} {heap : Heap} {stack : UWORD32}
    {r : Statics × Executable × LoadStatus} (hs : x.load st heap stack = some r)
    (h : r.2.2 = .EXEC_LOAD_AGAIN) :
    callsLeft r.2.1.iterator r.2.1.state < callsLeft x.iterator x.state := by
  have hnext : ∀ i result, callsLeft i (if result = FsmResult.nextState then .elfSectionNames
      else .elfInvalid) < callsLeft i .saveElfHeader ∧
      callsLeft i (if result = FsmResult.nextState then .elfSection else .elfInvalid) <
        callsLeft i .elfSectionNames := by
    intro i result
    split_ifs
    · exact ⟨Nat.lt_succ_self _, Nat.lt_succ_self _⟩
    · exact ⟨Nat.succ_lt_succ (Nat.succ_pos _), Nat.succ_lt_succ (Nat.succ_pos _)⟩
  unfold Executable.load at hs
  split at hs
  · next hstate =>
    obtain rfl := Option.some.inj hs
    rw [hstate]
    exact (hnext _ _).1
  · next hstate =>
    obtain ⟨⟨elf, record, result⟩, -, rfl⟩ := Option.map_eq_some_iff.mp hs
    rw [hstate]
    exact (hnext _ _).2
  · next hstate =>
    obtain ⟨⟨st', x', result⟩, hsection, rfl⟩ := Option.map_eq_some_iff.mp hs
    have hin := isSome_elfSectionProcessing.mp (Option.isSome_iff_exists.mpr ⟨_, hsection⟩)
    have hlt : x.iterator < 2 ^ 16 := Nat.lt_trans hin.1.2 (BitVec.isLt _)
    rw [hstate]
    cases result with
    | continueIteration =>
        obtain ⟨hiterator, hsame⟩ := section_continues hsection rfl
        show callsLeft x'.iterator x'.state < _
        rw [hiterator, hsame, hstate]
        simp only [callsLeft]
        omega
    | stopIteration =>
        simp only [callsLeft]
        omega
    | nextState => exact Nat.succ_lt_succ (Nat.succ_pos _)
    | stateError => exact Nat.succ_lt_succ (Nat.succ_pos _)
  · next hstate =>
    obtain ⟨elf, -, rfl⟩ := Option.map_eq_some_iff.mp hs
    rw [hstate]
    exact Nat.lt_succ_self _
  · obtain rfl := Option.some.inj hs
    exact absurd h nofun
  · obtain rfl := Option.some.inj hs
    exact absurd h nofun

theorem loadLoop_succ (m : ModuleFile) {fuel n : Nat} {st : Statics} {x : Executable}
    (h : callsLeft x.iterator x.state ≤ fuel) :
    m.loadLoop (fuel + 1) n st x = m.loadLoop fuel n st x := by
  induction fuel generalizing n st x with
  | zero =>
      have hpos : 0 < callsLeft x.iterator x.state := by
        cases x.state with
        | _ => exact Nat.succ_pos _
      omega
  | succ fuel ih =>
      rw [ModuleFile.loadLoop, ModuleFile.loadLoop]
      refine Option.bind_congr fun r hr => ?_
      obtain ⟨st', x', loadState⟩ := r
      by_cases hagain : loadState = .EXEC_LOAD_AGAIN
      · have hlt := callsLeft_load hr hagain
        dsimp only at hlt ⊢
        rw [ih (by omega), ih (x := x'.fill (m.read n).file) (by
          show callsLeft x'.iterator x'.state ≤ fuel
          omega)]
      · simp only [hagain, ne_eq, not_false_eq_true, if_true]

/-- **The loop of `LMload` ends**, or has no meaning: it is never cut off. -/
theorem loadLoop_maxLoadCalls (m : ModuleFile) (st : Statics) (junk : Nat → UBYTE) (k : Nat) :
    m.loadLoop (maxLoadCalls + k) 0 st (m.opened junk) =
      m.loadLoop maxLoadCalls 0 st (m.opened junk) := by
  induction k with
  | zero => rfl
  | succ k ih => rw [← Nat.add_assoc, loadLoop_succ m (Nat.le_add_right maxLoadCalls k), ih]

/-! ## In step -/

/-- The executables that are open are those of the modules that are loaded, and these have their
entry points in memory of their executables. -/
structure LMs.InStep (s : LMs) : Prop where
  executables : ∀ e, (s.eTable e).isSome ↔
    ∃ lmId < s.numOfLMs, (s.lmTable lmId).usage ≠ 0#32 ∧ (s.lmTable lmId).execHandle = e
  entryPoints : ∀ lmId < s.numOfLMs, (s.lmTable lmId).usage ≠ 0#32 →
    ∀ p ∈ (s.lmTable lmId).entryPoints.toList, p ≠ 0#32 →
      ∃ x, s.eTable (s.lmTable lmId).execHandle = some x ∧ (byteAt x.elf p).isSome

/-- What a call comes to keeps executables and modules in step; if it fails, it leaves both tables
as they were. -/
def Kept (s : LMs) (o : Option (LMs × Except LMError Nat)) : Prop :=
  ∃ r, o = some r ∧ r.1.InStep ∧
    ∀ err, r.2 = .error err → r.1.eTable = s.eTable ∧ r.1.lmTable = s.lmTable

def Keeps (s : LMs) (op : LMOp) : Prop := Kept s (lmCall s op)

/-- What is loaded of an executable whose header can be read, and is one. -/
def ModuleFile.loaded (m : ModuleFile) (st : Statics) (junk : Nat → UBYTE) :
    Option (Statics × Executable) :=
  if m.header.ok ∧ probe (m.opened junk).elf.header = .EXEC_PROBE_OK then
    m.loadLoop maxLoadCalls 0 st (m.opened junk)
  else none

/-- The file is loaded, and has no description, or one of a release that is too old. -/
def ModuleFile.Rejected (m : ModuleFile) (st : Statics) (junk : Nat → UBYTE) : Prop :=
  ∃ r address, m.loaded st junk = some r ∧
    elfSearchSymbol r.1 r.2.elf lmDescription = some address ∧
    (address ≠ 0#32 → olderRelease r.2.elf address m.required = some true)

/-- A call that loads no module, and fails in a way that leaves nothing behind. -/
def Harmless (s : LMs) : LMOp → Prop
  | .load m => m.moduleName.chars.length < 64 ∧ s.freeExec.isSome ∧
    ∀ junk, m.junk = some junk → m.Rejected s.st junk
  | .unload _ => True

/-- There is no module, and no executable. -/
structure LMs.Empty (s : LMs) : Prop where
  eTable : s.eTable = fun _ => none
  lmTable : s.lmTable = fun _ => .unused

variable {s s' : LMs} {m : ModuleFile} {execHandle : Nat} {x : Executable} {err : LMError}

theorem LMs.Empty.inStep (h : s.Empty) : s.InStep where
  executables := by
    intro e
    simp [h.eTable, h.lmTable, LMTable.unused]
  entryPoints := by
    intro lmId _ husage
    simp [h.lmTable, LMTable.unused] at husage

theorem not_kept_none : ¬ Kept s none := by
  rintro ⟨r, hr, -⟩
  exact absurd hr nofun

theorem kept_ok {lmId : Nat} : Kept s (some (s', .ok lmId)) ↔ s'.InStep := by simp [Kept]

theorem kept_error : Kept s (some (s', .error err)) ↔
    s'.InStep ∧ s'.eTable = s.eTable ∧ s'.lmTable = s.lmTable := by simp [Kept]

theorem kept_bind {α : Type} {o : Option α} {f : α → Option (LMs × Except LMError Nat)} :
    Kept s (o.bind f) ↔ ∃ a, o = some a ∧ Kept s (f a) := by
  cases o with
  | none => simp [not_kept_none]
  | some a => simp

/-- An executable in which symbols are looked for can be closed. -/
theorem closes_of_search {st : Statics} {elf : ELF} {name : CString} {address : UWORD32}
    (hs : elfSearchSymbol st elf name = some address) : elf.Closes := by
  have hin := ELF.isSome_elfSearchSymbol.mp (Option.isSome_iff_exists.mpr ⟨address, hs⟩)
  exact .inl hin.symTab.1

theorem LMs.close_eq (h : x.elf.Closes) :
    s.close execHandle x = some { s with eTable := update s.eTable execHandle none } := if_pos h

/-- The record of an executable whose sections have not been read cannot be freed. -/
theorem LMs.fail_opened (junk : Nat → UBYTE) : s.fail execHandle (m.opened junk) err = none := by
  have hopen : ¬ (m.opened junk).elf.Closes := by
    rintro (h | ⟨h, -⟩)
    · exact absurd h nofun
    · exact absurd h nofun
  rw [fail, close, if_neg hopen, Option.map_none]

/-- Closing the executable leaves nothing of a load that has entered no module. -/
theorem kept_fail (h : s.Empty) (st : Statics) (hcloses : x.elf.Closes) :
    Kept s (({ s with st }).fail execHandle x err) := by
  have heTable : update s.eTable execHandle none = s.eTable := by
    rw [update_eq_self_iff, h.eTable]
  rw [LMs.fail, LMs.close_eq hcloses, Option.map_some, kept_error]
  refine ⟨?_, heTable, rfl⟩
  exact LMs.Empty.inStep ⟨heTable.trans h.eTable, h.lmTable⟩

theorem LMs.not_fail_ok {lmId : Nat} : s.fail execHandle x err ≠ some (s', .ok lmId) := by
  intro hs
  obtain ⟨_, -, hr⟩ := Option.map_eq_some_iff.mp hs
  exact absurd (congrArg Prod.snd hr) nofun

theorem LMs.freeLM_spec {lmId : Nat} (h : s.freeLM = some lmId) :
    lmId < s.numOfLMs ∧ (s.lmTable lmId).usage = 0#32 := by
  refine ⟨List.mem_range.mp (List.mem_of_find?_eq_some h), ?_⟩
  have husage := List.find?_some h
  exact of_decide_eq_true husage

/-- A module gets an entry and its executable is closed, whatever `LMinit` returns. -/
theorem LMs.enter_cases {r : LMs × Except LMError Nat} (hs : s.enter m execHandle x = some r) :
    ∃ lmId < s.numOfLMs, (s.lmTable lmId).usage = 0#32 ∧ ∃ p : EntryPoints,
      r.1.numOfLMs = s.numOfLMs ∧ r.1.eTable = update s.eTable execHandle none ∧
      (p.LMinit ≠ 0#32 ∧ r.2 = .error .LM_INIT_ERROR ∧ r.1.lmTable = update s.lmTable lmId
          { s.lmTable lmId with entryPoints := p } ∨
        r.2 = .ok lmId ∧ r.1.lmTable = update s.lmTable lmId ⟨1#32, execHandle, p⟩) := by
  unfold enter at hs
  split at hs
  · exact absurd hs nofun
  · obtain ⟨lmId, hfree, hs⟩ := Option.bind_eq_some_iff.mp hs
    obtain ⟨init, hinit, hs⟩ := Option.bind_eq_some_iff.mp hs
    obtain ⟨unInit, -, hs⟩ := Option.bind_eq_some_iff.mp hs
    obtain ⟨probe, -, hs⟩ := Option.bind_eq_some_iff.mp hs
    obtain ⟨hlm, husage⟩ := freeLM_spec hfree
    refine ⟨lmId, hlm, husage, ⟨init, unInit, probe⟩, ?_⟩
    simp only [fail, close_eq (closes_of_search hinit), Option.map_some] at hs
    split at hs
    · next hfail =>
      obtain rfl := Option.some.inj hs
      exact ⟨rfl, rfl, .inl ⟨hfail.1, rfl, rfl⟩⟩
    · obtain rfl := Option.some.inj hs
      refine ⟨rfl, rfl, .inr ⟨rfl, ?_⟩⟩
      simp [setLM, husage]

/-- The executable of a module that has been entered is closed. -/
theorem LMs.not_inStep_enter {lmId : Nat} (hs : s.enter m execHandle x = some (s', .ok lmId)) :
    ¬ s'.InStep := by
  intro h
  obtain ⟨lmId, hlm, -, p, hnum, heTable, ⟨-, hr, -⟩ | ⟨-, hlmTable⟩⟩ := enter_cases hs
  · exact absurd hr nofun
  · dsimp only at hnum heTable hlmTable
    have hopen := (h.executables execHandle).mpr ⟨lmId, hnum ▸ hlm, by simp [hlmTable]⟩
    simp [heTable] at hopen

/-- **A module that is loaded is out of step.** -/
theorem not_inStep_load {lmId : Nat} (hs : LMload s m = some (s', .ok lmId)) : ¬ s'.InStep := by
  unfold LMload at hs
  split at hs
  · exact absurd hs nofun
  · obtain ⟨execHandle, -, hs⟩ := Option.bind_eq_some_iff.mp hs
    split at hs
    · exact absurd hs nofun
    · unfold LMs.loadOpened at hs
      dsimp only at hs
      split at hs
      · exact absurd hs nofun
      · split at hs
        · exact absurd hs LMs.not_fail_ok
        · obtain ⟨⟨st, x⟩, -, hs⟩ := Option.bind_eq_some_iff.mp hs
          obtain ⟨address, -, hs⟩ := Option.bind_eq_some_iff.mp hs
          split at hs
          · exact absurd hs LMs.not_fail_ok
          · obtain ⟨older, -, hs⟩ := Option.bind_eq_some_iff.mp hs
            split at hs
            · exact absurd hs LMs.not_fail_ok
            · exact LMs.not_inStep_enter hs

/-- A load that comes to `LMinit` is out of step, or has changed the entry points. -/
theorem not_kept_enter (h : s.Empty) (st : Statics) :
    ¬ Kept s (({ s with st }).enter m execHandle x) := by
  rintro ⟨⟨s', result⟩, hs, hinStep, htables⟩
  cases result with
  | ok lmId => exact LMs.not_inStep_enter hs hinStep
  | error err =>
      obtain ⟨lmId, -, -, p, -, -, ⟨hinit, -, hlmTable⟩ | ⟨hr, -⟩⟩ := LMs.enter_cases hs
      · have hentry := congrFun (hlmTable.symm.trans (htables err rfl).2) lmId
        simp only [update_self, h.lmTable] at hentry
        exact hinit (congrArg (fun entry => entry.entryPoints.LMinit) hentry)
      · exact absurd hr nofun

/-- What is behind the check of the header. -/
theorem kept_description (h : s.Empty) (st : Statics) :
    Kept s ((elfSearchSymbol st x.elf lmDescription).bind fun address =>
      if address = 0#32 then ({ s with st }).fail execHandle x .LM_NODESCRIPTION
      else (olderRelease x.elf address m.required).bind fun older =>
        if older then ({ s with st }).fail execHandle x .LM_WRONG_VERS
        else ({ s with st }).enter m execHandle x) ↔
    ∃ address, elfSearchSymbol st x.elf lmDescription = some address ∧
      (address ≠ 0#32 → olderRelease x.elf address m.required = some true) := by
  rw [kept_bind]
  refine exists_congr fun address => and_congr_right fun haddress => ?_
  have hcloses := closes_of_search haddress
  by_cases hnil : address = 0#32
  · rw [if_pos hnil]
    exact ⟨fun _ hne => absurd hnil hne, fun _ => kept_fail h st hcloses⟩
  · rw [if_neg hnil, kept_bind]
    constructor
    · rintro ⟨older, holder, hk⟩ -
      cases older with
      | true => exact holder
      | false => exact absurd hk (not_kept_enter h st)
    · intro holder
      exact ⟨true, holder hnil, kept_fail h st hcloses⟩

theorem kept_loadOpened (h : s.Empty) (junk : Nat → UBYTE) :
    Kept s (s.loadOpened m execHandle junk) ↔ m.Rejected s.st junk := by
  unfold LMs.loadOpened ModuleFile.Rejected ModuleFile.loaded
  by_cases hok : m.header.ok = true
  · rw [if_neg (not_not_intro hok)]
    by_cases hprobe : probe (m.opened junk).elf.header = .EXEC_PROBE_OK
    · rw [if_neg (not_not_intro hprobe), if_pos ⟨hok, hprobe⟩, kept_bind]
      refine exists_congr fun r => ?_
      rw [exists_and_left]
      exact and_congr_right fun _ => kept_description h r.1
    · rw [if_pos hprobe, LMs.fail_opened, if_neg fun hp => hprobe hp.2]
      exact ⟨fun hk => absurd hk not_kept_none, fun ⟨_, _, hr, _⟩ => absurd hr nofun⟩
  · rw [if_pos hok, if_neg fun hp => hok hp.1, kept_error]
    refine ⟨fun hk => ?_, fun ⟨_, _, hr, _⟩ => absurd hr nofun⟩
    -- the executable is still open, and there is no module
    have hopen := congrFun hk.2.1 execHandle
    simp [h.eTable] at hopen

/-- **A call of `LMload`** in the first state keeps it exactly if it is harmless. -/
theorem keeps_load_iff (h : s.Empty) : Keeps s (.load m) ↔ Harmless s (.load m) := by
  show Kept s (LMload s m) ↔ _ ∧ _ ∧ _
  unfold LMload
  by_cases hname : m.moduleName.chars.length < 64
  · rw [if_neg (Nat.not_le.mpr hname), kept_bind, Option.isSome_iff_exists]
    cases hjunk : m.junk with
    | none =>
        constructor
        · rintro ⟨e, he, -⟩
          exact ⟨hname, ⟨e, he⟩, nofun⟩
        · rintro ⟨-, ⟨e, he⟩, -⟩
          exact ⟨e, he, kept_error.mpr ⟨h.inStep, rfl, rfl⟩⟩
    | some junk =>
        constructor
        · rintro ⟨e, he, hk⟩
          refine ⟨hname, ⟨e, he⟩, fun junk' hjunk' => ?_⟩
          obtain rfl := Option.some.inj hjunk'
          exact (kept_loadOpened h junk).mp hk
        · rintro ⟨-, ⟨e, he⟩, hrejected⟩
          exact ⟨e, he, (kept_loadOpened h junk).mpr (hrejected junk rfl)⟩
  · rw [if_pos (Nat.not_lt.mp hname)]
    exact ⟨fun hk => absurd hk not_kept_none, fun hk => absurd hk.1 hname⟩

theorem LMs.Empty.LMunload (h : s.Empty) (lmId : Nat) : LMunload s lmId = s := by
  refine if_neg fun hlm => hlm.2 ?_
  rw [h.lmTable]
  rfl

theorem keeps_iff (h : s.Empty) (op : LMOp) : Keeps s op ↔ Harmless s op := by
  cases op with
  | load m => exact keeps_load_iff h
  | unload lmId =>
      refine ⟨fun _ => trivial, fun _ => kept_ok.mpr ?_⟩
      rw [h.LMunload]
      exact h.inStep

/-- **A harmless call** leaves no module, and no executable. -/
theorem empty_step {op : LMOp} (h : s.Empty) (hop : Keeps s op) (hs : lmStep s op = some s') :
    s'.Empty := by
  obtain ⟨⟨s₁, result⟩, hr, hinStep, htables⟩ := hop
  rw [lmStep, hr] at hs
  obtain rfl := Option.some.inj hs
  cases result with
  | error err =>
      obtain ⟨heTable, hlmTable⟩ := htables err rfl
      exact ⟨heTable.trans h.eTable, hlmTable.trans h.lmTable⟩
  | ok lmId =>
      cases op with
      | load m => exact absurd hinStep (not_inStep_load hr)
      | unload lmId' =>
          obtain ⟨rfl, -⟩ := Prod.mk.inj (Option.some.inj hr)
          rw [h.LMunload]
          exact h

/-- **Executables and modules stay in step** exactly as long as each call is harmless: no module is
ever loaded. -/
theorem inStep_iff (numOfLMs : Nat) (ops : List LMOp) :
    Along lmStep Keeps (.init numOfLMs) ops ↔ Along lmStep Harmless (.init numOfLMs) ops :=
  Along.congr_of_invariant (fun h => keeps_iff h _) empty_step ⟨rfl, rfl⟩

/-- A file with `lmDescription`, of release 1.0, in section 2. -/
def describedModule : List UBYTE :=
  headerBytes 108 4 1 ++ literal "" ++ literal ".shstrtab" ++ literal "lmDescription" ++
    [0, 0, 0, 0, 0, 0, 0, 0, 0, 0, 1, 0, 0] ++ [0, 0] ++
    [11, 0, 0, 0, 0, 0, 0, 0, 13, 0, 0, 0, 1, 0, 2, 0] ++
    sectionBytes 0 0 0 0 0 0 ++ sectionBytes 1 3 52 25 0 0 ++
    ([0, 1, 2, 0, 77, 13, 0, 0, 0, 0] : List UBYTE).flatMap (fun b => [b, 0, 0, 0]) ++
    sectionBytes 0 2 92 16 1 16

/-- All can be read, and there is memory. -/
def moduleOf (bytes : List UBYTE) : ModuleFile where
  moduleName := ⟨chars "module", by decide⟩
  required := ⟨1#8, 0#8⟩
  junk := some fun _ => 0#8
  header := ⟨fileOf bytes, true⟩
  heap := memoryAt
  stack := fun _ => 0#32
  read := fun _ => ⟨fileOf bytes, true⟩
  LMinit := true
  frame := true

/-- The module is loaded, and its executable is closed. -/
theorem not_inStep_described :
    ¬ Along lmStep Keeps (.init 1) [.load (moduleOf describedModule)] := by
  rintro ⟨⟨⟨s, result⟩, hs, hinStep, -⟩, -⟩
  obtain ⟨r, hr, hok⟩ := (Option.any_eq_true _ _).mp
    (show (LMload (.init 1) (moduleOf describedModule)).any (fun r => r.2.isOk) = true by
      decide +kernel)
  obtain rfl := Option.some.inj (hs.symm.trans hr)
  cases result with
  | ok lmId => exact not_inStep_load hs hinStep
  | error err => exact absurd hok nofun

end Alliance.LM
