import Alliance.ABL.Modules
import Alliance.Lib.CString

/-!
# The boot script (`boot/ABL/script.c`)

`ABLdoScript` goes through the configuration script once, with `loc`. Its scans are macros that
end the parse when they come to the end of the script, wherever they stand: behind a filename,
too, before the command is done. A newline is counted by the scan that passes it, but not by the
one for the `=` of a command, and the newline behind a filename is overwritten by the end of the
string.

The bytes before `loc` and those from `loc` on make up the buffer, so a read or a write with no
bytes left is one outside (`none`). Opening a file and mounting a partition are the work of the
boot library, and a parameter here.
-/

namespace Alliance.ABL

open Lib

/-! ## Characters -/

def chr (c : Char) : UBYTE := .ofNat 8 c.toNat

def newline : UBYTE := 0x0a#8

/-- A space or a tab. -/
def isSpace (ch : UBYTE) : Bool := ch = 0x20#8 || ch = 0x09#8

/-- What `stripwhitespace` passes, and `skipname` does not. -/
def isBlank (ch : UBYTE) : Bool := ch = newline || isSpace ch

/-! ## Commands -/

/-- CK, kernel, link library and root partition. -/
inductive Command
  | ck
  | kernel
  | lm
  | root
  deriving DecidableEq, Repr

/-- What `script.c` prints. -/
inductive Message
  /-- `Cannot load multiple CKs on line %d, skipping line`. -/
  | multipleCKs
  /-- `Can't load kernel before CK on line %d, skipping line`. -/
  | kernelBeforeCK
  /-- `Unrecognised command in script on line %d, skipping line`. -/
  | unrecognised
  /-- `script:  Loading CK`. -/
  | loadingCK
  /-- `script:  Loading kernel`. -/
  | loadingKernel
  /-- `script:  Loading library`. -/
  | loadingLibrary
  /-- `CK memory already allocated on line %d`. -/
  | ckAllocated
  /-- `Failed loading CK on line %d`. -/
  | ckFailed
  /-- `Failed loading kernel on line %d`. -/
  | kernelFailed
  /-- `Unable to mount root partition %s`. -/
  | mountFailed
  /-- `CK was not loaded.  You need a CK to boot !!!`. -/
  | ckNotLoaded
  deriving DecidableEq, Repr

/-- What is printed before the parameter of a command is read. -/
def Command.opening : Command → Option Message
  | .ck => some .loadingCK
  | .kernel => some .loadingKernel
  | .lm => some .loadingLibrary
  | .root => none

/-- The boot library: `open`, and `set_device` with `open_device`. -/
structure Grub (G : Type) where
  openFile : G → List UBYTE → G × Option BootFile
  mount : G → List UBYTE → G × Bool

/-- What the commands work on: the modules, and the state of the boot library. -/
structure Machine (G : Type) where
  boot : Boot
  grub : G

variable {G : Type} (grub : Grub G)

/-- `!entry[0]` behind `ABLloadELF`. -/
def loadFailed (file : Option BootFile) (extMemTop memoffs : UADDR) : Bool :=
  match file.bind fun file => file.load extMemTop memoffs with
  | none => true
  | some r => r.2 = 0#32

/-- `ABLloadCK`, which has loaded the CK if it printed nothing. -/
def Machine.ablLoadCK (w : Machine G) (fname : List UBYTE) : Machine G × Option Message :=
  if 0x150000#32 < w.boot.extMemTop then (w, some .ckAllocated)
  else
    let r := grub.openFile w.grub fname
    let ck := w.boot.ablLoadCK r.2
    (⟨ck.1, r.1⟩, if ck.2 then none else some .ckFailed)

def Machine.ablLoadKernel (w : Machine G) (fname : List UBYTE) : Machine G × Option Message :=
  let r := grub.openFile w.grub fname
  (⟨w.boot.ablLoadKernel r.2, r.1⟩,
    if loadFailed r.2 w.boot.extMemTop (pageAlign w.boot.extMemTop) then some .kernelFailed
    else none)

/-- `set_device`, and `open_device` if nothing went wrong. -/
def Machine.mountRoot (w : Machine G) (fname : List UBYTE) : Machine G × Option Message :=
  let r := grub.mount w.grub fname
  (⟨w.boot, r.1⟩, if r.2 then none else some .mountFailed)

/-- The functions behind the commands, with what they print. `ABLloadLM` does nothing. -/
def Command.execute (c : Command) (w : Machine G) (fname : List UBYTE) :
    Machine G × Option Message :=
  match c with
  | .ck => w.ablLoadCK grub fname
  | .kernel => w.ablLoadKernel grub fname
  | .lm => (w, none)
  | .root => w.mountRoot grub fname

/-- `ckloaded` behind a command. -/
def Command.ckloaded (c : Command) (ckloaded : Bool) (printed : Option Message) : Bool :=
  if c = .ck then printed.isNone else ckloaded

/-- A command that is executed, or a message and where `loc` is at it. -/
inductive Event
  | run (c : Command) (fname : List UBYTE)
  | message (text : Message) (loc : Nat)
  deriving DecidableEq, Repr

/-! ## The parser -/

/-- `loc` in the buffer, and `line`. -/
structure Place where
  front : List UBYTE
  ahead : List UBYTE
  line : Nat

/-- The variables of `ABLdoScript`; and what happened so far, each event with `line` at it. -/
structure Scan (G : Type) extends Place where
  ckloaded : Bool
  machine : Machine G
  log : List (Event × Nat)

/-- A round of the main loop is over, or the loop is. -/
inductive Flow (G : Type)
  | next (s : Scan G)
  | done (s : Scan G)

/-- `searchend(x)`: pass the bytes of which `x` holds. It may count a line. -/
def searchend (x : Nat → UBYTE → Nat × Bool) (front : List UBYTE) (line : Nat) :
    List UBYTE → Place
  | [] => ⟨front, [], line⟩
  | ch :: ahead =>
    if (x line ch).2 then searchend x (front ++ [ch]) (x line ch).1 ahead
    else ⟨front, ch :: ahead, (x line ch).1⟩

/-- `searchfor(x)`: pass the bytes up to the first `x`, and that one. -/
def searchfor (x : UBYTE) (front : List UBYTE) (line : Nat) : List UBYTE → Place
  | [] => ⟨front, [], line⟩
  | ch :: ahead =>
    if ch = x then ⟨front ++ [ch], ahead, line⟩ else searchfor x (front ++ [ch]) line ahead

/-- `(loc[0] == '\n' && line++) || loc[0] == ' ' || loc[0] == '\t'`. The value of `line++` is that
of `line` before. -/
def whitespace (line : Nat) (ch : UBYTE) : Nat × Bool :=
  if ch = newline then (line + 1, line ≠ 0) else (line, isSpace ch)

def Place.loc (p : Place) : Nat := p.front.length

def Place.size (p : Place) : Nat := p.front.length + p.ahead.length

/-- `(loc++)[0] = '\0'`. -/
def Place.markEnd (p : Place) : Option Place :=
  match p.ahead with
  | [] => none
  | _ :: ahead => some ⟨p.front ++ [0#8], ahead, p.line⟩

/-- The string at a place in the buffer. -/
def Place.stringAt (p : Place) (fname : Nat) : Option (List UBYTE) :=
  (cut ((p.front ++ p.ahead).drop fname) 0#8).map Prod.fst

namespace Scan

variable (s : Scan G)

def stripwhitespace : Scan G :=
  { s with toPlace := searchend whitespace s.front s.line s.ahead }

def skipname : Scan G :=
  { s with toPlace := searchend (fun line ch => (line, !isBlank ch)) s.front s.line s.ahead }

def searchfor (x : UBYTE) : Scan G := { s with toPlace := ABL.searchfor x s.front s.line s.ahead }

/-- `if(loc >= (script+size)) break`, which ends every scan. -/
def orBreak (k : Scan G → Option (Flow G)) : Option (Flow G) :=
  if s.ahead = [] then some (.done s) else k s

def print (text : Message) : Scan G :=
  { s with log := s.log ++ [(.message text s.loc, s.line)] }

/-- `searchfor('\n'); line++; continue`. -/
def skipLine : Option (Flow G) :=
  (s.searchfor newline).orBreak fun s => some (.next { s with line := s.line + 1 })

/-- Execute a command. -/
def run (c : Command) (fname : List UBYTE) : Scan G :=
  let r := c.execute grub s.machine fname
  let s' :=
    { s with
      machine := r.1
      ckloaded := c.ckloaded s.ckloaded r.2
      log := s.log ++ [(.run c fname, s.line)] }
  match r.2 with
  | none => s'
  | some text => s'.print text

/-- Read the parameter of a command, and execute it. -/
def parameter (c : Command) : Option (Flow G) :=
  (s.searchfor (chr '=')).orBreak fun s =>
    s.stripwhitespace.orBreak fun s =>
      s.skipname.orBreak fun s' =>
        s'.markEnd.bind fun p =>
          (p.stringAt s.loc).map fun fname => .next ({ s' with toPlace := p }.run grub c fname)

/-- A command of the script. -/
def command (c : Command) : Option (Flow G) :=
  match c.opening with
  | none => s.parameter grub c
  | some text => (s.print text).parameter grub c

/-- A round of the main loop. -/
def round : Option (Flow G) :=
  s.stripwhitespace.orBreak fun s =>
    s.ahead.head?.bind fun ch =>
      if ch = chr '#' then s.skipLine
      else if ch = chr 'c' then
        if s.ckloaded then (s.print .multipleCKs).skipLine else s.command grub .ck
      else if ch = chr 'k' then
        if s.ckloaded then s.command grub .kernel else (s.print .kernelBeforeCK).skipLine
      else if ch = chr 'l' then s.command grub .lm
      else if ch = chr 'r' then s.command grub .root
      else if ch = 0#8 then some (.done s)
      else (s.print .unrecognised).skipLine

/-- The main loop. -/
def rounds : Nat → Scan G → Option (Scan G)
  | 0, _ => none
  | n + 1, s =>
    if s.ahead = [] then some s
    else
      (s.round grub).bind fun
        | .next s => rounds n s
        | .done s => some s

/-- Look for errors. `ABLlink` finds none. -/
def close : Scan G × Bool :=
  if s.ckloaded then (s, true) else (s.print .ckNotLoaded, false)

def start (w : Machine G) (script : List UBYTE) : Scan G :=
  { front := []
    ahead := script
    line := 1
    ckloaded := false
    machine := w
    log := [] }

end Scan

/-- `ABLdoScript`: every round passes a byte. -/
def ablDoScript (w : Machine G) (script : List UBYTE) : Option (Scan G × Bool) :=
  (Scan.rounds grub (script.length + 1) (.start w script)).map Scan.close

/-! ## What a script means -/

/-- What there is at a place where a command may start. -/
inductive Item
  | finish
  | comment
  /-- A line that is skipped with a message. -/
  | skipped (text : Message)
  | command (c : Command)

/-- A script ends with its text or with a 0. There is one CK, and no kernel before it. -/
def item (ckloaded : Bool) (ch : Option UBYTE) : Item :=
  match ch with
  | none => .finish
  | some ch =>
    if ch = chr '#' then .comment
    else if ch = chr 'c' then if ckloaded then .skipped .multipleCKs else .command .ck
    else if ch = chr 'k' then if ckloaded then .command .kernel else .skipped .kernelBeforeCK
    else if ch = chr 'l' then .command .lm
    else if ch = chr 'r' then .command .root
    else if ch = 0#8 then .finish
    else .skipped .unrecognised

/-- The text behind the line a text starts in. -/
def nextLine (text : List UBYTE) : List UBYTE := (text.dropWhile (· ≠ newline)).drop 1

/-- `keyword=filename`, on one line: the filename, which may have spaces in front, and the text
behind it. -/
def assignment (text : List UBYTE) : Option (List UBYTE × List UBYTE) :=
  match text.dropWhile fun ch => ch ≠ chr '=' && ch ≠ newline with
  | [] => none
  | ch :: value =>
    if ch = newline then none
    else
      let value := value.dropWhile isSpace
      let fname := value.takeWhile (!isBlank ·)
      if fname = [] then none else some (fname, value.dropWhile (!isBlank ·))

/-- What is to happen from a place of a text of `size` bytes on. A command whose line is not
`keyword=filename` is not recognised. -/
def meaning (size : Nat) : Nat → Bool → Machine G → List UBYTE → List Event
  | 0, _, _, _ => []
  | n + 1, ck, w, text =>
    let text := text.dropWhile isBlank
    let skip (m : Message) : List Event :=
      .message m (size - text.length) :: meaning size n ck w (nextLine text)
    match item ck text.head? with
    | .finish => if ck then [] else [.message .ckNotLoaded (size - text.length)]
    | .comment => meaning size n ck w (nextLine text)
    | .skipped m => skip m
    | .command c =>
      match assignment text with
      | none => skip .unrecognised
      | some (fname, rest) =>
        let r := c.execute grub w fname
        c.opening.toList.map (.message · (size - text.length)) ++
          .run c fname ::
            (r.2.toList.map (.message · (size - (rest.drop 1).length)) ++
              meaning size n (c.ckloaded ck r.2) r.1 (rest.drop 1))

/-- The script is interpreted within its buffer and as it should be, and at each message `line` is
the line that `loc` is in. -/
def ScriptExact (w : Machine G) (script : List UBYTE) : Prop :=
  ∃ r, ablDoScript grub w script = some r ∧ r.1.size = script.length ∧
    r.1.log.map Prod.fst = meaning grub script.length (script.length + 1) false w script ∧
    ∀ text loc line, (Event.message text loc, line) ∈ r.1.log →
      line = 1 + (script.take loc).count newline

/-! ## Where it goes well -/

/-- A newline at the end of a line that is skipped is not counted if the text ends there. -/
def uncounted (text : List UBYTE) : Nat := if newline ∈ text ∧ nextLine text = [] then 1 else 0

/-- Each command is on one line, with a string for a filename, and not at the end of the text; and
there is no message behind a newline that was not counted, `owed` so far. -/
def TextFits : Nat → Nat → Bool → Machine G → List UBYTE → Prop
  | 0, _, _, _, _ => True
  | n + 1, owed, ck, w, text =>
    let text := text.dropWhile isBlank
    match item ck text.head? with
    | .finish => ck = false → owed = 0
    | .comment => TextFits n (owed + uncounted text) ck w (nextLine text)
    | .skipped _ => owed = 0 ∧ TextFits n (owed + uncounted text) ck w (nextLine text)
    | .command c =>
      ∃ fname rest, assignment text = some (fname, rest) ∧ rest ≠ [] ∧ 0#8 ∉ fname ∧
        let r := c.execute grub w fname
        let owed' := owed + if rest.head? = some newline then 1 else 0
        (c.opening.isSome → owed = 0) ∧ (r.2.isSome → owed' = 0) ∧
          TextFits n owed' (c.ckloaded ck r.2) r.1 (rest.drop 1)

/-- The text of a script goes well. -/
def ScriptFits (w : Machine G) (script : List UBYTE) : Prop :=
  TextFits grub (script.length + 1) 0 false w script

end Alliance.ABL
