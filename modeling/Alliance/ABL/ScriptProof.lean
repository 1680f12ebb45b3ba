import Alliance.ABL.Script

/-!
# What the boot script does

Every scan keeps the buffer and goes forwards (`Place.Passes`), so the parse ends within the
script whatever it holds (`rounds_total`). What it does is what the script means as long as each
command is on one line and not at the end, and the line is right until a newline is missed;
`Place.At` keeps how many were. At the first place where it is otherwise, the log differs from the
meaning or shows a wrong line (`ablDoScript_iff`).
-/

namespace Alliance.ABL

open Lib

variable {G : Type} {grub : Grub G} {s s' s'' : Scan G}

/-! ## Scans -/

/-- A scan keeps the buffer in size and goes forwards. -/
structure Place.Passes (p p' : Place) : Prop where
  size : p'.size = p.size
  ahead : p'.ahead.length ≤ p.ahead.length

theorem Place.Passes.loc_le {p p' : Place} (h : p.Passes p') : p.loc ≤ p'.loc := by
  have hsize := h.size
  have hahead := h.ahead
  unfold Place.size at hsize
  unfold Place.loc
  omega

theorem searchend_passes (x : Nat → UBYTE → Nat × Bool) (front : List UBYTE) (line : Nat)
    (ahead : List UBYTE) : Place.Passes ⟨front, ahead, line⟩ (searchend x front line ahead) := by
  induction ahead generalizing front line with
  | nil => exact ⟨rfl, Nat.le_refl _⟩
  | cons ch ahead ih =>
      unfold searchend
      split
      · obtain ⟨hsize, hahead⟩ := ih (front ++ [ch]) (x line ch).1
        refine ⟨hsize.trans ?_, Nat.le_succ_of_le hahead⟩
        show (front ++ [ch]).length + ahead.length = front.length + (ahead.length + 1)
        rw [List.length_append, List.length_singleton]
        omega
      · exact ⟨rfl, Nat.le_refl _⟩

/-- `searchfor` passes a byte if there is one. -/
theorem searchfor_passes (x : UBYTE) (front : List UBYTE) (line : Nat) (ahead : List UBYTE) :
    Place.Passes ⟨front, ahead, line⟩ (searchfor x front line ahead) ∧
      (ahead ≠ [] → (searchfor x front line ahead).ahead.length < ahead.length) := by
  induction ahead generalizing front with
  | nil => exact ⟨⟨rfl, Nat.le_refl _⟩, fun h => absurd rfl h⟩
  | cons ch ahead ih =>
      have hlen : (front ++ [ch]).length + ahead.length = front.length + (ahead.length + 1) := by
        rw [List.length_append, List.length_singleton]
        omega
      unfold searchfor
      split
      · exact ⟨⟨hlen, Nat.le_succ _⟩, fun _ => Nat.lt_succ_self _⟩
      · obtain ⟨⟨hsize, hahead⟩, -⟩ := ih (front ++ [ch])
        exact ⟨⟨hsize.trans hlen, Nat.le_succ_of_le hahead⟩, fun _ => Nat.lt_succ_of_le hahead⟩

/-- A condition that counts no lines. -/
theorem searchend_eq (p : UBYTE → Bool) (front : List UBYTE) (line : Nat) (ahead : List UBYTE) :
    searchend (fun line ch => (line, p ch)) front line ahead =
      ⟨front ++ ahead.takeWhile p, ahead.dropWhile p, line⟩ := by
  induction ahead generalizing front with
  | nil => rw [List.takeWhile_nil, List.append_nil]; rfl
  | cons ch ahead ih =>
      unfold searchend
      by_cases h : p ch
      · rw [if_pos h, ih, List.takeWhile_cons_of_pos h, List.dropWhile_cons_of_pos h,
          List.append_assoc]
        rfl
      · rw [if_neg h, List.takeWhile_cons_of_neg h, List.dropWhile_cons_of_neg h, List.append_nil]

/-- A line number is never 0, so all newlines are passed. -/
theorem searchend_whitespace (front : List UBYTE) {line : Nat} (hline : 0 < line)
    (ahead : List UBYTE) :
    searchend whitespace front line ahead =
      ⟨front ++ ahead.takeWhile isBlank, ahead.dropWhile isBlank,
        line + (ahead.takeWhile isBlank).count newline⟩ := by
  induction ahead generalizing front line with
  | nil => rw [List.takeWhile_nil, List.append_nil]; rfl
  | cons ch ahead ih =>
      have hblank : isBlank ch = (decide (ch = newline) || isSpace ch) := rfl
      by_cases hnew : ch = newline
      · have h : isBlank ch = true := by rw [hblank, decide_eq_true hnew, Bool.true_or]
        have hpass : whitespace line ch = (line + 1, true) := by
          rw [whitespace, if_pos hnew, decide_eq_true (Nat.ne_of_gt hline)]
        rw [searchend, hpass, if_pos rfl, ih _ (Nat.succ_pos line),
          List.takeWhile_cons_of_pos h, List.dropWhile_cons_of_pos h, List.append_assoc, hnew,
          List.count_cons_self, Nat.succ_add]
        rfl
      · have h : isBlank ch = isSpace ch := by rw [hblank, decide_eq_false hnew, Bool.false_or]
        have hpass : whitespace line ch = (line, isSpace ch) := if_neg hnew
        by_cases hspace : isSpace ch = true
        · rw [searchend, hpass, if_pos hspace, ih _ hline,
            List.takeWhile_cons_of_pos (h.trans hspace),
            List.dropWhile_cons_of_pos (h.trans hspace), List.append_assoc,
            List.count_cons_of_ne hnew]
          rfl
        · rw [searchend, hpass, if_neg hspace, List.takeWhile_cons_of_neg (h ▸ hspace),
            List.dropWhile_cons_of_neg (h ▸ hspace), List.append_nil]
          rfl

theorem searchfor_eq {x : UBYTE} {before : List UBYTE} (h : x ∉ before) (front : List UBYTE)
    (line : Nat) (rest : List UBYTE) :
    searchfor x front line (before ++ x :: rest) = ⟨front ++ (before ++ [x]), rest, line⟩ := by
  induction before generalizing front with
  | nil => exact if_pos rfl
  | cons ch before ih =>
      have hne : ch ≠ x := fun he => h (he ▸ .head before)
      rw [List.cons_append, searchfor, if_neg hne, ih fun hx => h (.tail ch hx), List.append_assoc]
      rfl

theorem searchfor_none {x : UBYTE} {ahead : List UBYTE} (h : x ∉ ahead) (front : List UBYTE)
    (line : Nat) : searchfor x front line ahead = ⟨front ++ ahead, [], line⟩ := by
  induction ahead generalizing front with
  | nil => rw [List.append_nil]; rfl
  | cons ch ahead ih =>
      have hne : ch ≠ x := fun he => h (he ▸ .head ahead)
      rw [searchfor, if_neg hne, ih fun hx => h (.tail ch hx), List.append_assoc]
      rfl

/-! ## The parse ends within the script -/

namespace Scan

/-- From one state to a later one: what was done in between. -/
structure Leads (s : Scan G) (log : List (Event × Nat)) (s' : Scan G) : Prop where
  passes : s.toPlace.Passes s'.toPlace
  log : s'.log = s.log ++ log

theorem Leads.refl (s : Scan G) : s.Leads [] s :=
  ⟨⟨rfl, Nat.le_refl _⟩, (List.append_nil _).symm⟩

theorem Leads.trans {l l' : List (Event × Nat)} (h : s.Leads l s') (h' : s'.Leads l' s'') :
    s.Leads (l ++ l') s'' := by
  constructor
  case passes =>
    exact ⟨h'.passes.size.trans h.passes.size, Nat.le_trans h'.passes.ahead h.passes.ahead⟩
  case log => rw [h'.log, h.log, List.append_assoc]

/-- A scan does nothing but to pass bytes. -/
theorem Leads.scan {p : Place} (h : s.toPlace.Passes p) : s.Leads [] { s with toPlace := p } :=
  ⟨h, (List.append_nil _).symm⟩

theorem stripwhitespace_leads (s : Scan G) : s.Leads [] s.stripwhitespace :=
  .scan (searchend_passes _ _ _ _)

theorem skipname_leads (s : Scan G) : s.Leads [] s.skipname :=
  .scan (searchend_passes _ _ _ _)

theorem searchfor_leads (s : Scan G) (x : UBYTE) : s.Leads [] (s.searchfor x) :=
  .scan (searchfor_passes _ _ _ _).1

theorem searchfor_lt {x : UBYTE} (h : s.ahead ≠ []) :
    (s.searchfor x).ahead.length < s.ahead.length :=
  (searchfor_passes _ _ _ _).2 h

theorem print_leads (s : Scan G) (text : Message) :
    s.Leads [(.message text s.loc, s.line)] (s.print text) :=
  ⟨⟨rfl, Nat.le_refl _⟩, rfl⟩

/-- The message of a command that failed. -/
def printed (s : Scan G) (r : Machine G × Option Message) : List (Event × Nat) :=
  r.2.toList.map fun text => (.message text s.loc, s.line)

/-- The message of a command that is started. -/
def openings (s : Scan G) (c : Command) : List (Event × Nat) :=
  c.opening.toList.map fun text => (.message text s.loc, s.line)

theorem run_leads (grub : Grub G) (s : Scan G) (c : Command) (fname : List UBYTE) :
    s.Leads ((.run c fname, s.line) :: s.printed (c.execute grub s.machine fname))
      (s.run grub c fname) := by
  unfold run printed
  dsimp only
  cases hr : (c.execute grub s.machine fname).2 with
  | none => exact ⟨⟨rfl, Nat.le_refl _⟩, rfl⟩
  | some text => exact ⟨⟨rfl, Nat.le_refl _⟩, List.append_assoc s.log _ _⟩

theorem close_leads (s : Scan G) :
    s.Leads (if s.ckloaded then [] else [(.message .ckNotLoaded s.loc, s.line)]) s.close.1 := by
  unfold close
  split
  · exact .refl s
  · exact s.print_leads _

theorem orBreak_pos {k : Scan G → Option (Flow G)} (h : s.ahead = []) :
    s.orBreak k = some (.done s) :=
  if_pos h

theorem orBreak_neg {k : Scan G → Option (Flow G)} (h : s.ahead ≠ []) : s.orBreak k = k s :=
  if_neg h

/-- A line that is skipped. -/
theorem skipLine_total (h : s.ahead ≠ []) :
    ∃ s', s.Leads [] s' ∧ (s.skipLine = some (.done s') ∨
      s.skipLine = some (.next s') ∧ s'.ahead.length < s.ahead.length) := by
  have hleads := s.searchfor_leads newline
  unfold skipLine
  by_cases hend : (s.searchfor newline).ahead = []
  · exact ⟨_, hleads, .inl (orBreak_pos hend)⟩
  · exact ⟨{ s.searchfor newline with line := (s.searchfor newline).line + 1 },
      ⟨⟨hleads.passes.size, hleads.passes.ahead⟩, hleads.log⟩,
      .inr ⟨orBreak_neg hend, searchfor_lt h⟩⟩

/-- A parameter is not there, or a command is executed with some string. -/
theorem parameter_total (grub : Grub G) (h : s.ahead ≠ []) (c : Command) :
    (∃ s', s.Leads [] s' ∧ s.parameter grub c = some (.done s')) ∨
      ∃ s' fname, s.Leads [] s' ∧ s'.ahead.length < s.ahead.length ∧
        s.parameter grub c = some (.next (s'.run grub c fname)) := by
  unfold parameter
  have h₁ := s.searchfor_leads (chr '=')
  have hlt := searchfor_lt (x := chr '=') h
  by_cases hend₁ : (s.searchfor (chr '=')).ahead = []
  · exact .inl ⟨_, h₁, orBreak_pos hend₁⟩
  rw [orBreak_neg hend₁]
  generalize s.searchfor (chr '=') = s₁ at h₁ hlt
  have h₂ := h₁.trans s₁.stripwhitespace_leads
  by_cases hend₂ : s₁.stripwhitespace.ahead = []
  · exact .inl ⟨_, h₂, orBreak_pos hend₂⟩
  rw [orBreak_neg hend₂]
  have hle := s₁.stripwhitespace_leads.passes.ahead
  generalize s₁.stripwhitespace = s₂ at h₂ hle
  have h₃ := h₂.trans s₂.skipname_leads
  by_cases hend₃ : s₂.skipname.ahead = []
  · exact .inl ⟨_, h₃, orBreak_pos hend₃⟩
  rw [orBreak_neg hend₃]
  have hpass := s₂.skipname_leads.passes
  generalize s₂.skipname = s₃ at h₃ hpass hend₃
  obtain ⟨ch, ahead, hahead⟩ := List.exists_cons_of_ne_nil hend₃
  -- the end mark lies behind the start of the name
  have hmark : s₃.markEnd = some ⟨s₃.front ++ [0#8], ahead, s₃.line⟩ := by
    unfold Place.markEnd
    rw [hahead]
  have hmem : 0#8 ∈ ((s₃.front ++ [0#8]) ++ ahead).drop s₂.loc := by
    have hloc : s₂.loc ≤ s₃.front.length := hpass.loc_le
    rw [List.append_assoc, List.drop_append_of_le_length hloc]
    exact List.mem_append_right _ (.head ahead)
  obtain ⟨r, hr⟩ := cut_isSome hmem
  have hlen : s₃.ahead.length = ahead.length + 1 := congrArg List.length hahead
  refine .inr ⟨{ s₃ with toPlace := ⟨s₃.front ++ [0#8], ahead, s₃.line⟩ }, r.1, ?_, ?_, ?_⟩
  · refine h₃.trans (.scan ⟨?_, ?_⟩)
    · show (s₃.front ++ [0#8]).length + ahead.length = s₃.front.length + s₃.ahead.length
      rw [List.length_append, List.length_singleton, hlen]
      omega
    · exact Nat.le_of_lt (hlen ▸ Nat.lt_succ_self ahead.length)
  · have := hpass.ahead
    show ahead.length < s.ahead.length
    omega
  · rw [hmark, Option.bind_some, Place.stringAt, hr]
    rfl

/-- The first event of a command: its message, or what is done with its parameter. -/
theorem command_total (grub : Grub G) (h : s.ahead ≠ []) (c : Command) :
    (∃ s', s.Leads (s.openings c) s' ∧ s.command grub c = some (.done s')) ∨
      ∃ s' fname, s.Leads (s.openings c) s' ∧ s'.ahead.length < s.ahead.length ∧
        s.command grub c = some (.next (s'.run grub c fname)) := by
  unfold command openings
  cases c.opening with
  | none => exact parameter_total grub h c
  | some text =>
      have hprint := s.print_leads text
      rcases parameter_total grub (s := s.print text) h c with
        ⟨s', hs', he⟩ | ⟨s', fname, hs', hlt, he⟩
      · exact .inl ⟨s', hprint.trans hs', he⟩
      · exact .inr ⟨s', fname, hprint.trans hs', hlt, he⟩

/-- What a round does depends on the first byte that is not blank. -/
theorem round_eq (grub : Grub G) (h : s.stripwhitespace.ahead ≠ []) :
    s.round grub =
      match item s.ckloaded s.stripwhitespace.ahead.head? with
      | .finish => some (.done s.stripwhitespace)
      | .comment => s.stripwhitespace.skipLine
      | .skipped m => (s.stripwhitespace.print m).skipLine
      | .command c => s.stripwhitespace.command grub c := by
  have hck : s.stripwhitespace.ckloaded = s.ckloaded := rfl
  unfold round
  rw [orBreak_neg h, ← hck]
  generalize s.stripwhitespace = t at h
  obtain ⟨ch, ahead, hahead⟩ := List.exists_cons_of_ne_nil h
  rw [hahead, List.head?_cons, Option.bind_some]
  unfold item
  dsimp only
  cases t.ckloaded <;> split_ifs <;> rfl

theorem round_total (grub : Grub G) (s : Scan G) :
    ∃ s' log, s.Leads log s' ∧ (s.round grub = some (.done s') ∨
      s.round grub = some (.next s') ∧ s'.ahead.length < s.ahead.length) := by
  have hstrip := s.stripwhitespace_leads
  by_cases hend : s.stripwhitespace.ahead = []
  · exact ⟨_, _, hstrip, .inl (orBreak_pos hend)⟩
  rw [round_eq grub hend]
  have hle := hstrip.passes.ahead
  generalize s.stripwhitespace = t at hstrip hend hle
  cases item s.ckloaded t.ahead.head? with
  | finish => exact ⟨t, _, hstrip, .inl rfl⟩
  | comment =>
      obtain ⟨s', hs', hflow⟩ := skipLine_total hend
      exact ⟨s', _, hstrip.trans hs', hflow.imp_right fun h => ⟨h.1, Nat.lt_of_lt_of_le h.2 hle⟩⟩
  | skipped m =>
      obtain ⟨s', hs', hflow⟩ := skipLine_total (s := t.print m) hend
      exact ⟨s', _, hstrip.trans ((t.print_leads m).trans hs'),
        hflow.imp_right fun h => ⟨h.1, Nat.lt_of_lt_of_le h.2 hle⟩⟩
  | command c =>
      rcases command_total grub hend c with ⟨s', hs', he⟩ | ⟨s', fname, hs', hlt, he⟩
      · exact ⟨s', _, hstrip.trans hs', .inl he⟩
      · have hrun := run_leads grub s' c fname
        refine ⟨_, _, hstrip.trans (hs'.trans hrun), .inr ⟨he, ?_⟩⟩
        exact Nat.lt_of_le_of_lt hrun.passes.ahead (Nat.lt_of_lt_of_le hlt hle)

theorem rounds_nil {n : Nat} (h : s.ahead = []) : s.rounds grub (n + 1) = some s := if_pos h

theorem rounds_next {n : Nat} (h : s.ahead ≠ []) (hround : s.round grub = some (.next s')) :
    s.rounds grub (n + 1) = s'.rounds grub n := by
  rw [rounds, if_neg h, hround]
  rfl

theorem rounds_done {n : Nat} (h : s.ahead ≠ []) (hround : s.round grub = some (.done s')) :
    s.rounds grub (n + 1) = some s' := by
  rw [rounds, if_neg h, hround]
  rfl

/-- **The parse ends within the buffer**, whatever the script is. -/
theorem rounds_total (grub : Grub G) {n : Nat} (h : s.ahead.length < n) :
    ∃ s' log, s.rounds grub n = some s' ∧ s.Leads log s' := by
  induction n generalizing s with
  | zero => exact absurd h (Nat.not_lt_zero _)
  | succ n ih =>
      by_cases hend : s.ahead = []
      · exact ⟨s, _, rounds_nil hend, .refl s⟩
      · obtain ⟨s₁, l₁, h₁, hdone | ⟨hnext, hlt⟩⟩ := round_total grub s
        · exact ⟨s₁, _, rounds_done hend hdone, h₁⟩
        · obtain ⟨s', l, hs', hl⟩ := ih (s := s₁) (by omega)
          exact ⟨s', _, (rounds_next hend hnext).trans hs', h₁.trans hl⟩

end Scan

/-! ## Lines -/

/-- `loc` is behind a part of the script in which `owed` newlines were not counted. -/
structure Place.At (script : List UBYTE) (owed : Nat) (p : Place) : Prop where
  seen : ∃ seen, script = seen ++ p.ahead ∧ p.front.length = seen.length ∧
    p.line + owed = 1 + seen.count newline
  line_pos : 0 < p.line

section

variable {script text : List UBYTE} {owed : Nat} {p : Place}

theorem Place.At.loc_eq (h : p.At script owed) : p.loc = script.length - p.ahead.length := by
  obtain ⟨seen, hscript, hfront, -⟩ := h.seen
  have hlen := congrArg List.length hscript
  rw [List.length_append] at hlen
  unfold Place.loc
  omega

theorem Place.At.line_eq (h : p.At script owed) :
    p.line + owed = 1 + (script.take p.loc).count newline := by
  obtain ⟨seen, hscript, hfront, hline⟩ := h.seen
  rw [hscript, show p.loc = seen.length from hfront, List.take_left, hline]

/-- A part of the script is passed. -/
theorem Place.At.pass {p' : Place} {owed' : Nat} (h : p.At script owed) (passed : List UBYTE)
    (hahead : p.ahead = passed ++ p'.ahead)
    (hfront : p'.front.length = p.front.length + passed.length)
    (hline : p'.line + owed' = p.line + owed + passed.count newline) (hpos : 0 < p'.line) :
    p'.At script owed' := by
  obtain ⟨seen, hscript, hlen, hseen⟩ := h.seen
  refine ⟨⟨seen ++ passed, ?_, ?_, ?_⟩, hpos⟩
  · rw [hscript, hahead, List.append_assoc]
  · rw [hfront, hlen, List.length_append]
  · rw [hline, hseen, List.count_append, Nat.add_assoc]

theorem nextLine_append {before rest : List UBYTE} (h : newline ∉ before) :
    nextLine (before ++ newline :: rest) = rest := by
  have hbefore : ∀ ch ∈ before, decide (ch ≠ newline) = true := fun ch hch =>
    decide_eq_true fun he => h (he ▸ hch)
  rw [nextLine, List.dropWhile_append_of_pos hbefore, List.dropWhile_cons_of_neg (by simp)]
  rfl

theorem nextLine_none (h : newline ∉ text) : nextLine text = [] := by
  have hall : ∀ ch ∈ text, decide (ch ≠ newline) = true := fun ch hch =>
    decide_eq_true fun he => h (he ▸ hch)
  rw [nextLine, List.dropWhile_eq_nil_iff.mpr hall]
  rfl

/-- What `assignment` takes a text apart into. -/
theorem assignment_eq {fname rest : List UBYTE} (h : assignment text = some (fname, rest)) :
    ∃ keyword spaces, text = keyword ++ chr '=' :: (spaces ++ (fname ++ rest)) ∧
      chr '=' ∉ keyword ∧ newline ∉ keyword ∧ (∀ ch ∈ spaces, isSpace ch = true) ∧ fname ≠ [] ∧
      (∀ ch ∈ fname, isBlank ch = false) ∧ ∀ ch ∈ rest.head?, isBlank ch = true := by
  unfold assignment at h
  split at h
  · exact absurd h nofun
  · next ch value hdrop =>
    split at h
    · exact absurd h nofun
    next hnew =>
    dsimp only at h
    split at h
    · exact absurd h nofun
    next hname =>
    obtain ⟨rfl, rfl⟩ := Prod.mk.inj (Option.some.inj h)
    have hhead := List.head?_dropWhile_not (fun ch => ch ≠ chr '=' && ch ≠ newline) text
    rw [hdrop] at hhead
    obtain rfl : ch = chr '=' := by simpa [hnew] using hhead
    have hkey := fun c hc => List.mem_takeWhile_imp
      (x := c) (p := fun ch => ch ≠ chr '=' && ch ≠ newline) (l := text) hc
    refine ⟨text.takeWhile fun ch => ch ≠ chr '=' && ch ≠ newline, value.takeWhile isSpace, ?_, ?_,
      ?_, fun ch hch => List.mem_takeWhile_imp hch, hname, ?_, ?_⟩
    · rw [List.takeWhile_append_dropWhile, List.takeWhile_append_dropWhile, ← hdrop,
        List.takeWhile_append_dropWhile]
    · exact fun hmem => by simpa using hkey _ hmem
    · exact fun hmem => by simpa using hkey _ hmem
    · exact fun ch hch => by simpa using List.mem_takeWhile_imp hch
    · intro ch hch
      have hstop := List.head?_dropWhile_not (!isBlank ·) (value.dropWhile isSpace)
      rw [Option.mem_def.mp hch] at hstop
      simpa using hstop

theorem isBlank_of_isSpace {ch : UBYTE} (h : isSpace ch = true) : isBlank ch = true := by
  rw [isBlank, h, Bool.or_true]

theorem isSpace_newline : isSpace newline = false := by decide

namespace Scan

theorem stripwhitespace_at (h : s.toPlace.At script owed) :
    s.stripwhitespace.toPlace.At script owed ∧
      s.stripwhitespace.ahead = s.ahead.dropWhile isBlank := by
  have hstrip : s.stripwhitespace.toPlace =
      ⟨s.front ++ s.ahead.takeWhile isBlank, s.ahead.dropWhile isBlank,
        s.line + (s.ahead.takeWhile isBlank).count newline⟩ :=
    searchend_whitespace s.front h.line_pos s.ahead
  refine ⟨h.pass (s.ahead.takeWhile isBlank) ?_ ?_ ?_ ?_, ?_⟩
  · rw [hstrip, List.takeWhile_append_dropWhile]
  · rw [hstrip, List.length_append]
  · rw [hstrip, Nat.add_right_comm]
  · rw [hstrip]
    exact Nat.add_pos_left h.line_pos _
  · rw [hstrip]

/-- A line is skipped. Its newline is not counted where the script ends behind it. -/
theorem skipLine_at (h : s.toPlace.At script owed) :
    ∃ p : Place, p.At script (owed + uncounted s.ahead) ∧ p.ahead = nextLine s.ahead ∧
      (s.skipLine = some (.done { s with toPlace := p }) ∧ p.ahead = [] ∨
        s.skipLine = some (.next { s with toPlace := p }) ∧ p.ahead.length < s.ahead.length) := by
  unfold skipLine
  by_cases hmem : newline ∈ s.ahead
  · obtain ⟨⟨before, rest⟩, hcut⟩ := cut_isSome hmem
    obtain ⟨hahead, hbefore⟩ := cut_eq hcut
    have hsplit : s.ahead = (before ++ [newline]) ++ rest := by
      rw [hahead, List.append_assoc]
      rfl
    have hcount : (before ++ [newline]).count newline = 1 := by
      rw [List.count_append, List.count_eq_zero.mpr hbefore, List.count_singleton_self]
    have hnext : nextLine s.ahead = rest := by rw [hahead, nextLine_append hbefore]
    have hscan : (s.searchfor newline).toPlace =
        ⟨s.front ++ (before ++ [newline]), rest, s.line⟩ := by
      show ABL.searchfor newline s.front s.line s.ahead = _
      rw [hahead, searchfor_eq hbefore]
    by_cases hend : rest = []
    · refine ⟨⟨s.front ++ (before ++ [newline]), rest, s.line⟩, ?_, hnext.symm, .inl ⟨?_, hend⟩⟩
      · refine h.pass _ hsplit (List.length_append ..) ?_ h.line_pos
        rw [uncounted, if_pos ⟨hmem, hnext.trans hend⟩, hcount]
        exact (Nat.add_assoc ..).symm
      · rw [orBreak_pos (by rw [hscan]; exact hend), ← hscan]
        rfl
    · refine ⟨⟨s.front ++ (before ++ [newline]), rest, s.line + 1⟩, ?_, hnext.symm, .inr ⟨?_, ?_⟩⟩
      · refine h.pass _ hsplit (List.length_append ..) ?_ (Nat.succ_pos _)
        rw [uncounted, if_neg fun hu => hend (hnext.symm.trans hu.2), hcount]
        exact Nat.add_right_comm ..
      · rw [orBreak_neg (by rw [hscan]; exact hend), hscan]
        rfl
      · rw [hsplit, List.length_append, List.length_append, List.length_singleton]
        show rest.length < _
        omega
  · have hscan : (s.searchfor newline).toPlace = ⟨s.front ++ s.ahead, [], s.line⟩ :=
      searchfor_none hmem s.front s.line
    refine ⟨⟨s.front ++ s.ahead, [], s.line⟩, ?_, (nextLine_none hmem).symm, .inl ⟨?_, rfl⟩⟩
    · refine h.pass _ (List.append_nil _).symm (List.length_append ..) ?_ h.line_pos
      rw [uncounted, if_neg fun hu => hmem hu.1, List.count_eq_zero.mpr hmem]
      rfl
    · rw [orBreak_pos (by rw [hscan]), ← hscan]
      rfl

/-- The parameter of a command that has one on its line. -/
theorem parameter_at (grub : Grub G) {fname rest : List UBYTE} (c : Command)
    (h : s.toPlace.At script owed) (hassign : assignment s.ahead = some (fname, rest)) :
    (rest = [] → ∃ p : Place, s.parameter grub c = some (.done { s with toPlace := p })) ∧
      ∀ b rest', rest = b :: rest' → ∃ (p : Place) (name : List UBYTE),
        s.parameter grub c = some (.next ({ s with toPlace := p }.run grub c name)) ∧
        p.At script (owed + if b = newline then 1 else 0) ∧ p.ahead = rest' ∧
        rest'.length < s.ahead.length ∧ (name = fname ↔ 0#8 ∉ fname) := by
  obtain ⟨keyword, spaces, hahead, heq, hkey, hspaces, hne, hname, hrest⟩ := assignment_eq hassign
  -- the three scans, one after the other
  let front₁ := s.front ++ (keyword ++ [chr '='])
  have hscan₁ : s.searchfor (chr '=') =
      { s with toPlace := ⟨front₁, spaces ++ (fname ++ rest), s.line⟩ } := by
    show { s with toPlace := ABL.searchfor (chr '=') s.front s.line s.ahead } = _
    rw [hahead, searchfor_eq heq]
  have hstart : ∀ ch ∈ (fname ++ rest).head?, isBlank ch = false := by
    obtain ⟨ch, fname', rfl⟩ := List.exists_cons_of_ne_nil hne
    exact fun ch' hch' => Option.some.inj hch' ▸ hname ch (.head _)
  obtain ⟨htake, hdrop⟩ := span_append (p := isBlank)
    (fun ch hch => isBlank_of_isSpace (hspaces ch hch)) hstart
  have hinside : ∀ ch ∈ fname, (!isBlank ch) = true := fun ch hch => by rw [hname ch hch]; rfl
  have hbehind : ∀ ch ∈ rest.head?, (!isBlank ch) = false := fun ch hch => by rw [hrest ch hch]; rfl
  obtain ⟨htakeName, hdropName⟩ := span_append hinside hbehind
  have hnone : spaces.count newline = 0 := List.count_eq_zero.mpr fun hmem =>
    absurd (hspaces _ hmem) (by rw [isSpace_newline]; exact Bool.false_ne_true)
  let front₂ := front₁ ++ spaces
  have hscan₂ : ({ s with toPlace := ⟨front₁, spaces ++ (fname ++ rest), s.line⟩ }
      : Scan G).stripwhitespace = { s with toPlace := ⟨front₂, fname ++ rest, s.line⟩ } := by
    show { s with toPlace := searchend whitespace front₁ s.line (spaces ++ (fname ++ rest)) } = _
    rw [searchend_whitespace _ h.line_pos, htake, hdrop, hnone]
    rfl
  have hscan₃ : ({ s with toPlace := ⟨front₂, fname ++ rest, s.line⟩ } : Scan G).skipname =
      { s with toPlace := ⟨front₂ ++ fname, rest, s.line⟩ } := by
    show { s with
      toPlace := searchend (fun line ch => (line, !isBlank ch)) front₂ s.line (fname ++ rest) } = _
    rw [searchend_eq, htakeName, hdropName]
  have hne₂ : fname ++ rest ≠ [] := fun he => hne (List.append_eq_nil_iff.mp he).1
  have hne₁ : spaces ++ (fname ++ rest) ≠ [] := fun he => hne₂ (List.append_eq_nil_iff.mp he).2
  unfold parameter
  rw [hscan₁, orBreak_neg hne₁, hscan₂, orBreak_neg hne₂, hscan₃]
  constructor
  · exact fun hend => ⟨_, orBreak_pos hend⟩
  · rintro b rest' rfl
    rw [orBreak_neg (List.cons_ne_nil _ _)]
    have hsplit : s.ahead = (keyword ++ chr '=' :: (spaces ++ (fname ++ [b]))) ++ rest' := by
      simp only [hahead, List.append_assoc, List.cons_append, List.nil_append]
    have hcount : (keyword ++ chr '=' :: (spaces ++ (fname ++ [b]))).count newline =
        if b = newline then 1 else 0 := by
      have hfname : fname.count newline = 0 := List.count_eq_zero.mpr fun hmem =>
        absurd (hname _ hmem) (by decide)
      rw [List.count_append, List.count_cons_of_ne (by decide), List.count_append,
        List.count_append, List.count_eq_zero.mpr hkey, hnone, hfname, List.count_singleton]
      simp
    -- the string ends at its first 0, which is the mark if there is none in the name
    have hbuffer : ((front₂ ++ fname ++ [0#8]) ++ rest').drop front₂.length =
        fname ++ 0#8 :: rest' := by
      rw [List.append_assoc, List.append_assoc, List.drop_left]
      rfl
    obtain ⟨⟨name, behind⟩, hcut⟩ := cut_isSome (s := fname ++ 0#8 :: rest') (c := 0#8)
      (List.mem_append_right _ (.head rest'))
    refine ⟨⟨front₂ ++ fname ++ [0#8], rest', s.line⟩, name, ?_, ?_, rfl, ?_, ?_⟩
    · show ((cut (((front₂ ++ fname ++ [0#8]) ++ rest').drop front₂.length) 0#8).map
        Prod.fst).map _ = _
      rw [hbuffer, hcut]
      rfl
    · refine h.pass _ hsplit ?_ ?_ h.line_pos
      · simp only [front₂, front₁, List.length_append, List.length_cons, List.length_nil]
        omega
      · rw [hcount]
        exact (Nat.add_assoc ..).symm
    · rw [hsplit, List.length_append, List.length_append, List.length_cons]
      omega
    · constructor
      · rintro rfl
        exact (cut_eq hcut).2
      · intro hzero
        rw [cut_append hzero] at hcut
        exact (Prod.mk.inj (Option.some.inj hcut)).1.symm

end Scan

/-! ## The log -/

/-- What was done is `events`, and each message shows the line that `loc` is in. -/
def Good (script : List UBYTE) (log : List (Event × Nat)) (events : List Event) : Prop :=
  log.map Prod.fst = events ∧ ∀ text loc line, (Event.message text loc, line) ∈ log →
    line = 1 + (script.take loc).count newline

/-- Messages show the right line if all newlines were counted. -/
theorem good_messages {l : List (Event × Nat)} {e : List Event} (h : p.At script owed)
    (texts : Option Message) :
    Good script (texts.toList.map (fun text => (.message text p.loc, p.line)) ++ l)
        (texts.toList.map (.message · (script.length - p.ahead.length)) ++ e) ↔
      (texts.isSome → owed = 0) ∧ Good script l e := by
  rw [← h.loc_eq]
  cases texts with
  | none => simp [Good]
  | some m =>
      have hline := h.line_eq
      constructor
      · rintro ⟨hevents, hlines⟩
        have := hlines m p.loc p.line (.head _)
        refine ⟨fun _ => by omega, (List.cons.inj hevents).2, fun text loc line hmem => ?_⟩
        exact hlines text loc line (.tail _ hmem)
      · rintro ⟨howed, hevents, hlines⟩
        refine ⟨congrArg (Event.message m p.loc :: ·) hevents, fun text loc line hmem => ?_⟩
        rcases List.mem_cons.mp hmem with hhead | hmem
        · obtain ⟨hevent, rfl⟩ := Prod.mk.inj hhead
          obtain ⟨rfl, rfl⟩ := Event.message.inj hevent
          have := howed rfl
          omega
        · exact hlines text loc line hmem

theorem good_run {l : List (Event × Nat)} {e : List Event} {c : Command}
    {name fname : List UBYTE} {line : Nat} :
    Good script ((.run c name, line) :: l) (.run c fname :: e) ↔
      name = fname ∧ Good script l e := by
  constructor
  · rintro ⟨hevents, hlines⟩
    obtain ⟨he, hevents⟩ := List.cons.inj hevents
    refine ⟨(Event.run.inj he).2, hevents, fun text loc line hmem => ?_⟩
    exact hlines text loc line (.tail _ hmem)
  · rintro ⟨rfl, hevents, hlines⟩
    refine ⟨congrArg (Event.run c name :: ·) hevents, fun text loc line hmem => ?_⟩
    rcases List.mem_cons.mp hmem with hhead | hmem
    · exact absurd (Prod.mk.inj hhead).1 nofun
    · exact hlines text loc line hmem

namespace Scan

/-- What is logged from a state on. -/
def Ends (grub : Grub G) (n : Nat) (s : Scan G) (log : List (Event × Nat)) : Prop :=
  ∃ s', s.rounds grub n = some s' ∧ s'.close.1.log = s.log ++ log

variable {n : Nat} {log l : List (Event × Nat)}

/-- The message at the end, if there is one. -/
def closing (s : Scan G) : Option Message := if s.ckloaded then none else some .ckNotLoaded

theorem close_log (s : Scan G) :
    s.close.1.log = s.log ++ s.closing.toList.map fun text => (.message text s.loc, s.line) := by
  rw [s.close_leads.log, closing]
  split <;> rfl

theorem Ends.done (h : Ends grub n s log) (hdone : s.rounds grub n = some s')
    (hl : s'.log = s.log ++ l) :
    log = l ++ s'.closing.toList.map fun text => (.message text s'.loc, s'.line) := by
  obtain ⟨_, he, hlog⟩ := h
  obtain rfl := Option.some.inj (hdone.symm.trans he)
  rw [close_log, hl, List.append_assoc] at hlog
  exact (List.append_cancel_left hlog).symm

theorem Ends.next (h : Ends grub (n + 1) s log)
    (hnext : s.rounds grub (n + 1) = s'.rounds grub n) (hl : s'.log = s.log ++ l)
    (hlt : s'.ahead.length < n) : ∃ log', Ends grub n s' log' ∧ log = l ++ log' := by
  obtain ⟨s₁, he, hlog⟩ := h
  rw [hnext] at he
  obtain ⟨s₂, l₂, he₂, hleads⟩ := rounds_total grub hlt
  obtain rfl := Option.some.inj (he.symm.trans he₂)
  have hclose : s₁.close.1.log =
      s'.log ++ (l₂ ++ s₁.closing.toList.map fun text => (.message text s₁.loc, s₁.line)) := by
    rw [close_log, hleads.log, List.append_assoc]
  refine ⟨_, ⟨s₁, he, hclose⟩, ?_⟩
  rw [hclose, hl, List.append_assoc] at hlog
  exact (List.append_cancel_left hlog).symm

theorem rounds_blank (h : s.stripwhitespace.ahead = []) :
    s.rounds grub (n + 1) = some s.stripwhitespace := by
  by_cases hend : s.ahead = []
  · have hstrip : s.stripwhitespace = s := by
      unfold stripwhitespace
      rw [hend, searchend, ← hend]
    rw [rounds_nil hend, hstrip]
  · exact rounds_done hend (orBreak_pos h)

/-- At the end of the parse. -/
theorem finish_iff (hat : s'.toPlace.At script owed) (h : Ends grub (n + 1) s log)
    (hdone : s.rounds grub (n + 1) = some s') (hlog : s'.log = s.log) :
    Good script log (if s'.ckloaded then []
        else [.message .ckNotLoaded (script.length - s'.ahead.length)]) ↔
      (s'.ckloaded = false → owed = 0) := by
  have hl := h.done (l := []) hdone (hlog.trans (List.append_nil _).symm)
  have hgood := good_messages (l := []) (e := []) hat s'.closing
  rw [List.append_nil, List.append_nil] at hgood
  rw [hl, List.nil_append]
  unfold closing at hgood ⊢
  cases hck : s'.ckloaded with
  | true => simp [Good]
  | false =>
      simp only [hck, Bool.false_eq_true, if_false] at hgood ⊢
      exact hgood.trans ⟨fun h _ => h.1 rfl, fun h => ⟨fun _ => h trivial, rfl, nofun⟩⟩

/-- A line that is skipped leaves a later state, from where the parse goes on. -/
theorem Ends.skip (h : Ends grub (n + 1) s log) (hne : s.ahead ≠ [])
    (hlt : s.ahead.length < n + 1) (hs : s.Leads l s') (hround : s.round grub = s'.skipLine)
    (hat : s'.toPlace.At script owed) :
    ∃ (p : Place) (log' : List (Event × Nat)), p.At script (owed + uncounted s'.ahead) ∧
      p.ahead = nextLine s'.ahead ∧ p.ahead.length < n ∧
      Ends grub n { s' with toPlace := p } log' ∧ log = l ++ log' := by
  obtain ⟨p, hp, hahead, ⟨hdone, hend⟩ | ⟨hnext, hlt'⟩⟩ := skipLine_at hat
  · -- a parse that is over is one that has nothing left
    have hpos : 0 < n := by
      have := List.length_pos_of_ne_nil hne
      omega
    obtain ⟨k, rfl⟩ := Nat.exists_eq_add_one_of_ne_zero (Nat.ne_of_gt hpos)
    have hshort : p.ahead.length < k + 1 := by rw [hend]; exact hpos
    have hrounds : s.rounds grub (k + 1 + 1) = rounds grub (k + 1) { s' with toPlace := p } :=
      (rounds_done hne (hround.trans hdone)).trans (rounds_nil hend).symm
    obtain ⟨log', hends, hlog⟩ := h.next hrounds hs.log hshort
    exact ⟨p, log', hp, hahead, hshort, hends, hlog⟩
  · have hle := hs.passes.ahead
    have hshort : p.ahead.length < n := by omega
    obtain ⟨log', hends, hlog⟩ := h.next (rounds_next hne (hround.trans hnext)) hs.log hshort
    exact ⟨p, log', hp, hahead, hshort, hends, hlog⟩

/-- A command that is started is not a line that is skipped. -/
theorem Ends.not_skipped {c : Command} (h : Ends grub (n + 1) s log) (hne : s.ahead ≠ [])
    (hlt : s.ahead.length < n + 1) (hs : s.Leads [] s') (hne' : s'.ahead ≠ [])
    (hround : s.round grub = s'.command grub c) (loc : Nat) (events : List Event) :
    ¬ Good script log (.message .unrecognised loc :: events) := by
  rintro ⟨hevents, -⟩
  -- the first event is the command's message, the command, or that no CK was loaded
  rcases command_total grub hne' c with ⟨s₁, hs₁, hdone⟩ | ⟨s₁, fname, hs₁, hlt₁, hnext⟩
  · have hl := h.done (rounds_done hne (hround.trans hdone)) (hs.trans hs₁).log
    rw [hl, closing] at hevents
    cases hck : s₁.ckloaded <;> cases c <;> simp [openings, Command.opening, hck] at hevents
  · have hrun := run_leads grub s₁ c fname
    have hle := hs.passes.ahead
    have hle₁ := hrun.passes.ahead
    obtain ⟨log', -, hl⟩ := h.next (rounds_next hne (hround.trans hnext))
      (hs.trans (hs₁.trans hrun)).log (by omega)
    rw [hl] at hevents
    cases c <;> simp [openings, Command.opening] at hevents

/-- A command leaves the place as it is. -/
theorem run_eq (grub : Grub G) (s : Scan G) (c : Command) (fname : List UBYTE) :
    (s.run grub c fname).toPlace = s.toPlace ∧
      (s.run grub c fname).machine = (c.execute grub s.machine fname).1 ∧
      (s.run grub c fname).ckloaded =
        c.ckloaded s.ckloaded (c.execute grub s.machine fname).2 := by
  unfold run
  dsimp only
  cases (c.execute grub s.machine fname).2 <;> exact ⟨rfl, rfl, rfl⟩

theorem command_at (grub : Grub G) {c : Command} {fname rest : List UBYTE}
    (h : s.toPlace.At script owed) (hassign : assignment s.ahead = some (fname, rest)) :
    (rest = [] → ∃ s', s.command grub c = some (.done s') ∧ s'.log = s.log ++ s.openings c) ∧
      ∀ b rest', rest = b :: rest' → ∃ (s' : Scan G) (name : List UBYTE),
        s.command grub c = some (.next (s'.run grub c name)) ∧ s'.log = s.log ++ s.openings c ∧
        s'.machine = s.machine ∧ s'.ckloaded = s.ckloaded ∧
        s'.toPlace.At script (owed + if b = newline then 1 else 0) ∧ s'.ahead = rest' ∧
        rest'.length < s.ahead.length ∧ (name = fname ↔ 0#8 ∉ fname) := by
  unfold command openings
  cases c.opening with
  | none =>
      obtain ⟨hend, hnext⟩ := parameter_at grub c h hassign
      refine ⟨fun hrest => ?_, fun b rest' hrest => ?_⟩
      · obtain ⟨p, hp⟩ := hend hrest
        exact ⟨_, hp, (List.append_nil _).symm⟩
      · obtain ⟨p, name, hp, hplace⟩ := hnext b rest' hrest
        exact ⟨_, name, hp, (List.append_nil _).symm, rfl, rfl, hplace⟩
  | some text =>
      obtain ⟨hend, hnext⟩ := parameter_at grub (s := s.print text) c h hassign
      refine ⟨fun hrest => ?_, fun b rest' hrest => ?_⟩
      · obtain ⟨p, hp⟩ := hend hrest
        exact ⟨_, hp, rfl⟩
      · obtain ⟨p, name, hp, hplace⟩ := hnext b rest' hrest
        exact ⟨_, name, hp, rfl, rfl, rfl, hplace⟩

/-- With `n` rounds to go: the log is good from a state on if and only if the text ahead fits. -/
def Exact (grub : Grub G) (script : List UBYTE) (n : Nat) : Prop :=
  ∀ {s : Scan G} {owed : Nat} {log : List (Event × Nat)}, s.ahead.length < n →
    s.toPlace.At script owed → s.Ends grub n log →
      (Good script log (meaning grub script.length n s.ckloaded s.machine s.ahead) ↔
        TextFits grub n owed s.ckloaded s.machine s.ahead)

/-- A command at the end of the text is not executed. -/
theorem Ends.unfinished {c : Command} {fname : List UBYTE} {events : List Event}
    (h : Ends grub (n + 1) s log) (hne : s.ahead ≠ []) (hs : s'.log = s.log)
    (hround : s.round grub = s'.command grub c) (hat : s'.toPlace.At script owed)
    (hassign : assignment s'.ahead = some (fname, [])) :
    ¬ Good script log (c.opening.toList.map (.message · (script.length - s'.ahead.length)) ++
      .run c fname :: events) := by
  intro hgood
  obtain ⟨s₁, hdone, hlog⟩ := (command_at grub (c := c) hat hassign).1 rfl
  rw [h.done (rounds_done hne (hround.trans hdone)) (hs ▸ hlog)] at hgood
  have hrest := ((good_messages hat c.opening).mp hgood).2.1
  rw [closing] at hrest
  cases hck : s₁.ckloaded <;> simp [hck] at hrest

/-- A command that is executed. -/
theorem Exact.command {c : Command} {b : UBYTE} {fname rest : List UBYTE}
    (ih : Exact grub script n) (h : Ends grub (n + 1) s log) (hne : s.ahead ≠ [])
    (hlt : s'.ahead.length < n + 1) (hs : s'.log = s.log)
    (hround : s.round grub = s'.command grub c) (hat : s'.toPlace.At script owed)
    (hassign : assignment s'.ahead = some (fname, b :: rest)) :
    let r := c.execute grub s'.machine fname
    let owed' := owed + if b = newline then 1 else 0
    Good script log (c.opening.toList.map (.message · (script.length - s'.ahead.length)) ++
        .run c fname :: (r.2.toList.map (.message · (script.length - rest.length)) ++
          meaning grub script.length n (c.ckloaded s'.ckloaded r.2) r.1 rest)) ↔
      0#8 ∉ fname ∧ (c.opening.isSome → owed = 0) ∧ (r.2.isSome → owed' = 0) ∧
        TextFits grub n owed' (c.ckloaded s'.ckloaded r.2) r.1 rest := by
  obtain ⟨s₁, name, hnext, hlog, hmachine, hck, hat₁, hahead, hshort, hname⟩ :=
    (command_at grub (c := c) hat hassign).2 b rest rfl
  obtain ⟨hplace, hmachine', hck'⟩ := run_eq grub s₁ c name
  have hrun := (run_leads grub s₁ c name).log
  rw [hlog, hs, List.append_assoc] at hrun
  have hahead' : (s₁.run grub c name).ahead = rest := (congrArg Place.ahead hplace).trans hahead
  obtain ⟨log', hends, rfl⟩ := h.next (rounds_next hne (hround.trans hnext)) hrun
    (by rw [hahead']; omega)
  dsimp only
  rw [openings, List.append_assoc, good_messages hat, List.cons_append, good_run, hname,
    and_left_comm]
  refine and_congr_right fun hzero => and_congr_right fun _ => ?_
  obtain rfl := hname.mpr hzero
  rw [printed, hmachine, ← hahead, good_messages hat₁]
  have hrest := ih (by rw [hahead']; omega) (hplace ▸ hat₁) hends
  rw [hck', hmachine', hahead', hmachine, hck, ← hahead] at hrest
  exact and_congr_right fun _ => hrest

/-- The log is good from a state on if and only if the text ahead fits. -/
theorem exact_rounds (n : Nat) : Exact grub script n := by
  induction n with
  | zero => exact fun hlt => absurd hlt (Nat.not_lt_zero _)
  | succ n ih =>
      intro s owed log hlt hat h
      obtain ⟨htat, htext⟩ := stripwhitespace_at hat
      have hstrip := s.stripwhitespace_leads
      rw [meaning, TextFits, ← htext]
      dsimp only
      by_cases hend : s.stripwhitespace.ahead = []
      · have := finish_iff htat h (rounds_blank hend) rfl
        rw [hend] at this ⊢
        exact this
      have hne : s.ahead ≠ [] := fun he => hend (by rw [htext, he]; rfl)
      have hround := round_eq grub hend
      have hck : s.stripwhitespace.ckloaded = s.ckloaded := rfl
      have hmachine : s.stripwhitespace.machine = s.machine := rfl
      have hlog : s.stripwhitespace.log = s.log := rfl
      generalize s.stripwhitespace = t at *
      cases hitem : item s.ckloaded t.ahead.head? with
      | finish =>
          rw [hitem] at hround
          rw [← hck]
          exact finish_iff htat h (rounds_done hne hround) hlog
      | comment =>
          rw [hitem] at hround
          obtain ⟨p, log', hp, hahead, hshort, hends, rfl⟩ := h.skip hne hlt hstrip hround htat
          rw [← hck, ← hmachine, ← hahead]
          exact ih (s := { t with toPlace := p }) hshort hp hends
      | skipped m =>
          rw [hitem] at hround
          obtain ⟨p, log', hp, hahead, hshort, hends, rfl⟩ := h.skip hne hlt
            (hstrip.trans (t.print_leads m)) hround htat
          have hskip := ih (s := { t.print m with toPlace := p }) hshort hp hends
          rw [← hck, ← hmachine]
          refine (good_messages htat (some m)).trans (and_congr ⟨fun h => h rfl, fun h _ => h⟩ ?_)
          rw [show nextLine t.ahead = p.ahead from hahead.symm]
          exact hskip
      | command c =>
          rw [hitem] at hround
          rw [← hck, ← hmachine]
          cases hassign : assignment t.ahead with
          | none =>
              refine iff_of_false ?_ fun ⟨_, _, he, _⟩ => absurd he nofun
              exact h.not_skipped hne hlt hstrip hend hround _ _
          | some r =>
              obtain ⟨fname, rest⟩ := r
              cases rest with
              | nil =>
                  refine iff_of_false (h.unfinished hne hlog hround htat hassign) ?_
                  rintro ⟨_, _, he, hrest, _⟩
                  exact hrest (Prod.mk.inj (Option.some.inj he)).2.symm
              | cons b rest =>
                  have hshort := Nat.lt_of_le_of_lt hstrip.passes.ahead hlt
                  refine (ih.command h hne hshort hlog hround htat hassign).trans ?_
                  have howed : (if (b :: rest).head? = some newline then 1 else 0) =
                      if b = newline then 1 else 0 :=
                    if_congr (by rw [List.head?_cons, Option.some.injEq]) rfl rfl
                  constructor
                  · intro hfits
                    refine ⟨fname, b :: rest, rfl, List.cons_ne_nil _ _, ?_⟩
                    rw [howed]
                    exact hfits
                  · rintro ⟨_, _, he, -, hfits⟩
                    obtain ⟨rfl, rfl⟩ := Prod.mk.inj (Option.some.inj he)
                    rw [howed] at hfits
                    exact hfits

end Scan

/-- **The script is interpreted as it should be** if and only if each of its commands is on one line
and not at its end, and no message follows a newline that was not counted. -/
theorem ablDoScript_iff (w : Machine G) (script : List UBYTE) :
    ScriptExact grub w script ↔ ScriptFits grub w script := by
  have hshort : (Scan.start w script).ahead.length < script.length + 1 := Nat.lt_succ_self _
  have hat : (Scan.start w script).toPlace.At script 0 :=
    ⟨⟨[], rfl, rfl, rfl⟩, Nat.zero_lt_one⟩
  obtain ⟨s', log, hrounds, hleads⟩ := Scan.rounds_total grub hshort
  have hclosed := hleads.trans s'.close_leads
  have hlog := hclosed.log
  rw [show (Scan.start w script).log = [] from rfl, List.nil_append] at hlog
  have hsize : s'.close.1.size = script.length :=
    hclosed.passes.size.trans (Nat.zero_add _)
  have hresult : ablDoScript grub w script = some s'.close := by
    rw [ablDoScript, hrounds]
    rfl
  refine Iff.trans ?_ (Scan.exact_rounds _ hshort hat ⟨s', hrounds, hclosed.log⟩)
  constructor
  · rintro ⟨r, hr, -, hevents, hlines⟩
    obtain rfl := Option.some.inj (hresult.symm.trans hr)
    exact ⟨hlog ▸ hevents, hlog ▸ hlines⟩
  · rintro ⟨hevents, hlines⟩
    exact ⟨s'.close, hresult, hsize, hlog ▸ hevents, hlog ▸ hlines⟩

end

/-! ## Where it does not -/

/-- A boot library that opens no file. -/
def noFiles : Grub Unit := ⟨fun g _ => (g, none), fun g _ => (g, true)⟩

def noModules : Machine Unit := ⟨.start 0x2000#32 0x120000#32, ()⟩

example : ScriptFits noFiles noModules (chars "root=(nd) # mount") :=
  ⟨chars "(nd)", chars " # mount", by decide +kernel, by decide, by decide, nofun, nofun,
    fun _ => rfl⟩

/-- A library at the end of the script is not loaded; and behind one that ends a line, the line is
that one still. -/
theorem ablDoScript_not_exact :
    ¬ ScriptExact noFiles noModules (chars "link=a") ∧
      ¬ ScriptExact noFiles noModules (chars "link=a" ++ newline :: chars "x") := by
  constructor
  · rintro ⟨r, hr, -, hevents, -⟩
    have hlog : (ablDoScript noFiles noModules (chars "link=a")).map (·.1.log.map Prod.fst) =
        some [.message .loadingLibrary 0, .message .ckNotLoaded 6] := by decide +kernel
    rw [hr] at hlog
    exact absurd ((Option.some.inj hlog).symm.trans hevents) (by decide +kernel)
  · rintro ⟨r, hr, -, -, hlines⟩
    have hlog : (ablDoScript noFiles noModules (chars "link=a" ++ newline :: chars "x")).map
        (fun r => decide ((.message .unrecognised 7, 1) ∈ r.1.log)) = some true := by
      decide +kernel
    rw [hr] at hlog
    have := hlines _ _ _ (of_decide_eq_true (Option.some.inj hlog))
    exact absurd this (by decide +kernel)

end Alliance.ABL
