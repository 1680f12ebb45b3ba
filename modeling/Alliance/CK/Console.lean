import Alliance.Lib.Fill
import Alliance.Lib.Run
import Mathlib.Data.BitVec

/-!
# The console (`text.c`)

`CKprint` writes to the memory of the screen, a character and its attribute in two bytes, and
`CKdebugPrint` does the same without the lock. When the cursor leaves the window, the lines in it
are moved up by one.

What the program prints is a long paper of which the window shows the last lines
(`console_run`). Only a backspace in the first column of the first line has no meaning: it goes in
front of the screen.

How the text comes from the format string is left out, and so is the bell.
-/

namespace Alliance.CK

open Function Lib

/-- A byte of the screen. -/
abbrev Octet := BitVec 8

/-- `TEXTATTR` (of which a cell takes the low byte), `WINDOW`, `VIDMEM`, and the position in the
registers of the display. -/
structure Console where
  vidmem : Nat → Octet
  textattr : Octet
  window : Nat
  cursor : BitVec 16

/-- `VIDMEM` and `videoMemOffs` while a text is printed. -/
structure Screen where
  vidmem : Nat → Octet
  videoMemOffs : Nat

/-- The special characters. -/
inductive Ctrl
  | newline
  | carriageReturn
  | bell
  | tab
  | backspace
  | normal
  deriving DecidableEq, Repr

def ctrlOf (c : Octet) : Ctrl :=
  if c = 10#8 then .newline
  else if c = 13#8 then .carriageReturn
  else if c = 7#8 then .bell
  else if c = 9#8 then .tab
  else if c = 8#8 then .backspace
  else .normal

/-- A character and its attribute. -/
def setCell (vidmem : Nat → Octet) (o : Nat) (c attr : Octet) : Nat → Octet :=
  update (update vidmem o c) (o + 1) attr

/-- The `switch`. `none` is a write in front of the screen. -/
def putChar (attr : Octet) (s : Screen) (c : Octet) : Option Screen :=
  match ctrlOf c with
  | .newline => some { s with videoMemOffs := s.videoMemOffs / 160 * 160 + 160 }
  | .carriageReturn => some { s with videoMemOffs := s.videoMemOffs / 160 * 160 }
  | .bell => some s
  | .tab => some { s with videoMemOffs := s.videoMemOffs / 8 * 8 + 8 }
  | .backspace =>
    if s.videoMemOffs < 2 then none
    else some ⟨setCell s.vidmem (s.videoMemOffs - 2) 32#8 attr, s.videoMemOffs - 2⟩
  | .normal => some ⟨setCell s.vidmem s.videoMemOffs c attr, s.videoMemOffs + 2⟩

/-- Cells are emptied. -/
@[irreducible] def clearCells (vidmem : Nat → Octet) (start n : Nat) (attr : Octet) : Nat → Octet :=
  (List.range n).foldl (fun vidmem i => setCell vidmem (start + i * 2) 32#8 attr) vidmem

/-- The lines are moved up if the cursor is off-screen. -/
def scrollUp (attr : Octet) (window : Nat) (s : Screen) : Screen :=
  if 160 * window ≤ s.videoMemOffs then
    { vidmem := clearCells (copyAlong id (· + 160) (160 * (window - 1)) s.vidmem)
        (160 * (window - 1)) 80 attr
      videoMemOffs := s.videoMemOffs - 160 }
  else s

/-- The loop through the string. -/
def printLoop (attr : Octet) (window : Nat) (s : Screen) (text : List Octet) : Option Screen :=
  text.foldlM (fun s c => (putChar attr s c).map (scrollUp attr window)) s

/-- `CKprint` and `CKdebugPrint`, with the text that is in their buffer up to its null. -/
def ckPrint (c : Console) (text : List Octet) : Option Console :=
  (printLoop c.textattr c.window ⟨c.vidmem, c.cursor.toNat * 2⟩ text).map fun s =>
    { c with vidmem := s.vidmem, cursor := .ofNat 16 (s.videoMemOffs / 2) }

/-- `CKclrScr`. -/
def ckClrScr (c : Console) : Console :=
  { c with vidmem := clearCells c.vidmem 0 (80 * 25) c.textattr, cursor := 0#16 }

/-- `CKsetTextAttr`. -/
def ckSetTextAttr (c : Console) (attr : Octet) : Console := { c with textattr := attr }

/-- `CKinitCons`: bold blue, on the first 16 lines. -/
def ckInitCons (c : Console) : Console := ckClrScr { c with textattr := 9#8, window := 16 }

/-- The calls that write to the console. -/
inductive ConsoleCall
  | print (text : List Octet)
  | clrScr
  | setTextAttr (attr : Octet)
  | initCons

def consoleStep (c : Console) : ConsoleCall → Option Console
  | .print text => ckPrint c text
  | .clrScr => some (ckClrScr c)
  | .setTextAttr attr => some (ckSetTextAttr c attr)
  | .initCons => some (ckInitCons c)

/-! ## The paper -/

/-- Cells in lines of 80, of which those from the line `top` on are in the window. -/
structure Paper where
  cells : Nat → Octet × Octet
  pos : Nat
  top : Nat

namespace Paper

/-- Without anything on it. -/
def blank (attr : Octet) : Paper := ⟨fun _ => (32#8, attr), 0, 0⟩

/-- A character comes to where the last one ended. -/
def put (attr : Octet) (P : Paper) (c : Octet) : Option Paper :=
  match ctrlOf c with
  | .newline => some { P with pos := P.pos / 80 * 80 + 80 }
  | .carriageReturn => some { P with pos := P.pos / 80 * 80 }
  | .bell => some P
  | .tab => some { P with pos := P.pos / 4 * 4 + 4 }
  | .backspace =>
    if P.pos = 80 * P.top then none
    else some { P with cells := update P.cells (P.pos - 1) (32#8, attr), pos := P.pos - 1 }
  | .normal => some { P with cells := update P.cells P.pos (c, attr), pos := P.pos + 1 }

/-- A new line comes up from below. -/
def feed (attr : Octet) (window : Nat) (P : Paper) : Paper :=
  if 80 * (P.top + window) ≤ P.pos then
    { P with
      cells := fun i => if i / 80 = P.top + window then (32#8, attr) else P.cells i
      top := P.top + 1 }
  else P

def print (attr : Octet) (window : Nat) (P : Paper) (text : List Octet) : Option Paper :=
  text.foldlM (fun P c => (P.put attr c).map (feed attr window)) P

/-- The window shows the paper from its line `top` on, up to where the cursor may have left it. -/
structure Under (P : Paper) (window : Nat) (s : Screen) : Prop where
  above : 80 * P.top ≤ P.pos
  below : P.pos ≤ 80 * (P.top + window)
  cursor : s.videoMemOffs = 2 * (P.pos - 80 * P.top)
  cells : ∀ i < 80 * window, (s.vidmem (2 * i), s.vidmem (2 * i + 1)) = P.cells (80 * P.top + i)

/-- The cursor is in the window. -/
structure Shown (P : Paper) (window : Nat) (s : Screen) : Prop extends Under P window s where
  inside : P.pos < 80 * (P.top + window)

end Paper

/-! ## Cells -/

section Cells

variable {vidmem : Nat → Octet} {o k i n start a : Nat} {c attr : Octet}

theorem setCell_self : setCell vidmem (2 * k) c attr (2 * k) = c ∧
    setCell vidmem (2 * k) c attr (2 * k + 1) = attr := by
  unfold setCell
  rw [update_of_ne (Nat.ne_of_lt (Nat.lt_succ_self _)), update_self, update_self]
  exact ⟨rfl, rfl⟩

theorem setCell_outside (h : a < o ∨ o + 2 ≤ a) : setCell vidmem o c attr a = vidmem a := by
  unfold setCell
  rw [update_of_ne (by omega), update_of_ne (by omega)]

theorem clearCells_succ : clearCells vidmem start (n + 1) attr =
    setCell (clearCells vidmem start n attr) (start + n * 2) 32#8 attr := by
  unfold clearCells
  rw [List.range_succ, List.foldl_append]
  rfl

theorem clearCells_zero : clearCells vidmem start 0 attr = vidmem := by
  unfold clearCells
  rfl

theorem clearCells_outside (h : a < start ∨ start + 2 * n ≤ a) :
    clearCells vidmem start n attr a = vidmem a := by
  induction n with
  | zero => rw [clearCells_zero]
  | succ n ih =>
      rw [clearCells_succ, setCell_outside (by omega)]
      exact ih (by omega)

theorem clearCells_inside (h : i < n) :
    clearCells vidmem (2 * k) n attr (2 * (k + i)) = 32#8 ∧
      clearCells vidmem (2 * k) n attr (2 * (k + i) + 1) = attr := by
  induction n with
  | zero => exact absurd h (Nat.not_lt_zero i)
  | succ n ih =>
      rw [clearCells_succ, show 2 * k + n * 2 = 2 * (k + n) by omega]
      rcases Nat.lt_succ_iff_lt_or_eq.mp h with hlt | rfl
      · rw [setCell_outside (by omega), setCell_outside (by omega)]
        exact ih hlt
      · exact setCell_self

theorem clearCells_all (vidmem : Nat → Octet) (attr : Octet) (h : i < n) :
    (clearCells vidmem 0 n attr (2 * i), clearCells vidmem 0 n attr (2 * i + 1)) =
      (32#8, attr) := by
  have hcell : clearCells vidmem (2 * 0) n attr (2 * (0 + i)) = 32#8 ∧
      clearCells vidmem (2 * 0) n attr (2 * (0 + i) + 1) = attr := clearCells_inside h
  rw [Nat.zero_add] at hcell
  exact Prod.ext hcell.1 hcell.2

/-- Lines that are moved up. -/
theorem moveUp (vidmem : Nat → Octet) (n a : Nat) :
    copyAlong id (· + 160) n vidmem a = if a < n then vidmem (a + 160) else vidmem a := by
  split
  · next h =>
    have hinj : ∀ i < n, ∀ j < n, id i = id j → i = j := fun i _ j _ he => he
    have hsource : copyAlong id (· + 160) a vidmem (a + 160) = vidmem (a + 160) :=
      copyAlong_outside fun j hj => by
        show a + 160 ≠ j
        omega
    exact (copyAlong_inside hinj h).trans hsource
  · next h =>
    refine copyAlong_outside fun j hj => ?_
    show a ≠ j
    omega

end Cells

/-! ## One character -/

variable {attr : Octet} {window : Nat} {s s' : Screen} {P P' : Paper}

/-- Bytes behind the window are not written. -/
def Framed (window : Nat) (s s' : Screen) : Prop :=
  ∀ a, 160 * window ≤ a → s'.vidmem a = s.vidmem a

/-- A cell in the window. -/
theorem Paper.Under.set (h : P.Under window s) {k : Nat} (hk : k < 80 * window) (c attr : Octet)
    {pos : Nat} (habove : 80 * P.top ≤ pos) (hbelow : pos ≤ 80 * (P.top + window)) :
    Paper.Under { P with cells := update P.cells (80 * P.top + k) (c, attr), pos } window
      ⟨setCell s.vidmem (2 * k) c attr, 2 * (pos - 80 * P.top)⟩ where
  above := habove
  below := hbelow
  cursor := rfl
  cells i hi := by
    dsimp only
    rcases eq_or_ne i k with rfl | hne
    · rw [setCell_self.1, setCell_self.2, update_self]
    · rw [setCell_outside (by omega), setCell_outside (by omega), update_of_ne (by omega)]
      exact h.cells i hi

/-- The cursor is moved. -/
theorem Paper.Under.move (h : P.Under window s) {pos o : Nat} (habove : 80 * P.top ≤ pos)
    (hbelow : pos ≤ 80 * (P.top + window)) (ho : o = 2 * (pos - 80 * P.top)) :
    Paper.Under { P with pos } window { s with videoMemOffs := o } :=
  ⟨habove, hbelow, ho, h.cells⟩

/-- **A character** comes to the same place of the screen and of the paper. -/
theorem putChar_under (h : P.Shown window s) (attr c : Octet) :
    putChar attr s c = none ∧ P.put attr c = none ∨
      ∃ s' P', putChar attr s c = some s' ∧ P.put attr c = some P' ∧ P'.Under window s' ∧
        Framed window s s' := by
  have habove := h.above
  have hinside := h.inside
  have hcursor := h.cursor
  unfold putChar Paper.put
  cases ctrlOf c with
  | newline =>
      exact .inr ⟨_, _, rfl, rfl, h.move (by omega) (by omega) (by omega), fun _ _ => rfl⟩
  | carriageReturn =>
      exact .inr ⟨_, _, rfl, rfl, h.move (by omega) (by omega) (by omega), fun _ _ => rfl⟩
  | bell => exact .inr ⟨_, _, rfl, rfl, h.toUnder, fun _ _ => rfl⟩
  | tab =>
      exact .inr ⟨_, _, rfl, rfl, h.move (by omega) (by omega) (by omega), fun _ _ => rfl⟩
  | backspace =>
      dsimp only
      by_cases hhome : P.pos = 80 * P.top
      · rw [if_pos hhome, if_pos (by omega)]
        exact .inl ⟨rfl, rfl⟩
      · rw [if_neg hhome, if_neg (by omega)]
        obtain ⟨k, hk⟩ := Nat.exists_eq_add_of_le (show 80 * P.top ≤ P.pos - 1 by omega)
        have ho : s.videoMemOffs - 2 = 2 * k := by omega
        have hset := h.toUnder.set (show k < 80 * window by omega) 32#8 attr
          (show 80 * P.top ≤ P.pos - 1 by omega) (by omega)
        rw [← hk, show 2 * (P.pos - 1 - 80 * P.top) = 2 * k by omega] at hset
        rw [ho]
        exact .inr ⟨_, _, rfl, rfl, hset, fun a ha => setCell_outside (by omega)⟩
  | normal =>
      obtain ⟨k, hk⟩ := Nat.exists_eq_add_of_le habove
      have ho : s.videoMemOffs = 2 * k := by omega
      have hset := h.toUnder.set (show k < 80 * window by omega) c attr
        (show 80 * P.top ≤ P.pos + 1 by omega) (by omega)
      rw [← hk, show 2 * (P.pos + 1 - 80 * P.top) = 2 * k + 2 by omega] at hset
      rw [ho]
      exact .inr ⟨_, _, rfl, rfl, hset, fun a ha => setCell_outside (by omega)⟩

/-- **A line** comes up when the cursor has left the window. -/
theorem scrollUp_shown (h : P.Under window s) (hw : 0 < window) (attr : Octet) :
    (P.feed attr window).Shown window (scrollUp attr window s) ∧
      Framed window s (scrollUp attr window s) := by
  have habove := h.above
  have hbelow := h.below
  have hcursor := h.cursor
  unfold Paper.feed scrollUp
  by_cases hout : 80 * (P.top + window) ≤ P.pos
  · rw [if_pos hout, if_pos (by omega)]
    refine ⟨⟨⟨by dsimp only; omega, by dsimp only; omega, by dsimp only; omega, fun i hi => ?_⟩,
      by dsimp only; omega⟩, fun a ha => ?_⟩
    · dsimp only
      rw [show 160 * (window - 1) = 2 * (80 * (window - 1)) by omega]
      by_cases hlast : i < 80 * (window - 1)
      · rw [clearCells_outside (by omega), clearCells_outside (by omega), moveUp, moveUp,
          if_pos (by omega), if_pos (by omega), if_neg (by omega),
          show 2 * i + 160 = 2 * (i + 80) by omega,
          show 2 * i + 1 + 160 = 2 * (i + 80) + 1 by omega,
          h.cells (i + 80) (by omega)]
        congr 1
        omega
      · obtain ⟨k, rfl⟩ := Nat.exists_eq_add_of_le (Nat.not_lt.mp hlast)
        have hk : k < 80 := by omega
        rw [(clearCells_inside hk).1, (clearCells_inside hk).2, if_pos (by omega)]
    · dsimp only
      rw [clearCells_outside (by omega), moveUp, if_neg (by omega)]
  · rw [if_neg hout, if_neg (by omega)]
    exact ⟨⟨h, Nat.lt_of_not_le hout⟩, fun _ _ => rfl⟩

/-! ## Texts -/

theorem Framed.trans {s₁ s₂ s₃ : Screen} (h : Framed window s₁ s₂) (h' : Framed window s₂ s₃) :
    Framed window s₁ s₃ := fun a ha => (h' a ha).trans (h a ha)

/-- **A text** is printed alike. -/
theorem printLoop_shown (h : P.Shown window s) (hw : 0 < window) (attr : Octet)
    (text : List Octet) :
    printLoop attr window s text = none ∧ P.print attr window text = none ∨
      ∃ s' P', printLoop attr window s text = some s' ∧ P.print attr window text = some P' ∧
        P'.Shown window s' ∧ Framed window s s' := by
  induction text generalizing s P with
  | nil => exact .inr ⟨s, P, rfl, rfl, h, fun _ _ => rfl⟩
  | cons c text ih =>
      unfold printLoop Paper.print
      rw [List.foldlM_cons, List.foldlM_cons]
      obtain ⟨hs, hP⟩ | ⟨s₁, P₁, hs, hP, hunder, hframed⟩ := putChar_under h attr c
      · rw [hs, hP]
        exact .inl ⟨rfl, rfl⟩
      · obtain ⟨hshown, hscrolled⟩ := scrollUp_shown hunder hw attr
        rw [hs, hP]
        obtain hnone | ⟨s', P', hs', hP', hshown', hframed'⟩ := ih hshown
        · exact .inl hnone
        · exact .inr ⟨s', P', hs', hP', hshown', (hframed.trans hscrolled).trans hframed'⟩

/-! ## The console -/

/-- The paper that is written on, with what it is written with and how much of it is seen. -/
structure Sheet where
  attr : Octet
  window : Nat
  paper : Paper

namespace Sheet

/-- What `CKinitCons` lays out. -/
def new : Sheet := ⟨9#8, 16, .blank 9#8⟩

def step (t : Sheet) : ConsoleCall → Option Sheet
  | .print text => (t.paper.print t.attr t.window text).map fun paper => { t with paper }
  | .clrScr => some { t with paper := .blank t.attr }
  | .setTextAttr attr => some { t with attr }
  | .initCons => some new

/-- The console shows the sheet. -/
structure On (t : Sheet) (c : Console) : Prop where
  attr : c.textattr = t.attr
  window : c.window = t.window
  lines : 0 < t.window ∧ t.window ≤ 25
  shown : t.paper.Shown t.window ⟨c.vidmem, c.cursor.toNat * 2⟩

end Sheet

variable {c : Console} {t : Sheet}

/-- Bytes behind the screen are not written. -/
def Beyond (c c' : Console) : Prop := ∀ a, 160 * 25 ≤ a → c'.vidmem a = c.vidmem a

/-- A console whose first `n` cells are empty. -/
theorem cleared_on {v : Nat → Octet} {n : Nat} (hv : c.vidmem = clearCells v 0 n t.attr)
    (hn : 80 * t.window ≤ n) (hcursor : c.cursor = 0#16) (h1 : c.textattr = t.attr)
    (h2 : c.window = t.window) (h3 : 0 < t.window ∧ t.window ≤ 25) :
    Sheet.On { t with paper := .blank t.attr } c := by
  have hunder : (Paper.blank t.attr).Under t.window ⟨c.vidmem, c.cursor.toNat * 2⟩ :=
    { above := Nat.zero_le _
      below := Nat.zero_le _
      cursor := by rw [hcursor]; rfl
      cells := fun i hi => by
        dsimp only
        rw [hv]
        exact clearCells_all v t.attr (by omega) }
  exact ⟨h1, h2, h3, ⟨hunder, show 0 < 80 * (0 + t.window) by omega⟩⟩

theorem ckClrScr_vidmem (c : Console) :
    (ckClrScr c).vidmem = clearCells c.vidmem 0 (80 * 25) c.textattr := rfl

theorem clrScr_on (h1 : c.textattr = t.attr) (h2 : c.window = t.window)
    (h3 : 0 < t.window ∧ t.window ≤ 25) :
    Sheet.On { t with paper := .blank t.attr } (ckClrScr c) ∧ Beyond c (ckClrScr c) := by
  refine ⟨cleared_on (h1 ▸ ckClrScr_vidmem c) (by omega) rfl h1 h2 h3, fun a ha => ?_⟩
  rw [ckClrScr_vidmem]
  exact clearCells_outside (by omega)

/-- **A call** writes alike on the console and on the sheet. -/
theorem console_step (h : t.On c) (call : ConsoleCall) :
    consoleStep c call = none ∧ t.step call = none ∨
      ∃ c' t', consoleStep c call = some c' ∧ t.step call = some t' ∧ t'.On c' ∧ Beyond c c' := by
  obtain ⟨hattr, hwindow, hlines, hshown⟩ := h
  cases call with
  | print text =>
      unfold consoleStep Sheet.step ckPrint
      dsimp only
      rw [hattr, hwindow]
      obtain ⟨hs, hP⟩ | ⟨s', P', hs, hP, hshown', hframed⟩ :=
        printLoop_shown hshown hlines.1 t.attr text
      · rw [hs, hP]
        exact .inl ⟨rfl, rfl⟩
      · rw [hs, hP]
        refine .inr ⟨_, _, rfl, rfl, ⟨rfl, rfl, hlines, ?_⟩, fun a ha => hframed a (by omega)⟩
        have hcursor := hshown'.cursor
        have hinside := hshown'.inside
        have hback : (BitVec.ofNat 16 (s'.videoMemOffs / 2)).toNat * 2 = s'.videoMemOffs := by
          rw [BitVec.toNat_ofNat, Nat.mod_eq_of_lt (by omega)]
          omega
        dsimp only
        rw [hback]
        exact hshown'
  | clrScr => exact .inr ⟨_, _, rfl, rfl, clrScr_on hattr hwindow hlines⟩
  | setTextAttr attr =>
      exact .inr ⟨_, _, rfl, rfl, ⟨rfl, hwindow, hlines, hshown⟩, fun _ _ => rfl⟩
  | initCons =>
      exact .inr ⟨_, _, rfl, rfl, clrScr_on (t := ⟨9#8, 16, .blank 9#8⟩) rfl rfl (by decide)⟩

/-- **The console shows the sheet** after any calls that follow its initialisation, and nothing
behind the screen is written. A text that goes back in front of the first line in the window is the
only one that has no meaning. -/
theorem console_run (c₀ : Console) (calls : List ConsoleCall) :
    calls.foldlM consoleStep (ckInitCons c₀) = none ∧ calls.foldlM Sheet.step .new = none ∨
      ∃ c t, calls.foldlM consoleStep (ckInitCons c₀) = some c ∧
        calls.foldlM Sheet.step .new = some t ∧ t.On c ∧ Beyond c₀ c := by
  have hinit : Sheet.On .new (ckInitCons c₀) ∧ Beyond { c₀ with textattr := 9#8, window := 16 }
      (ckInitCons c₀) := clrScr_on (t := ⟨9#8, 16, .blank 9#8⟩) rfl rfl (by decide)
  have key : ∀ {c : Console} {t : Sheet}, t.On c → Beyond c₀ c →
      calls.foldlM consoleStep c = none ∧ calls.foldlM Sheet.step t = none ∨
        ∃ c' t', calls.foldlM consoleStep c = some c' ∧ calls.foldlM Sheet.step t = some t' ∧
          t'.On c' ∧ Beyond c₀ c' := by
    induction calls with
    | nil => exact fun h hb => .inr ⟨_, _, rfl, rfl, h, hb⟩
    | cons call calls ih =>
        intro c t h hb
        rw [List.foldlM_cons, List.foldlM_cons]
        obtain ⟨hc, ht⟩ | ⟨c₁, t₁, hc, ht, h₁, hb₁⟩ := console_step h call
        · rw [hc, ht]
          exact .inl ⟨rfl, rfl⟩
        · rw [hc, ht]
          exact ih h₁ fun a ha => (hb₁ a ha).trans (hb a ha)
  exact key hinit.1 hinit.2

end Alliance.CK
