import Mathlib.Logic.Basic

/-!
# Items sent in two halves over a pair of lines

Two sides are joined by a line in each direction, and each shows half an item beside its line. A
side that has an item raises its line over the first half. The other side reads the half and
answers by raising its own line; then the second half is shown and the line falls, which the other
side waits for. A side that finds the line of the other one high when it wants to send takes that
item in first, and goes on to its own without lowering its line.

`Role` is what one side does, and `Side.Step` is a step of one side while the other one stands
still. Two things are asked of the sides: that not both go ahead with an item on the same low lines,
and that a side does not go on from the second half before it has been read. Then what has been sent
has been received, in its order, and nothing else (`Joined.step`).
-/

namespace Alliance.Lib

/-- Items of `α` are put together from two halves. -/
structure Halves (α η : Type) where
  lo : α → η
  hi : α → η
  join : η → η → α
  join_halves : ∀ a, join (lo a) (hi a) = a

/-- What a side is doing. -/
inductive Role (α η : Type)
  /-- It is not in a transfer, or waits for the other side to start one. -/
  | rest
  /-- It has found the other line low, and is to raise its own. -/
  | ready (a : α)
  /-- Its line is high, over the first half of `a`. -/
  | shows (a : α)
  /-- It has seen the answer, and is to show the second half. -/
  | second (a : α)
  /-- Its line is low, over the second half of `a`. -/
  | settle (a : α)
  /-- It has found the other line high when it was to send. -/
  | listen
  /-- It is to read the first half. -/
  | take
  /-- It has read a first half, and is to raise its line. -/
  | answer (x : η)
  /-- Its line is high, and it waits for the other one to fall. -/
  | await (x : η)
  /-- It is to read the second half. -/
  | last (x : η)
  /-- It has put an item together, and is to lower its line. -/
  | done (a : α)
  deriving DecidableEq

variable {α η : Type} {H : Halves α η}

namespace Role

def line : Role α η → Bool
  | .shows _ | .second _ | .await _ | .last _ | .done _ => true
  | .rest | .ready _ | .settle _ | .listen | .take | .answer _ => false

/-- The second half that it is shown must stay. -/
def receiving : Role α η → Bool
  | .await _ | .last _ | .done _ => true
  | _ => false

/-- Which roles meet. The first side is the one to send, if there is one. -/
inductive Meets (H : Halves α η) : Role α η → Role α η → Prop
  | rest : Meets H .rest .rest
  | ready (a : α) : Meets H (.ready a) .rest
  | shows (a : α) : Meets H (.shows a) .rest
  | listen (a : α) : Meets H (.shows a) .listen
  | take (a : α) : Meets H (.shows a) .take
  | answer (a : α) : Meets H (.shows a) (.answer (H.lo a))
  | await (a : α) : Meets H (.shows a) (.await (H.lo a))
  | second (a : α) : Meets H (.second a) (.await (H.lo a))
  | settle (a : α) : Meets H (.settle a) (.await (H.lo a))
  | last (a : α) : Meets H (.settle a) (.last (H.lo a))
  | done (a : α) : Meets H (.settle a) (.done a)
  | ended (a : α) : Meets H (.settle a) .rest
  | next (a b : α) : Meets H (.settle a) (.ready b)
  | turn (a b : α) : Meets H (.settle a) (.shows b)

/-- It need not wait for the other side, which is at `r'`. At rest it would, for that side's line. -/
def Free (r r' : Role α η) : Prop :=
  match r with
  | .rest | .listen | .shows _ => r'.line = true
  | .await _ => r'.line = false
  | .settle _ => r'.receiving = false
  | _ => True

/-- The sides never both wait, unless both are at rest. -/
theorem Meets.free {r r' : Role α η} (h : Meets H r r') :
    (r = .rest ∧ r' = .rest) ∨ r.Free r' ∨ r'.Free r := by
  cases h with
  | rest => exact .inl ⟨rfl, rfl⟩
  | ready => exact .inr (.inl trivial)
  | shows | listen => exact .inr (.inr rfl)
  | take | answer => exact .inr (.inr trivial)
  | await => exact .inr (.inl rfl)
  | second => exact .inr (.inl trivial)
  | settle => exact .inr (.inr rfl)
  | last | done => exact .inr (.inr trivial)
  | ended | next | turn => exact .inr (.inl rfl)

/-- What has been read of the first side, and is not yet counted as sent. -/
def early : Role α η → Role α η → List α
  | .settle _, .await _ | .settle _, .last _ => []
  | .settle a, _ => [a]
  | _, _ => []

end Role

/-- A side, with what it has sent and received. -/
structure Side (α η : Type) where
  role : Role α η
  sent : List α
  received : List α

/-- A step of a side while the other one is `t`. -/
inductive Side.Step (H : Halves α η) (t : Side α η) : Side α η → Side α η → Prop
  | stay (s : Side α η) : Step H t s s
  | ready (a : α) {xs ys : List α} : t.role.line = false → (∀ b, t.role ≠ .ready b) →
      Step H t ⟨.rest, xs, ys⟩ ⟨.ready a, xs, ys⟩
  | shows (a : α) {xs ys : List α} : Step H t ⟨.ready a, xs, ys⟩ ⟨.shows a, xs, ys⟩
  | second (a : α) {xs ys : List α} : t.role.line = true →
      Step H t ⟨.shows a, xs, ys⟩ ⟨.second a, xs, ys⟩
  | settle (a : α) {xs ys : List α} : Step H t ⟨.second a, xs, ys⟩ ⟨.settle a, xs, ys⟩
  | ended (a : α) {xs ys : List α} : t.role.receiving = false →
      Step H t ⟨.settle a, xs, ys⟩ ⟨.rest, xs ++ [a], ys⟩
  | listen {xs ys : List α} : t.role.line = true → Step H t ⟨.rest, xs, ys⟩ ⟨.listen, xs, ys⟩
  | take {r : Role α η} {xs ys : List α} : r = .rest ∨ r = .listen → t.role.line = true →
      Step H t ⟨r, xs, ys⟩ ⟨.take, xs, ys⟩
  | answer (x : η) {xs ys : List α} : (∀ a, t.role = .shows a → x = H.lo a) →
      Step H t ⟨.take, xs, ys⟩ ⟨.answer x, xs, ys⟩
  | await (x : η) {xs ys : List α} : Step H t ⟨.answer x, xs, ys⟩ ⟨.await x, xs, ys⟩
  | last (x : η) {xs ys : List α} : t.role.line = false →
      Step H t ⟨.await x, xs, ys⟩ ⟨.last x, xs, ys⟩
  | turn (x : η) (b c : α) {xs ys : List α} : (∀ a, t.role = .settle a → c = H.join x (H.hi a)) →
      Step H t ⟨.last x, xs, ys⟩ ⟨.shows b, xs, ys ++ [c]⟩
  | done (x : η) (c : α) {xs ys : List α} : (∀ a, t.role = .settle a → c = H.join x (H.hi a)) →
      Step H t ⟨.last x, xs, ys⟩ ⟨.done c, xs, ys ++ [c]⟩
  | lower (c : α) {xs ys : List α} : Step H t ⟨.done c, xs, ys⟩ ⟨.rest, xs, ys⟩

/-- The two sides are at matching points of a transfer, and what one has sent the other one has
received. -/
structure Joined (H : Halves α η) (s t : Side α η) : Prop where
  meets : s.role.Meets H t.role ∨ t.role.Meets H s.role
  forth : t.received = s.sent ++ s.role.early t.role
  back : s.received = t.sent ++ t.role.early s.role

namespace Joined

variable {s s' t : Side α η}

theorem symm (h : Joined H s t) : Joined H t s := ⟨h.meets.symm, h.back, h.forth⟩

/-- A step of the side that sends. -/
theorem step_sender (hm : s.role.Meets H t.role)
    (hforth : t.received = s.sent ++ s.role.early t.role)
    (hback : s.received = t.sent ++ t.role.early s.role) (hs : Side.Step H t s s') :
    Joined H s' t := by
  obtain ⟨r', xs', ys'⟩ := t
  cases hs with
  | stay => exact ⟨.inl hm, hforth, hback⟩
  | ready a => cases hm with
    | rest => exact ⟨.inl (.ready a), hforth, hback⟩
  | shows a => cases hm with
    | ready => exact ⟨.inl (.shows a), hforth, hback⟩
  | second a hline =>
    -- only a side that answers has its line high
    cases hm with
    | await => exact ⟨.inl (.second a), hforth, hback⟩
    | shows | listen | take | answer => exact absurd hline Bool.false_ne_true
  | settle a => cases hm with
    | second => exact ⟨.inl (.settle a), hforth, hback⟩
  | ended a hread =>
    have hsent (l : List α) (h : ys' = l ++ [a]) : ys' = l ++ [a] ++ [] := by simpa using h
    -- what the other side is to read is there until it has lowered its line
    cases hm with
    | ended => exact ⟨.inl .rest, hsent _ hforth, hback⟩
    | next _ b => exact ⟨.inr (.ready b), hsent _ hforth, hback⟩
    | turn _ b => exact ⟨.inr (.shows b), hsent _ hforth, hback⟩
    | settle | last | done => exact absurd hread.symm Bool.false_ne_true
  | listen hline => cases hm with
    | rest => exact absurd hline Bool.false_ne_true
  | take hr hline =>
    rcases hr with rfl | rfl
    · cases hm with
      | rest => exact absurd hline Bool.false_ne_true
    · cases hm
  | answer => cases hm
  | await => cases hm
  | last => cases hm
  | turn => cases hm
  | done => cases hm
  | lower => cases hm

/-- A step of the side that receives. -/
theorem step_receiver (hm : t.role.Meets H s.role)
    (hforth : t.received = s.sent ++ s.role.early t.role)
    (hback : s.received = t.sent ++ t.role.early s.role) (hs : Side.Step H t s s') :
    Joined H s' t := by
  obtain ⟨r', xs', ys'⟩ := t
  cases hs with
  | stay => exact ⟨.inr hm, hforth, hback⟩
  | ready b hline hready =>
    cases hm with
    | rest => exact ⟨.inl (.ready b), hforth, hback⟩
    | ready a => exact absurd rfl (hready a)
    | shows => exact absurd hline.symm Bool.false_ne_true
    | ended a => exact ⟨.inr (.next a b), hforth, hback⟩
  | shows b => cases hm with
    | next a => exact ⟨.inr (.turn a b), hforth, hback⟩
  | second b hline => cases hm with
    | turn => exact absurd hline Bool.false_ne_true
  | settle => cases hm
  | ended => cases hm
  | listen hline => cases hm with
    | shows a => exact ⟨.inr (.listen a), hforth, hback⟩
    | rest | ready | ended => exact absurd hline Bool.false_ne_true
  | take hr hline =>
    rcases hr with rfl | rfl
    · cases hm with
      | shows a => exact ⟨.inr (.take a), hforth, hback⟩
      | rest | ready | ended => exact absurd hline Bool.false_ne_true
    · cases hm with
      | listen a => exact ⟨.inr (.take a), hforth, hback⟩
  | answer x hx => cases hm with
    | take a =>
      obtain rfl := hx a rfl
      exact ⟨.inr (.answer a), hforth, hback⟩
  | await => cases hm with
    | answer a => exact ⟨.inr (.await a), hforth, hback⟩
  | last x hline => cases hm with
    | settle a => exact ⟨.inr (.last a), hforth, hback⟩
    | await | second => exact absurd hline.symm Bool.false_ne_true
  | turn x b c hc => cases hm with
    | last a =>
      obtain rfl := (hc a rfl).trans (H.join_halves a)
      exact ⟨.inr (.turn c b), hforth, by simpa [Role.early] using hback⟩
  | done x c hc => cases hm with
    | last a =>
      obtain rfl := (hc a rfl).trans (H.join_halves a)
      exact ⟨.inr (.done c), hforth, by simpa [Role.early] using hback⟩
  | lower c => cases hm with
    | done => exact ⟨.inr (.ended c), hforth, hback⟩

/-- **A step of one side** keeps the sides joined. -/
theorem step (h : Joined H s t) (hs : Side.Step H t s s') : Joined H s' t :=
  h.meets.elim (fun hm => step_sender hm h.forth h.back hs)
    fun hm => step_receiver hm h.forth h.back hs

end Joined

end Alliance.Lib
