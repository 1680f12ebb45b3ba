import Alliance.Monitor.ParPort

/-!
# What goes over the parallel port arrives

An end is a side of a link that sends items in two halves (`End.side`): `D0` is its line, and the
nibbles as they are read are the halves. A step of an end is a step of that side (`step_side`), so
that the two ends stay joined in every run.
-/

namespace Alliance.Monitor

open Function Lib

/-! ## Bits -/

theorem error_eq (data : UChar) : ERROR data = data.getLsbD 0 := by
  revert data
  decide +kernel

theorem error_low (ch : UChar) : ERROR (lowNibble ch + 1) = true := by
  revert ch
  decide +kernel

theorem error_high (ch : UChar) : ERROR (highNibble ch) = false := by
  revert ch
  decide +kernel

/-- The character is preset in `tmp`, and `SETD0` shows it as `putDebugChar` would. -/
theorem lowNibble_setD0 (ch : UChar) : lowNibble ch ||| 0x01#8 = lowNibble ch + 1 := by
  revert ch
  decide +kernel

/-- The nibbles as the other end reads them. -/
def nibbles : Halves UChar UChar where
  lo ch := getNibble (lowNibble ch + 1)
  hi ch := getNibble (highNibble ch)
  join := fromNibbles
  join_halves := by decide +kernel

/-! ## The buffer -/

theorem stepPtr_eq {ptr : Nat} (h : ptr < BUFSIZE) : stepPtr ptr = (ptr + 1) % BUFSIZE :=
  (succ_mod h).symm

namespace Parbuf

variable {b : Parbuf}

/-- How many characters are in the buffer. -/
def count (b : Parbuf) : Nat := (b.wrtptr + BUFSIZE - b.rdptr) % BUFSIZE

theorem count_lt (b : Parbuf) : b.count < BUFSIZE := Nat.mod_lt _ (by decide)

theorem wrtptr_eq (b : Parbuf) : b.wrtptr = (b.rdptr + b.count) % BUFSIZE := by
  have hr := b.rdptr_lt
  have hw := b.wrtptr_lt
  rw [count, Nat.add_mod_mod, show b.rdptr + (b.wrtptr + BUFSIZE - b.rdptr) = b.wrtptr + BUFSIZE by
    omega, Nat.add_mod_right, Nat.mod_eq_of_lt hw]

theorem pending_eq_nil : b.wrtptr = b.rdptr ↔ b.pending = [] := by
  have h : b.pending = [] ↔ b.count = 0 := by simp [pending, count]
  rw [h, wrtptr_eq, add_mod_eq_iff b.rdptr_lt (Nat.le_of_lt b.count_lt)]
  have := b.count_lt
  omega

theorem pending_push (h : b.HasRoom) (c : UChar) : (b.push c).pending = b.pending ++ [c] := by
  have hw : (b.push c).wrtptr = (b.rdptr + (b.count + 1)) % BUFSIZE := by
    show stepPtr b.wrtptr = _
    rw [stepPtr_eq b.wrtptr_lt, wrtptr_eq, Nat.mod_add_mod, Nat.add_assoc]
  have hlt : b.count + 1 < BUFSIZE := by
    refine Nat.lt_of_le_of_ne b.count_lt fun hfull => h ?_
    show (b.push c).wrtptr = b.rdptr
    rw [hw, hfull, Nat.add_mod_right, Nat.mod_eq_of_lt b.rdptr_lt]
  have hcount : (b.push c).count = b.count + 1 := by
    rw [count, hw]
    exact ahead_eq b.rdptr_lt hlt
  show (List.range (b.push c).count).map _ = (List.range b.count).map _ ++ [c]
  rw [hcount, List.range_succ, List.map_append, List.map_singleton]
  congr 1
  · refine List.map_congr_left fun i hi => ?_
    have hi := List.mem_range.mp hi
    refine update_of_ne ?_ _ _
    rw [wrtptr_eq]
    exact fun he => Nat.ne_of_lt hi ((add_mod_inj b.rdptr_lt (by omega) b.count_lt).mp he)
  · show [update b.parbuf b.wrtptr c ((b.rdptr + b.count) % BUFSIZE)] = [c]
    rw [← wrtptr_eq, update_self]

theorem pending_pop (h : b.wrtptr ≠ b.rdptr) :
    b.pending = b.parbuf b.rdptr :: b.pop.pending := by
  have hpos : 0 < b.count := by
    refine Nat.pos_of_ne_zero fun h0 => h ?_
    rw [wrtptr_eq, h0]
    exact Nat.mod_eq_of_lt b.rdptr_lt
  obtain ⟨n, hn⟩ := Nat.exists_eq_add_of_lt hpos
  rw [Nat.zero_add] at hn
  have hlt := b.count_lt
  have hr : b.pop.rdptr = (b.rdptr + 1) % BUFSIZE := stepPtr_eq b.rdptr_lt
  have hcount : b.pop.count = n := by
    have hw : b.pop.wrtptr = (b.pop.rdptr + n) % BUFSIZE := by
      show b.wrtptr = _
      rw [wrtptr_eq, hn, hr, mod_add_mod_succ]
    rw [count, hw]
    exact ahead_eq b.pop.rdptr_lt (by omega)
  show (List.range b.count).map _ = _ :: (List.range b.pop.count).map _
  rw [hn, hcount, List.range_succ_eq_map, List.map_cons, List.map_map, Nat.add_zero,
    Nat.mod_eq_of_lt b.rdptr_lt]
  congr 1
  refine List.map_congr_left fun i _ => ?_
  show b.parbuf ((b.rdptr + (i + 1)) % BUFSIZE) = b.parbuf ((b.pop.rdptr + i) % BUFSIZE)
  rw [hr, mod_add_mod_succ]

theorem pending_flush : b.flush.pending = [] := pending_eq_nil.mp rfl

end Parbuf

/-! ## What an end is doing -/

namespace End

/-- The end as a side of the link. A `store` over a high line changes nothing that is seen. -/
def role (e : End) : Role UChar UChar :=
  match e.phase with
  | .idle | .test _ | .reset | .giveUp | .get none .waitLow => .rest
  | .get (some _) .waitLow => .listen
  | .get _ .readLow => .take
  | .get _ (.setD0 low) => .answer low
  | .get _ (.waitHigh low) => .await low
  | .get _ (.readHigh low) => .last low
  | .store ch => if ERROR e.data then .shows ch else .ready ch
  | .waitAck ch => .shows ch
  | .storeHigh ch => .second ch
  | .delay ch => .settle ch
  | .release c => .done c

theorem role_store (data tmp ch : UChar) (buf : Parbuf) (sent got : List UChar) :
    (⟨data, tmp, .store ch, buf, sent, got⟩ : End).role =
      if ERROR data then .shows ch else .ready ch := rfl

def side (e : End) : Side UChar UChar := ⟨e.role, e.sent, e.received⟩

theorem side_store_low {data : UChar} (h : ERROR data = false) (tmp ch : UChar) (buf : Parbuf)
    (sent got : List UChar) : (⟨data, tmp, .store ch, buf, sent, got⟩ : End).side =
      ⟨.ready ch, sent, got ++ buf.pending⟩ := by
  rw [side, role_store, h, received, List.append_nil]
  rfl

theorem side_store_high {data : UChar} (h : ERROR data = true) (tmp ch : UChar) (buf : Parbuf)
    (sent got : List UChar) : (⟨data, tmp, .store ch, buf, sent, got⟩ : End).side =
      ⟨.shows ch, sent, got ++ buf.pending⟩ := by
  rw [side, role_store, h, received, List.append_nil]
  rfl

/-- What is on the pins and in `tmp`. -/
def Pins (e : End) : Prop :=
  match e.phase with
  | .test ch | .get (some ch) .waitLow | .get (some ch) .readLow | .get (some ch) (.setD0 _) =>
    ERROR e.data = false ∧ e.tmp = lowNibble ch
  | .get (some ch) (.waitHigh _) | .get (some ch) (.readHigh _) =>
    e.data = e.tmp ||| 0x01#8 ∧ e.tmp = lowNibble ch
  | .get none (.waitHigh _) | .get none (.readHigh _) | .release _ => e.data = e.tmp ||| 0x01#8
  | .store ch => ERROR e.data = false ∨ e.data = lowNibble ch + 1
  | .waitAck ch | .storeHigh ch => e.data = lowNibble ch + 1
  | .delay ch => e.data = highNibble ch
  | .idle | .reset | .giveUp | .get none _ => ERROR e.data = false

/-- It is in `getDebugChar`, which has found the buffer empty. -/
def Reading (e : End) : Prop :=
  match e.phase with
  | .reset | .get none _ | .release _ | .giveUp => True
  | _ => False

structure Sound (e : End) : Prop where
  pins : e.Pins
  empty : e.Reading → e.buf.pending = []

theorem sound_connected : connected.Sound := ⟨show ERROR 0 = false by decide, fun h => h.elim⟩

variable {e e' e₁ : End} {op : EndOp}

theorem error_setD0 (tmp : UChar) : ERROR (tmp ||| 0x01#8) = true := by
  rw [error_eq]
  simp

theorem error_rsetD0 (tmp : UChar) : ERROR (tmp &&& ~~~0x01#8) = false := by
  rw [error_eq]
  simp

/-- `D0` is the line of the side. -/
theorem Pins.line (h : e.Pins) : ERROR e.data = e.role.line := by
  obtain ⟨data, tmp, phase, buf, sent, got⟩ := e
  cases phase with
  | idle | reset | giveUp => exact h
  | test => exact h.1
  | get caller g =>
    cases caller <;> cases g
    case none.waitLow | none.readLow | none.setD0 => exact h
    case some.waitLow | some.readLow | some.setD0 => exact h.1
    case none.waitHigh | none.readHigh => exact (congrArg ERROR h).trans (error_setD0 tmp)
    case some.waitHigh | some.readHigh => exact (congrArg ERROR h.1).trans (error_setD0 tmp)
  | store ch =>
    show ERROR data = (if ERROR data then Role.shows ch else .ready ch).line
    cases ERROR data <;> rfl
  | waitAck ch | storeHigh ch => exact (congrArg ERROR h).trans (error_low ch)
  | delay ch => exact (congrArg ERROR h).trans (error_high ch)
  | release => exact (congrArg ERROR h).trans (error_setD0 tmp)

/-- What an end that shows its low nibble has on its pins. -/
theorem Pins.low {ch : UChar} (h : e.Pins) (hr : e.role = .shows ch) :
    e.data = lowNibble ch + 1 := by
  obtain ⟨data, tmp, phase, buf, sent, got⟩ := e
  cases phase with
  | store ch' =>
    rw [role_store] at hr
    split at hr
    · next hhigh =>
      cases hr
      -- over a low line it would not be seen
      exact h.resolve_left (by simp [hhigh])
    · cases hr
  | waitAck ch' =>
    cases hr
    exact h
  | get caller g => cases caller <;> cases g <;> cases hr
  | _ => cases hr

theorem Pins.high {ch : UChar} (h : e.Pins) (hr : e.role = .settle ch) :
    e.data = highNibble ch := by
  obtain ⟨data, tmp, phase, buf, sent, got⟩ := e
  cases phase with
  | store ch' =>
    rw [role_store] at hr
    split at hr <;> cases hr
  | delay ch' =>
    cases hr
    exact h
  | get caller g => cases caller <;> cases g <;> cases hr
  | _ => cases hr

theorem ready_iff : e.ready = true ↔ ∃ ch, e.role = .ready ch := by
  obtain ⟨data, tmp, phase, buf, sent, got⟩ := e
  cases phase with
  | store ch =>
    rw [role_store, ready]
    cases ERROR data with
    | true =>
      refine iff_of_false Bool.false_ne_true ?_
      rintro ⟨ch, hr⟩
      cases hr
    | false => exact iff_of_true rfl ⟨ch, rfl⟩
  | get caller g =>
    refine iff_of_false Bool.false_ne_true ?_
    rintro ⟨ch, hr⟩
    cases caller <;> cases g <;> cases hr
  | _ =>
    refine iff_of_false Bool.false_ne_true ?_
    rintro ⟨ch, hr⟩
    cases hr

theorem receiving_eq (e : End) : e.receiving = e.role.receiving := by
  obtain ⟨data, tmp, phase, buf, sent, got⟩ := e
  cases phase with
  | store ch =>
    rw [role_store]
    cases ERROR data <;> rfl
  | get caller g => cases caller <;> cases g <;> rfl
  | _ => rfl

/-! ## Steps -/

/-- **An access to the port** is a step of the side. -/
theorem step_next (h : e.Sound) (h' : e'.Sound) (hC : e.orderly e' .next = true)
    (hs : e.next e'.data = some e₁) : e₁.Sound ∧ Side.Step nibbles e'.side e.side e₁.side := by
  obtain ⟨data, tmp, phase, buf, sent, got⟩ := e
  obtain ⟨hpins, hempty⟩ := h
  have hline : ERROR e'.data = e'.side.role.line := h'.pins.line
  have hlow : ∀ ch, e'.side.role = .shows ch → getNibble e'.data = nibbles.lo ch :=
    fun ch hr => congrArg getNibble (h'.pins.low hr)
  have hhigh : ∀ ch, e'.side.role = .settle ch → getNibble e'.data = nibbles.hi ch :=
    fun ch hr => congrArg getNibble (h'.pins.high hr)
  cases phase with
  | idle => cases hs
  | test ch =>
    obtain rfl := Option.some.inj hs
    cases he : ERROR e'.data with
    | true => exact ⟨⟨hpins, fun h => h.elim⟩, .listen (hline ▸ he)⟩
    | false =>
      refine ⟨⟨.inl hpins.1, fun h => h.elim⟩, ?_⟩
      show Side.Step _ _ ⟨.rest, sent, got ++ buf.pending ++ []⟩
        (⟨data, tmp, .store ch, buf, sent, got⟩ : End).side
      rw [side_store_low hpins.1, List.append_nil]
      refine .ready ch (hline ▸ he) fun b hb => ?_
      have hready : e'.ready = false := by simpa [orderly] using hC
      exact Bool.false_ne_true (hready.symm.trans (ready_iff.mpr ⟨b, hb⟩))
  | get caller g =>
    cases g with
    | waitLow =>
      obtain ⟨he, hs⟩ := Option.ite_none_right_eq_some.mp hs
      cases hs
      cases caller with
      | none => exact ⟨⟨hpins, hempty⟩, .take (.inl rfl) (hline ▸ he)⟩
      | some ch => exact ⟨⟨hpins, hempty⟩, .take (.inr rfl) (hline ▸ he)⟩
    | readLow =>
      cases hs
      cases caller <;> exact ⟨⟨hpins, hempty⟩, .answer _ hlow⟩
    | setD0 low =>
      cases hs
      cases caller with
      | none => exact ⟨⟨rfl, hempty⟩, .await low⟩
      | some ch => exact ⟨⟨⟨rfl, hpins.2⟩, hempty⟩, .await low⟩
    | waitHigh low =>
      obtain ⟨he, hs⟩ := Option.ite_none_left_eq_some.mp hs
      cases hs
      have he := Bool.eq_false_of_not_eq_true he
      cases caller <;> exact ⟨⟨hpins, hempty⟩, .last low (hline ▸ he)⟩
    | readHigh low =>
      cases hs
      have hjoin : ∀ ch, e'.side.role = .settle ch →
          fromNibbles low (getNibble e'.data) = nibbles.join low (nibbles.hi ch) :=
        fun ch hr => congrArg (fromNibbles low) (hhigh ch hr)
      cases caller with
      | none =>
        refine ⟨⟨hpins, hempty⟩, ?_⟩
        show Side.Step _ _ ⟨.last low, sent, got ++ buf.pending ++ []⟩
          ⟨.done _, sent, got ++ buf.pending ++ [_]⟩
        rw [List.append_nil]
        exact .done low _ hjoin
      | some ch =>
        obtain ⟨hdata, htmp⟩ : data = tmp ||| 0x01#8 ∧ tmp = lowNibble ch := hpins
        -- the line is high already, and the low nibble of `ch` beside it
        have hshown : data = lowNibble ch + 1 := by rw [hdata, htmp, lowNibble_setD0]
        refine ⟨⟨.inr hshown, fun h => h.elim⟩, ?_⟩
        show Side.Step _ _ ⟨.last low, sent, got ++ buf.pending ++ []⟩
          (⟨data, tmp, .store ch, buf.push _, sent, got⟩ : End).side
        rw [side_store_high ((congrArg ERROR hshown).trans (error_low ch)),
          Parbuf.pending_push (of_decide_eq_true hC), List.append_nil, ← List.append_assoc]
        exact .turn low ch _ hjoin
  | store ch =>
    cases hs
    refine ⟨⟨rfl, hempty⟩, ?_⟩
    show Side.Step _ _ _ ⟨.shows ch, sent, got ++ buf.pending ++ []⟩
    rw [List.append_nil]
    rcases hpins with hlow | hshown
    · rw [side_store_low hlow]
      exact .shows ch
    · rw [side_store_high ((congrArg ERROR hshown).trans (error_low ch))]
      exact .stay _
  | waitAck ch =>
    obtain ⟨he, hs⟩ := Option.ite_none_right_eq_some.mp hs
    cases hs
    exact ⟨⟨hpins, hempty⟩, .second ch (hline ▸ he)⟩
  | storeHigh ch =>
    cases hs
    exact ⟨⟨rfl, hempty⟩, .settle ch⟩
  | delay ch =>
    cases hs
    have hread : e'.role.receiving = false := by simpa [orderly, receiving_eq] using hC
    exact ⟨⟨(congrArg ERROR hpins).trans (error_high ch), hempty⟩, .ended ch hread⟩
  | reset =>
    cases hs
    exact ⟨⟨error_rsetD0 tmp, hempty⟩, .stay _⟩
  | release c =>
    cases hs
    refine ⟨⟨error_rsetD0 tmp, fun h => h.elim⟩, ?_⟩
    show Side.Step _ _ ⟨.done c, sent, got ++ buf.pending ++ [c]⟩
      ⟨.rest, sent, got ++ [c] ++ buf.pending ++ []⟩
    rw [show buf.pending = [] from hempty trivial, List.append_nil, List.append_nil,
      List.append_nil]
    exact .lower c
  | giveUp =>
    cases hs
    exact ⟨⟨error_rsetD0 tmp, fun h => h.elim⟩, .stay _⟩

/-- **A step of an end** is a step of the side, and of none if only the buffer is concerned. -/
theorem step_side (h : e.Sound) (h' : e'.Sound) (hC : e.orderly e' op = true)
    (hs : e.step e'.data op = some e₁) : e₁.Sound ∧ Side.Step nibbles e'.side e.side e₁.side := by
  cases op with
  | next => exact step_next h h' hC hs
  | putDebugChar ch =>
    obtain ⟨hidle, hs⟩ := Option.ite_none_right_eq_some.mp hs
    obtain ⟨data, tmp, _, buf, sent, got⟩ := e
    cases hidle
    cases hs
    exact ⟨⟨⟨h.pins, rfl⟩, fun h => h.elim⟩, .stay _⟩
  | getDebugChar =>
    obtain ⟨hidle, hs⟩ := Option.ite_none_right_eq_some.mp hs
    obtain ⟨data, tmp, _, buf, sent, got⟩ := e
    cases hidle
    cases hs
    by_cases hempty : buf.wrtptr = buf.rdptr
    · rw [getDebugChar, if_pos hempty]
      exact ⟨⟨h.pins, fun _ => Parbuf.pending_eq_nil.mp hempty⟩, .stay _⟩
    · rw [getDebugChar, if_neg hempty]
      refine ⟨⟨h.pins, fun h => h.elim⟩, ?_⟩
      show Side.Step _ _ ⟨.rest, sent, got ++ buf.pending ++ []⟩
        ⟨.rest, sent, got ++ [buf.parbuf buf.rdptr] ++ buf.pop.pending ++ []⟩
      rw [Parbuf.pending_pop hempty, ← List.singleton_append, ← List.append_assoc got]
      exact .stay _
  | flushInput =>
    obtain ⟨hidle, hs⟩ := Option.ite_none_right_eq_some.mp hs
    obtain ⟨data, tmp, _, buf, sent, got⟩ := e
    cases hidle
    cases hs
    refine ⟨⟨h.pins, fun h => h.elim⟩, ?_⟩
    show Side.Step _ _ ⟨.rest, sent, got ++ buf.pending ++ []⟩
      ⟨.rest, sent, got ++ buf.pending ++ buf.flush.pending ++ []⟩
    rw [Parbuf.pending_flush, List.append_nil, List.append_nil]
    exact .stay _
  | timeout =>
    have hphase := of_decide_eq_true hC
    obtain ⟨data, tmp, _, buf, sent, got⟩ := e
    cases hphase
    cases hs
    exact ⟨⟨h.pins, h.empty⟩, .stay _⟩

/-! ## Delivery -/

theorem sending_of_settle {ch : UChar} (hr : e.role = .settle ch) : e.sending = [ch] := by
  obtain ⟨data, tmp, phase, buf, sent, got⟩ := e
  cases phase with
  | delay => cases hr; rfl
  | store =>
    rw [role_store] at hr
    split at hr <;> cases hr
  | get caller g => cases caller <;> cases g <;> cases hr
  | _ => cases hr

theorem early_sending (r : Role UChar UChar) : e.role.early r <+: e.sending := by
  cases hr : e.role with
  | settle ch =>
    rw [sending_of_settle hr]
    cases r with
    | await | last => exact List.nil_prefix
    | _ => exact List.prefix_refl _
  | _ => exact List.nil_prefix

theorem delivers_of_joined (h : Joined nibbles e.side e'.side) : e.Delivers e' := by
  rw [Delivers, show e'.received = e.sent ++ e.role.early e'.role from h.forth]
  exact ⟨List.prefix_append _ _, (List.prefix_append_right_inj _).mpr (early_sending _)⟩

end End

/-! ## Runs -/

/-- The ends are at matching points of a transfer. -/
structure Cable.Sound (l : Cable) : Prop where
  target : l.target.Sound
  host : l.host.Sound
  joined : Joined nibbles l.target.side l.host.side

theorem Cable.sound_connected : Cable.connected.Sound where
  target := End.sound_connected
  host := End.sound_connected
  joined := ⟨.inl .rest, rfl, rfl⟩

variable {l l' : Cable} {op : Party × EndOp} {ops ops' : List (Party × EndOp)}

theorem Cable.Sound.step (h : l.Sound) (hC : Orderly l op) (hs : cableStep l op = some l') :
    l'.Sound := by
  obtain ⟨party, op⟩ := op
  cases party with
  | target =>
    obtain ⟨e, he, rfl⟩ := Option.map_eq_some_iff.mp hs
    obtain ⟨hsound, hside⟩ := End.step_side h.target h.host hC he
    exact ⟨hsound, h.host, h.joined.step hside⟩
  | host =>
    obtain ⟨e, he, rfl⟩ := Option.map_eq_some_iff.mp hs
    obtain ⟨hsound, hside⟩ := End.step_side h.host h.target hC he
    exact ⟨h.target, hsound, (h.joined.symm.step hside).symm⟩

theorem Run.cable_sound (hr : Run cableStep Orderly .connected ops l) : l.Sound :=
  hr.invariant (fun h hC hs => h.step hC hs) Cable.sound_connected

/-- `n` accesses of a party to its port. -/
def nexts (party : Party) (n : Nat) : List (Party × EndOp) := List.replicate n (party, .next)

/-- The kernel sends `A`. The debugger wants to send `b`, finds the line high, and reads `A` first;
the kernel reads `b`. -/
def exchange : List (Party × EndOp) :=
  (.target, .putDebugChar 0x41#8) :: nexts .target 2 ++
    (.host, .putDebugChar 0x62#8) :: nexts .host 4 ++ nexts .target 2 ++ nexts .host 2 ++
    nexts .target 1 ++ (.target, .getDebugChar) :: nexts .host 1 ++ nexts .target 4 ++
    nexts .host 2 ++ nexts .target 3 ++ nexts .host 1 ++ [(.host, .getDebugChar)]

/-- Two ends that have both found the line low take each other's first nibble for an answer. -/
example : (exec cableStep (fun _ _ => True) .connected
    ((.target, .putDebugChar 0x41#8) :: (.host, .putDebugChar 0x62#8) :: nexts .target 1 ++
      nexts .host 1 ++ nexts .target 1 ++ nexts .host 1 ++ nexts .target 3)).any
      (fun l => decide (l.target.sent = [0x41#8] ∧ l.host.received = [])) = true := by
  decide +kernel

/-! ## Progress -/

namespace End

variable {e e' e₁ : End}

/-- How many accesses to the port a call still does, if it need not wait. -/
def left (e : End) : Nat :=
  match e.phase with
  | .idle => 0
  | .delay _ | .release _ | .giveUp => 1
  | .storeHigh _ | .get none (.readHigh _) => 2
  | .waitAck _ | .get none (.waitHigh _) => 3
  | .store _ | .get none (.setD0 _) => 4
  | .get (some _) (.readHigh _) | .get none .readLow => 5
  | .get (some _) (.waitHigh _) | .get none .waitLow => 6
  | .get (some _) (.setD0 _) | .reset => 7
  | .get (some _) .readLow => 8
  | .get (some _) .waitLow => 9
  | .test _ => 10

theorem left_le (e : End) : e.left ≤ 10 := by
  unfold left
  split <;> omega

theorem left_next {shown : UChar} (hs : e.next shown = some e₁) : e₁.left < e.left := by
  obtain ⟨data, tmp, phase, buf, sent, got⟩ := e
  cases phase with
  | idle => cases hs
  | test ch =>
    cases hs
    cases ERROR shown <;> simp [left]
  | waitAck ch =>
    obtain ⟨-, hs⟩ := Option.ite_none_right_eq_some.mp hs
    cases hs
    simp [left]
  | get caller g =>
    cases g with
    | waitLow =>
      obtain ⟨-, hs⟩ := Option.ite_none_right_eq_some.mp hs
      cases hs
      cases caller <;> simp [left]
    | waitHigh low =>
      obtain ⟨-, hs⟩ := Option.ite_none_left_eq_some.mp hs
      cases hs
      cases caller <;> simp [left]
    | readLow | setD0 | readHigh =>
      cases hs
      cases caller <;> simp [left, returns]
  | store | storeHigh | delay | reset | release | giveUp =>
    cases hs
    simp [left]

/-- It waits for the other end to send. -/
def Waits (e : End) : Prop := e.phase = .get none .waitLow

/-- It has no room for the character that it is reading. -/
def Full (e : End) : Prop :=
  (∃ ch low, e.phase = .get (some ch) (.readHigh low)) ∧ ¬ e.buf.HasRoom

/-- Its next access to the port can be done. -/
def Goes (e e' : End) : Prop := e.orderly e' .next = true ∧ (e.next e'.data).isSome

/-- An end whose side need not wait goes on. -/
theorem goes_of_free (h' : e'.Sound) (hfree : e.role.Free e'.role) :
    e.phase = .idle ∨ e.Full ∨ e.Goes e' := by
  have hline : ERROR e'.data = e'.role.line := h'.pins.line
  obtain ⟨data, tmp, phase, buf, sent, got⟩ := e
  cases phase with
  | idle => exact .inl rfl
  | test ch =>
    -- the other line is high, and so it has been raised
    have hready : e'.ready = false := by
      refine Bool.eq_false_of_not_eq_true fun h => ?_
      obtain ⟨b, hb⟩ := ready_iff.mp h
      have hhigh : e'.role.line = true := hfree
      rw [hb] at hhigh
      exact Bool.false_ne_true hhigh
    exact .inr (.inr ⟨by simp [orderly, hready], rfl⟩)
  | get caller g =>
    cases g with
    | waitLow =>
      have he : ERROR e'.data = true := by cases caller <;> exact hline.trans hfree
      exact .inr (.inr ⟨by cases caller <;> rfl, by simp [next, he]⟩)
    | waitHigh low =>
      have he : ERROR e'.data = false := by cases caller <;> exact hline.trans hfree
      exact .inr (.inr ⟨by cases caller <;> rfl, by simp [next, he]⟩)
    | readHigh low =>
      cases caller with
      | none => exact .inr (.inr ⟨rfl, rfl⟩)
      | some ch =>
        by_cases hroom : buf.HasRoom
        · exact .inr (.inr ⟨decide_eq_true hroom, rfl⟩)
        · exact .inr (.inl ⟨⟨ch, low, rfl⟩, hroom⟩)
    | readLow | setD0 => exact .inr (.inr ⟨by cases caller <;> rfl, rfl⟩)
  | store ch => exact .inr (.inr ⟨rfl, rfl⟩)
  | waitAck ch =>
    have he : ERROR e'.data = true := hline.trans hfree
    exact .inr (.inr ⟨rfl, by simp [next, he]⟩)
  | storeHigh ch => exact .inr (.inr ⟨rfl, rfl⟩)
  | delay ch =>
    have hread : e'.receiving = false := (receiving_eq e').trans hfree
    exact .inr (.inr ⟨by simp [orderly, hread], rfl⟩)
  | reset | release | giveUp => exact .inr (.inr ⟨rfl, rfl⟩)

/-- At rest, an end is idle, waits for the other one, or goes on. -/
theorem goes_of_rest (hr : e.role = .rest) (hr' : e'.role = .rest) :
    e.phase = .idle ∨ e.Waits ∨ e.Goes e' := by
  have hready : e'.ready = false := by
    refine Bool.eq_false_of_not_eq_true fun h => ?_
    obtain ⟨b, hb⟩ := ready_iff.mp h
    cases hr'.symm.trans hb
  obtain ⟨data, tmp, phase, buf, sent, got⟩ := e
  cases phase with
  | idle => exact .inl rfl
  | test ch => exact .inr (.inr ⟨by simp [orderly, hready], rfl⟩)
  | reset | giveUp => exact .inr (.inr ⟨rfl, rfl⟩)
  | get caller g =>
    cases caller <;> cases g
    case none.waitLow => exact .inr (.inl rfl)
    all_goals cases hr
  | store ch =>
    rw [role_store] at hr
    split at hr <;> cases hr
  | _ => cases hr

end End

/-- No end goes on. -/
def Cable.Stuck (l : Cable) : Prop := ¬ l.target.Goes l.host ∧ ¬ l.host.Goes l.target

/-- There is nothing to be done before the next call: an end is idle, both wait for the other one,
or a buffer is full. -/
def Cable.Settled (l : Cable) : Prop :=
  l.target.phase = .idle ∨ l.host.phase = .idle ∨ l.target.Waits ∧ l.host.Waits ∨
    l.target.Full ∨ l.host.Full

theorem Cable.Sound.settled (h : l.Sound) (hstuck : l.Stuck) : l.Settled := by
  have hfree : (l.target.role = .rest ∧ l.host.role = .rest) ∨
      l.target.role.Free l.host.role ∨ l.host.role.Free l.target.role := by
    rcases h.joined.meets with hm | hm
    · exact hm.free
    · exact hm.free.imp And.symm Or.symm
  rcases hfree with ⟨ht, hh⟩ | ht | hh
  · rcases End.goes_of_rest ht hh with hidle | hwaits | hgoes
    · exact .inl hidle
    · rcases End.goes_of_rest hh ht with hidle | hwaits' | hgoes
      · exact .inr (.inl hidle)
      · exact .inr (.inr (.inl ⟨hwaits, hwaits'⟩))
      · exact (hstuck.2 hgoes).elim
    · exact (hstuck.1 hgoes).elim
  · rcases End.goes_of_free h.host ht with hidle | hfull | hgoes
    · exact .inl hidle
    · exact .inr (.inr (.inr (.inl hfull)))
    · exact (hstuck.1 hgoes).elim
  · rcases End.goes_of_free h.target hh with hidle | hfull | hgoes
    · exact .inr (.inl hidle)
    · exact .inr (.inr (.inr (.inr hfull)))
    · exact (hstuck.2 hgoes).elim

/-- The accesses to the ports that are left. -/
def Cable.left (l : Cable) : Nat := l.target.left + l.host.left

theorem Cable.left_step (hnext : op.2 = .next) (hs : cableStep l op = some l') :
    l'.left < l.left := by
  obtain ⟨party, op⟩ := op
  cases hnext
  cases party with
  | target =>
    obtain ⟨e, he, rfl⟩ := Option.map_eq_some_iff.mp hs
    exact Nat.add_lt_add_right (End.left_next he) _
  | host =>
    obtain ⟨e, he, rfl⟩ := Option.map_eq_some_iff.mp hs
    exact Nat.add_lt_add_left (End.left_next he) _

theorem Run.left_le (hr : Run cableStep Orderly l ops l') (hnext : ∀ op ∈ ops, op.2 = .next) :
    ops.length + l'.left ≤ l.left := by
  induction hr with
  | nil => exact Nat.le_of_eq (Nat.zero_add _)
  | cons _ hs _ ih =>
    have hlt := Cable.left_step (hnext _ (.head _)) hs
    have := ih fun op hop => hnext op (.tail _ hop)
    rw [List.length_cons]
    omega

/-- The debugger answers to the first nibble. -/
def halfway : List (Party × EndOp) := nexts .target 2 ++ nexts .host 4

end Alliance.Monitor
