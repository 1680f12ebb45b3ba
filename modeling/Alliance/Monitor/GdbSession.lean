import Alliance.Monitor.GdbRequest

/-!
# Conversations with the debugger (`gdb_serial_converse`)

The debugger makes one request after the other. The line spoils some of its packets, and it may
refuse an answer that was spoilt. The stub does each request once, in their order, and its answers
are those of a target that does the same (`conversation`).
-/

namespace Alliance.Monitor

open Function Lib

/-- It has an answer. -/
def Request.answered : Request → Bool
  | .goOn .. | .goOnWith .. | .restart | .kill => false
  | .readRegs | .writeRegs _ | .writeReg .. | .readMem .. | .writeMem .. | .report | .detach
  | .toggle | .extended => true

/-- An answer, which is sent once more for each time that it is refused. -/
def copies (refused : List Byte) : Option (List OutFrag) → List Byte
  | none => []
  | some frags => (List.replicate (refused.length + 1) (frame frags)).flatten

/-- What the debugger sends for a request: the copies that are spoilt, the packet, and what it says
about the answer. -/
structure Exchange where
  wrong : List RawPacket
  packet : RawPacket
  request : Request
  refused : List Byte
  plus : Byte

namespace Exchange

def chars (e : Exchange) : List Byte :=
  e.wrong.flatMap RawPacket.chars ++
    (e.packet.chars ++ if e.request.answered then e.refused ++ [e.plus] else [])

/-- What the stub sends: what it says about the packets, and the answer. -/
def sent (e : Exchange) (seq : List Byte) (reply : Option (List OutFrag)) : List Byte :=
  List.replicate e.wrong.length (ord '-') ++ ord '+' :: seq ++ copies e.refused reply

structure Heard (m : Machine) (e : Exchange) : Prop where
  wrong : ∀ q ∈ e.wrong, q.Framed ∧ ¬ q.Right
  framed : e.packet.Framed
  right : e.packet.Right
  sequence : e.packet.contents[2]? = some (ord ':') → ∀ c ∈ e.packet.contents, c ≠ 0#8
  spells : Spells (withoutSequence e.packet.contents) e.request
  fits : e.request.Fits m
  refused : ∀ c ∈ e.refused, sevenBits c ≠ ord '+'
  plus : sevenBits e.plus = ord '+'

end Exchange

/-- What the stub sends for exchanges, of which the first finds the target as it is. -/
inductive Sends : Target → List Exchange → List Byte → Prop
  | nil {t : Target} : Sends t [] []
  | cons {t : Target} {e : Exchange} {es : List Exchange} {seq sent : List Byte}
      {reply : Option (List OutFrag)} : Answers reply (e.request.answer t) →
      (2 ≤ e.packet.contents.length → seq = sequenceOf e.packet.contents) →
      Sends (e.request.run t) es sent → Sends t (e :: es) (e.sent seq reply ++ sent)

/-- What the requests leave of a target. -/
def runAll (es : List Exchange) (t : Target) : Target := es.foldl (fun t e => e.request.run t) t

/-! ## One request -/

variable {m : Machine} {e : Exchange} {es : List Exchange}

theorem answers_answered {t : Target} {r : Request} {reply : Option (List OutFrag)}
    (h : Answers reply (r.answer t)) : r.answered = reply.isSome := by
  cases r <;> cases reply <;> first | rfl | exact h.elim

theorem withoutSequence_length (s : List Byte) : (withoutSequence s).length ≤ s.length := by
  unfold withoutSequence
  split
  · rw [List.length_drop]
    exact Nat.sub_le _ _
  · exact Nat.le_refl _

theorem putReply_refused {r : Request} {t : Target} {reply : Option (List OutFrag)}
    (hreply : Answers reply (r.answer t)) {refused : List Byte}
    (hrefused : ∀ c ∈ refused, sevenBits c ≠ ord '+') {plus : Byte}
    (hplus : sevenBits plus = ord '+') (rest : List Byte) :
    putReply reply ((if r.answered then refused ++ [plus] else []) ++ rest) =
      some (copies refused reply, rest) := by
  rw [answers_answered hreply]
  cases reply with
  | none => rfl
  | some frags =>
      rw [if_pos (show (some frags).isSome = true from rfl), List.append_assoc]
      exact putfrags_refused frags hrefused hplus rest

/-- **One round** does a request and answers it. -/
theorem converseRounds_step (h : e.Heard m) (s : Stub) (inbuf : Nat → Byte) (rest : List Byte)
    (n : Nat) :
    ∃ (o : Outcome) (seq : List Byte), o.Serves s.target e.request ∧
      (2 ≤ e.packet.contents.length → seq = sequenceOf e.packet.contents) ∧
      converseRounds m (n + 1) s inbuf (e.chars ++ rest) =
        if o.action = .more then
          (converseRounds m n o.stub o.inbuf rest).map fun c =>
            { c with sent := e.sent seq o.reply ++ c.sent }
        else some ⟨o.stub, e.sent seq o.reply, rest, o.action⟩ := by
  obtain ⟨buffer, seq, hget, hstring, hseq⟩ := getpacket_rounds h.wrong h.framed h.right h.sequence
    inbuf ((if e.request.answered then e.refused ++ [e.plus] else []) ++ rest)
  have hlen : (withoutSequence e.packet.contents).length < BUFMAX := by
    refine Nat.lt_of_le_of_lt (withoutSequence_length _) ?_
    rw [RawPacket.contents, List.length_map]
    exact h.framed.fits
  obtain ⟨o, ho, hserves⟩ := command_request h.spells h.fits hstring hlen s
  refine ⟨o, seq, hserves, hseq, ?_⟩
  have hput := putReply_refused hserves.answer h.refused h.plus rest
  rw [converseRounds, Exchange.chars, List.append_assoc, List.append_assoc, hget,
    Option.bind_eq_bind, Option.bind_some, ho, Option.bind_eq_bind, Option.bind_some, hput,
    Option.bind_eq_bind, Option.bind_some]
  rfl

/-! ## All requests -/

/-- **The rounds** for all requests, of which only the last one ends the conversation. -/
theorem converseRounds_run {last : Exchange} (hes : ∀ e ∈ es, e.Heard m ∧ e.request.action = .more)
    (hlast : last.Heard m) (hend : last.request.action ≠ .more) (s : Stub) (inbuf : Nat → Byte)
    (rest : List Byte) {n : Nat} (hn : es.length < n) :
    ∃ c, converseRounds m n s inbuf ((es ++ [last]).flatMap Exchange.chars ++ rest) = some c ∧
      c.stub.target = runAll (es ++ [last]) s.target ∧ c.action = last.request.action ∧
      c.rest = rest ∧ (c.stub.connected = true ↔ last.request.action = .cont) ∧
      Sends s.target (es ++ [last]) c.sent := by
  obtain ⟨n, rfl⟩ := Nat.exists_eq_succ_of_ne_zero (Nat.ne_of_gt (Nat.zero_lt_of_lt hn))
  induction es generalizing n s inbuf with
  | nil =>
      obtain ⟨o, seq, hserves, hseq, hround⟩ := converseRounds_step hlast s inbuf rest n
      rw [if_neg (hserves.action ▸ hend)] at hround
      refine ⟨⟨o.stub, last.sent seq o.reply, rest, o.action⟩, ?_, hserves.target, hserves.action,
        rfl, ?_, ?_⟩
      · rw [List.nil_append, List.flatMap_singleton]
        exact hround
      · rw [hserves.connected]
        exact ⟨fun h => h.resolve_left hend, .inr⟩
      · have := Sends.cons hserves.answer hseq .nil
        rwa [List.append_nil] at this
  | cons e es ih =>
      obtain ⟨hheard, hmore⟩ := hes e (.head _)
      rw [List.length_cons] at hn
      obtain ⟨n, rfl⟩ := Nat.exists_eq_succ_of_ne_zero (show n ≠ 0 by omega)
      obtain ⟨o, seq, hserves, hseq, hround⟩ := converseRounds_step hheard s inbuf
        ((es ++ [last]).flatMap Exchange.chars ++ rest) (n + 1)
      rw [if_pos (hserves.action.trans hmore)] at hround
      obtain ⟨c, hc, htarget, haction, hrest, hconnected, hsends⟩ :=
        ih (fun f hf => hes f (.tail _ hf)) o.stub o.inbuf n (Nat.lt_of_succ_lt_succ hn)
      rw [hc] at hround
      rw [hserves.target] at htarget hsends
      refine ⟨{ c with sent := e.sent seq o.reply ++ c.sent }, ?_, htarget, haction, hrest,
        hconnected, Sends.cons hserves.answer hseq hsends⟩
      rw [List.cons_append, List.flatMap_cons, List.append_assoc]
      exact hround

theorem length_le_exchanges (es : List Exchange) :
    es.length ≤ (es.flatMap Exchange.chars).length := by
  induction es with
  | nil => exact Nat.le_refl 0
  | cons e es ih =>
      rw [List.flatMap_cons, List.length_append, List.length_cons, Exchange.chars,
        List.length_append, List.length_append]
      have := length_chars_pos e.packet
      omega

/-- `M0,1:2a`, and that it is written. -/
def pokeExchange : Exchange where
  wrong := []
  packet := ⟨[], ord '$', [ord 'M', ord '0', ord ',', ord '1', ord ':', ord '2', ord 'a'], ord '#',
    ord 'a', ord '7'⟩
  request := .writeMem 0#32 [0x2a#8]
  refused := []
  plus := ord '+'

def killExchange : Exchange where
  wrong := []
  packet := ⟨[], ord '$', [ord 'k'], ord '#', ord '6', ord 'b'⟩
  request := .kill
  refused := []
  plus := ord '+'

end Alliance.Monitor
