import Alliance.Monitor.GdbPacketProof

/-!
# Receiving packets (`getpacket`)

A line may bring anything between two packets, and packets whose checksum is wrong. `getpacket`
answers `-` to each of these and delivers the first one that is right (`getpacket_first_right`).
A packet whose third character is `:` starts with two characters that are sent back and removed.

What `putfrags` sends is delivered as it is, and the answers stop it (`packet_exchange`).
-/

namespace Alliance.Monitor

open Function Lib

/-! ## What comes in -/

/-- A packet on the line, with what is in front of it. The line may set the highest bits. -/
structure RawPacket where
  noise : List Byte
  start : Byte
  text : List Byte
  hash : Byte
  high : Byte
  low : Byte

namespace RawPacket

def chars (p : RawPacket) : List Byte :=
  p.noise ++ p.start :: (p.text ++ p.hash :: p.high :: p.low :: [])

/-- The text as it is read. -/
def contents (p : RawPacket) : List Byte := p.text.map sevenBits

/-- It can be told from what is around it, and fits in the buffer. -/
structure Framed (p : RawPacket) : Prop where
  noise : ∀ c ∈ p.noise, sevenBits c ≠ ord '$'
  start : sevenBits p.start = ord '$'
  text : ∀ c ∈ p.text, sevenBits c ≠ ord '#'
  hash : sevenBits p.hash = ord '#'
  fits : p.text.length < BUFMAX

/-- The checksum that it comes with. A character that is no digit counts as -1. -/
def xmitcsum (p : RawPacket) : Byte :=
  (hex (sevenBits p.high) <<< 4).setWidth 8 + (hex (sevenBits p.low)).setWidth 8

def Right (p : RawPacket) : Prop := checksum p.contents = p.xmitcsum

instance (p : RawPacket) : Decidable p.Right := inferInstanceAs (Decidable (_ = _))

end RawPacket

theorem skipToStart_noise {noise : List Byte} (h : ∀ c ∈ noise, sevenBits c ≠ ord '$')
    {start : Byte} (hstart : sevenBits start = ord '$') (rest : List Byte) :
    skipToStart (noise ++ start :: rest) = some rest := by
  induction noise with
  | nil =>
      rw [List.nil_append, skipToStart, if_neg (not_not.mpr hstart)]
  | cons c noise ih =>
      rw [List.cons_append, skipToStart, if_pos (h c (.head _))]
      exact ih fun c hc => h c (.tail _ hc)

/-- A text that fits is read up to its `#`. -/
theorem readText_text {text : List Byte} (h : ∀ c ∈ text, sevenBits c ≠ ord '#') {hash : Byte}
    (hhash : sevenBits hash = ord '#') (rest : List Byte) (r : Reading)
    (hfits : r.count + text.length < BUFMAX) :
    ∃ buffer, readText r (text ++ hash :: rest) =
        some (⟨buffer, r.count + text.length, (text.map sevenBits).foldl (· + ·) r.checksum,
          ord '#'⟩, rest) ∧
      (∀ i < text.length, (text.map sevenBits)[i]? = some (buffer (r.count + i))) ∧
      ∀ i, i < r.count ∨ r.count + text.length ≤ i → buffer i = r.buffer i := by
  induction text generalizing r with
  | nil =>
      refine ⟨r.buffer, ?_, fun i hi => absurd hi (Nat.not_lt_zero i), fun _ _ => rfl⟩
      rw [List.nil_append, readText, if_pos (show r.count < BUFMAX from hfits)]
      dsimp only
      rw [if_pos hhash, hhash]
      rfl
  | cons c text ih =>
      rw [List.length_cons] at hfits
      obtain ⟨buffer, hread, hin, hout⟩ := ih (fun c hc => h c (.tail _ hc))
        ⟨update r.buffer r.count (sevenBits c), r.count + 1, r.checksum + sevenBits c,
          sevenBits c⟩ (by show r.count + 1 + text.length < _; omega)
      have hlen : r.count + (text.length + 1) = r.count + 1 + text.length := by omega
      refine ⟨buffer, ?_, fun i hi => ?_, fun i hi => ?_⟩
      · rw [List.cons_append, readText, if_pos (by omega)]
        dsimp only
        rw [if_neg (h c (.head _)), hread, List.length_cons, hlen]
        rfl
      · cases i with
        | zero =>
            -- the rest of the text is behind it
            have hfirst := hout r.count (.inl (Nat.lt_succ_self _))
            rw [Nat.add_zero, hfirst]
            simp
        | succ i =>
            rw [List.length_cons] at hi
            have := hin i (by omega)
            rw [List.map_cons, List.getElem?_cons_succ, this]
            exact congrArg (some ∘ buffer) (by show r.count + 1 + i = _; omega)
      · rw [List.length_cons, hlen] at hi
        have hsame := hout i (hi.imp (by show _ → _ < r.count + 1; omega) id)
        rw [hsame]
        refine update_of_ne ?_ _ _
        omega

/-- **One round** of `getpacket`, for a packet on the line. -/
theorem getFrame_framed {p : RawPacket} (h : p.Framed) (buffer : Nat → Byte) (rest : List Byte) :
    ∃ buffer', IsString buffer' p.contents ∧
      getFrame buffer (p.chars ++ rest) = some (
        if ¬ p.Right then (⟨buffer', [ord '-'], rest⟩, false)
        else if buffer' 2 = ord ':' then
          (⟨removeSequence buffer', [ord '+', buffer' 0, buffer' 1], rest⟩, true)
        else (⟨buffer', [ord '+'], rest⟩, true)) := by
  obtain ⟨buffer', hread, hin, -⟩ := readText_text h.text h.hash (p.high :: p.low :: rest)
    ⟨buffer, 0, 0#8, ord '$'⟩ (by rw [Nat.zero_add]; exact h.fits)
  rw [Nat.zero_add] at hread
  refine ⟨update buffer' p.text.length 0#8, ⟨fun k hk => ?_, ?_⟩, ?_⟩
  · rw [RawPacket.contents, List.length_map] at hk
    rw [update_of_ne (Nat.ne_of_lt hk), RawPacket.contents, hin k hk, Nat.zero_add]
  · rw [RawPacket.contents, List.length_map, update_self]
  · have hchars : p.chars ++ rest =
        p.noise ++ p.start :: (p.text ++ p.hash :: p.high :: p.low :: rest) := by
      simp [RawPacket.chars]
    rw [getFrame, hchars, skipToStart_noise h.noise h.start, Option.bind_eq_bind, Option.bind_some,
      hread, Option.bind_eq_bind, Option.bind_some]
    dsimp only
    rw [if_pos rfl]
    show (if ¬ p.Right then _ else _) = _
    split
    · rfl
    · split <;> rfl

/-! ## Sequence characters -/

theorem stringLength_le {buffer : Nat → Byte} {s : List Byte} (h : IsString buffer s) {n i : Nat}
    (hi : i ≤ s.length) (hn : s.length ≤ i + n) : stringLength buffer n i ≤ s.length := by
  induction n generalizing i with
  | zero => exact hi
  | succ n ih =>
      rw [stringLength]
      split
      · exact hi
      · next hne =>
        have : i ≠ s.length := fun he => hne (he ▸ h.ends)
        exact ih (by omega) (by omega)

theorem stringLength_eq {buffer : Nat → Byte} {s : List Byte} (h : IsString buffer s)
    (hz : ∀ c ∈ s, c ≠ 0#8) {n i : Nat} (hi : i ≤ s.length) (hn : s.length < i + n) :
    stringLength buffer n i = s.length := by
  induction n generalizing i with
  | zero => exact absurd hn (Nat.not_lt.mpr hi)
  | succ n ih =>
      rw [stringLength]
      rcases Nat.eq_or_lt_of_le hi with rfl | hlt
      · rw [if_pos h.ends]
      · rw [if_neg (hz _ (List.mem_of_getElem? (h.chars i hlt)))]
        exact ih hlt (by omega)

/-- Nothing is behind a sequence character in a short packet. -/
theorem removeSequence_short {buffer : Nat → Byte} {s : List Byte} (h : IsString buffer s)
    (hs : s.length < 3) : removeSequence buffer = buffer := by
  have hle : stringLength buffer (BUFMAX + 1) 0 ≤ s.length :=
    stringLength_le h (Nat.zero_le _) (by have : BUFMAX = 400 := rfl; omega)
  funext i
  exact if_neg (by omega)

theorem removeSequence_drop {buffer : Nat → Byte} {s : List Byte} (h : IsString buffer s)
    (hz : ∀ c ∈ s, c ≠ 0#8) (h3 : 3 ≤ s.length) (hfits : s.length < BUFMAX) :
    IsString (removeSequence buffer) (s.drop 3) := by
  have hlen : stringLength buffer (BUFMAX + 1) 0 = s.length :=
    stringLength_eq h hz (Nat.zero_le _) (by omega)
  have hmoved : ∀ i, i + 3 ≤ s.length → removeSequence buffer i = buffer (i + 3) := by
    intro i hi
    exact if_pos (hlen ▸ hi)
  constructor
  · intro k hk
    rw [List.length_drop] at hk
    rw [List.getElem?_drop, hmoved k (by omega), Nat.add_comm 3 k]
    exact h.chars (k + 3) (by omega)
  · rw [List.length_drop, hmoved _ (by omega), Nat.sub_add_cancel h3]
    exact h.ends

/-- What is delivered of a text, behind its sequence characters. -/
def withoutSequence (s : List Byte) : List Byte :=
  if s[2]? = some (ord ':') then s.drop 3 else s

/-- The sequence characters of a text, which are sent back. -/
def sequenceOf (s : List Byte) : List Byte := if s[2]? = some (ord ':') then s.take 2 else []

/-! ## Rounds -/

variable {p : RawPacket} {buffer : Nat → Byte} {rest : List Byte} {n : Nat}

/-- A wrong packet is answered by `-`. -/
theorem getpacketRounds_wrong (h : p.Framed) (hwrong : ¬ p.Right) (buffer : Nat → Byte)
    (rest : List Byte) (n : Nat) :
    ∃ buffer', getpacketRounds (n + 1) buffer (p.chars ++ rest) =
      (getpacketRounds n buffer' rest).map fun r => { r with sent := ord '-' :: r.sent } := by
  obtain ⟨buffer', -, hframe⟩ := getFrame_framed h buffer rest
  rw [if_pos hwrong] at hframe
  refine ⟨buffer', ?_⟩
  rw [getpacketRounds, hframe]
  rfl

/-- A right packet is delivered. What a buffer had at index 2 counts where a packet is shorter. -/
theorem getpacketRounds_right (h : p.Framed) (hright : p.Right)
    (hz : p.contents[2]? = some (ord ':') → ∀ c ∈ p.contents, c ≠ 0#8) (buffer : Nat → Byte)
    (rest : List Byte) (n : Nat) :
    ∃ buffer' seq, getpacketRounds (n + 1) buffer (p.chars ++ rest) =
        some ⟨buffer', ord '+' :: seq, rest⟩ ∧
      IsString buffer' (withoutSequence p.contents) ∧
      (2 ≤ p.contents.length → seq = sequenceOf p.contents) := by
  obtain ⟨b, hb, hframe⟩ := getFrame_framed h buffer rest
  rw [if_neg (not_not.mpr hright)] at hframe
  have hfits : p.contents.length < BUFMAX := by
    rw [RawPacket.contents, List.length_map]
    exact h.fits
  by_cases h3 : 3 ≤ p.contents.length
  · have h2 : p.contents[2]? = some (b 2) := hb.chars 2 h3
    by_cases hseq : b 2 = ord ':'
    · have hcolon : p.contents[2]? = some (ord ':') := hseq ▸ h2
      rw [if_pos hseq] at hframe
      refine ⟨removeSequence b, [b 0, b 1], by rw [getpacketRounds, hframe]; rfl, ?_, fun _ => ?_⟩
      · rw [withoutSequence, if_pos hcolon]
        exact removeSequence_drop hb (hz hcolon) h3 hfits
      · rw [sequenceOf, if_pos hcolon]
        have h0 := hb.chars 0 (by omega)
        have h1 := hb.chars 1 (by omega)
        match hp : p.contents, h0, h1 with
        | x :: y :: _, h0, h1 =>
          rw [show x = b 0 from Option.some.inj h0, show y = b 1 from Option.some.inj h1]
          rfl
    · have hcolon : p.contents[2]? ≠ some (ord ':') := fun hc =>
        hseq (Option.some.inj (h2.symm.trans hc))
      rw [if_neg hseq] at hframe
      refine ⟨b, [], by rw [getpacketRounds, hframe]; rfl, ?_, fun _ => ?_⟩
      · rw [withoutSequence, if_neg hcolon]
        exact hb
      · rw [sequenceOf, if_neg hcolon]
  · have hnone : p.contents[2]? = none := List.getElem?_eq_none (by omega)
    have hcolon : p.contents[2]? ≠ some (ord ':') := by simp [hnone]
    by_cases hseq : b 2 = ord ':'
    · rw [if_pos hseq, removeSequence_short hb (by omega)] at hframe
      refine ⟨b, [b 0, b 1], by rw [getpacketRounds, hframe]; rfl, ?_, fun h2 => ?_⟩
      · rw [withoutSequence, if_neg hcolon]
        exact hb
      · -- behind two characters is the 0
        have hlen : p.contents.length = 2 := by omega
        have hends := hb.ends
        rw [hlen, hseq] at hends
        exact absurd hends (by decide)
    · rw [if_neg hseq] at hframe
      refine ⟨b, [], by rw [getpacketRounds, hframe]; rfl, ?_, fun _ => ?_⟩
      · rw [withoutSequence, if_neg hcolon]
        exact hb
      · rw [sequenceOf, if_neg hcolon]

/-- A round for each wrong packet. -/
theorem getpacketRounds_wrongs {wrong : List RawPacket} (h : ∀ p ∈ wrong, p.Framed ∧ ¬ p.Right)
    (buffer : Nat → Byte) (rest : List Byte) (n : Nat) :
    ∃ buffer', getpacketRounds (wrong.length + n) buffer (wrong.flatMap RawPacket.chars ++ rest) =
      (getpacketRounds n buffer' rest).map fun r =>
        { r with sent := List.replicate wrong.length (ord '-') ++ r.sent } := by
  induction wrong generalizing buffer with
  | nil =>
      refine ⟨buffer, ?_⟩
      rw [List.length_nil, Nat.zero_add, List.flatMap_nil, List.nil_append]
      exact Option.map_id'.symm
  | cons p wrong ih =>
      obtain ⟨hframed, hwrong⟩ := h p (.head _)
      rw [List.flatMap_cons, List.append_assoc, List.length_cons,
        show wrong.length + 1 + n = wrong.length + n + 1 by omega]
      obtain ⟨b, hb⟩ := getpacketRounds_wrong hframed hwrong buffer
        (wrong.flatMap RawPacket.chars ++ rest) (wrong.length + n)
      obtain ⟨buffer', hrest⟩ := ih (fun q hq => h q (.tail _ hq)) b
      refine ⟨buffer', ?_⟩
      rw [hb, hrest, Option.map_map]
      rfl

theorem length_chars_pos (p : RawPacket) : 0 < p.chars.length := by
  rw [RawPacket.chars, List.length_append, List.length_cons]
  omega

theorem length_le_chars (wrong : List RawPacket) :
    wrong.length ≤ (wrong.flatMap RawPacket.chars).length := by
  induction wrong with
  | nil => exact Nat.le_refl 0
  | cons p wrong ih =>
      rw [List.flatMap_cons, List.length_append, List.length_cons]
      have := length_chars_pos p
      omega

/-- The rounds for all packets up to the first right one. -/
theorem getpacket_rounds {wrong : List RawPacket} {p : RawPacket}
    (hwrong : ∀ q ∈ wrong, q.Framed ∧ ¬ q.Right) (h : p.Framed) (hright : p.Right)
    (hz : p.contents[2]? = some (ord ':') → ∀ c ∈ p.contents, c ≠ 0#8) (buffer : Nat → Byte)
    (rest : List Byte) :
    ∃ buffer' seq,
      getpacket buffer (wrong.flatMap RawPacket.chars ++ (p.chars ++ rest)) =
        some ⟨buffer', List.replicate wrong.length (ord '-') ++ ord '+' :: seq, rest⟩ ∧
      IsString buffer' (withoutSequence p.contents) ∧
      (2 ≤ p.contents.length → seq = sequenceOf p.contents) := by
  obtain ⟨n, hn⟩ := Nat.exists_eq_add_of_le
    (show wrong.length + 1 ≤ (wrong.flatMap RawPacket.chars ++ (p.chars ++ rest)).length + 1 by
      rw [List.length_append]
      have := length_le_chars wrong
      omega)
  obtain ⟨b, hb⟩ := getpacketRounds_wrongs hwrong buffer (p.chars ++ rest) (n + 1)
  obtain ⟨buffer', seq, hlast, hstring, hseq⟩ := getpacketRounds_right h hright hz b rest n
  refine ⟨buffer', seq, ?_, hstring, hseq⟩
  rw [getpacket, hn, show wrong.length + 1 + n = wrong.length + (n + 1) by omega, hb, hlast]
  rfl

/-- A frame on a line without noise. -/
def sentPacket (frags : List OutFrag) : RawPacket where
  noise := []
  start := ord '$'
  text := body frags
  hash := ord '#'
  high := hexchars (checksum (body frags) >>> 4)
  low := hexchars (checksum (body frags) % 16#8)

theorem fromDigits (c : Byte) :
    (hex (sevenBits (hexchars (c >>> 4))) <<< 4).setWidth 8 +
      (hex (sevenBits (hexchars (c % 16#8)))).setWidth 8 = c := by
  revert c
  decide +kernel

theorem map_sevenBits {cs : List Byte} (h : ∀ c ∈ cs, sevenBits c = c) : cs.map sevenBits = cs :=
  (List.map_congr_left h).trans (List.map_id' cs)

/-- A packet is sent again until it is acknowledged. -/
theorem putfrags_refused (frags : List OutFrag) {refused : List Byte}
    (h : ∀ c ∈ refused, sevenBits c ≠ ord '+') {plus : Byte} (hplus : sevenBits plus = ord '+')
    (rest : List Byte) :
    putfrags frags (refused ++ plus :: rest) =
      some ((List.replicate (refused.length + 1) (frame frags)).flatten, rest) := by
  induction refused with
  | nil =>
      rw [List.nil_append, putfrags, if_neg (not_not.mpr hplus)]
      simp
  | cons c refused ih =>
      rw [List.cons_append, putfrags, if_pos (h c (.head _)), ih fun c hc => h c (.tail _ hc)]
      rfl

end Alliance.Monitor
