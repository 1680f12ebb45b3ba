import Alliance.Lib.Fill
import Alliance.Monitor.GdbReceive
import Alliance.Monitor.GdbStub

/-!
# What the debugger's commands do (`gdb_serial_converse`)

A `Request` is what the debugger wants, of a target that is nothing but registers and memory, and
`Spells` is how it is written: numbers and bytes in hexadecimal digits, of either case. The stub
does what the request says, and answers what it says (`command_request`).
-/

namespace Alliance.Monitor

open Function Lib

/-! ## Text in an array -/

/-- `cs` stands at `p` in `str`. -/
def At (str : Nat → Byte) (p : Nat) (cs : List Byte) : Prop :=
  ∀ i < cs.length, cs[i]? = some (str (p + i))

section At

variable {str : Nat → Byte} {p : Nat} {c : Byte} {cs ds : List Byte}

theorem at_zero (h : IsString str cs) : At str 0 cs := by
  intro i hi
  rw [Nat.zero_add]
  exact h.chars i hi

theorem At.head (h : At str p (c :: cs)) : str p = c :=
  (Option.some.inj (h 0 (Nat.succ_pos _))).symm

theorem At.tail (h : At str p (c :: cs)) : At str (p + 1) cs := by
  intro i hi
  have := h (i + 1) (Nat.succ_lt_succ hi)
  rwa [List.getElem?_cons_succ, show p + (i + 1) = p + 1 + i by omega] at this

theorem At.left (h : At str p (cs ++ ds)) : At str p cs := by
  intro i hi
  rw [← h i (by rw [List.length_append]; omega), List.getElem?_append_left hi]

theorem At.right (h : At str p (cs ++ ds)) : At str (p + cs.length) ds := by
  intro i hi
  have := h (cs.length + i) (by rw [List.length_append]; omega)
  rwa [List.getElem?_append_right (Nat.le_add_right _ _), Nat.add_sub_cancel_left,
    ← Nat.add_assoc] at this

end At

/-! ## Digits -/

/-- A hexadecimal digit. -/
def IsHex (c : Byte) : Prop := (hex c).msb = false

instance (c : Byte) : Decidable (IsHex c) := inferInstanceAs (Decidable (_ = _))

/-- The value of some digits, of which the last eight count. -/
def valueFrom (v : CInt) (ds : List Byte) : CInt :=
  ds.foldl (fun v d => (v <<< 4) ||| hex d) v

/-- `ds` is a number. -/
structure Number (ds : List Byte) (v : CInt) : Prop where
  some_digit : ds ≠ []
  digits : ∀ d ∈ ds, IsHex d
  value : valueFrom 0#32 ds = v

/-- Two digits for each byte. -/
inductive HexOf : List Byte → List Byte → Prop
  | nil : HexOf [] []
  | cons {a b : Byte} {ds bs : List Byte} : IsHex a → IsHex b → HexOf ds bs →
      HexOf (a :: b :: ds) (((hex a <<< 4) ||| hex b).setWidth 8 :: bs)

theorem IsHex.ne_zero {c : Byte} (h : IsHex c) : c ≠ 0#8 := by
  rintro rfl
  exact absurd h (by decide)

theorem hex_bounds {c : Byte} (h : IsHex c) : hex c ≤ 0xf#32 := by
  unfold IsHex at h
  revert h
  revert c
  decide +kernel

/-- Two digits are a byte. -/
theorem hex_pair_msb {a b : Byte} (ha : IsHex a) (hb : IsHex b) :
    ((hex a <<< 4) ||| hex b).msb = false := by
  have hb' : (hex b).msb = false := hb
  have hle := BitVec.le_def.mp (hex_bounds ha)
  have h15 : (0xf#32).toNat = 15 := rfl
  rw [BitVec.msb_or, hb', Bool.or_false, BitVec.msb_eq_false_iff_two_mul_lt,
    BitVec.toNat_shiftLeft, Nat.shiftLeft_eq, Nat.mod_eq_of_lt (by omega)]
  omega

theorem hex2intFrom_digits {str : Nat → Byte} {ds : List Byte} {n p : Nat} {v : CInt}
    (h : At str p ds) (hd : ∀ d ∈ ds, IsHex d) (hend : ¬ IsHex (str (p + ds.length)))
    (hn : ds.length < n) : hex2intFrom str n p v = (valueFrom v ds, p + ds.length) := by
  induction ds generalizing n p v with
  | nil =>
      obtain ⟨n, rfl⟩ := Nat.exists_eq_succ_of_ne_zero (Nat.ne_of_gt hn)
      rw [hex2intFrom]
      split
      · rfl
      · exact if_neg hend
  | cons d ds ih =>
      obtain ⟨n, rfl⟩ := Nat.exists_eq_succ_of_ne_zero (Nat.ne_of_gt (Nat.zero_lt_of_lt hn))
      have hdigit : IsHex (str p) := h.head ▸ hd d (.head _)
      rw [List.length_cons] at hn hend
      have hlen : p + (ds.length + 1) = p + 1 + ds.length := by omega
      rw [hlen] at hend
      rw [hex2intFrom, if_neg hdigit.ne_zero, if_pos (show (hex (str p)).msb = false from hdigit),
        ih h.tail (fun d hd' => hd d (.tail _ hd')) hend (Nat.lt_of_succ_lt_succ hn), h.head,
        List.length_cons, hlen]
      rfl

/-- **A number is read**, up to the first character that is no digit. -/
theorem hex2int_number {str : Nat → Byte} {ds : List Byte} {p : Nat} {v : CInt}
    (hds : Number ds v) (h : At str p ds) (hend : ¬ IsHex (str (p + ds.length)))
    (hlen : ds.length ≤ BUFMAX) : hex2int str p = (v, p + ds.length) := by
  rw [hex2int, hex2intFrom_digits h hds.digits hend (Nat.lt_succ_of_le hlen), hds.value]

theorem HexOf.length {ds bs : List Byte} (h : HexOf ds bs) : ds.length = 2 * bs.length := by
  induction h with
  | nil => rfl
  | cons _ _ _ ih =>
      rw [List.length_cons, List.length_cons, List.length_cons, ih]
      omega

/-- The first cell first. -/
theorem fill_cons (o n : Nat) (f mem : Nat → Byte) :
    fill o (n + 1) f mem = fill (o + 1) n (fun i => f (i + 1)) (update mem o (f 0)) := by
  rw [fill, fill, List.range_succ_eq_map, List.foldl_cons, List.foldl_map]
  congr 1
  funext mem i
  rw [show o + Nat.succ i = o + 1 + i by omega]

/-- **Bytes are read**, however they are written. -/
theorem hex2bin_hexOf {str : Nat → Byte} {ds bs : List Byte} {p : Nat} (hds : HexOf ds bs)
    (h : At str p ds) (out : Nat → Byte) (o : Nat) :
    hex2bin str p out o bs.length = (fill o bs.length (fun i => bs.getD i 0#8) out, true) := by
  induction hds generalizing p out o with
  | nil => rfl
  | @cons a b ds bs ha hb _ ih =>
      rw [List.length_cons, hex2bin, h.head, h.tail.head, hex_pair_msb ha hb,
        if_neg Bool.false_ne_true, ih h.tail.tail, fill_cons]
      rfl

/-! ## Copies that do not fault -/

theorem range_units (k : Nat) :
    ((List.range k).flatMap fun j => (List.range 4).map (4 * j + ·)) = List.range (4 * k) := by
  induction k with
  | zero => rfl
  | succ k ih =>
      have hsplit : List.range (k + 1) = List.range k ++ [k] := List.range_succ
      rw [hsplit, List.flatMap_append, ih, List.flatMap_singleton, Nat.mul_succ, List.range_add]

/-- The units cover what is copied, in its order. -/
theorem flatMap_units (size : Nat) :
    ((units size).flatMap fun u => (List.range u.2).map (u.1 + ·)) = List.range size := by
  have hlast : ((List.range (size % 4)).flatMap fun k => (List.range 1).map
      (size / 4 * 4 + k + ·)) = (List.range (size % 4)).map (4 * (size / 4) + ·) := by
    rw [List.map_eq_flatMap]
    refine List.flatMap_congr fun k _ => ?_
    show [size / 4 * 4 + k + 0] = _
    rw [Nat.add_zero, Nat.mul_comm]
  rw [units, List.flatMap_append, List.flatMap_map, List.flatMap_map, range_units, hlast,
    ← List.range_add, Nat.div_add_mod]

theorem copyUnits_ok {σ : Type} {ok : Nat → Bool} {copy : σ → Nat → σ} {us : List (Nat × Nat)}
    (h : ∀ u ∈ us, ∀ i < u.2, ok (u.1 + i) = true) (s : σ) :
    copyUnits ok copy us s =
      ((us.flatMap fun u => (List.range u.2).map (u.1 + ·)).foldl copy s, true) := by
  induction us generalizing s with
  | nil => rfl
  | cons u us ih =>
      have hall : ((List.range u.2).all fun i => ok (u.1 + i)) = true :=
        List.all_eq_true.mpr fun i hi => h u (.head _) i (List.mem_range.mp hi)
      rw [copyUnits, if_pos hall, ih fun v hv => h v (.tail _ hv), List.flatMap_cons,
        List.foldl_append, List.foldl_map]

/-- A copy without a fault copies all, one cell after the other. -/
theorem copyUnits_units {σ : Type} {ok : Nat → Bool} {copy : σ → Nat → σ} {size : Nat}
    (h : ∀ i < size, ok i = true) (s : σ) :
    copyUnits ok copy (units size) s = ((List.range size).foldl copy s, true) := by
  rw [← flatMap_units size]
  refine copyUnits_ok (fun u hu i hi => h _ ?_) s
  rw [← List.mem_range, ← flatMap_units size]
  exact List.mem_flatMap.mpr ⟨u, hu, List.mem_map.mpr ⟨i, List.mem_range.mpr hi, rfl⟩⟩

/-! ## Requests -/

/-- What the debugger knows of a program that is stopped. -/
structure Target where
  regs : Nat → Byte
  mem : CInt → Byte
  signo : Byte

def Stub.target (s : Stub) : Target := ⟨s.regs, s.mem, s.signo⟩

/-- What the debugger wants. -/
inductive Request
  | readRegs
  | writeRegs (bs : List Byte)
  | writeReg (reg : CInt) (bs : List Byte)
  | readMem (addr len : CInt)
  | writeMem (addr : CInt) (bs : List Byte)
  | goOn (step : Bool) (addr : Option CInt)
  | goOnWith (step : Bool) (nsig : CInt) (addr : Option CInt)
  | report
  | detach
  | restart
  | kill
  | toggle
  | extended

/-- Bytes as hexadecimal digits. -/
def hexText (bs : List Byte) : List Byte :=
  bs.flatMap fun b : Byte => [hexchars (b >>> 4), hexchars (b &&& 0xf#8)]

/-- The registers, if the program is to go on at an address. -/
def goTo (regs : Nat → Byte) : Option CInt → Nat → Byte
  | none => regs
  | some eip => setLong regs EIP eip

/-- The program goes on, for one step or until something happens. -/
def Target.resume (t : Target) (step : Bool) (addr : Option CInt) (signo : Byte) : Target :=
  let regs := goTo t.regs addr
  { t with
    regs := setLong regs EFLAGS
      (if step then long regs EFLAGS ||| 0x100#32 else long regs EFLAGS &&& ~~~0x100#32)
    signo }

namespace Request

/-- What a request does. -/
def run (t : Target) : Request → Target
  | .writeRegs bs => { t with regs := fill 0 bs.length (fun i => bs.getD i 0#8) t.regs }
  | .writeReg reg bs =>
    { t with regs := fill (4 * reg.toNat) bs.length (fun i => bs.getD i 0#8) t.regs }
  | .writeMem addr bs => { t with mem := store t.mem addr bs.length fun i => bs.getD i 0#8 }
  | .goOn step addr => t.resume step addr 0#8
  | .goOnWith step nsig addr => t.resume step addr (nsig.setWidth 8)
  | .readRegs | .readMem .. | .report | .detach | .restart | .kill | .toggle | .extended => t

/-- The answer to it. -/
def answer (t : Target) : Request → Option (List Byte)
  | .readRegs => some (hexText ((List.range REGSIZE).map t.regs))
  | .readMem addr len =>
    some (hexText ((List.range len.toNat).map fun i => t.mem (addr + .ofNat 32 i)))
  | .report => some (ord 'S' :: hexText [t.signo])
  | .writeRegs _ | .writeReg .. | .writeMem .. | .detach | .toggle | .extended =>
    some (chars "OK")
  | .goOn .. | .goOnWith .. | .restart | .kill => none

/-- What it makes the caller do. -/
def action : Request → Action
  | .goOn .. | .goOnWith .. => .cont
  | .detach => .detach
  | .restart => .run
  | .kill => .kill
  | .readRegs | .writeRegs _ | .writeReg .. | .readMem .. | .writeMem .. | .report | .toggle
  | .extended => .more

/-- It concerns registers and signals that there are, and memory that can be accessed, and not too
much of it for the buffer. A length of 0 would be that of a string. -/
def Fits (m : Machine) : Request → Prop
  | .writeRegs bs => bs.length = REGSIZE
  | .writeReg reg bs => 4 * (reg.toNat + 1) ≤ REGSIZE ∧ bs.length = 4
  | .readMem addr len => 0 < len.toNat ∧ 2 * len.toNat ≤ BUFMAX ∧
      ∀ i < len.toNat, m.readable (addr + .ofNat 32 i) = true
  | .writeMem addr bs => ∀ i < bs.length, m.writable (addr + .ofNat 32 i) = true
  | .goOnWith _ nsig _ => 0 < nsig.toNat ∧ nsig.toNat < 32
  | .readRegs | .goOn .. | .report | .detach | .restart | .kill | .toggle | .extended => True

end Request

/-- An address that can be left out. -/
inductive Address : List Byte → Option CInt → Prop
  | none : Address [] none
  | some {as : List Byte} {addr : CInt} : Number as addr → Address as (some addr)

/-- The packets that a request is written as. -/
inductive Spells : List Byte → Request → Prop
  | readRegs : Spells [ord 'g'] .readRegs
  | writeRegs {ds bs : List Byte} : HexOf ds bs → Spells (ord 'G' :: ds) (.writeRegs bs)
  | writeReg {ns ds bs : List Byte} {reg : CInt} : Number ns reg → HexOf ds bs →
      Spells (ord 'P' :: (ns ++ ord '=' :: ds)) (.writeReg reg bs)
  | readMem {as ls : List Byte} {addr len : CInt} : Number as addr → Number ls len →
      Spells (ord 'm' :: (as ++ ord ',' :: ls)) (.readMem addr len)
  | writeMem {as ls ds bs : List Byte} {addr len : CInt} : Number as addr → Number ls len →
      HexOf ds bs → bs.length = len.toNat →
      Spells (ord 'M' :: (as ++ ord ',' :: (ls ++ ord ':' :: ds))) (.writeMem addr bs)
  | goOn {step : Bool} {as : List Byte} {addr : Option CInt} : Address as addr →
      Spells ((if step then ord 's' else ord 'c') :: as) (.goOn step addr)
  | goOnWith {step : Bool} {a b : Byte} {as : List Byte} {addr : Option CInt} : IsHex a →
      IsHex b → Address as addr →
      Spells ((if step then ord 'S' else ord 'C') :: a :: b :: as)
        (.goOnWith step ((hex a <<< 4) ||| hex b) addr)
  | report : Spells [ord '?'] .report
  | detach : Spells [ord 'D'] .detach
  | restart : Spells [ord 'R'] .restart
  | kill : Spells [ord 'k'] .kill
  | toggle : Spells [ord 'd'] .toggle
  | extended : Spells [ord '!'] .extended

/-! ## Answers -/

/-- A packet that expands to the answer, or none if there is none. -/
def Answers : Option (List OutFrag) → Option (List Byte) → Prop
  | some frags, some text => (∀ f ∈ frags, f.Clean) ∧ plainText frags = text
  | none, none => True
  | _, _ => False

theorem clean_array (a : Nat → Byte) (len : Nat) : (OutFrag.array a len true).Clean where
  plain h := absurd h (by simp [OutFrag.array])
  runs h := absurd h (by simp [OutFrag.array])

theorem text_array (a : Nat → Byte) {len : Nat} (h0 : 0 < len) (hlen : len ≤ BUFMAX + 1) :
    (OutFrag.array a len true).text 0 (OutFrag.array a len true).size =
      hexText ((List.range len).map a) := by
  have hsize : (OutFrag.array a len true).size = len := if_neg (Nat.ne_of_gt h0)
  rw [hsize, OutFrag.text, hexText, ← List.range_eq_range', List.flatMap_map]
  refine List.flatMap_congr fun i hi => ?_
  have hin : inArray a i = a i := if_pos (by have := List.mem_range.mp hi; omega)
  show OutFrag.spell (.array a len true) (inArray a i) = _
  rw [hin]
  rfl

/-- The characters of a constant stand in its array. -/
theorem isString_constant {s : String} (h : (chars s).length ≤ BUFMAX) :
    IsString (inArray fun i => (chars s).getD i 0#8) (chars s) where
  chars k hk := by
    rw [inArray, if_pos (by omega), List.getD_eq_getElem?_getD, List.getElem?_eq_getElem hk]
    rfl
  ends := by
    rw [inArray, if_pos h, List.getD_eq_getElem?_getD, List.getElem?_eq_none (Nat.le_refl _)]
    rfl

theorem size_constant {s : String} (h : (chars s).length ≤ BUFMAX)
    (hz : ∀ c ∈ chars s, c ≠ 0#8) : (OutFrag.constant s).size = (chars s).length := by
  have hdef : (OutFrag.constant s).size =
      stringLength (inArray fun i => (chars s).getD i 0#8) (BUFMAX + 1) 0 := by
    show (if (0 : Nat) = 0 then _ else (0 : Nat)) = _
    exact if_pos rfl
  rw [hdef]
  exact stringLength_eq (isString_constant h) hz (Nat.zero_le _) (by omega)

theorem text_constant {s : String} (h : (chars s).length ≤ BUFMAX)
    (hz : ∀ c ∈ chars s, c ≠ 0#8) :
    (OutFrag.constant s).text 0 (OutFrag.constant s).size = chars s := by
  rw [size_constant h hz, OutFrag.text, ← List.range_eq_range']
  have hspell : ∀ i, (OutFrag.constant s).spell ((OutFrag.constant s).data i) =
      [inArray (fun i => (chars s).getD i 0#8) i] := fun _ => rfl
  simp only [hspell]
  rw [← List.map_eq_flatMap]
  refine List.ext_getElem? fun k => ?_
  rcases Nat.lt_or_ge k (chars s).length with hk | hk
  · rw [List.getElem?_map, List.getElem?_range hk, (isString_constant h).chars k hk]
    rfl
  · rw [List.getElem?_eq_none (by simpa using hk), List.getElem?_eq_none hk]

/-- A constant that is too short for a run of seven. -/
theorem clean_constant {s : String} (h : (chars s).length < 7)
    (hs : ∀ c ∈ chars s, c ≠ 0#8 ∧ c ≠ ord '*' ∧ c ≠ ord '#' ∧ sevenBits c = c) :
    (OutFrag.constant s).Clean := by
  have hmax : (chars s).length ≤ BUFMAX := by
    have : BUFMAX = 400 := rfl
    omega
  have hsize := size_constant hmax fun c hc => (hs c hc).1
  constructor
  · intro _ i hi
    rw [hsize] at hi
    exact (hs _ (List.mem_of_getElem? ((isString_constant hmax).chars i hi))).2
  · intro _ p hp hrep h7
    have hle := (hrep.run hp).2.2.1
    omega

theorem answers_ok : Answers (some [.constant "OK"]) (some (chars "OK")) := by
  have hs : ∀ c ∈ chars "OK", c ≠ 0#8 ∧ c ≠ ord '*' ∧ c ≠ ord '#' ∧ sevenBits c = c := by decide
  refine ⟨fun f hf => ?_, ?_⟩
  · rw [List.mem_singleton.mp hf]
    exact clean_constant (by decide) hs
  · rw [plainText_cons, text_constant (by decide) fun c hc => (hs c hc).1]
    rfl

theorem answers_array (a : Nat → Byte) {len : Nat} (h0 : 0 < len) (hlen : len ≤ BUFMAX + 1) :
    Answers (some [.array a len true]) (some (hexText ((List.range len).map a))) := by
  refine ⟨fun f hf => ?_, ?_⟩
  · rw [List.mem_singleton.mp hf]
    exact clean_array a len
  · rw [plainText_cons, text_array a h0 hlen]
    exact List.append_nil _

theorem answers_report (signo : Byte) :
    Answers (some [.constant "S", .byte signo]) (some (ord 'S' :: hexText [signo])) := by
  have hs : ∀ c ∈ chars "S", c ≠ 0#8 ∧ c ≠ ord '*' ∧ c ≠ ord '#' ∧ sevenBits c = c := by decide
  refine ⟨fun f hf => ?_, ?_⟩
  · rcases List.mem_cons.mp hf with rfl | hf
    · exact clean_constant (by decide) hs
    · rw [List.mem_singleton.mp hf]
      exact clean_array _ 1
  · rw [plainText_cons, plainText_cons, text_constant (by decide) fun c hc => (hs c hc).1,
      OutFrag.byte, text_array _ Nat.one_pos (by decide)]
    rfl

/-! ## Commands -/

/-- What a command does is what the request says. -/
structure Outcome.Serves (o : Outcome) (t : Target) (r : Request) : Prop where
  target : o.stub.target = r.run t
  answer : Answers o.reply (r.answer t)
  action : o.action = r.action
  connected : o.stub.connected = true ↔ r.action = .more ∨ r.action = .cont

section Commands

variable {m : Machine} {s : Stub} {inbuf : Nat → Byte} {as ls ns ds bs : List Byte}

theorem readRegs_serves (hs : s.connected = true) (inbuf : Nat → Byte) :
    (s.readRegs inbuf).Serves s.target .readRegs where
  target := rfl
  answer := answers_array s.regs (by decide) (by decide)
  action := rfl
  connected := ⟨fun _ => .inl rfl, fun _ => hs⟩

theorem writeRegs_serves (hs : s.connected = true) (hds : HexOf ds bs) (hat : At inbuf 1 ds)
    (hbs : bs.length = REGSIZE) : (s.writeRegs inbuf).Serves s.target (.writeRegs bs) := by
  rw [Stub.writeRegs, ← hbs, hex2bin_hexOf hds hat]
  exact
    { target := rfl
      answer := answers_ok
      action := rfl
      connected := ⟨fun _ => .inl rfl, fun _ => hs⟩ }

theorem not_isHex_comma : ¬ IsHex (ord ',') := by decide

theorem not_isHex_equals : ¬ IsHex (ord '=') := by decide

theorem not_isHex_colon : ¬ IsHex (ord ':') := by decide

theorem not_isHex_zero : ¬ IsHex 0#8 := by decide

theorem writeReg_serves {reg : CInt} (hs : s.connected = true) (hns : Number ns reg)
    (hds : HexOf ds bs) (hat : At inbuf 1 (ns ++ ord '=' :: ds))
    (hreg : 4 * (reg.toNat + 1) ≤ REGSIZE) (hbs : bs.length = 4) (hlen : ns.length ≤ BUFMAX) :
    ∃ o, s.writeReg inbuf = some o ∧ o.Serves s.target (.writeReg reg bs) := by
  have heq : inbuf (1 + ns.length) = ord '=' := hat.right.head
  have hint := hex2int_number hns hat.left (heq ▸ not_isHex_equals) hlen
  have hpos := List.length_pos_iff.mpr hns.some_digit
  have hsize : REGSIZE = 64 := rfl
  have hmul : ((reg + 1#32) * 4#32).toNat = 4 * (reg.toNat + 1) := by
    rw [BitVec.toNat_mul, BitVec.toNat_add]
    show (reg.toNat + 1) % 2 ^ 32 * 4 % 2 ^ 32 = _
    omega
  have hvalid : ¬ 64#32 < (reg + 1#32) * 4#32 := by
    rw [BitVec.lt_def, hmul]
    show ¬ 64 < _
    omega
  have hbin := hex2bin_hexOf hds hat.right.tail s.regs (4 * reg.toNat)
  rw [hbs] at hbin
  refine ⟨{ s with regs := fill (4 * reg.toNat) 4 (fun i => bs.getD i 0#8) s.regs
                   regs_changed := true }.ok inbuf, ?_, ?_⟩
  · rw [Stub.writeReg, hint]
    dsimp only
    rw [if_neg (not_or.mpr ⟨by omega, not_not.mpr heq⟩), if_neg hvalid,
      if_neg (show ¬ REGSIZE / 4 ≤ reg.toNat by omega), hbin]
    rfl
  · exact
      { target := by rw [Request.run, hbs]; rfl
        answer := answers_ok
        action := rfl
        connected := ⟨fun _ => .inl rfl, fun _ => hs⟩ }

/-- An address and a length behind it. -/
theorem hex2int_pair {addr len : CInt} {c : Byte} {rest : List Byte} (has : Number as addr)
    (hls : Number ls len) (hat : At inbuf 1 (as ++ ord ',' :: (ls ++ rest)))
    (hend : inbuf (1 + as.length + 1 + ls.length) = c) (hc : ¬ IsHex c)
    (hlen : as.length ≤ BUFMAX ∧ ls.length ≤ BUFMAX) :
    inbuf (1 + as.length) = ord ',' ∧ hex2int inbuf 1 = (addr, 1 + as.length) ∧
      hex2int inbuf (1 + as.length + 1) = (len, 1 + as.length + 1 + ls.length) := by
  have hcomma : inbuf (1 + as.length) = ord ',' := hat.right.head
  exact ⟨hcomma, hex2int_number has hat.left (hcomma ▸ not_isHex_comma) hlen.1,
    hex2int_number hls hat.right.tail.left (hend ▸ hc) hlen.2⟩

theorem readMem_serves {addr len : CInt} (hs : s.connected = true) (has : Number as addr)
    (hls : Number ls len) (hat : At inbuf 1 (as ++ ord ',' :: ls))
    (hend : inbuf (1 + as.length + 1 + ls.length) = 0#8) (hfits : (Request.readMem addr len).Fits m)
    (hlen : as.length ≤ BUFMAX ∧ ls.length ≤ BUFMAX) :
    ∃ o, s.readMem m inbuf = some o ∧ o.Serves s.target (.readMem addr len) := by
  obtain ⟨h0, hmax, hok⟩ := hfits
  obtain ⟨hcomma, haddr, hlenv⟩ := hex2int_pair has hls
    (show At inbuf 1 (as ++ ord ',' :: (ls ++ [])) by rwa [List.append_nil]) hend not_isHex_zero
    hlen
  have hals := List.length_pos_iff.mpr has.some_digit
  have hlls := List.length_pos_iff.mpr hls.some_digit
  have hbuf : BUFMAX = 400 := rfl
  have hmul : (len * 2#32).toNat = 2 * len.toNat := by
    rw [BitVec.toNat_mul]
    show len.toNat * 2 % 2 ^ 32 = _
    omega
  have hshort : ¬ BitVec.ofNat 32 BUFMAX < len * 2#32 := by
    rw [BitVec.lt_def, hmul]
    show ¬ 400 < _
    omega
  have hcopy : gdbCopyin m s.mem addr inbuf len.toNat =
      (fill 0 len.toNat (fun i => s.mem (addr + .ofNat 32 i)) inbuf, true) := by
    rw [gdbCopyin, copyUnits_units hok, fill]
    simp only [Nat.zero_add]
  let read := fill 0 len.toNat (fun i => s.mem (addr + .ofNat 32 i)) inbuf
  refine ⟨⟨s, read, some [.array read len.toNat true], .more⟩, ?_, ?_⟩
  · rw [Stub.readMem, haddr]
    dsimp only
    rw [if_neg (not_or.mpr ⟨by omega, not_not.mpr hcomma⟩), hlenv]
    dsimp only
    rw [if_neg (not_or.mpr ⟨by omega, hshort⟩), if_neg (by omega), hcopy]
    rfl
  · refine
      { target := rfl
        answer := ?_
        action := rfl
        connected := ⟨fun _ => .inl rfl, fun _ => hs⟩ }
    have hread : (List.range len.toNat).map
        (fill 0 len.toNat (fun i => s.mem (addr + .ofNat 32 i)) inbuf) =
        (List.range len.toNat).map fun i => s.mem (addr + .ofNat 32 i) := by
      refine List.map_congr_left fun i hi => ?_
      have hin : fill 0 len.toNat (fun i => s.mem (addr + .ofNat 32 i)) inbuf (0 + i) = _ :=
        fill_inside (List.mem_range.mp hi)
      rwa [Nat.zero_add] at hin
    have := answers_array (fill 0 len.toNat (fun i => s.mem (addr + .ofNat 32 i)) inbuf) h0
      (by omega)
    rwa [hread] at this

theorem writeMem_serves {addr len : CInt} (hs : s.connected = true) (has : Number as addr)
    (hls : Number ls len) (hds : HexOf ds bs) (hbs : bs.length = len.toNat)
    (hat : At inbuf 1 (as ++ ord ',' :: (ls ++ ord ':' :: ds)))
    (hlen : 1 + as.length + 1 + ls.length + 1 + ds.length ≤ BUFMAX)
    (hok : ∀ i < bs.length, m.writable (addr + .ofNat 32 i) = true) :
    ∃ o, s.writeMem m inbuf = some o ∧ o.Serves s.target (.writeMem addr bs) := by
  have hcolon : inbuf (1 + as.length + 1 + ls.length) = ord ':' := hat.right.tail.right.head
  obtain ⟨hcomma, haddr, hlenv⟩ := hex2int_pair has hls hat hcolon not_isHex_colon
    (by constructor <;> omega)
  have hals := List.length_pos_iff.mpr has.some_digit
  have hlls := List.length_pos_iff.mpr hls.some_digit
  have hbuf : BUFMAX = 400 := rfl
  have hdigits := hds.length
  have hle := m.inbuf_le
  -- the packet ends before the buffer does
  have hroom : ¬ m.inbuf + .ofNat 32 BUFMAX <
      m.inbuf + .ofNat 32 (1 + as.length + 1 + ls.length + 1) + len * 2#32 := by
    rw [BitVec.lt_def, BitVec.toNat_add, BitVec.toNat_add, BitVec.toNat_add, BitVec.toNat_mul,
      BitVec.toNat_ofNat, BitVec.toNat_ofNat]
    show ¬ _ < (_ + len.toNat * 2 % 2 ^ 32) % 2 ^ 32
    omega
  have hbin := hex2bin_hexOf hds hat.right.tail.right.tail (fun _ => 0#8) 0
  have hcopy : gdbCopyout m (fill 0 bs.length (fun i => bs.getD i 0#8) fun _ => 0#8) s.mem addr
      bs.length = (store s.mem addr bs.length fun i => bs.getD i 0#8, true) := by
    rw [gdbCopyout, copyUnits_units hok, store]
    congr 1
    refine List.foldl_ext _ _ _ fun mem i hi => ?_
    have hin : fill 0 bs.length (fun i => bs.getD i 0#8) (fun _ => 0#8) (0 + i) = _ :=
      fill_inside (List.mem_range.mp hi)
    rw [Nat.zero_add] at hin
    rw [hin]
  refine ⟨{ s with mem := store s.mem addr bs.length fun i => bs.getD i 0#8 }.ok inbuf, ?_, ?_⟩
  · rw [Stub.writeMem, haddr]
    dsimp only
    rw [if_neg (not_or.mpr ⟨by omega, not_not.mpr hcomma⟩), hlenv]
    dsimp only
    rw [if_neg (not_or.mpr ⟨by omega, not_not.mpr hcolon⟩), if_neg hroom, if_neg (by omega),
      ← hbs, hbin]
    dsimp only
    rw [hcopy]
    rfl
  · exact
      { target := rfl
        answer := answers_ok
        action := rfl
        connected := ⟨fun _ => .inl rfl, fun _ => hs⟩ }

theorem report_serves (hs : s.connected = true) (inbuf : Nat → Byte) :
    (s.report inbuf).Serves s.target .report where
  target := rfl
  answer := answers_report s.signo
  action := rfl
  connected := ⟨fun _ => .inl rfl, fun _ => hs⟩

/-! ## Going on -/

/-- The byte at bit `k` of a word. -/
theorem long_byte {a : Nat → Byte} {o k : Nat} {b : Byte}
    (h : ∀ i < 8, (long a o).getLsbD (k + i) = b.getLsbD i) : (long a o >>> k).setWidth 8 = b := by
  refine BitVec.eq_of_getLsbD_eq fun i hi => ?_
  rw [BitVec.getLsbD_setWidth, BitVec.getLsbD_ushiftRight, h i hi, decide_eq_true hi, Bool.true_and]

theorem setLong_long (a : Nat → Byte) (o : Nat) : setLong a o (long a o) = a := by
  have h0 : (long a o).setWidth 8 = a o := by
    refine BitVec.eq_of_getLsbD_eq fun i hi => ?_
    rw [BitVec.getLsbD_setWidth, decide_eq_true hi, Bool.true_and, long, BitVec.getLsbD_append,
      if_pos hi]
  have h1 : (long a o >>> 8).setWidth 8 = a (o + 1) := long_byte fun i hi => by
    rw [long, BitVec.getLsbD_append, if_neg (by omega), BitVec.getLsbD_append,
      if_pos (by omega), Nat.add_sub_cancel_left]
  have h2 : (long a o >>> 16).setWidth 8 = a (o + 2) := long_byte fun i hi => by
    rw [long, BitVec.getLsbD_append, if_neg (by omega), BitVec.getLsbD_append,
      if_neg (by omega), BitVec.getLsbD_append, if_pos (by omega)]
    congr 1
    omega
  have h3 : (long a o >>> 24).setWidth 8 = a (o + 3) := long_byte fun i hi => by
    rw [long, BitVec.getLsbD_append, if_neg (by omega), BitVec.getLsbD_append,
      if_neg (by omega), BitVec.getLsbD_append, if_neg (by omega)]
    congr 1
    omega
  rw [setLong, h0, h1, h2, h3, update_eq_self, update_eq_self, update_eq_self, update_eq_self]

/-- Whatever the address is compared with, it is where the program goes on. -/
theorem setEip_target {addr : Option CInt} {p : Nat} (has : Address as addr) (hat : At inbuf p as)
    (hend : inbuf (p + as.length) = 0#8) (hlen : as.length ≤ BUFMAX) :
    ∃ regs_changed, s.setEip inbuf p = { s with regs := goTo s.regs addr, regs_changed } := by
  have hz : ¬ IsHex (inbuf (p + as.length)) := hend ▸ not_isHex_zero
  cases has with
  | none =>
      have hint : hex2int inbuf p = (0#32, p) :=
        hex2intFrom_digits hat (fun d hd => absurd hd List.not_mem_nil) hz (Nat.succ_pos _)
      refine ⟨s.regs_changed, ?_⟩
      rw [Stub.setEip, hint]
      exact if_neg fun h => absurd h.1 (Nat.lt_irrefl p)
  | @some _ eip hnum =>
      have hpos := List.length_pos_iff.mpr hnum.some_digit
      rw [Stub.setEip, hex2int_number hnum hat hz hlen]
      dsimp only
      by_cases hsame : eip = long s.regs EIP
      · refine ⟨s.regs_changed, ?_⟩
        rw [if_neg fun h => h.2 hsame, goTo, hsame, setLong_long]
      · exact ⟨true, if_pos ⟨by omega, hsame⟩⟩

theorem goOn_serves (step : Bool) {addr : Option CInt} (hs : s.connected = true)
    (has : Address as addr) (hat : At inbuf 1 as) (hend : inbuf (1 + as.length) = 0#8)
    (hlen : as.length ≤ BUFMAX) : (s.goOn step inbuf).Serves s.target (.goOn step addr) := by
  obtain ⟨regs_changed, hset⟩ := setEip_target (s := s) has hat hend hlen
  rw [Stub.goOn, hset]
  exact
    { target := rfl
      answer := trivial
      action := rfl
      connected := ⟨fun _ => .inr rfl, fun _ => hs⟩ }

theorem goOnWith_serves (step : Bool) {a b : Byte} {addr : Option CInt} (hs : s.connected = true)
    (ha : IsHex a) (hb : IsHex b) (has : Address as addr) (hat : At inbuf 1 (a :: b :: as))
    (hend : inbuf (3 + as.length) = 0#8) (hlen : as.length ≤ BUFMAX)
    (hfits : 0 < ((hex a <<< 4) ||| hex b).toNat ∧ ((hex a <<< 4) ||| hex b).toNat < 32) :
    (s.goOnWith step inbuf).Serves s.target (.goOnWith step ((hex a <<< 4) ||| hex b) addr) := by
  obtain ⟨regs_changed, hset⟩ := setEip_target (s := s) has hat.tail.tail hend hlen
  have h1 : inbuf 1 = a := hat.head
  have h2 : inbuf 2 = b := hat.tail.head
  obtain ⟨hlow, hhigh⟩ := hfits
  have hvalid : ¬ (((hex a <<< 4) ||| hex b).msb = true ∨ ((hex a <<< 4) ||| hex b) = 0#32 ∨
      32#32 ≤ ((hex a <<< 4) ||| hex b)) := by
    rintro (h | h | h)
    · rw [hex_pair_msb ha hb] at h
      exact Bool.false_ne_true h
    · rw [h] at hlow
      exact Nat.lt_irrefl 0 hlow
    · exact absurd (BitVec.le_def.mp h) (Nat.not_le.mpr hhigh)
  rw [Stub.goOnWith, h1, h2]
  dsimp only
  rw [if_neg hvalid, hset]
  exact
    { target := rfl
      answer := trivial
      action := rfl
      connected := ⟨fun _ => .inr rfl, fun _ => hs⟩ }

/-- **A request** that the stub has read is done and answered. -/
theorem command_request {text : List Byte} {r : Request} (h : Spells text r) (hfits : r.Fits m)
    (hbuf : IsString inbuf text) (hlen : text.length < BUFMAX) (s : Stub) :
    ∃ o, command m s inbuf = some o ∧ o.Serves s.target r := by
  have hat := at_zero hbuf
  have hends := hbuf.ends
  have hconnected : ({ s with connected := true } : Stub).connected = true := rfl
  have htarget : ({ s with connected := true } : Stub).target = s.target := rfl
  rw [← htarget]
  cases h with
  | readRegs =>
      refine ⟨_, ?_, readRegs_serves hconnected inbuf⟩
      rw [command, hat.head]
      rfl
  | writeRegs hds =>
      refine ⟨_, ?_, writeRegs_serves hconnected hds hat.tail hfits⟩
      rw [command, hat.head]
      rfl
  | writeReg hns hds =>
      simp only [List.length_cons, List.length_append] at hlen
      obtain ⟨o, ho, hserves⟩ := writeReg_serves hconnected hns hds hat.tail hfits.1 hfits.2
        (by omega)
      refine ⟨o, ?_, hserves⟩
      rw [command, hat.head]
      exact ho
  | readMem has hls =>
      simp only [List.length_cons, List.length_append] at hlen hends
      obtain ⟨o, ho, hserves⟩ := readMem_serves hconnected has hls hat.tail
        (by rw [← hends]; congr 1; omega) hfits (by omega)
      refine ⟨o, ?_, hserves⟩
      rw [command, hat.head]
      exact ho
  | writeMem has hls hds hbs =>
      simp only [List.length_cons, List.length_append] at hlen
      obtain ⟨o, ho, hserves⟩ := writeMem_serves hconnected has hls hds hbs hat.tail (by omega)
        hfits
      refine ⟨o, ?_, hserves⟩
      rw [command, hat.head]
      exact ho
  | @goOn step _ _ has =>
      rw [List.length_cons, Nat.add_comm] at hends
      rw [List.length_cons] at hlen
      refine ⟨_, ?_, goOn_serves step hconnected has hat.tail hends (by omega)⟩
      rw [command, hat.head]
      cases step <;> rfl
  | @goOnWith step _ _ _ _ ha hb has =>
      simp only [List.length_cons] at hlen hends
      refine ⟨_, ?_, goOnWith_serves step hconnected ha hb has hat.tail
        (by rw [← hends]; congr 1; omega) (by omega) hfits⟩
      rw [command, hat.head]
      cases step <;> rfl
  | report =>
      refine ⟨_, ?_, report_serves hconnected inbuf⟩
      rw [command, hat.head]
      rfl
  | detach =>
      refine ⟨{ ({ s with connected := false }.ok inbuf) with action := .detach }, ?_, ?_⟩
      · rw [command, hat.head]
        rfl
      · exact
          { target := rfl
            answer := answers_ok
            action := rfl
            connected := by simp [Stub.ok, Request.action] }
  | restart =>
      refine ⟨⟨{ s with connected := false }, inbuf, none, .run⟩, ?_, ?_⟩
      · rw [command, hat.head]
        rfl
      · exact
          { target := rfl
            answer := trivial
            action := rfl
            connected := by simp [Request.action] }
  | kill =>
      refine ⟨⟨{ s with connected := false }, inbuf, none, .kill⟩, ?_, ?_⟩
      · rw [command, hat.head]
        rfl
      · exact
          { target := rfl
            answer := trivial
            action := rfl
            connected := by simp [Request.action] }
  | toggle =>
      refine ⟨{ s with connected := true, gdb_serial_debug := !s.gdb_serial_debug }.ok inbuf,
        ?_, ?_⟩
      · rw [command, hat.head]
        rfl
      · exact
          { target := rfl
            answer := answers_ok
            action := rfl
            connected := ⟨fun _ => .inl rfl, fun _ => rfl⟩ }
  | extended =>
      refine ⟨{ s with connected := true }.ok inbuf, ?_, ?_⟩
      · rw [command, hat.head]
        rfl
      · exact
          { target := rfl
            answer := answers_ok
            action := rfl
            connected := ⟨fun _ => .inl rfl, fun _ => rfl⟩ }

end Commands

end Alliance.Monitor
