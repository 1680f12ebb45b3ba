import Alliance.KL.Memory
import Mathlib.Tactic.Abel

/-!
# Copying a string of limited length (`StringNumCopy.c`)

`KLstringNumCopy` copies four characters in a round, then those that are left one by one, and fills
up with zeros where the string has ended. Its rounds do what single characters do
(`klStringNumCopy_eq`), so that of a source that is apart from what is written the destination gets
the string and zeros, as many bytes as are asked for (`klStringNumCopy_copies`).
-/

namespace Alliance.KL.Memory

open Function Lib

/-! ## `StringNumCopy.c` -/

/-- `c = *s2++; *++s1 = c; if (c == '\0') break;`, `k` times: where `s1` and `s2` are then, and
whether it was left. -/
def copyChars (t : Traced) (s1 s2 : UADDR) : Nat → Traced × UADDR × UADDR × Bool
  | 0 => (t, s1, s2, false)
  | k + 1 =>
    let (c, t) := t.readByte s2
    let t := t.writeByte (s1 + 1#32) c
    if c = 0#8 then (t, s1 + 1#32, s2 + 1#32, true) else copyChars t (s1 + 1#32) (s2 + 1#32) k

/-- The rounds of four. -/
def copyRounds (t : Traced) (s1 s2 : UADDR) : Nat → Traced × UADDR × UADDR × Bool
  | 0 => (t, s1, s2, false)
  | n4 + 1 =>
    match copyChars t s1 s2 4 with
    | (t, s1, s2, true) => (t, s1, s2, true)
    | (t, s1, s2, false) => copyRounds t s1 s2 n4

/-- `zero_fill`, and nothing for no bytes. -/
def zeroFill (t : Traced) (s1 : UADDR) : Nat → Traced
  | 0 => t
  | num + 1 => zeroFill (t.writeByte (s1 + 1#32) 0#8) (s1 + 1#32) num

/-- `last_chars`, and nothing for no characters. -/
def lastChars (t : Traced) (s1 s2 : UADDR) : Nat → Traced
  | 0 => t
  | num + 1 =>
    let (c, t) := t.readByte s2
    let t := t.writeByte (s1 + 1#32) c
    if num = 0 then t
    else if c ≠ 0#8 then lastChars t (s1 + 1#32) (s2 + 1#32) num
    else zeroFill t (s1 + 1#32) num

/-- `KLstringNumCopy`. -/
def klStringNumCopy (t : Traced) (s1 s2 n : UADDR) : Traced × UADDR :=
  let s := s1
  let s1 := s1 - 1#32
  if 4 ≤ n.toNat then
    match copyRounds t s1 s2 (n.toNat / 4) with
    | (t, s1, _, true) => (zeroFill t s1 (n - (s1 - s) - 1#32).toNat, s)
    | (t, s1, s2, false) => (lastChars t s1 s2 (n.toNat % 4), s)
  else (lastChars t s1 s2 (n.toNat % 4), s)

/-! ## One by one -/

/-- A string of limited length, character by character. -/
def copyPlain (t : Traced) (dst src : UADDR) : Nat → Traced
  | 0 => t
  | n + 1 =>
    if t.mem src = 0#8 then zeroFill ((t.readByte src).2.writeByte dst 0#8) dst n
    else copyPlain ((t.readByte src).2.writeByte dst (t.mem src)) (dst + 1#32) (src + 1#32) n

variable {t t' : Traced} {s1 s2 dst src a : UADDR} {n k r : Nat}

/-- The characters that are left. -/
theorem lastChars_eq (t : Traced) (s1 s2 : UADDR) (n : Nat) :
    lastChars t s1 s2 n = copyPlain t (s1 + 1#32) s2 n := by
  induction n generalizing t s1 s2 with
  | zero => rfl
  | succ n ih =>
      rw [lastChars, copyPlain]
      dsimp only [Traced.readByte]
      by_cases hz : t.mem s2 = 0#8
      · rw [if_pos hz, if_neg (not_not.mpr hz), hz]
        cases n with
        | zero => rfl
        | succ n => rfl
      · rw [if_neg hz, if_pos hz, ih]
        cases n with
        | zero => rfl
        | succ n => rfl

/-- What a few characters leave to be done: zeros if the string has ended, or the others. -/
structure Goes (t : Traced) (s1 s2 : UADDR) (k : Nat) (out : Traced × UADDR × UADDR × Bool) :
    Prop where
  ended : out.2.2.2 = true → ∃ j ≤ k, out.2.1 = s1 + .ofNat 32 j ∧
    ∀ r, copyPlain t (s1 + 1#32) s2 (k + r) = zeroFill out.1 out.2.1 (k + r - j)
  goesOn : out.2.2.2 = false → out.2.1 = s1 + .ofNat 32 k ∧ ∀ r,
    copyPlain t (s1 + 1#32) s2 (k + r) = copyPlain out.1 (out.2.1 + 1#32) out.2.2.1 r

theorem goes_nothing (t : Traced) (s1 s2 : UADDR) : Goes t s1 s2 0 (t, s1, s2, false) where
  ended h := Bool.noConfusion h
  goesOn _ := by
    refine ⟨(BitVec.add_zero s1).symm, fun r => ?_⟩
    rw [Nat.zero_add]

/-- Characters in front of others. -/
theorem Goes.trans {out out' : Traced × UADDR × UADDR × Bool} {l : Nat} (h : Goes t s1 s2 k out)
    (hgo : out.2.2.2 = false) (h' : Goes out.1 out.2.1 out.2.2.1 l out') :
    Goes t s1 s2 (k + l) out' := by
  obtain ⟨hs1, hplain⟩ := h.goesOn hgo
  constructor
  · intro hend
    obtain ⟨j, hj, hs1', hzero⟩ := h'.ended hend
    refine ⟨k + j, by omega, ?_, fun r => ?_⟩
    · rw [hs1', hs1, add_ofNat_ofNat]
    · rw [Nat.add_assoc, hplain, hzero]
      congr 1
      omega
  · intro hgo'
    obtain ⟨hs1', hplain'⟩ := h'.goesOn hgo'
    refine ⟨?_, fun r => ?_⟩
    · rw [hs1', hs1, add_ofNat_ofNat]
    · rw [Nat.add_assoc, hplain, hplain']

/-- **A few characters.** -/
theorem copyChars_goes (t : Traced) (s1 s2 : UADDR) (k : Nat) :
    Goes t s1 s2 k (copyChars t s1 s2 k) := by
  induction k generalizing t s1 s2 with
  | zero => exact goes_nothing t s1 s2
  | succ k ih =>
      rw [copyChars]
      dsimp only [Traced.readByte]
      by_cases hz : t.mem s2 = 0#8
      · rw [if_pos hz]
        constructor
        · intro _
          refine ⟨1, by omega, rfl, fun r => ?_⟩
          rw [Nat.add_right_comm, copyPlain, if_pos hz, hz]
          rfl
        · intro h
          exact Bool.noConfusion h
      · rw [if_neg hz]
        have hone : Goes t s1 s2 1 ((t.readByte s2).2.writeByte (s1 + 1#32) (t.mem s2),
            s1 + 1#32, s2 + 1#32, false) := by
          constructor
          · intro h
            exact Bool.noConfusion h
          · intro _
            refine ⟨rfl, fun r => ?_⟩
            rw [Nat.add_comm, copyPlain, if_neg hz]
        rw [Nat.add_comm]
        exact hone.trans rfl (ih _ _ _)

/-- **The rounds** of four. -/
theorem copyRounds_goes (t : Traced) (s1 s2 : UADDR) (n4 : Nat) :
    Goes t s1 s2 (4 * n4) (copyRounds t s1 s2 n4) := by
  induction n4 generalizing t s1 s2 with
  | zero => exact goes_nothing t s1 s2
  | succ n4 ih =>
      have hfour := copyChars_goes t s1 s2 4
      rw [copyRounds]
      generalize copyChars t s1 s2 4 = out at hfour ⊢
      obtain ⟨t', s1', s2', left⟩ := out
      cases left with
      | true =>
          constructor
          · intro _
            obtain ⟨j, hj, hs1, hzero⟩ := hfour.ended rfl
            refine ⟨j, by omega, hs1, fun r => ?_⟩
            rw [show 4 * (n4 + 1) + r = 4 + (4 * n4 + r) by omega]
            exact hzero (4 * n4 + r)
          · intro h
            exact Bool.noConfusion h
      | false =>
          rw [show 4 * (n4 + 1) = 4 + 4 * n4 by omega]
          exact hfour.trans rfl (ih t' s1' s2')

/-- **The rounds do what single characters do**, whatever the areas are. -/
theorem klStringNumCopy_eq (t : Traced) (s1 s2 n : UADDR) :
    klStringNumCopy t s1 s2 n = (copyPlain t s1 s2 n.toNat, s1) := by
  have hback : s1 - 1#32 + 1#32 = s1 := BitVec.sub_add_cancel s1 1#32
  have hn := n.isLt
  unfold klStringNumCopy
  dsimp only
  split
  · have hrounds := copyRounds_goes t (s1 - 1#32) s2 (n.toNat / 4)
    have hlength : 4 * (n.toNat / 4) + n.toNat % 4 = n.toNat := by omega
    generalize copyRounds t (s1 - 1#32) s2 (n.toNat / 4) = out at hrounds ⊢
    obtain ⟨t', s1', s2', left⟩ := out
    cases left with
    | true =>
        obtain ⟨j, hj, hs1, hzero⟩ := hrounds.ended rfl
        have hzero' := hzero (n.toNat % 4)
        rw [hback, hlength] at hzero'
        dsimp only at hs1 hzero' ⊢
        rw [hzero']
        have hleft : n - (s1' - s1) - 1#32 = n - .ofNat 32 j := by
          rw [hs1]
          abel
        have hj' : j % 2 ^ 32 = j := Nat.mod_eq_of_lt (by omega)
        rw [hleft, BitVec.toNat_sub_of_le (by
          show (BitVec.ofNat 32 j).toNat ≤ n.toNat
          rw [BitVec.toNat_ofNat, hj']
          omega), BitVec.toNat_ofNat, hj']
    | false =>
        obtain ⟨-, hplain⟩ := hrounds.goesOn rfl
        have hplain' := hplain (n.toNat % 4)
        rw [hback, hlength] at hplain'
        dsimp only at hplain' ⊢
        rw [hplain', lastChars_eq]
  · next hlt =>
    rw [lastChars_eq, hback, Nat.mod_eq_of_lt (by omega)]

/-! ## What is copied -/

/-- How many characters are read: as many as are asked for, or up to the zero byte. -/
def taken (mem : UADDR → UBYTE) (src : UADDR) : Nat → Nat
  | 0 => 0
  | n + 1 => if mem src = 0#8 then 1 else taken mem (src + 1#32) n + 1

/-- What the destination is to get. -/
def limited (mem : UADDR → UBYTE) (src : UADDR) (n i : Nat) : UBYTE :=
  if i < taken mem src n then mem (src + .ofNat 32 i) else 0#8

theorem taken_le (mem : UADDR → UBYTE) (src : UADDR) (n : Nat) : taken mem src n ≤ n := by
  induction n generalizing src with
  | zero => exact Nat.le_refl 0
  | succ n ih =>
      rw [taken]
      split
      · omega
      · exact Nat.succ_le_succ (ih _)

theorem addrs_succ (p : UADDR) (n : Nat) : addrs p (n + 1) = p :: addrs (p + 1#32) n := by
  rw [Nat.add_comm, addrs_add]
  show (p + 0#32) :: _ = _
  rw [BitVec.add_zero]
  rfl

/-- Only the characters that are read matter. -/
theorem taken_congr {mem mem' : UADDR → UBYTE}
    (h : ∀ a ∈ addrs src (taken mem src n), mem' a = mem a) :
    taken mem' src n = taken mem src n := by
  induction n generalizing src with
  | zero => rfl
  | succ n ih =>
      rw [taken] at h
      rw [taken, taken]
      by_cases hz : mem src = 0#8
      · rw [if_pos hz, addrs_succ] at h
        rw [if_pos hz, if_pos ((h src (.head _)).trans hz)]
      · rw [if_neg hz, addrs_succ] at h
        rw [if_neg hz, if_neg (h src (.head _) ▸ hz), ih fun a ha => h a (.tail _ ha)]

/-- From `t` to `t'`, these bytes are written from `dst` on, and so many read from `src` on. -/
structure Filled (t : Traced) (dst : UADDR) (n : Nat) (f : Nat → UBYTE) (src : UADDR) (m : Nat)
    (t' : Traced) : Prop where
  bytes : ∀ i < n, t'.mem (dst + .ofNat 32 i) = f i
  rest : ∀ a, a ∉ addrs dst n → t'.mem a = t.mem a
  writes : t'.writes = t.writes ++ addrs dst n
  reads : t'.reads = t.reads ++ addrs src m

theorem dst_notMem (hn : n < 2 ^ 32) : dst ∉ addrs (dst + 1#32) n := by
  intro h
  obtain ⟨i, hi, he⟩ := mem_addrs.mp h
  have hsum : dst + .ofNat 32 0 = dst + .ofNat 32 (1 + i) := by
    rw [← add_ofNat_ofNat]
    exact (BitVec.add_zero dst).trans he
  exact absurd (add_ofNat_inj (by decide) (by omega) hsum) (by omega)

/-- One byte in front of others. -/
theorem Filled.cons {f : Nat → UBYTE} {m : Nat} {c : UBYTE} (hn : n < 2 ^ 32)
    (h : Filled (t.writeByte dst c) (dst + 1#32) n (fun i => f (i + 1)) src m t')
    (hc : c = f 0) : Filled t dst (n + 1) f src m t' where
  bytes i hi := by
    cases i with
    | zero =>
        rw [show dst + BitVec.ofNat 32 0 = dst from BitVec.add_zero dst, h.rest dst (dst_notMem hn)]
        exact (update_self ..).trans hc
    | succ i =>
        rw [Nat.add_comm, ← add_ofNat_ofNat]
        exact (h.bytes i (by omega)).trans (by rw [Nat.add_comm])
  rest a ha := by
    rw [addrs_succ, List.mem_cons, not_or] at ha
    exact (h.rest a ha.2).trans (update_of_ne ha.1 _ _)
  writes := by
    rw [h.writes, addrs_succ]
    exact List.append_assoc _ _ _
  reads := h.reads

theorem zeroFill_filled (t : Traced) (s1 : UADDR) (hn : n < 2 ^ 32) (src : UADDR) :
    Filled t (s1 + 1#32) n (fun _ => 0#8) src 0 (zeroFill t s1 n) := by
  induction n generalizing t s1 with
  | zero =>
      exact ⟨fun _ h => absurd h (Nat.not_lt_zero _), fun _ _ => rfl, (List.append_nil _).symm,
        (List.append_nil _).symm⟩
  | succ n ih => exact (ih _ _ (by omega)).cons (by omega) rfl

/-- **Character by character**, the string and zeros are copied. -/
theorem copyPlain_filled (hn : n < 2 ^ 32)
    (h : ∀ a ∈ addrs src (taken t.mem src n), a ∉ addrs dst n) :
    Filled t dst n (limited t.mem src n) src (taken t.mem src n) (copyPlain t dst src n) := by
  induction n generalizing t dst src with
  | zero =>
      exact ⟨fun _ h => absurd h (Nat.not_lt_zero _), fun _ _ => rfl, (List.append_nil _).symm,
        (List.append_nil _).symm⟩
  | succ n ih =>
      have hsrc : src + BitVec.ofNat 32 0 = src := BitVec.add_zero src
      rw [copyPlain]
      by_cases hz : t.mem src = 0#8
      · have htaken : taken t.mem src (n + 1) = 1 := by rw [taken, if_pos hz]
        have hlimited : ∀ i, limited t.mem src (n + 1) i = 0#8 := by
          intro i
          rw [limited, htaken]
          split
          · next hi => rw [Nat.lt_one_iff.mp hi, hsrc, hz]
          · rfl
        rw [if_pos hz, htaken, show limited t.mem src (n + 1) = fun _ => 0#8 from funext hlimited]
        have hzeros := zeroFill_filled ((t.readByte src).2.writeByte dst 0#8) dst
          (show n < 2 ^ 32 by omega) src
        have hone : addrs src 1 = [src] := by
          rw [addrs_succ]
          rfl
        refine Filled.cons (by omega) ⟨hzeros.bytes, hzeros.rest, hzeros.writes, ?_⟩ rfl
        rw [hone, hzeros.reads]
        exact List.append_nil _
      · have htaken : taken t.mem src (n + 1) = taken t.mem (src + 1#32) n + 1 := by
          rw [taken, if_neg hz]
        rw [htaken, addrs_succ] at h
        have hdst : ∀ a ∈ addrs (src + 1#32) (taken t.mem (src + 1#32) n),
            update t.mem dst (t.mem src) a = t.mem a := by
          intro a ha
          refine update_of_ne (fun he => h a (.tail _ ha) ?_) _ _
          rw [he, addrs_succ]
          exact .head _
        have hsame : taken (update t.mem dst (t.mem src)) (src + 1#32) n =
            taken t.mem (src + 1#32) n := taken_congr hdst
        have hrest := @ih ((t.readByte src).2.writeByte dst (t.mem src)) (dst + 1#32)
          (src + 1#32) (by omega) fun a ha hin => by
            refine h a (.tail _ (hsame ▸ ha)) ?_
            rw [addrs_succ]
            exact .tail _ hin
        rw [if_neg hz, htaken]
        refine Filled.cons (by omega) ⟨fun i hi => ?_, hrest.rest, hrest.writes, ?_⟩ ?_
        · rw [hrest.bytes i hi]
          show limited (update t.mem dst (t.mem src)) (src + 1#32) n i = _
          rw [limited, limited, hsame, htaken]
          by_cases hi' : i < taken t.mem (src + 1#32) n
          · rw [if_pos hi', if_pos (by omega), hdst _ (mem_addrs.mpr ⟨i, hi', rfl⟩),
              Nat.add_comm i 1, ← add_ofNat_ofNat]
          · rw [if_neg hi', if_neg (by omega)]
        · rw [hrest.reads]
          show (t.reads ++ [src]) ++ addrs (src + 1#32)
            (taken (update t.mem dst (t.mem src)) (src + 1#32) n) = _
          rw [hsame, addrs_succ, List.append_assoc]
          rfl
        · rw [limited, htaken, if_pos (Nat.succ_pos _), hsrc]

/-- **As many bytes as are asked for** are written, each once and in order: the string as far as it
goes, and zeros. Nothing of the source is read behind its end. -/
theorem klStringNumCopy_copies {n : UADDR}
    (h : ∀ a ∈ addrs s2 (taken t.mem s2 n.toNat), a ∉ addrs s1 n.toNat) :
    (klStringNumCopy t s1 s2 n).2 = s1 ∧
      Filled t s1 n.toNat (limited t.mem s2 n.toNat) s2 (taken t.mem s2 n.toNat)
        (klStringNumCopy t s1 s2 n).1 := by
  rw [klStringNumCopy_eq]
  exact ⟨rfl, copyPlain_filled n.isLt h⟩

/-- Areas that are apart will do. -/
theorem apart_taken {mem : UADDR → UBYTE} (h : Apart dst src n) :
    ∀ a ∈ addrs src (taken mem src n), a ∉ addrs dst n := by
  intro a ha hin
  obtain ⟨i, hi, rfl⟩ := mem_addrs.mp ha
  exact h _ hin (mem_addrs.mpr ⟨i, Nat.lt_of_lt_of_le hi (taken_le mem src n), rfl⟩)

/-- A string of two characters at 0x2000. -/
def twoChars (a : UADDR) : UBYTE := if a = 0x2002#32 then 0#8 else 0x41#8

theorem klStringNumCopy_copies_five :
    (klStringNumCopy ⟨twoChars, [], []⟩ 0x1000#32 0x2000#32 5#32).2 = 0x1000#32 ∧
      Filled ⟨twoChars, [], []⟩ 0x1000#32 (5#32).toNat (limited twoChars 0x2000#32 (5#32).toNat)
        0x2000#32 (taken twoChars 0x2000#32 (5#32).toNat)
        (klStringNumCopy ⟨twoChars, [], []⟩ 0x1000#32 0x2000#32 5#32).1 := by
  have hapart : Apart 0x1000#32 0x2000#32 (5#32).toNat :=
    apart_of_le (by decide) (by decide)
  exact @klStringNumCopy_copies ⟨twoChars, [], []⟩ 0x1000#32 0x2000#32 5#32 (apart_taken hapart)

end Alliance.KL.Memory
