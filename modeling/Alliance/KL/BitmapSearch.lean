import Alliance.KL.Bitmap
import Mathlib.Logic.Relation
import Mathlib.Tactic.SplitIfs

/-!
# The search in a bitmap

What one round of `KLbitmapAlloc`'s loops does, and what a hit marks: `Tried` for a try at a byte,
`Moved` for a round after which the loops go on. `search_rule` is the rule for the whole search: it
ends, and what every round keeps holds at its end.
-/

namespace Alliance.KL

open Function Lib KLbitmapStruct

variable {bitmap : Nat → BitVec 8} {k n o m y : Nat}

/-! ## Marking -/

theorem spanMask_bits : ∀ v < 9, 0 < v → ∀ k < 8,
    (spanMask v).getLsbD k = decide (8 - v ≤ k ∧ k < 8 - v + v) := by
  decide +kernel

/-- A shift by -1, and by 31 on the processor: the whole byte. -/
theorem spanMask_zero : spanMask 0 = 0xff#8 := by decide

theorem lowMask_bits : ∀ m < 9, ∀ k < 8,
    (1#8 <<< m - 1#8).getLsbD k = decide (0 ≤ k ∧ k < 0 + m) := by
  decide +kernel

theorem blockMask_bits : ∀ m < 8, ∀ o < 9, ∀ k < 8,
    ((1#8 <<< m - 1#8) <<< o).getLsbD k = decide (o ≤ k ∧ k < o + m) := by
  decide +kernel

theorem fullMask_bits : ∀ k < 8, (0xff#8).getLsbD k = decide (0 ≤ k ∧ k < 0 + 8) := by
  decide +kernel

theorem marked_fullByte : Marked bitmap (update bitmap y 0xff#8) (8 * y) 8 := by
  have h : Marked bitmap (update bitmap y (bitmap y ||| 0xff#8)) (8 * y + 0) 8 :=
    marked_or fullMask_bits (by decide)
  rwa [show bitmap y ||| 0xff#8 = 0xff#8 from BitVec.or_allOnes] at h

/-- **The bytes behind the first** of a block that spans several. -/
theorem marked_while (count y : Nat) (bitmap : Nat → BitVec 8) :
    Marked bitmap (markWhile count y bitmap) (8 * y) count := by
  induction count, y, bitmap using markWhile.induct with
  | case1 count y bitmap ih =>
      show Marked bitmap (markWhile (count + 9) y bitmap) (8 * y) (count + 9)
      rw [markWhile, show count + 9 = 8 + (count + 1) by omega]
      exact marked_fullByte.trans ih
  | case2 count y bitmap hsmall =>
      have hle : count < 9 := by
        by_contra hge
        exact hsmall (count - 9) (by omega)
      rw [markWhile]
      · exact marked_or (lowMask_bits count hle) (by omega)
      · exact hsmall

namespace KLbitmapStruct

variable {bs : KLbitmapStruct} {temp a b p count : Nat} {h : Hit}

theorem mark_inByte (hn : n < 8) (hfit : n ≤ fastBitList (bs.bitmap (4 * temp + b))) :
    Marked bs.bitmap (bs.mark n temp a b .inByte).1
      (8 * (4 * temp + b) + fastBitListSt (bs.bitmap (4 * temp + b))) n := by
  have hle := (largest_block (bs.bitmap (4 * temp + b))).1
  exact marked_or (blockMask_bits n hn _ (by omega)) (by omega)

theorem mark_span (hv : 0 < fastBitStList (bs.bitmap (4 * temp + b)))
    (hn : fastBitStList (bs.bitmap (4 * temp + b)) ≤ n) :
    Marked bs.bitmap (bs.mark n temp a b .span).1
      (8 * (4 * temp + b) + (8 - fastBitStList (bs.bitmap (4 * temp + b)))) n := by
  have hle := (highest_bits (bs.bitmap (4 * temp + b))).1
  have hfirst : Marked bs.bitmap (update bs.bitmap (4 * temp + b) (bs.bitmap (4 * temp + b) |||
      spanMask (fastBitStList (bs.bitmap (4 * temp + b))))) _ _ :=
    marked_or (spanMask_bits _ (by omega) hv) (by omega)
  have hrest := marked_while (n - fastBitStList (bs.bitmap (4 * temp + b))) (4 * temp + b + 1)
    (update bs.bitmap (4 * temp + b) (bs.bitmap (4 * temp + b) |||
      spanMask (fastBitStList (bs.bitmap (4 * temp + b)))))
  rw [show 8 * (4 * temp + b + 1) = 8 * (4 * temp + b) + (8 - fastBitStList
    (bs.bitmap (4 * temp + b))) + fastBitStList (bs.bitmap (4 * temp + b)) by omega] at hrest
  have hboth := hfirst.trans hrest
  rwa [Nat.add_sub_cancel' hn] at hboth

theorem mark_span_zero (hv : fastBitStList (bs.bitmap (4 * temp + b)) = 0) :
    Marked bs.bitmap (bs.mark n temp a b .span).1 (8 * (4 * temp + b)) (8 + n) := by
  have hfirst : Marked bs.bitmap (update bs.bitmap (4 * temp + b) (bs.bitmap (4 * temp + b) |||
      spanMask (fastBitStList (bs.bitmap (4 * temp + b))))) (8 * (4 * temp + b)) 8 := by
    rw [hv, spanMask_zero]
    exact marked_or fullMask_bits (by decide)
  have hrest := marked_while (n - fastBitStList (bs.bitmap (4 * temp + b))) (4 * temp + b + 1)
    (update bs.bitmap (4 * temp + b) (bs.bitmap (4 * temp + b) |||
      spanMask (fastBitStList (bs.bitmap (4 * temp + b)))))
  simpa only [mark, hv, Nat.sub_zero] using hfirst.trans hrest

/-! ## Tries -/

/-- The counters move on by one byte, or the bitmap has ended. -/
theorem stepforward_cases (ha : a < bs.size) (hb : b < 4) (p : Nat) :
    (bs.stepforward a b p = none ∧ 4 * a + b + 1 = 4 * bs.size) ∨
      ∃ a' b', bs.stepforward a b p = some (a', b', p + 1) ∧ a' < bs.size ∧ b' < 4 ∧
        4 * a' + b' = 4 * a + b + 1 := by
  unfold stepforward
  split
  · next hlast =>
    split
    · exact .inl ⟨rfl, by omega⟩
    · exact .inr ⟨a + 1, 0, rfl, by omega, by decide, by omega⟩
  · exact .inr ⟨a, b + 1, rfl, ha, by omega, by omega⟩

/-- How the counting of free bytes ends: at the end of the bitmap, at a byte that is not free, or
with no whole byte left to find. -/
inductive Counted (bs : KLbitmapStruct) (temp count a b p : Nat) :
    Option (Nat × Nat × Nat × Nat) → Prop
  | atEnd (k : Nat) : 4 * a + b + k = 4 * bs.size → 0 < k → 8 * k < count →
      Counted bs temp count a b p none
  | stopped (count' a' b' k : Nat) : a' < bs.size → b' < 4 → 4 * a' + b' = 4 * a + b + k →
      8 < count' → 8 < count → Counted bs temp count a b p (some (count', a', b', p + k))
  | through (count' a' b' k : Nat) : a' < bs.size → b' < 4 → 4 * a' + b' = 4 * a + b + k →
      count = count' + 8 * k → count' ≤ 8 → (0 < k → 0 < count') →
      (∀ i < k, bs.bitmap (4 * temp + p + (i + 1)) = 0#8) →
      Counted bs temp count a b p (some (count', a', b', p + k))

theorem stepWhile_counted (ha : a < bs.size) (hb : b < 4) :
    Counted bs temp count a b p (bs.stepWhile temp count a b p) := by
  induction count using Nat.strongRecOn generalizing a b p with
  | ind count ih =>
    rcases Nat.lt_or_ge count 9 with hlt | hge
    · rw [stepWhile]
      · exact .through count a b 0 ha hb rfl rfl (by omega) (by omega) (by omega)
      · omega
    obtain ⟨count, rfl⟩ := Nat.exists_eq_add_of_le' hge
    rw [stepWhile]
    rcases stepforward_cases ha hb p with ⟨hs, hend⟩ | ⟨a', b', hs, ha', hb', hpos⟩
    · rw [hs]
      exact .atEnd 1 hend (by decide) (by omega)
    · rw [hs, Option.bind_eq_bind, Option.bind_some]
      dsimp only
      split
      · next hzero =>
        -- the counting goes on at the next byte, one more byte of which is free
        have hrest := ih (count + 1) (by omega) ha' hb' (p := p + 1)
        generalize bs.stepWhile temp (count + 1) a' b' (p + 1) = out at hrest ⊢
        cases hrest with
        | atEnd k hend hk hcount => exact .atEnd (k + 1) (by omega) (by omega) (by omega)
        | stopped count' a'' b'' k ha'' hb'' hk hcount' hcount =>
            rw [show p + 1 + k = p + (k + 1) by omega]
            exact .stopped count' a'' b'' (k + 1) ha'' hb'' (by omega) hcount' (by omega)
        | through count' a'' b'' k ha'' hb'' hk hcount hle hpos' hzeros =>
            rw [show p + 1 + k = p + (k + 1) by omega]
            refine .through count' a'' b'' (k + 1) ha'' hb'' (by omega) (by omega) hle
              (by omega) fun i hi => ?_
            cases i with
            | zero => exact hzero
            | succ i =>
                have hnext := hzeros i (by omega)
                rwa [show 4 * temp + (p + 1) + (i + 1) = 4 * temp + p + (i + 1 + 1) by omega]
                  at hnext
      · exact .stopped (count + 9) a' b' 1 ha' hb' (by omega) (by omega) (by omega)

/-- How a try at a byte for several bits ends. -/
inductive Tried (bs : KLbitmapStruct) (n temp a b : Nat) : Try → Prop
  | inByte : n < 8 → n ≤ fastBitList (bs.bitmap (4 * temp + b)) →
      Tried bs n temp a b (.hit .inByte)
  /-- The last `count` bits of the block are counted off in `k` bytes behind the second. -/
  | span (count k : Nat) : ¬ (n < 8 ∧ n ≤ fastBitList (bs.bitmap (4 * temp + b))) →
      n - fastBitStList (bs.bitmap (4 * temp + b)) = count + 8 * k →
      count < 8 → (0 < k → 0 < count) →
      (∀ i < k, bs.bitmap (4 * temp + b + 1 + (i + 1)) = 0#8) →
      count ≤ fastBitEnList (bs.bitmap (4 * temp + b + 1 + k)) →
      4 * a + b + 1 + k < 4 * bs.size → Tried bs n temp a b (.hit .span)
  | atEnd (k : Nat) : ¬ (n < 8 ∧ n ≤ fastBitList (bs.bitmap (4 * temp + b))) →
      4 * a + b + 1 + k = 4 * bs.size →
      (0 < k → 8 * k < n - fastBitStList (bs.bitmap (4 * temp + b))) → Tried bs n temp a b .atEnd
  | next (a' b' : Nat) : ¬ (n < 8 ∧ n ≤ fastBitList (bs.bitmap (4 * temp + b))) →
      a' < bs.size → b' < 4 → a ≤ a' → 4 * a + b < 4 * a' + b' →
      (n - fastBitStList (bs.bitmap (4 * temp + b)) < 8 →
        fastBitEnList (bs.bitmap (4 * temp + b + 1)) <
          n - fastBitStList (bs.bitmap (4 * temp + b))) →
      Tried bs n temp a b (.next a' b')

theorem tryByte_tried {out : Try} (htry : bs.tryByte n temp a b = out) (hn : n ≠ 1)
    (ha : a < bs.size) (hb : b < 4) : Tried bs n temp a b out := by
  subst htry
  unfold tryByte
  rw [if_neg hn]
  split
  · next hin => exact .inByte hin.1 hin.2
  · next hin =>
    -- the first step is made without a look at the byte behind
    rcases stepforward_cases ha hb b with ⟨hs, hend⟩ | ⟨a', b', hs, ha', hb', hpos⟩
    · rw [hs]
      exact .atEnd 0 hin hend (by omega)
    · rw [hs]
      dsimp only [Option.bind_some]
      have hcounted : Counted bs temp (n - fastBitStList (bs.bitmap (4 * temp + b))) a' b' (b + 1)
          (bs.stepWhile temp _ a' b' (b + 1)) := stepWhile_counted ha' hb'
      generalize bs.stepWhile temp _ a' b' (b + 1) = out at hcounted ⊢
      cases hcounted with
      | atEnd k hend hk hcount => exact .atEnd k hin (by omega) (by omega)
      | stopped count' a'' b'' k ha'' hb'' hk hcount' hcount =>
          dsimp only
          rw [if_neg (by omega)]
          exact .next a'' b'' hin ha'' hb'' (by omega) (by omega) (by omega)
      | through count' a'' b'' k ha'' hb'' hk hcount hle hpos' hzeros =>
          dsimp only
          rw [show 4 * temp + (b + 1 + k) = 4 * temp + b + 1 + k by omega]
          split
          · next hfit =>
            exact .span count' k hin hcount hfit.1 hpos' hzeros hfit.2 (by omega)
          · next hfit =>
            refine .next a'' b'' hin ha'' hb'' (by omega) (by omega) fun hlt => ?_
            obtain rfl : k = 0 := by omega
            rw [Nat.add_zero] at hfit
            omega

/-! ## Places -/

/-- What a round of the loops does when they go on. -/
inductive Moved (bs : KLbitmapStruct) (n : Nat) : Place → Place → Prop
  | fullWord (a : Nat) : a < bs.size → bs.WordFull a → Moved bs n (.word a) (.word (a + 1))
  | enter (a : Nat) : a < bs.size → ¬ bs.WordFull a → Moved bs n (.word a) (.byte a a 0)
  | fullByte (temp a b : Nat) : b < 4 → bs.bitmap (4 * temp + b) = 0xff#8 →
      Moved bs n (.byte temp a b) (.byte temp a (b + 1))
  | failed (temp a b a' b' : Nat) : b < 4 → bs.bitmap (4 * temp + b) ≠ 0xff#8 →
      bs.tryByte n temp a b = .next a' b' → Moved bs n (.byte temp a b) (.byte temp a' (b' + 1))
  | leave (temp a b : Nat) : 4 ≤ b → Moved bs n (.byte temp a b) (.word (a + 1))

theorem look_move {place place' : Place} (h : bs.look n place = .move place') :
    bs.Moved n place place' := by
  cases place with
  | word a =>
      unfold look at h
      dsimp only at h
      split_ifs at h with hlt hfull
      · cases h
        exact .fullWord a hlt hfull
      · cases h
        exact .enter a hlt hfull
  | byte temp a b =>
      unfold look at h
      dsimp only at h
      split_ifs at h with hlt hfull
      · cases h
        exact .fullByte temp a b hlt hfull
      · split at h
        · cases h
        · cases h
        · next a' b' htry =>
          cases h
          exact .failed temp a b a' b' hlt hfull htry
      · cases h
        exact .leave temp a b (by omega)

/-- The search ends without a hit before a word behind the last, or in a try. -/
theorem look_stop {place : Place} (h : bs.look n place = .stop) :
    (∃ a, place = .word a ∧ bs.size ≤ a) ∨ ∃ temp a b, place = .byte temp a b ∧ b < 4 ∧
      bs.bitmap (4 * temp + b) ≠ 0xff#8 ∧ bs.tryByte n temp a b = .atEnd := by
  cases place with
  | word a =>
      unfold look at h
      dsimp only at h
      split_ifs at h with hlt hfull
      exact .inl ⟨a, rfl, by omega⟩
  | byte temp a b =>
      unfold look at h
      dsimp only at h
      split_ifs at h with hlt hfull
      split at h
      · cases h
      · next htry => exact .inr ⟨temp, a, b, rfl, hlt, hfull, htry⟩
      · cases h

theorem look_hit {place : Place} (hl : bs.look n place = .hit h temp a b) :
    place = .byte temp a b ∧ b < 4 ∧ bs.bitmap (4 * temp + b) ≠ 0xff#8 ∧
      bs.tryByte n temp a b = .hit h := by
  cases place with
  | word a =>
      unfold look at hl
      dsimp only at hl
      split_ifs at hl
  | byte temp a b =>
      unfold look at hl
      dsimp only at hl
      split_ifs at hl with hlt hfull
      split at hl
      · next htry =>
        cases hl
        exact ⟨rfl, hlt, hfull, htry⟩
      · cases hl
      · cases hl

/-- The places that the search comes to. -/
def Reaches (bs : KLbitmapStruct) (n : Nat) : Place → Prop :=
  Relation.ReflTransGen (fun place place' => bs.look n place = .move place') (.word bs.firstFree)

/-- The search reads no word behind the one that is meant, and none behind the last. -/
def Inside (bs : KLbitmapStruct) : Place → Prop
  | .word a => bs.firstFree ≤ a
  | .byte temp a b => bs.firstFree ≤ temp ∧ temp ≤ a ∧ a < bs.size ∧ b ≤ 4

/-- A try for one bit does not fail. -/
theorem tryByte_next_ne_one {a' b' : Nat} (htry : bs.tryByte n temp a b = .next a' b') :
    n ≠ 1 := by
  rintro rfl
  unfold tryByte at htry
  rw [if_pos rfl] at htry
  cases htry

theorem Inside.moved {place place' : Place} (h : bs.Inside place)
    (hm : bs.Moved n place place') : bs.Inside place' := by
  cases hm with
  | fullWord a _ _ => exact Nat.le_succ_of_le h
  | enter a ha _ => exact ⟨h, Nat.le_refl a, ha, by decide⟩
  | fullByte temp a b hb _ => exact ⟨h.1, h.2.1, h.2.2.1, hb⟩
  | failed temp a b a' b' hb _ htry =>
      cases tryByte_tried htry (tryByte_next_ne_one htry) h.2.2.1 hb with
      | next _ _ _ ha' hb' hle _ _ => exact ⟨h.1, Nat.le_trans h.2.1 hle, ha', hb'⟩
  | leave temp a b _ => exact Nat.le_succ_of_le (Nat.le_trans h.1 h.2.1)

theorem Reaches.inside {place : Place} (h : bs.Reaches n place) : bs.Inside place := by
  induction h with
  | refl => exact Nat.le_refl _
  | tail _ hs ih => exact ih.moved (look_move hs)

/-- How far the search is: a round goes on by one at least. -/
def Place.progress : Place → Nat
  | .word a => 6 * a
  | .byte _ a b => 6 * a + b + 1

theorem Inside.progress {place place' : Place} (h : bs.Inside place)
    (hm : bs.Moved n place place') : place.progress < place'.progress := by
  cases hm with
  | fullWord a _ _ => exact Nat.mul_lt_mul_of_pos_left (Nat.lt_succ_self a) (by decide)
  | enter a _ _ => exact Nat.lt_succ_self _
  | fullByte temp a b _ _ => exact Nat.lt_succ_self _
  | failed temp a b a' b' hb _ htry =>
      cases tryByte_tried htry (tryByte_next_ne_one htry) h.2.2.1 hb with
      | next _ _ _ ha' hb' hle hlt _ =>
          dsimp only [Place.progress]
          omega
  | leave temp a b _ =>
      have := h.2.2.2
      dsimp only [Place.progress]
      omega

/-- How the search ends: with a hit at a place, or without. -/
inductive Ended (bs : KLbitmapStruct) (n : Nat) (place : Place) :
    Option (Hit × Nat × Nat × Nat) → Prop
  | stop : bs.look n place = .stop → Ended bs n place none
  | hit (h : Hit) (temp a b : Nat) : bs.look n place = .hit h temp a b →
      Ended bs n place (some (h, temp, a, b))

/-- **The rule of the search**: what each round keeps holds where it ends, and it ends. -/
theorem search_rule {I : Nat → Place → Prop} (hinside : ∀ {f place}, I f place → bs.Inside place)
    (hstep : ∀ {f place place'}, I f place → bs.look n place = .move place' →
      I (place'.firstFree f) place') {fuel f : Nat} {place : Place} (h : I f place)
    (hfuel : 6 * bs.size < place.progress + fuel) :
    ∃ place', I (bs.search n fuel f place).1 place' ∧
      bs.Ended n place' (bs.search n fuel f place).2 := by
  induction fuel generalizing f place with
  | zero =>
      -- so far only a word behind the last is
      refine ⟨place, h, .stop ?_⟩
      have hin := hinside h
      cases place with
      | word a =>
          dsimp only [Place.progress] at hfuel
          exact if_neg (by omega)
      | byte temp a b =>
          obtain ⟨-, -, ha, hb⟩ := hin
          dsimp only [Place.progress] at hfuel
          omega
  | succ fuel ih =>
      unfold search
      cases hl : bs.look n place with
      | hit hit temp a b => exact ⟨place, h, .hit hit temp a b hl⟩
      | stop => exact ⟨place, h, .stop hl⟩
      | move place' =>
          have hp := (hinside h).progress (look_move hl)
          exact ih (hstep h hl) (by omega)

/-- The rule for the search of a call. -/
theorem search_rule_call {I : Nat → Place → Prop}
    (hinside : ∀ {f place}, I f place → bs.Inside place)
    (hstep : ∀ {f place place'}, I f place → bs.look n place = .move place' →
      I (place'.firstFree f) place') (h : I bs.firstFree (.word bs.firstFree)) :
    ∃ place, I (bs.search n (6 * bs.size + 1) bs.firstFree (.word bs.firstFree)).1 place ∧
      bs.Ended n place (bs.search n (6 * bs.size + 1) bs.firstFree (.word bs.firstFree)).2 := by
  refine search_rule (I := I) hinside hstep h ?_
  dsimp only [Place.progress]
  omega

end KLbitmapStruct

end Alliance.KL
