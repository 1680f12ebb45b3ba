import Alliance.KL.BitmapSearch
import Alliance.Lib.Run
import Mathlib.Order.Bounds.Basic

/-!
# The hint where the first free bit is

No free bit is in a word below `firstFree`, so that a search may start there. `KLbitmapMarkUsed`
and `KLbitmapFree` keep this, and so does an allocation that finds free bits in one word only:
`firstFree` is set at every word with a free bit that the search comes to, also when it has left
others behind.
-/

namespace Alliance.KL

open Function Lib KLbitmapStruct

namespace KLbitmapStruct

variable {bs : KLbitmapStruct} {n temp a b f j : Nat} {h : Hit} {place place' : Place}

/-- No free bit is in a word below the hint. -/
def HintHolds (bs : KLbitmapStruct) : Prop := ∀ j < 32 * bs.firstFree, ¬ BitFree bs.bitmap j

/-- The search starts its tries in one word: all other words that it comes to are full. -/
def OneWord (bs : KLbitmapStruct) (n : Nat) : Prop :=
  ∀ a a', bs.Reaches n (.word a) → bs.Reaches n (.word a') → a < bs.size → a' < bs.size →
    ¬ bs.WordFull a → ¬ bs.WordFull a' → a = a'

theorem WordFull.not_bitFree (h : bs.WordFull (j / 32)) : ¬ BitFree bs.bitmap j := by
  have hbyte := h (j / 8 % 4) (Nat.mod_lt _ (by decide))
  rw [show 4 * (j / 32) + j / 8 % 4 = j / 8 by omega] at hbyte
  exact not_bitFree_full (by decide) hbyte

/-- Words that are full from the hint on. -/
def FullBelow (bs : KLbitmapStruct) (a : Nat) : Prop :=
  ∀ w, bs.firstFree ≤ w → w < a → bs.WordFull w

theorem FullBelow.succ (h : bs.FullBelow a) (ha : bs.WordFull a) : bs.FullBelow (a + 1) :=
  fun w hw hlt => (Nat.lt_succ_iff_lt_or_eq.mp hlt).elim (h w hw) fun he => he ▸ ha

theorem FullBelow.not_bitFree (h : bs.FullBelow a) (hhint : bs.HintHolds) (hj : j < 32 * a) :
    ¬ BitFree bs.bitmap j := by
  rcases Nat.lt_or_ge j (32 * bs.firstFree) with hlt | hge
  · exact hhint j hlt
  · exact (h (j / 32) (by omega) (by omega)).not_bitFree

/-! ## One search -/

/-- What the search keeps if it starts its tries in one word: `firstFree` has been set at that
word, or there was none so far. -/
structure Hinted (bs : KLbitmapStruct) (n f : Nat) (place : Place) : Prop where
  reaches : bs.Reaches n place
  below : bs.FullBelow f
  entered : (∃ a, place = .word a ∧ bs.FullBelow a) ∨
    bs.Reaches n (.word f) ∧ f < bs.size ∧ ¬ bs.WordFull f
  temp : ∀ temp a b, place = .byte temp a b → f = temp

theorem Hinted.move (hone : bs.OneWord n) (h : bs.Hinted n f place)
    (hl : bs.look n place = .move place') : bs.Hinted n (place'.firstFree f) place' := by
  have hreaches : bs.Reaches n place' := h.reaches.tail hl
  cases look_move hl with
  | fullWord a _ hfull =>
      refine ⟨hreaches, h.below, h.entered.imp_left fun ⟨a', ha', hbelow⟩ => ?_, nofun⟩
      cases ha'
      exact ⟨a + 1, rfl, hbelow.succ hfull⟩
  | enter a ha hfull =>
      refine ⟨hreaches, ?_, .inr ⟨h.reaches, ha, hfull⟩, fun _ _ _ he => by cases he; rfl⟩
      rcases h.entered with ⟨a', ha', hbelow⟩ | ⟨hr, hf, hnot⟩
      · cases ha'
        exact hbelow
      · -- a second word is the first one
        exact hone f a hr h.reaches hf ha hnot hfull ▸ h.below
  | fullByte temp a b _ _ =>
      obtain rfl := h.temp temp a b rfl
      exact ⟨hreaches, h.below, .inr (h.entered.resolve_left nofun),
        fun _ _ _ he => by cases he; rfl⟩
  | failed temp a b a' b' _ _ _ =>
      obtain rfl := h.temp temp a b rfl
      exact ⟨hreaches, h.below, .inr (h.entered.resolve_left nofun),
        fun _ _ _ he => by cases he; rfl⟩
  | leave temp a b _ =>
      exact ⟨hreaches, h.below, .inr (h.entered.resolve_left nofun), nofun⟩

/-- The words that are below the new hint and not below the old one are full. -/
theorem OneWord.fullBelow (hone : bs.OneWord n) :
    bs.FullBelow (bs.search n (6 * bs.size + 1) bs.firstFree (.word bs.firstFree)).1 := by
  have hnone : bs.FullBelow bs.firstFree := fun w hw hlt => absurd hw (Nat.not_le.mpr hlt)
  obtain ⟨place, h, -⟩ := search_rule_call (I := bs.Hinted n)
    (fun h => Reaches.inside h.reaches) (fun h hl => h.move hone hl)
    ⟨.refl, hnone, .inl ⟨_, rfl, hnone⟩, nofun⟩
  exact h.below

/-- Of the words with a free bit that a search comes to, those behind it are not above the
hint. -/
structure Behind (bs : KLbitmapStruct) (n f : Nat) (place : Place) : Prop where
  reaches : bs.Reaches n place
  hint : ∀ a, place = .word a → f ≤ a
  temp : ∀ temp a b, place = .byte temp a b → f = temp
  entered : ∀ a, bs.Reaches n (.word a) → a < bs.size → ¬ bs.WordFull a → a ≤ f ∨
    Relation.ReflTransGen (fun place place' => bs.look n place = .move place') place (.word a)

theorem Behind.move (h : bs.Behind n f place) (hl : bs.look n place = .move place') :
    bs.Behind n (place'.firstFree f) place' := by
  have hreaches : bs.Reaches n place' := h.reaches.tail hl
  -- the hint is not moved back
  have hmono : f ≤ place'.firstFree f := by
    cases look_move hl with
    | fullWord a _ _ => exact Nat.le_refl f
    | enter a _ _ => exact h.hint a rfl
    | fullByte temp a b _ _ => exact Nat.le_of_eq (h.temp temp a b rfl)
    | failed temp a b a' b' _ _ _ => exact Nat.le_of_eq (h.temp temp a b rfl)
    | leave temp a b _ => exact Nat.le_refl f
  refine ⟨hreaches, fun a ha => ?_, fun temp a b hb => ?_, fun a ha hlt hnot => ?_⟩
  · cases look_move hl with
    | fullWord a' _ _ =>
        cases ha
        exact Nat.le_succ_of_le (h.hint a' rfl)
    | enter _ _ _ => cases ha
    | fullByte _ _ _ _ _ => cases ha
    | failed _ _ _ _ _ _ _ _ => cases ha
    | leave temp a' b _ =>
        cases ha
        obtain ⟨-, hle, -⟩ := Reaches.inside h.reaches
        exact Nat.le_succ_of_le (h.temp temp a' b rfl ▸ hle)
  · cases hb
    rfl
  · rcases h.entered a ha hlt hnot with hle | hahead
    · exact .inl (Nat.le_trans hle hmono)
    rcases hahead.cases_head with rfl | ⟨place'', hl', hahead'⟩
    · -- the word is entered
      cases look_move hl with
      | fullWord _ _ hfull => exact absurd hfull hnot
      | enter _ _ _ => exact .inl (Nat.le_refl a)
    · obtain rfl := Look.move.inj (hl.symm.trans hl')
      exact .inr hahead'

theorem Ended.not_move {hit : Option (Hit × Nat × Nat × Nat)} (h : bs.Ended n place hit) :
    bs.look n place ≠ .move place' := by
  cases h with
  | stop hstop => simp [hstop]
  | hit h temp a b hl => simp [hl]

/-- Where a search has ended all words with a free bit that it came to are behind it. -/
theorem Behind.le (h : bs.Behind n f place) (hend : ∀ p, bs.look n place ≠ .move p)
    (ha : bs.Reaches n (.word a)) (hlt : a < bs.size) (hnot : ¬ bs.WordFull a) : a ≤ f := by
  refine (h.entered a ha hlt hnot).elim id fun hahead => ?_
  rcases hahead.cases_head with rfl | ⟨p, hl, -⟩
  · refine absurd ?_ (hend (.byte a a 0))
    unfold look
    dsimp only
    rw [if_pos hlt, if_neg hnot]
  · exact absurd hl (hend p)

/-! ## Single bits -/

/-- A try for one bit, or for none, is a hit. -/
theorem tryByte_le_one (bs : KLbitmapStruct) (hn : n ≤ 1) (temp a b : Nat) :
    ∃ h, bs.tryByte n temp a b = .hit h := by
  unfold tryByte
  dsimp only
  rcases Nat.eq_or_lt_of_le hn with rfl | hlt
  · exact ⟨.single, if_pos rfl⟩
  · rw [if_neg (by omega), if_pos ⟨by omega, by omega⟩]
    exact ⟨.inByte, rfl⟩

/-- Where a search for one bit is: what is behind it is full. -/
def BehindFull (bs : KLbitmapStruct) : Place → Prop
  | .word a => bs.FullBelow a
  | .byte temp a b => temp = a ∧ ¬ bs.WordFull a ∧ ∀ c < b, bs.bitmap (4 * a + c) = 0xff#8

theorem Reaches.behindFull (hn : n ≤ 1) (h : bs.Reaches n place) : bs.BehindFull place := by
  induction h with
  | refl => exact fun w hw hlt => absurd hw (Nat.not_le.mpr hlt)
  | @tail place place' _ hl ih =>
      cases look_move hl with
      | fullWord a _ hfull => exact FullBelow.succ ih hfull
      | enter a _ hnot => exact ⟨rfl, hnot, fun c hc => absurd hc (Nat.not_lt_zero c)⟩
      | fullByte temp a b _ hfull =>
          obtain ⟨rfl, hnot, hbytes⟩ := ih
          exact ⟨rfl, hnot, fun c hc => (Nat.lt_succ_iff_lt_or_eq.mp hc).elim (hbytes c)
            fun he => he ▸ hfull⟩
      | failed temp a b a' b' _ _ htry =>
          -- no try for one bit goes on
          obtain ⟨h, hh⟩ := bs.tryByte_le_one hn temp a b
          exact absurd (hh.symm.trans htry) nofun
      | leave temp a b hb => exact absurd (fun c hc => ih.2.2 c (by omega)) ih.2.1

/-- **A search for one bit** starts its tries in one word. -/
theorem oneWord_of_le_one (hn : n ≤ 1) : bs.OneWord n := by
  intro a a' ha ha' _ _ hnot hnot'
  have hin : bs.firstFree ≤ a := Reaches.inside ha
  have hin' : bs.firstFree ≤ a' := Reaches.inside ha'
  have hbelow : bs.FullBelow a := Reaches.behindFull hn ha
  have hbelow' : bs.FullBelow a' := Reaches.behindFull hn ha'
  rcases Nat.lt_trichotomy a a' with hlt | rfl | hlt
  · exact absurd (hbelow' a hin hlt) hnot
  · rfl
  · exact absurd (hbelow a' hin' hlt) hnot'

/-- A search for one bit that is over has met full words only. -/
theorem fullBelow_of_stop (hn : n ≤ 1) (h : bs.Reaches n place)
    (hstop : bs.look n place = .stop) : bs.FullBelow bs.size := by
  rcases look_stop hstop with ⟨a, rfl, ha⟩ | ⟨temp, a, b, rfl, -, -, htry⟩
  · have hbelow : bs.FullBelow a := Reaches.behindFull hn h
    exact fun w hw hlt => hbelow w hw (by omega)
  · obtain ⟨h, hh⟩ := bs.tryByte_le_one hn temp a b
    exact absurd (hh.symm.trans htry) nofun

/-! ## Marking and freeing -/

/-- Marking frees nothing. -/
theorem bitFree_mark (hf : BitFree (bs.mark n temp a b h).1 j) : BitFree bs.bitmap j := by
  cases h with
  | single => exact hf.of_or
  | inByte => exact hf.of_or
  | span => exact BitFree.of_or ((marked_while _ _ _ j).mp hf).1

/-- Nothing is marked before the word that was read. -/
theorem bitFree_mark_below (hj : j < 32 * temp) :
    BitFree (bs.mark n temp a b h).1 j ↔ BitFree bs.bitmap j := by
  have hbyte : j / 8 ≠ 4 * temp + b := by omega
  cases h with
  | single => exact bitFree_update hbyte
  | inByte => exact bitFree_update hbyte
  | span =>
      refine (marked_while _ _ _ j).trans (Iff.trans (and_iff_left ?_) (bitFree_update hbyte))
      omega

/-- A word that is not full has a free bit. -/
theorem exists_bitFree (h : ¬ bs.WordFull a) : ∃ j < 32 * (a + 1), BitFree bs.bitmap j := by
  obtain ⟨b, h⟩ := not_forall.mp h
  obtain ⟨hb, hbits⟩ := Classical.not_imp.mp h
  obtain ⟨hbit, hfree⟩ := first_bit _ hbits
  exact ⟨8 * (4 * a + b) + fastBitStTable (bs.bitmap (4 * a + b)), by omega,
    (bitFree_cell hbit).mpr hfree⟩

/-! ## The lowest bit -/

/-- The table has the first free bit: those below it are used. -/
theorem first_bit_lowest : ∀ x : BitVec 8, ∀ k < fastBitStTable x, x.getLsbD k = true := by
  decide +kernel

theorem bitMask_bits : ∀ o < 8, ∀ k < 8,
    (1#8 <<< o).getLsbD k = decide (o ≤ k ∧ k < o + 1) := by
  decide +kernel

/-- No bit is free before the first free bit of a byte, if none is in what the search has
passed over. -/
theorem FullBelow.not_bitFree_before (hbelow : bs.FullBelow a) (hhint : bs.HintHolds)
    (hbytes : ∀ c < b, bs.bitmap (4 * a + c) = 0xff#8) (hb : b < 4)
    (hbit : fastBitStTable (bs.bitmap (4 * a + b)) < 8)
    (hj : j < 8 * (4 * a + b) + fastBitStTable (bs.bitmap (4 * a + b))) :
    ¬ BitFree bs.bitmap j := by
  rcases Nat.lt_or_ge j (32 * a) with hlt | hge
  · exact hbelow.not_bitFree hhint hlt
  rcases Nat.lt_or_ge j (8 * (4 * a + b)) with hlt | hge
  · -- a byte of the word that has been looked at
    have hbyte := hbytes (j / 8 - 4 * a) (by omega)
    rw [show 4 * a + (j / 8 - 4 * a) = j / 8 by omega] at hbyte
    exact not_bitFree_full (by decide) hbyte
  · have hset := first_bit_lowest (bs.bitmap (4 * a + b)) (j - 8 * (4 * a + b)) (by omega)
    intro hfree
    rw [show j = 8 * (4 * a + b) + (j - 8 * (4 * a + b)) by omega, bitFree_cell (by omega), hset]
      at hfree
    exact absurd hfree nofun

/-- What the search for one bit keeps: `firstFree` is set only where it ends. -/
structure Single (bs : KLbitmapStruct) (f : Nat) (place : Place) : Prop where
  hinted : bs.Hinted 1 f place
  unset : ∀ a, place = .word a → f = bs.firstFree

theorem Single.move (h : bs.Single f place) (hl : bs.look 1 place = .move place') :
    bs.Single (place'.firstFree f) place' := by
  refine ⟨h.hinted.move (oneWord_of_le_one (Nat.le_refl 1)) hl, fun a ha => ?_⟩
  subst ha
  cases look_move hl with
  | fullWord a' _ _ => exact h.unset a' rfl
  | leave temp a' b hb =>
      -- a word that is not full is not left
      obtain ⟨-, hnot, hbytes⟩ := Reaches.behindFull (Nat.le_refl 1) h.hinted.reaches
      exact absurd (fun c hc => hbytes c (by omega)) hnot

/-- Where a search for one bit has a hit, the bit is the lowest that is free, and no other is
marked. -/
theorem Single.isLeast (hin : bs.Single f (.byte temp a b))
    (hl : bs.look 1 (.byte temp a b) = .hit h temp a b) (hhint : bs.HintHolds) :
    IsLeast {k | k < 32 * bs.size ∧ BitFree bs.bitmap k} (bs.mark 1 temp a b h).2 ∧
      Marked bs.bitmap (bs.mark 1 temp a b h).1 (bs.mark 1 temp a b h).2 1 := by
  obtain ⟨-, hb, hbits, htry⟩ := look_hit hl
  obtain ⟨-, -, ha, -⟩ := Reaches.inside hin.hinted.reaches
  obtain ⟨rfl, -, hbytes⟩ := Reaches.behindFull (Nat.le_refl 1) hin.hinted.reaches
  obtain rfl := hin.hinted.temp temp temp b rfl
  obtain rfl : Hit.single = h := Try.hit.inj htry
  obtain ⟨hbit, hfree⟩ := first_bit _ hbits
  have hindex : (bs.mark 1 f f b .single).2 =
      8 * (4 * f + b) + fastBitStTable (bs.bitmap (4 * f + b)) := by
    show (4 * f + b) * 8 + _ = _
    rw [Nat.mul_comm]
  rw [hindex]
  refine ⟨⟨⟨by omega, (bitFree_cell hbit).mpr hfree⟩, fun k hk => ?_⟩,
    marked_or (bitMask_bits _ hbit) (by omega)⟩
  by_contra hlt
  exact hin.hinted.below.not_bitFree_before hhint hbytes hb hbit (Nat.not_le.mp hlt) hk.2

/-- A search for one bit that has no hit has set nothing, and has met full words only. -/
theorem Single.stop (hin : bs.Single f place) (hstop : bs.look 1 place = .stop) :
    f = bs.firstFree ∧ bs.FullBelow bs.size := by
  refine ⟨?_, fullBelow_of_stop (Nat.le_refl 1) hin.hinted.reaches hstop⟩
  rcases look_stop hstop with ⟨a, rfl, -⟩ | ⟨temp, a, b, rfl, -, -, htry⟩
  · exact hin.unset a rfl
  · obtain ⟨h, hh⟩ := bs.tryByte_le_one (Nat.le_refl 1) temp a b
    exact absurd (hh.symm.trans htry) nofun

end KLbitmapStruct

open KLbitmapStruct

variable {bs bs' : KLbitmapStruct} {n bit j size : Nat}

theorem klBitmapAlloc_hint (hone : bs.OneWord n) (h : bs.HintHolds) :
    (klBitmapAlloc bs n).1.HintHolds := by
  have hbelow := hone.fullBelow
  unfold klBitmapAlloc
  generalize bs.search n (6 * bs.size + 1) bs.firstFree (.word bs.firstFree) = out at hbelow ⊢
  obtain ⟨firstFree, - | ⟨h', temp, a, b⟩⟩ := out
  · exact fun j hj => hbelow.not_bitFree h hj
  · exact fun j hj hf => hbelow.not_bitFree h hj (bitFree_mark hf)

/-- A word with a free bit that the search passes over stays below the new hint. -/
theorem oneWord_of_hint (h : (klBitmapAlloc bs n).1.HintHolds) : bs.OneWord n := by
  have hnone : ∀ {a a'}, bs.Reaches n (.word a') → a' < bs.size → ¬ bs.WordFull a →
      ¬ bs.WordFull a' → ¬ a < a' := by
    intro a a' ha' hsize hnot hnot' hlt
    obtain ⟨j, hj, hfree⟩ := exists_bitFree hnot
    obtain ⟨place, hbehind, hended⟩ := search_rule_call (I := bs.Behind n)
      (fun h => Reaches.inside h.reaches) (fun h hl => h.move hl)
      ⟨.refl, fun a ha => by cases ha; exact Nat.le_refl _, nofun, fun a ha _ _ => .inr ha⟩
    have hle := hbehind.le (fun _ => hended.not_move) ha' hsize hnot'
    unfold klBitmapAlloc at h
    generalize bs.search n (6 * bs.size + 1) bs.firstFree (.word bs.firstFree) = out
      at h hbehind hended hle
    obtain ⟨firstFree, hit⟩ := out
    dsimp only at hle
    cases hended with
    | stop _ => exact h j (show j < 32 * firstFree by omega) hfree
    | hit hit temp a b hl =>
        obtain ⟨rfl, -⟩ := look_hit hl
        have htemp : firstFree = temp := hbehind.temp temp a b rfl
        exact h j (show j < 32 * firstFree by omega) ((bitFree_mark_below (by omega)).mpr hfree)
  intro a a' ha ha' hsize hsize' hnot hnot'
  exact Nat.le_antisymm (Nat.not_lt.mp (hnone ha hsize hnot' hnot))
    (Nat.not_lt.mp (hnone ha' hsize' hnot hnot'))

/-- A byte that is changed is not below the hint. -/
theorem hint_update {x : BitVec 8} (h : bs.HintHolds)
    (hj : j < 32 * if bit / 8 / 4 < bs.firstFree then bit / 8 / 4 else bs.firstFree) :
    ¬ BitFree (update bs.bitmap (bit / 8) x) j := by
  have hbyte : j / 8 ≠ bit / 8 := by
    split_ifs at hj <;> omega
  have hlt : j < 32 * bs.firstFree := by
    split_ifs at hj <;> omega
  rw [bitFree_update hbyte]
  exact h j hlt

/-- What an allocation of one bit does. -/
theorem klBitmapAlloc_one_cases (h : bs.HintHolds) :
    klBitmapAlloc bs 1 = (bs, none) ∧ (∀ j < 32 * bs.size, ¬ BitFree bs.bitmap j) ∨
    ∃ j, (klBitmapAlloc bs 1).2 = some j ∧
      IsLeast {k | k < 32 * bs.size ∧ BitFree bs.bitmap k} j ∧
      Marked bs.bitmap (klBitmapAlloc bs 1).1.bitmap j 1 ∧
      (klBitmapAlloc bs 1).1.size = bs.size := by
  have hfirst : bs.FullBelow bs.firstFree := fun w hw hlt => absurd hw (Nat.not_le.mpr hlt)
  obtain ⟨place, hsingle, hended⟩ := search_rule_call (n := 1) (I := bs.Single)
    (fun h => Reaches.inside h.hinted.reaches) Single.move
    ⟨⟨.refl, hfirst, .inl ⟨_, rfl, hfirst⟩, nofun⟩, fun _ _ => rfl⟩
  unfold klBitmapAlloc
  generalize bs.search 1 (6 * bs.size + 1) bs.firstFree (.word bs.firstFree) = out
    at hsingle hended
  obtain ⟨firstFree, hit⟩ := out
  cases hended with
  | stop hstop =>
      obtain ⟨hunset, hfull⟩ := hsingle.stop hstop
      dsimp only at hunset
      subst hunset
      exact .inl ⟨rfl, fun j hj => hfull.not_bitFree h hj⟩
  | hit hit temp a b hl =>
      obtain ⟨rfl, -⟩ := look_hit hl
      obtain ⟨hleast, hmarked⟩ := hsingle.isLeast hl h
      exact .inr ⟨_, rfl, hleast, hmarked, rfl⟩

/-- Where one bit is not found none is free. -/
theorem klBitmapAlloc_one (h : bs.HintHolds) (hnone : (klBitmapAlloc bs 1).2 = none)
    (hj : j < 32 * bs.size) : ¬ BitFree bs.bitmap j := by
  rcases klBitmapAlloc_one_cases h with ⟨-, hfull⟩ | ⟨j', hj', -⟩
  · exact hfull j hj
  · exact absurd (hj'.symm.trans hnone) nofun

/-- **A single bit** that is allocated is the lowest that is free, and no other bit is marked;
where none is free the bitmap stays as it is. The hint stays right, and it does when a bit is
marked used or freed. -/
theorem klBitmapAlloc_single (h : bs.HintHolds) :
    ((klBitmapAlloc bs 1).2 = none ↔ ∀ j < 32 * bs.size, ¬ BitFree bs.bitmap j) ∧
    ((klBitmapAlloc bs 1).2 = none → (klBitmapAlloc bs 1).1 = bs) ∧
    (∀ j, (klBitmapAlloc bs 1).2 = some j →
      IsLeast {k | k < 32 * bs.size ∧ BitFree bs.bitmap k} j ∧
      Marked bs.bitmap (klBitmapAlloc bs 1).1.bitmap j 1 ∧
      (klBitmapAlloc bs 1).1.size = bs.size) ∧
    (klBitmapAlloc bs 1).1.HintHolds ∧
    ∀ bit, (klBitmapMarkUsed bs bit).HintHolds ∧ (klBitmapFree bs bit).HintHolds := by
  have hhint : (klBitmapAlloc bs 1).1.HintHolds :=
    klBitmapAlloc_hint (oneWord_of_le_one (Nat.le_refl 1)) h
  have hkept : ∀ bit, (klBitmapMarkUsed bs bit).HintHolds ∧ (klBitmapFree bs bit).HintHolds :=
    fun bit => ⟨fun j hj => hint_update h hj, fun j hj => hint_update h hj⟩
  rcases klBitmapAlloc_one_cases h with ⟨hnone, hfull⟩ | ⟨j, hj, hleast, hmarked, hsize⟩
  · refine ⟨?_, ?_, ?_, hhint, hkept⟩
    · exact iff_of_true (by rw [hnone]) hfull
    · exact fun _ => by rw [hnone]
    · intro j hj
      rw [hnone] at hj
      exact absurd hj nofun
  · refine ⟨?_, ?_, ?_, hhint, hkept⟩
    · refine iff_of_false (by rw [hj]; exact nofun) fun hfull => ?_
      exact hfull j hleast.1.1 hleast.1.2
    · intro hnone
      exact absurd (hj.symm.trans hnone) nofun
    · intro j' hj'
      obtain rfl := Option.some.inj (hj.symm.trans hj')
      exact ⟨hleast, hmarked, hsize⟩

/-- Bit 3 is the lowest of a bitmap whose first three bits are used. -/
theorem klBitmapAlloc_single_three :
    (klBitmapAlloc { bitmapOf 64 with bitmap := fun y => if y = 0 then 7#8 else 0#8 } 1).2 =
      some 3 ∧
    ((klBitmapAlloc { bitmapOf 64 with bitmap := fun y => if y = 0 then 7#8 else 0#8 } 1).2 =
        none ↔ ∀ j < 64, ¬ BitFree (fun y => if y = 0 then 7#8 else 0#8) j) := by
  have hhint : { bitmapOf 64 with bitmap := fun y => if y = 0 then 7#8 else 0#8 }.HintHolds :=
    fun j hj => absurd hj (Nat.not_lt_zero j)
  exact ⟨by decide +kernel, (klBitmapAlloc_single hhint).1⟩

/-! ## Runs -/

/-- The calls. -/
inductive BitmapOp where
  | alloc (nobits : Nat)
  | markUsed (bit : Nat)
  | free (bit : Nat)
  deriving DecidableEq, Repr

/-- One call. -/
def bitmapStep (bs : KLbitmapStruct) : BitmapOp → Option KLbitmapStruct
  | .alloc nobits => some (klBitmapAlloc bs nobits).1
  | .markUsed bit => some (klBitmapMarkUsed bs bit)
  | .free bit => some (klBitmapFree bs bit)

/-- An allocation of several bits starts its tries in one word. -/
def BitmapOp.Regular (bs : KLbitmapStruct) : BitmapOp → Prop
  | .alloc nobits => nobits ≤ 1 ∨ bs.OneWord nobits
  | _ => True

theorem bitmapStep_hint {op : BitmapOp} (h : bs.HintHolds) (hop : op.Regular bs)
    (hs : bitmapStep bs op = some bs') : bs'.HintHolds := by
  cases op with
  | alloc nobits =>
      obtain rfl := Option.some.inj hs
      exact klBitmapAlloc_hint (hop.elim oneWord_of_le_one id) h
  | markUsed bit =>
      obtain rfl := Option.some.inj hs
      exact fun j hj => hint_update h hj
  | free bit =>
      obtain rfl := Option.some.inj hs
      exact fun j hj => hint_update h hj

/-- **No free bit is below the hint** in any state of a run whose allocations of several bits
start their tries in one word each, and one bit is not found only where none is free. The next
call keeps this if and only if it is such a call. -/
theorem bitmap_hint_run {bs₀ : KLbitmapStruct} {ops : List BitmapOp}
    (hr : Run bitmapStep (fun bs op => op.Regular bs) (klBitmapInitAlloc bs₀ size) ops bs) :
    bs.HintHolds ∧ ((klBitmapAlloc bs 1).2 = none → ∀ j < 32 * bs.size, ¬ BitFree bs.bitmap j) ∧
      ∀ op bs', bitmapStep bs op = some bs' → (bs'.HintHolds ↔ op.Regular bs) := by
  have h : bs.HintHolds := hr.invariant (fun h hop hs => bitmapStep_hint h hop hs)
    fun j hj => absurd hj (Nat.not_lt_zero j)
  refine ⟨h, fun hnone j hj => klBitmapAlloc_one h hnone hj, fun op bs' hs =>
    ⟨fun h' => ?_, fun hop => bitmapStep_hint h hop hs⟩⟩
  cases op with
  | alloc nobits =>
      obtain rfl := Option.some.inj hs
      exact .inr (oneWord_of_hint h')
  | markUsed bit => trivial
  | free bit => trivial

/-- Nine bits of 64 that are free are found where the search starts. -/
theorem bitmapOf_oneWord : (bitmapOf 64).OneWord 9 := by
  have hreaches : ∀ {place}, (bitmapOf 64).Reaches 9 place →
      place = .word 0 ∨ place = .byte 0 0 0 := by
    intro place h
    induction h with
    | refl => exact .inl rfl
    | tail _ hl ih =>
        rcases ih with rfl | rfl
        · have hfirst : (bitmapOf 64).look 9 (.word 0) = .move (.byte 0 0 0) := by decide +kernel
          exact .inr (Look.move.inj (hl.symm.trans hfirst))
        · have hhit : (bitmapOf 64).look 9 (.byte 0 0 0) = .hit .span 0 0 0 := by decide +kernel
          exact absurd (hl.symm.trans hhit) nofun
  intro a a' ha ha' _ _ _ _
  rcases hreaches ha with h | h <;> rcases hreaches ha' with h' | h' <;> cases h <;> cases h'
  rfl

theorem bitmap_hint_run_two : ∃ bs, Run bitmapStep (fun bs op => op.Regular bs)
      (klBitmapInitAlloc ⟨0, 0, fun _ => 0#8⟩ 64) [.alloc 9, .markUsed 40, .alloc 1, .free 3] bs ∧
    bs.bitmap 0 = 0xf7#8 ∧ bs.HintHolds ∧
    ((klBitmapAlloc bs 1).2 = none → ∀ j < 32 * bs.size, ¬ BitFree bs.bitmap j) ∧
    ∀ op bs', bitmapStep bs op = some bs' → (bs'.HintHolds ↔ op.Regular bs) := by
  have hr : Run bitmapStep (fun bs op => op.Regular bs) (klBitmapInitAlloc ⟨0, 0, fun _ => 0#8⟩ 64)
      [.alloc 9, .markUsed 40, .alloc 1, .free 3] _ :=
    .cons (.inr bitmapOf_oneWord) rfl (.cons trivial rfl (.cons (.inl (Nat.le_refl 1)) rfl
      (.cons trivial rfl (.nil _))))
  exact ⟨_, hr, by decide +kernel, bitmap_hint_run hr⟩

/-- An allocation of nine bits passes over a word that has free bits. When the words behind it
are full, one bit is not found. -/
theorem bitmap_hint_passed : ∃ bs, Run bitmapStep (fun _ _ => True)
      (klBitmapInitAlloc ⟨0, 0, fun _ => 0#8⟩ 64)
      [.markUsed 8, .markUsed 24, .alloc 9, .alloc 8, .alloc 8, .alloc 7] bs ∧
    ¬ bs.HintHolds ∧ (klBitmapAlloc bs 1).2 = none ∧ BitFree bs.bitmap 0 := by
  obtain ⟨bs, hr, hp⟩ := Run.of_exec_any
    (show (exec bitmapStep (fun _ _ => True) (klBitmapInitAlloc ⟨0, 0, fun _ => 0#8⟩ 64)
      [.markUsed 8, .markUsed 24, .alloc 9, .alloc 8, .alloc 8, .alloc 7]).any
      (fun bs => decide (bs.firstFree = 1 ∧ (klBitmapAlloc bs 1).2 = none ∧
        BitFree bs.bitmap 0)) = true by decide +kernel)
  obtain ⟨hfirst, hnone, hfree⟩ := of_decide_eq_true hp
  exact ⟨bs, hr, fun h => h 0 (by omega) hfree, hnone, hfree⟩

end Alliance.KL
