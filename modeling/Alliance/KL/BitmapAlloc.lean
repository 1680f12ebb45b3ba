import Alliance.KL.BitmapSearch

/-!
# Allocating several bits

`KLbitmapAlloc` for two bits or more marks what it returns, and finds what there is, if and only
if its search goes well (`klBitmapAlloc_iff`). It goes wrong in these ways:

* a block that spans bytes is taken without a look at the second byte, where that is needed
  whole, and with all of the first byte, where that has no free bit at its end;
* a try that fails leaves the counters behind the bytes that it has stepped over, and the bytes
  that are read stay those of the old word;
* a block is not found if the bits that are wanted behind the first byte are a multiple of 8, or
  if it is the last byte of the bitmap;
* the bitmap is searched to the end of its last word.
-/

namespace Alliance.KL

open Function Lib KLbitmapStruct

/-- What an allocation of `n` bits is to do with a bitmap that is used for `size` bits: to mark `n`
free bits, or to find that from the first word searched on there are none. -/
def Allocates (size n : Nat) (bs : KLbitmapStruct) : KLbitmapStruct × Option Nat → Prop
  | (bs', some i) => i + n ≤ size ∧ RunFree bs.bitmap i n ∧ Marked bs.bitmap bs'.bitmap i n
  | (bs', none) => bs'.bitmap = bs.bitmap ∧
    ∀ i, 32 * bs.firstFree ≤ i → i + n ≤ size → ¬ RunFree bs.bitmap i n

namespace KLbitmapStruct

variable {bs : KLbitmapStruct} {size n temp a b i y : Nat} {h : Hit}

/-- A hit that marks what it returns: the word that is meant was read, the bits are within the
size, and where bytes are joined the first has a free bit at its end and the second, if it is
needed whole, is free. -/
structure Fits (bs : KLbitmapStruct) (size n temp a b : Nat) (h : Hit) : Prop where
  here : temp = a
  within : (bs.mark n temp a b h).2 + n ≤ size
  joins : h = .span → 0 < fastBitStList (bs.bitmap (4 * a + b)) ∧
    (8 < n - fastBitStList (bs.bitmap (4 * a + b)) → bs.bitmap (4 * a + b + 1) = 0#8)

/-- Byte `y` is not looked at for the start of a block: another one is read for it, a try that
fails has stepped over it, or is wrong about it. -/
inductive Unseen (bs : KLbitmapStruct) (n : Nat) : Place → Nat → Prop
  | elsewhere (temp a b : Nat) : temp ≠ a → b < 4 → Unseen bs n (.byte temp a b) (4 * a + b)
  | passed (temp a b a' b' y : Nat) : b < 4 → bs.bitmap (4 * temp + b) ≠ 0xff#8 →
      bs.tryByte n temp a b = .next a' b' → 4 * a + b < y → y ≤ 4 * a' + b' →
      Unseen bs n (.byte temp a b) y
  | long (temp a b a' b' : Nat) : b < 4 → bs.bitmap (4 * temp + b) ≠ 0xff#8 →
      bs.tryByte n temp a b = .next a' b' → 8 ≤ n - fastBitStList (bs.bitmap (4 * temp + b)) →
      Unseen bs n (.byte temp a b) (4 * a + b)
  | wholeByte (temp a b : Nat) : b < 4 → bs.bitmap (4 * temp + b) ≠ 0xff#8 →
      bs.tryByte n temp a b = .atEnd → n ≤ fastBitStList (bs.bitmap (4 * temp + b)) →
      Unseen bs n (.byte temp a b) (4 * a + b)
  | behind (temp a b y : Nat) : b < 4 → bs.bitmap (4 * temp + b) ≠ 0xff#8 →
      bs.tryByte n temp a b = .atEnd → temp ≠ a → 4 * a + b ≤ y →
      Unseen bs n (.byte temp a b) y

/-! ## Hits -/

/-- **A block in one byte** is what is returned if it fits. -/
theorem allocates_inByte {firstFree : Nat} (hn : 2 ≤ n) (hle : temp ≤ a) (hlt : n < 8)
    (hfit : n ≤ fastBitList (bs.bitmap (4 * temp + b))) :
    Allocates size n bs ({ bs with firstFree, bitmap := (bs.mark n temp a b .inByte).1 },
      some (bs.mark n temp a b .inByte).2) ↔ bs.Fits size n temp a b .inByte := by
  have hmarked := mark_inByte (a := a) hlt hfit
  obtain ⟨hroom, hfree, -⟩ := largest_block (bs.bitmap (4 * temp + b))
  have hbit : ∀ k < n, BitFree bs.bitmap
      (8 * (4 * temp + b) + fastBitListSt (bs.bitmap (4 * temp + b)) + k) := by
    intro k hk
    rw [Nat.add_assoc, bitFree_cell (by omega)]
    exact hfree k (by omega)
  have hindex : (bs.mark n temp a b .inByte).2 =
      (4 * a + b) * 8 + fastBitListSt (bs.bitmap (4 * temp + b)) := rfl
  constructor
  · rintro ⟨hwithin, -, hmarked'⟩
    have hstart := hmarked.start hmarked' (hbit 0 (by omega)) (by omega)
    rw [hindex] at hstart
    exact ⟨by omega, hwithin, nofun⟩
  · rintro ⟨rfl, hwithin, -⟩
    refine ⟨hwithin, fun k hk => ?_, ?_⟩
    · rw [hindex, Nat.mul_comm]
      exact hbit k hk
    · rw [hindex, Nat.mul_comm]
      exact hmarked

/-- The bits of a block that spans bytes, if the second byte is free where it is needed whole. -/
theorem runFree_span {v count k y : Nat} (hv : v = fastBitStList (bs.bitmap y))
    (hcount : n - v = count + 8 * k) (hle : v ≤ n) (hlt : count < 8)
    (hpos : 0 < k → 0 < count) (hzeros : ∀ i < k, bs.bitmap (y + 1 + (i + 1)) = 0#8)
    (hlast : count ≤ fastBitEnList (bs.bitmap (y + 1 + k)))
    (hsecond : 8 < n - v → bs.bitmap (y + 1) = 0#8) :
    RunFree bs.bitmap (8 * y + (8 - v)) n := by
  obtain ⟨hv8, hhigh, -⟩ := highest_bits (bs.bitmap y)
  rw [← hv] at hv8 hhigh
  intro j hj
  rcases Nat.lt_or_ge j v with hjv | hjv
  · -- the bit is one of the highest of the first byte
    rw [Nat.add_assoc, bitFree_cell (by omega)]
    exact hhigh j hjv
  -- the bit lies in byte `y + 1 + z`
  obtain ⟨z, o, ho, hz⟩ : ∃ z o, o < 8 ∧ j - v = 8 * z + o :=
    ⟨(j - v) / 8, (j - v) % 8, Nat.mod_lt _ (by decide), by omega⟩
  rw [show 8 * y + (8 - v) + j = 8 * (y + 1 + z) + o by omega, bitFree_cell ho]
  have hzero : bs.bitmap (y + 1 + z) = 0#8 → (bs.bitmap (y + 1 + z)).getLsbD o = false := by
    intro h0
    rw [h0]
    exact BitVec.getLsbD_zero
  cases z with
  | zero =>
      by_cases hk : k = 0
      · obtain rfl := hk
        have hlow := (lowest_bits (bs.bitmap (y + 1 + 0))).2.1 o (by omega)
        rwa [Nat.zero_add] at hlow
      · exact hzero (hsecond (by omega))
  | succ z => exact hzero (hzeros z (by omega))

/-- **A block that spans bytes** is what is returned if it fits. -/
theorem allocates_span {firstFree count k : Nat} (hle : temp ≤ a)
    (hbits : bs.bitmap (4 * temp + b) ≠ 0xff#8)
    (hn : fastBitStList (bs.bitmap (4 * temp + b)) ≤ n) (hn0 : 0 < n)
    (hcount : n - fastBitStList (bs.bitmap (4 * temp + b)) = count + 8 * k) (hlt : count < 8)
    (hpos : 0 < k → 0 < count)
    (hzeros : ∀ i < k, bs.bitmap (4 * temp + b + 1 + (i + 1)) = 0#8)
    (hlast : count ≤ fastBitEnList (bs.bitmap (4 * temp + b + 1 + k))) :
    Allocates size n bs ({ bs with firstFree, bitmap := (bs.mark n temp a b .span).1 },
      some (bs.mark n temp a b .span).2) ↔ bs.Fits size n temp a b .span := by
  have hindex : (bs.mark n temp a b .span).2 =
      (4 * a + b) * 8 + (8 - fastBitStList (bs.bitmap (4 * temp + b))) := rfl
  obtain ⟨hv8, hhigh, -⟩ := highest_bits (bs.bitmap (4 * temp + b))
  rcases Nat.eq_zero_or_pos (fastBitStList (bs.bitmap (4 * temp + b))) with hv | hv
  · -- the whole byte is marked, and one of its bits was free
    constructor
    · rintro ⟨-, -, hmarked'⟩
      obtain ⟨hbit, hfree⟩ := first_bit _ hbits
      have hmarked := mark_span_zero (n := n) (a := a) hv
      have hused := mt (hmarked (8 * (4 * temp + b) + fastBitStTable (bs.bitmap (4 * temp + b)))).mp
        fun hf => hf.2 (by omega)
      refine absurd ((hmarked' _).mpr ⟨(bitFree_cell hbit).mpr hfree, ?_⟩) hused
      rw [hindex]
      omega
    · rintro ⟨rfl, -, hjoins⟩
      have := (hjoins rfl).1
      omega
  · have hmarked := mark_span (a := a) hv hn
    constructor
    · rintro ⟨hwithin, hrun, hmarked'⟩
      have hfirst : BitFree bs.bitmap
          (8 * (4 * temp + b) + (8 - fastBitStList (bs.bitmap (4 * temp + b)))) := by
        rw [bitFree_cell (by omega)]
        exact hhigh 0 hv
      have hstart := hmarked.start hmarked' hfirst hn0
      rw [hindex] at hstart
      obtain rfl : temp = a := by omega
      refine ⟨rfl, hwithin, fun _ => ⟨hv, fun hlong => ?_⟩⟩
      exact BitsFree.zero (hrun.cell (by omega) (by omega) (by decide))
    · rintro ⟨rfl, hwithin, hjoins⟩
      rw [hindex] at hwithin
      refine ⟨hwithin, ?_, ?_⟩
      · rw [hindex, Nat.mul_comm]
        exact runFree_span rfl hcount hn hlt hpos hzeros hlast (hjoins rfl).2
      · rw [hindex, Nat.mul_comm]
        exact hmarked

/-- A block of a byte that is no larger than what the byte has at its end is found in it. -/
theorem fastBitStList_le (hin : ¬ (n < 8 ∧ n ≤ fastBitList (bs.bitmap y))) :
    fastBitStList (bs.bitmap y) ≤ n := by
  obtain ⟨hv8, hhigh, -⟩ := highest_bits (bs.bitmap y)
  have := le_fastBitList hhigh (by omega)
  omega

/-- **A hit** is what is returned if it fits. -/
theorem allocates_hit {firstFree : Nat} (hn : 2 ≤ n) (hin : bs.Inside (.byte temp a b))
    (hl : bs.look n (.byte temp a b) = .hit h temp a b) :
    Allocates size n bs ({ bs with firstFree, bitmap := (bs.mark n temp a b h).1 },
      some (bs.mark n temp a b h).2) ↔ bs.Fits size n temp a b h := by
  obtain ⟨-, hb, hbits, htry⟩ := look_hit hl
  obtain ⟨-, hle, ha, -⟩ := hin
  cases tryByte_tried htry (by omega) ha hb with
  | inByte hlt hfit => exact allocates_inByte hn hle hlt hfit
  | span count k hno hcount hlt hpos hzeros hlast _ =>
      exact allocates_span hle hbits (fastBitStList_le hno) (by omega) hcount hlt hpos hzeros hlast

/-! ## Blocks that are not found -/

/-- A full byte starts no block. -/
theorem not_runFree_full (hn : 0 < n) (hy : bs.bitmap (i / 8) = 0xff#8) :
    ¬ RunFree bs.bitmap i n := fun hrun => not_bitFree_full (by decide) hy (hrun 0 hn)

/-- A byte starts no block if a try for fewer than 8 bits behind it fails. -/
theorem not_runFree_next (hin : ¬ (n < 8 ∧ n ≤ fastBitList (bs.bitmap (i / 8))))
    (hlt : n - fastBitStList (bs.bitmap (i / 8)) < 8)
    (hnext : fastBitEnList (bs.bitmap (i / 8 + 1)) < n - fastBitStList (bs.bitmap (i / 8))) :
    ¬ RunFree bs.bitmap i n := by
  intro hrun
  have hi : 8 * (i / 8) + i % 8 = i := Nat.div_add_mod i 8
  have ho : i % 8 < 8 := Nat.mod_lt _ (by decide)
  have hv := fastBitStList_le hin
  rcases Nat.lt_or_ge 8 (i % 8 + n) with hover | hinside
  · -- the block has the highest bits of the byte, and the lowest of the next
    have hhigh : 8 - i % 8 ≤ fastBitStList (bs.bitmap (i / 8)) :=
      le_fastBitStList (o := i % 8) (hrun.cell (by omega) (by omega) (by omega)) (by omega)
    have hlow : n - fastBitStList (bs.bitmap (i / 8)) ≤ fastBitEnList (bs.bitmap (i / 8 + 1)) :=
      le_fastBitEnList (hrun.cell (by omega) (by omega) (by omega)) (by omega)
    omega
  · have hbyte : BitsFree (bs.bitmap (i / 8)) (i % 8) n :=
      hrun.cell (by omega) (by omega) hinside
    rcases Nat.lt_or_ge n 8 with hn8 | hn8
    · exact hin ⟨hn8, le_fastBitList hbyte hinside⟩
    · have hwhole := le_fastBitStList hbyte (by omega)
      omega

/-- No block starts at the byte of a try that comes to the end, or behind it, but in the last
byte for all of its bits. -/
theorem not_runFree_end {k : Nat} (hn : 2 ≤ n)
    (hin : ¬ (n < 8 ∧ n ≤ fastBitList (bs.bitmap y))) (hend : y + 1 + k = 4 * bs.size)
    (hlong : 0 < k → 8 * k < n - fastBitStList (bs.bitmap y))
    (hy : y ≤ i / 8) (hsize : i + n ≤ 32 * bs.size) (hrun : RunFree bs.bitmap i n) :
    y = i / 8 ∧ n ≤ fastBitStList (bs.bitmap y) := by
  have hi : 8 * (i / 8) + i % 8 = i := Nat.div_add_mod i 8
  have ho : i % 8 < 8 := Nat.mod_lt _ (by decide)
  have hv := fastBitStList_le hin
  rcases Nat.eq_zero_or_pos k with rfl | hk
  · -- the block lies in the last byte
    obtain rfl : y = i / 8 := by omega
    have hbyte : BitsFree (bs.bitmap (i / 8)) (i % 8) n :=
      hrun.cell (by omega) (by omega) (by omega)
    have hn8 : ¬ n < 8 := fun hlt => hin ⟨hlt, le_fastBitList hbyte (by omega)⟩
    exact ⟨rfl, le_fastBitStList hbyte (by omega)⟩
  · -- the block would start above the highest bits that are free
    have := hlong hk
    obtain rfl : y = i / 8 := by omega
    have hhigh : 8 - i % 8 ≤ fastBitStList (bs.bitmap (i / 8)) :=
      le_fastBitStList (o := i % 8) (hrun.cell (by omega) (by omega) (by omega)) (by omega)
    omega

/-- The byte that a place is before. -/
def Place.byteNo : Place → Nat
  | .word a => 4 * a
  | .byte _ a b => 4 * a + b

/-- One round steps over no byte that starts a block, unless it is not looked at for that. -/
theorem Inside.unseen {place place' : Place} (hn : 2 ≤ n) (hin : bs.Inside place)
    (hm : bs.Moved n place place') (hi : place.byteNo ≤ i / 8) (hi' : i / 8 < place'.byteNo)
    (hrun : RunFree bs.bitmap i n) : bs.Unseen n place (i / 8) := by
  cases hm with
  | fullWord a ha hfull =>
      dsimp only [Place.byteNo] at hi hi'
      have hbyte := hfull (i / 8 - 4 * a) (by omega)
      rw [Nat.add_sub_cancel' hi] at hbyte
      exact absurd hrun (not_runFree_full (by omega) hbyte)
  | enter a _ _ =>
      dsimp only [Place.byteNo] at hi hi'
      omega
  | fullByte temp a b hb hfull =>
      dsimp only [Place.byteNo] at hi hi'
      have hy : i / 8 = 4 * a + b := by omega
      -- a full byte says something about the byte that is meant only if it is this one
      by_cases hta : temp = a
      · subst hta
        exact absurd hrun (not_runFree_full (by omega) (hy ▸ hfull))
      · exact hy ▸ .elsewhere temp a b hta hb
  | failed temp a b a' b' hb hbits htry =>
      dsimp only [Place.byteNo] at hi hi'
      rcases Nat.eq_or_lt_of_le hi with hy | hlt
      · rw [← hy]
        by_cases hta : temp = a
        · subst hta
          cases tryByte_tried htry (by omega) hin.2.2.1 hb with
          | next _ _ hno _ _ _ _ hnext =>
              refine .long temp temp b a' b' hb hbits htry ?_
              by_contra hlt
              rw [hy] at hno hnext hlt
              exact not_runFree_next hno (by omega) (hnext (by omega)) hrun
        · exact .elsewhere temp a b hta hb
      · exact .passed temp a b a' b' (i / 8) hb hbits htry hlt (by omega)
  | leave temp a b hb =>
      obtain ⟨-, -, -, hb4⟩ := hin
      dsimp only [Place.byteNo] at hi hi'
      omega

/-- The same for all rounds up to a place. -/
theorem Reaches.unseen {place : Place} (hn : 2 ≤ n) (h : bs.Reaches n place)
    (hi : 32 * bs.firstFree ≤ i) (hi' : i / 8 < place.byteNo) (hrun : RunFree bs.bitmap i n) :
    ∃ place', bs.Reaches n place' ∧ bs.Unseen n place' (i / 8) := by
  induction h with
  | refl =>
      dsimp only [Place.byteNo] at hi'
      omega
  | @tail place place' hr hs ih =>
      rcases Nat.lt_or_ge (i / 8) place.byteNo with hlt | hge
      · exact ih hlt
      · exact ⟨place, hr, (Reaches.inside hr).unseen hn (look_move hs) hge hi' hrun⟩

/-- The same where the search is over. -/
theorem Reaches.unseen_stop {place : Place} (hn : 2 ≤ n) (h : bs.Reaches n place)
    (hstop : bs.look n place = .stop) (hi : 32 * bs.firstFree ≤ i) (hsize : i + n ≤ 32 * bs.size)
    (hrun : RunFree bs.bitmap i n) :
    ∃ place', bs.Reaches n place' ∧ bs.Unseen n place' (i / 8) := by
  rcases Nat.lt_or_ge (i / 8) place.byteNo with hlt | hge
  · exact h.unseen hn hi hlt hrun
  · refine ⟨place, h, ?_⟩
    rcases look_stop hstop with ⟨a, rfl, ha⟩ | ⟨temp, a, b, rfl, hb, hbits, htry⟩
    · dsimp only [Place.byteNo] at hge
      omega
    · dsimp only [Place.byteNo] at hge
      by_cases hta : temp = a
      · subst hta
        cases tryByte_tried htry (by omega) h.inside.2.2.1 hb with
        | atEnd k hno hend hlong =>
            obtain ⟨hy, hwhole⟩ := not_runFree_end hn hno hend hlong hge hsize hrun
            exact hy ▸ .wholeByte temp temp b hb hbits htry hwhole
      · exact .behind temp a b (i / 8) hb hbits htry hta hge

/-! ## When the allocation does what it is to do -/

/-- **The search goes well**: it ends with a hit that fits, or it ends without one and no block
of `n` free bits starts in a byte that was not looked at for that. -/
inductive GoesWell (bs : KLbitmapStruct) (size n : Nat) : Prop
  | hit (h : Hit) (temp a b : Nat) : bs.Reaches n (.byte temp a b) →
      bs.look n (.byte temp a b) = .hit h temp a b → bs.Fits size n temp a b h →
      GoesWell bs size n
  | stop (place : Place) : bs.Reaches n place → bs.look n place = .stop →
      (∀ i, 32 * bs.firstFree ≤ i → i + n ≤ size → RunFree bs.bitmap i n →
        ∀ place', bs.Reaches n place' → ¬ bs.Unseen n place' (i / 8)) → GoesWell bs size n

/-- The search comes to one place at which it ends. -/
theorem Reaches.unique {place place' : Place} (h : bs.Reaches n place) (h' : bs.Reaches n place')
    (hend : ∀ p, bs.look n place ≠ .move p) (hend' : ∀ p, bs.look n place' ≠ .move p) :
    place = place' := by
  have hdet : Relator.RightUnique fun place place' => bs.look n place = .move place' :=
    fun _ _ _ hs hs' => Look.move.inj (hs.symm.trans hs')
  rcases h.total_of_right_unique hdet h' with hr | hr
  · exact (hr.cases_head).elim id fun ⟨p, hs, _⟩ => absurd hs (hend p)
  · exact ((hr.cases_head).elim id fun ⟨p, hs, _⟩ => absurd hs (hend' p)).symm

theorem search_ended (bs : KLbitmapStruct) (n : Nat) : ∃ place, bs.Reaches n place ∧
    bs.Ended n place
      (bs.search n (6 * bs.size + 1) bs.firstFree (.word bs.firstFree)).2 :=
  search_rule_call (I := fun _ place => bs.Reaches n place) Reaches.inside
    (fun h hs => h.tail hs) .refl

end KLbitmapStruct

open KLbitmapStruct

/-- **An allocation of several bits** does what it is to do if and only if its search goes
well. -/
theorem klBitmapAlloc_iff {bs : KLbitmapStruct} {size n : Nat}
    (hsize : bs.size = (size + 31) / 32) (hn : 2 ≤ n) :
    Allocates size n bs (klBitmapAlloc bs n) ↔ bs.GoesWell size n := by
  obtain ⟨place, hr, hended⟩ := bs.search_ended n
  unfold klBitmapAlloc
  generalize bs.search n (6 * bs.size + 1) bs.firstFree (.word bs.firstFree) = out at hended
  obtain ⟨firstFree, hit⟩ := out
  cases hended with
  | stop hstop =>
      constructor
      · rintro ⟨-, hnone⟩
        exact .stop place hr hstop fun i hi hin hrun => absurd hrun (hnone i hi hin)
      · -- a block that is there would start in a byte that was not looked at
        intro hwell
        refine ⟨rfl, fun i hi hin hrun => ?_⟩
        cases hwell with
        | hit h temp a b hr' hl _ =>
            obtain rfl := hr.unique hr' (by simp [hstop]) (by simp [hl])
            exact absurd (hstop.symm.trans hl) nofun
        | stop place' hr' hstop' hseen =>
            obtain ⟨place'', hr'', hunseen⟩ := hr.unseen_stop hn hstop hi (by omega) hrun
            exact hseen i hi hin hrun place'' hr'' hunseen
  | hit h temp a b hl =>
      obtain ⟨rfl, -⟩ := look_hit hl
      refine (allocates_hit hn hr.inside hl).trans ⟨fun hfits => .hit h temp a b hr hl hfits, ?_⟩
      -- the search ends at one place only
      intro hwell
      cases hwell with
      | hit h' temp' a' b' hr' hl' hfits =>
          have hplace := hr.unique hr' (by simp [hl]) (by simp [hl'])
          rw [← hplace, hl] at hl'
          cases hl'
          exact hfits
      | stop place' hr' hstop _ =>
          obtain rfl := hr.unique hr' (by simp [hl]) (by simp [hstop])
          exact absurd (hstop.symm.trans hl) nofun

/-- 39 bits of 100 that are all free, from the first one on. -/
theorem klBitmapAlloc_iff_free : Allocates 100 39 (bitmapOf 100) (klBitmapAlloc (bitmapOf 100) 39) ∧
    (klBitmapAlloc (bitmapOf 100) 39).2 = some 0 := by
  have hr : (bitmapOf 100).Reaches 39 (.byte 0 0 0) :=
    .tail .refl (by decide +kernel)
  refine ⟨(klBitmapAlloc_iff rfl (by decide)).mpr
    (.hit .span 0 0 0 hr (by decide +kernel) ⟨rfl, by decide +kernel, fun _ => ?_⟩),
    by decide +kernel⟩
  decide +kernel

/-- 17 bits from bit 0 on, where bit 8 is in use: the second byte is not looked at. -/
theorem klBitmapAlloc_overlap : (klBitmapAlloc (klBitmapMarkUsed (bitmapOf 64) 8) 17).2 = some 0 ∧
    ¬ BitFree (klBitmapMarkUsed (bitmapOf 64) 8).bitmap 8 ∧
    ¬ Allocates 64 17 (klBitmapMarkUsed (bitmapOf 64) 8)
      (klBitmapAlloc (klBitmapMarkUsed (bitmapOf 64) 8) 17) := by
  have hzero : (klBitmapAlloc (klBitmapMarkUsed (bitmapOf 64) 8) 17).2 = some 0 := by
    decide +kernel
  have hused : ¬ BitFree (klBitmapMarkUsed (bitmapOf 64) 8).bitmap 8 := by decide +kernel
  refine ⟨hzero, hused, fun h => ?_⟩
  generalize klBitmapAlloc (klBitmapMarkUsed (bitmapOf 64) 8) 17 = out at hzero h
  obtain ⟨bs', found⟩ := out
  obtain rfl : found = some 0 := hzero
  exact hused (h.2.1 8 (by decide))

end Alliance.KL
