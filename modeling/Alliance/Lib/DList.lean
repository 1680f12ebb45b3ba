import Mathlib.Data.List.Nodup
import Mathlib.Logic.Function.Basic

/-!
# Linked lists in memory

Two maps `fwd` and `bwd` give every node its two neighbours. A list hangs from a holder
`hd`, which is a node of its own or a variable that is read as `fwd hd`, and ends at
`nil`; with such a variable `hd` may be `nil` itself. So unlinking and inserting are one
update of `fwd` and one of `bwd`, wherever in the list they happen. Where `bwd nil` points
is left open, as programs keep no pointer to the last node.

`Seg` is a stretch of such a list, `Linked` a whole one. `Chained` is a list with forward
links only.
-/

namespace Alliance.Lib

open Function

variable {α : Type} {hd nil : α} {fwd bwd fwd' bwd' : α → α} {a b c z x : α} {l m as bs : List α}

/-- The nodes behind `a` are those of `l`, then `c`; the last node of `a :: l` is `z`. -/
def Seg (fwd bwd : α → α) : α → List α → α → α → Prop
  | a, [], z, c => z = a ∧ fwd a = c
  | a, b :: l, z, c => fwd a = b ∧ bwd b = a ∧ Seg fwd bwd b l z c

/-- The nodes from the head on are those of `l`, and each points back to the one before it. -/
structure Linked (hd nil : α) (fwd bwd : α → α) (l : List α) : Prop where
  nodup : (hd :: l).Nodup
  nil_notMem : nil ∉ l
  seg : ∃ z, Seg fwd bwd hd l z nil

/-- The first node of a list is no exception among those in front of a cut. -/
theorem mem_cons_append (h : x ∈ a :: l) (m : List α) : x ∈ a :: (l ++ m) :=
  (List.mem_append_left m h :)

/-- An element is put between those before and those behind it. -/
theorem pairwise_insert {R : α → α → Prop} (h : (as ++ bs).Pairwise R) (hl : ∀ a ∈ as, R a x)
    (hr : ∀ b ∈ bs, R x b) : (as ++ x :: bs).Pairwise R := by
  obtain ⟨ha, hb, hab⟩ := List.pairwise_append.mp h
  refine List.pairwise_append.mpr ⟨ha, List.pairwise_cons.mpr ⟨hr, hb⟩, fun a hm b hm' => ?_⟩
  rcases List.mem_cons.mp hm' with rfl | hm'
  · exact hl a hm
  · exact hab a hm b hm'

theorem mem_insert {y : α} : y ∈ as ++ x :: bs ↔ y = x ∨ y ∈ as ++ bs := by
  simp only [List.mem_append, List.mem_cons]
  exact or_left_comm

theorem mem_remove {y : α} (hn : (as ++ x :: bs).Nodup) :
    y ∈ as ++ bs ↔ y ∈ as ++ x :: bs ∧ y ≠ x := by
  have hx : x ∉ as ++ bs := (List.nodup_middle.mp hn).notMem
  rw [mem_insert]
  constructor
  · intro hy
    exact ⟨.inr hy, fun he => hx (he ▸ hy)⟩
  · intro ⟨hy, hne⟩
    exact hy.resolve_left hne

/-- A store that is left out at `nil` is one store for every node. -/
theorem store_unless_nil [DecidableEq α] {y : α} (hy : y ≠ nil) :
    (if z = nil then bwd else update bwd z x) y = if y = z then x else bwd y := by
  split
  · next hz => rw [if_neg fun he => hy (he.trans hz)]
  · exact update_apply ..

namespace Seg

theorem last_mem (h : Seg fwd bwd a l z c) : z ∈ a :: l := by
  induction l generalizing a with
  | nil => exact List.mem_singleton.mpr h.1
  | cons b l ih => exact .tail a (ih h.2.2)

theorem fwd_last (h : Seg fwd bwd a l z c) : fwd z = c := by
  induction l generalizing a with
  | nil => rw [h.1]; exact h.2
  | cons b l ih => exact ih h.2.2

/-- A stretch depends only on the links of its nodes. -/
theorem congr (h : Seg fwd bwd a l z c) (hf : ∀ y ∈ a :: l, fwd' y = fwd y)
    (hb : ∀ y ∈ l, bwd' y = bwd y) : Seg fwd' bwd' a l z c := by
  induction l generalizing a with
  | nil => exact ⟨h.1, (hf a (.head _)).trans h.2⟩
  | cons b l ih =>
      exact ⟨(hf a (.head _)).trans h.1, (hb b (.head _)).trans h.2.1,
        ih h.2.2 (fun y hy => hf y (.tail a hy)) fun y hy => hb y (.tail b hy)⟩

/-- The last node of a stretch is made to point elsewhere. -/
theorem retarget (h : Seg fwd bwd a l z c) (hn : (a :: l).Nodup)
    (hf : ∀ y ∈ a :: l, y ≠ z → fwd' y = fwd y) (hz : fwd' z = b)
    (hb : ∀ y ∈ l, bwd' y = bwd y) : Seg fwd' bwd' a l z b := by
  induction l generalizing a with
  | nil => exact ⟨h.1, h.1 ▸ hz⟩
  | cons d l ih =>
      have hne : a ≠ z := fun e => (List.nodup_cons.mp hn).1 (e ▸ h.2.2.last_mem)
      exact ⟨(hf a (.head _) hne).trans h.1, (hb d (.head _)).trans h.2.1,
        ih h.2.2 (List.nodup_cons.mp hn).2 (fun y hy => hf y (.tail a hy))
          fun y hy => hb y (.tail d hy)⟩

/-- A stretch is cut in two in front of any of its nodes. -/
theorem append :
    Seg fwd bwd a (l ++ b :: m) z c ↔ Seg fwd bwd a l (bwd b) b ∧ Seg fwd bwd b m z c := by
  induction l generalizing a with
  | nil =>
      simp only [List.nil_append, Seg]
      exact ⟨fun ⟨h1, h2, h3⟩ => ⟨⟨h2, h1⟩, h3⟩, fun ⟨⟨h1, h2⟩, h3⟩ => ⟨h2, h1, h3⟩⟩
  | cons d l ih =>
      simp only [List.cons_append, Seg, ih]
      exact ⟨fun ⟨h1, h2, h3, h4⟩ => ⟨⟨h1, h2, h3⟩, h4⟩,
        fun ⟨⟨h1, h2, h3⟩, h4⟩ => ⟨h1, h2, h3, h4⟩⟩

theorem last_eq (h : Seg fwd bwd a l z c) : z = l.getLastD a := by
  induction l generalizing a with
  | nil => exact h.1
  | cons b l ih => rw [List.getLastD_cons]; exact ih h.2.2

/-- What lies behind a node is determined by the forward links. -/
theorem unique {l' : List α} {z' : α} (h : Seg fwd bwd a l z c) (h' : Seg fwd bwd a l' z' c)
    (hc : c ∉ l) (hc' : c ∉ l') : l = l' := by
  induction l generalizing a l' with
  | nil =>
      cases l' with
      | nil => rfl
      | cons b' l' => exact absurd (h.2.symm.trans h'.1 ▸ .head _) hc'
  | cons b l ih =>
      cases l' with
      | nil => exact absurd (h'.2.symm.trans h.1 ▸ .head _) hc
      | cons b' l' =>
          obtain rfl : b = b' := h.1.symm.trans h'.1
          rw [ih h.2.2 h'.2.2 (fun hm => hc (.tail _ hm)) fun hm => hc' (.tail _ hm)]

end Seg

namespace Linked

theorem empty (h : fwd hd = nil) : Linked hd nil fwd bwd [] :=
  ⟨List.nodup_singleton hd, List.not_mem_nil, hd, rfl, h⟩

theorem hd_notMem (h : Linked hd nil fwd bwd l) : hd ∉ l := (List.nodup_cons.mp h.nodup).1

theorem nodup_tail (h : Linked hd nil fwd bwd l) : l.Nodup := (List.nodup_cons.mp h.nodup).2

theorem unique {l' : List α} (h : Linked hd nil fwd bwd l) (h' : Linked hd nil fwd bwd l') :
    l = l' := by
  obtain ⟨_, hs⟩ := h.seg
  obtain ⟨_, hs'⟩ := h'.seg
  exact hs.unique hs' h.nil_notMem h'.nil_notMem

theorem congr (h : Linked hd nil fwd bwd l) (hf : ∀ y ∈ hd :: l, fwd' y = fwd y)
    (hb : ∀ y ∈ l, bwd' y = bwd y) : Linked hd nil fwd' bwd' l := by
  obtain ⟨z, hs⟩ := h.seg
  exact ⟨h.nodup, h.nil_notMem, z, hs.congr hf hb⟩

theorem nil_notMem_remove (h : Linked hd nil fwd bwd (as ++ x :: bs)) : nil ∉ as ++ bs :=
  fun hm => h.nil_notMem (mem_insert.mpr (.inr hm))

/-- The neighbours of a node, and what they are the neighbours of. -/
theorem split (h : Linked hd nil fwd bwd (as ++ x :: bs)) :
    bwd x = as.getLastD hd ∧ fwd (bwd x) = x ∧ fwd x = bs.headD nil ∧
      (bs ≠ [] → bwd (fwd x) = x) := by
  obtain ⟨z, hs⟩ := h.seg
  obtain ⟨hl, hr⟩ := Seg.append.mp hs
  refine ⟨hl.last_eq, hl.fwd_last, ?_⟩
  cases bs with
  | nil => exact ⟨hr.2, fun h => absurd rfl h⟩
  | cons b bs => exact ⟨hr.1, fun _ => hr.1.symm ▸ hr.2.1⟩

/-- What lies behind the first nodes. -/
theorem fwd_getLastD (h : Linked hd nil fwd bwd (as ++ bs)) :
    fwd (as.getLastD hd) = bs.headD nil := by
  cases bs with
  | nil =>
      obtain ⟨z, hs⟩ := h.seg
      rw [List.append_nil] at hs
      rw [← hs.last_eq]
      exact hs.fwd_last
  | cons b bs =>
      rw [← h.split.1]
      exact h.split.2.1

theorem bwd_mem (h : Linked hd nil fwd bwd l) (hx : x ∈ l) : bwd x ∈ hd :: l := by
  obtain ⟨as, bs, rfl⟩ := List.append_of_mem hx
  obtain ⟨z, hs⟩ := h.seg
  exact mem_cons_append (Seg.append.mp hs).1.last_mem _

/-- No node points back to itself. -/
theorem bwd_ne (h : Linked hd nil fwd bwd l) (hx : x ∈ l) : bwd x ≠ x := by
  obtain ⟨as, bs, rfl⟩ := List.append_of_mem hx
  obtain ⟨z, hs⟩ := h.seg
  have hn : (hd :: as ++ x :: bs).Nodup := h.nodup
  exact (List.nodup_append.mp hn).2.2 _ (Seg.append.mp hs).1.last_mem x (.head _)

theorem fwd_mem (h : Linked hd nil fwd bwd l) (hx : x ∈ hd :: l) : fwd x ∈ nil :: l := by
  obtain ⟨z, hs⟩ := h.seg
  have key : ∀ {a : α} {l : List α}, Seg fwd bwd a l z nil → x ∈ a :: l → fwd x ∈ nil :: l := by
    intro a l hs hx
    induction l generalizing a with
    | nil =>
        rw [List.mem_singleton.mp hx, hs.2]
        exact .head _
    | cons b l ih =>
        rcases List.mem_cons.mp hx with rfl | hx
        · rw [hs.1]
          exact .tail _ (.head _)
        · rcases List.mem_cons.mp (ih hs.2.2 hx) with h | h
          · rw [h]
            exact .head _
          · exact .tail _ (.tail _ h)
  exact key hs hx

/-- **Unlinking** a node: its neighbours point past it. -/
theorem unlink [DecidableEq α] (h : Linked hd nil fwd bwd (as ++ x :: bs))
    (hf : ∀ y ∈ hd :: (as ++ bs), fwd' y = if y = bwd x then fwd x else fwd y)
    (hb : ∀ y ∈ as ++ bs, bwd' y = if y = fwd x then bwd x else bwd y) :
    Linked hd nil fwd' bwd' (as ++ bs) := by
  obtain ⟨z, hs⟩ := h.seg
  obtain ⟨hl, hr⟩ := Seg.append.mp hs
  have hn : (hd :: as ++ x :: bs).Nodup := h.nodup
  obtain ⟨hna, hnb, hdisj⟩ := List.nodup_append.mp hn
  obtain ⟨hxb, hnb⟩ := List.nodup_cons.mp hnb
  have hmem := hl.last_mem
  have hnil := h.nil_notMem_remove
  refine ⟨List.nodup_append.mpr ⟨hna, hnb, fun y hy w hw => hdisj y hy w (.tail _ hw)⟩, hnil, ?_⟩
  -- the nodes before `x` keep their links, but for the last, which now points behind `x`
  have hleft : Seg fwd' bwd' hd as (bwd x) (fwd x) := by
    refine hl.retarget hna (fun y hy hne => ?_) ?_ fun y hy => ?_
    · rw [hf y (mem_cons_append hy _), if_neg hne]
    · rw [hf _ (mem_cons_append hmem _), if_pos rfl]
    · rw [hb y (List.mem_append_left _ hy), if_neg]
      intro he
      cases bs with
      | nil => exact hnil (List.mem_append_left _ (hr.2 ▸ he ▸ hy))
      | cons b bs => exact hdisj y (.tail _ hy) b (.tail _ (.head _)) (he.trans hr.1)
  cases bs with
  | nil => rw [List.append_nil]; exact ⟨_, hr.2 ▸ hleft⟩
  | cons b bs =>
      obtain ⟨hxb', hbx, hr⟩ := hr
      have hbw : bwd' b = bwd x := by
        rw [hb b (List.mem_append_right _ (.head _)), if_pos hxb'.symm]
      refine ⟨z, Seg.append.mpr ⟨hbw ▸ hxb' ▸ hleft, hr.congr (fun y hy => ?_) fun y hy => ?_⟩⟩
      · rw [hf y (.tail _ (List.mem_append_right _ hy)), if_neg]
        exact fun he => hdisj _ hmem y (.tail _ hy) he.symm
      · rw [hb y (List.mem_append_right _ (.tail _ hy)), if_neg]
        intro he
        exact (List.nodup_cons.mp hnb).1 (hxb' ▸ he ▸ hy)

/-- **Inserting** a new node behind `a`. -/
theorem insert [DecidableEq α] (as : List α) (h : Linked hd nil fwd bwd (as ++ bs))
    (ha : a = as.getLastD hd) (hx : x ∉ hd :: (as ++ bs)) (hxn : x ≠ nil)
    (hf : ∀ y ∈ hd :: (as ++ x :: bs), fwd' y = if y = x then fwd a else if y = a then x else fwd y)
    (hb : ∀ y ∈ as ++ x :: bs, bwd' y = if y = x then a else if y = fwd a then x else bwd y) :
    Linked hd nil fwd' bwd' (as ++ x :: bs) := by
  obtain ⟨z, hs⟩ := h.seg
  have hn : (hd :: as ++ bs).Nodup := h.nodup
  have hfa : fwd a = bs.headD nil := ha ▸ h.fwd_getLastD
  obtain ⟨hna, hnb, hdisj⟩ := List.nodup_append.mp hn
  have hxa : x ∉ hd :: as := fun hm => hx (mem_cons_append hm _)
  have hxb : x ∉ bs := fun hm => hx (.tail _ (List.mem_append_right _ hm))
  have hx' : ∀ {y}, y ∈ hd :: as → y ≠ x := fun hy he => hxa (he ▸ hy)
  have hnil : nil ∉ as ++ x :: bs := by
    intro hm
    rcases List.mem_append.mp hm with hm | hm
    · exact h.nil_notMem (List.mem_append_left _ hm)
    · rcases List.mem_cons.mp hm with rfl | hm
      · exact hxn rfl
      · exact h.nil_notMem (List.mem_append_right _ hm)
  refine ⟨List.nodup_append.mpr ⟨hna, List.nodup_cons.mpr ⟨hxb, hnb⟩, fun y hy w hw => ?_⟩, hnil,
    ?_⟩
  · rcases List.mem_cons.mp hw with rfl | hw
    · exact hx' hy
    · exact hdisj y hy w hw
  -- the nodes before `x`, from the cut of the old list behind `a`
  have hleft : ∀ {w}, Seg fwd bwd hd as a w → Seg fwd' bwd' hd as a x := by
    intro w hl
    refine hl.retarget hna (fun y hy hne => ?_) ?_ fun y hy => ?_
    · rw [hf y (mem_cons_append hy _), if_neg (hx' hy), if_neg hne]
    · rw [hf a (mem_cons_append hl.last_mem _), if_neg (hx' hl.last_mem), if_pos rfl]
    · rw [hb y (List.mem_append_left _ hy), if_neg (hx' (.tail _ hy)), if_neg]
      intro he
      rw [hfa] at he
      cases bs with
      | nil =>
          obtain rfl : y = nil := he
          exact h.nil_notMem (List.mem_append_left _ hy)
      | cons b bs => exact hdisj y (.tail _ hy) b (.head _) he
  have hbx : bwd' x = a := by rw [hb x (List.mem_append_right _ (.head _)), if_pos rfl]
  have hfx : fwd' x = fwd a := by
    rw [hf x (.tail _ (List.mem_append_right _ (.head _))), if_pos rfl]
  cases bs with
  | nil =>
      rw [List.append_nil] at hs
      obtain rfl : a = z := ha.trans hs.last_eq.symm
      exact ⟨x, Seg.append.mpr ⟨hbx ▸ hleft hs, rfl, hfx.trans hfa⟩⟩
  | cons b bs =>
      obtain ⟨hl, hr⟩ := Seg.append.mp hs
      obtain rfl : a = bwd b := ha.trans hl.last_eq.symm
      have hfb : fwd (bwd b) = b := hl.fwd_last
      have hbb : bwd' b = x := by
        rw [hb b (List.mem_append_right _ (.tail _ (.head _))),
          if_neg fun he : b = x => hxb (he ▸ .head _), if_pos hfb.symm]
      refine ⟨z, Seg.append.mpr ⟨hbx ▸ hleft hl, hfx.trans hfb, hbb,
        hr.congr (fun y hy => ?_) fun y hy => ?_⟩⟩
      · rw [hf y (.tail _ (List.mem_append_right _ (.tail _ hy))),
          if_neg fun he : y = x => hxb (he ▸ hy), if_neg]
        exact fun he => hdisj _ hl.last_mem y hy he.symm
      · rw [hb y (List.mem_append_right _ (.tail _ (.tail _ hy))),
          if_neg fun he : y = x => hxb (he ▸ .tail _ hy), if_neg]
        intro he
        exact (List.nodup_cons.mp hnb).1 (hfb ▸ he ▸ hy)

end Linked

/-! ## Forward links only -/

/-- The nodes from `p` on are those of `l`, up to `nil`. -/
def Chained (nil : α) (fwd : α → α) : α → List α → Prop
  | p, [] => p = nil
  | p, x :: l => p = x ∧ x ≠ nil ∧ Chained nil fwd (fwd x) l

instance Chained.decidable [DecidableEq α] (nil : α) (fwd : α → α) :
    ∀ p l, Decidable (Chained nil fwd p l)
  | p, [] => inferInstanceAs (Decidable (p = nil))
  | p, x :: l =>
    have := Chained.decidable nil fwd (fwd x) l
    inferInstanceAs (Decidable (p = x ∧ x ≠ nil ∧ Chained nil fwd (fwd x) l))

namespace Chained

variable {p : α}

theorem congr (h : Chained nil fwd p l) (hf : ∀ y ∈ l, fwd' y = fwd y) :
    Chained nil fwd' p l := by
  induction l generalizing p with
  | nil => exact h
  | cons x l ih =>
      refine ⟨h.1, h.2.1, ?_⟩
      rw [hf x (.head _)]
      exact ih h.2.2 fun y hy => hf y (.tail x hy)

theorem unique {l' : List α} (h : Chained nil fwd p l) (h' : Chained nil fwd p l') : l = l' := by
  induction l generalizing p l' with
  | nil =>
      cases l' with
      | nil => rfl
      | cons x' l' => exact absurd (h'.1.symm.trans h) h'.2.1
  | cons x l ih =>
      cases l' with
      | nil => exact absurd (h.1.symm.trans h') h.2.1
      | cons x' l' =>
          obtain rfl : x = x' := h.1.symm.trans h'.1
          rw [ih h.2.2 h'.2.2]

/-- What is behind a node. -/
theorem after {x : α} {m : List α} (h : Chained nil fwd p (l ++ x :: m)) :
    Chained nil fwd (fwd x) m := by
  induction l generalizing p with
  | nil => exact h.2.2
  | cons y l ih => exact ih h.2.2

theorem nil_notMem (h : Chained nil fwd p l) : nil ∉ l := by
  induction l generalizing p with
  | nil => exact List.not_mem_nil
  | cons x l ih => exact fun hm => (List.mem_cons.mp hm).elim (fun e => h.2.1 e.symm) (ih h.2.2)

end Chained

/-- Without the links back, a stretch up to the end is a chain. -/
theorem Seg.chained (h : Seg fwd bwd a l z nil) (hn : nil ∉ l) : Chained nil fwd (fwd a) l := by
  induction l generalizing a with
  | nil => exact h.2
  | cons b l ih =>
      exact ⟨h.1, fun he => hn (he ▸ .head _), ih h.2.2 fun hm => hn (.tail _ hm)⟩

theorem Linked.chained (h : Linked hd nil fwd bwd l) : Chained nil fwd (fwd hd) l := by
  obtain ⟨_, hs⟩ := h.seg
  exact hs.chained h.nil_notMem

end Alliance.Lib
