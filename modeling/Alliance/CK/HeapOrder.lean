import Alliance.CK.HeapContents

/-!
# Heap order

`CLESS` is an order only on times that lie within half the circle of each other,
so the order of a heap is a statement about heaps whose times do: `Windowed`. On
such a heap `earlier` is a strict weak order on the events, and the two sift loops
are the loops whose invariants `UpOrder` and `DownOrder` are.

Insertion, sifting the root down and prioritising restore the order. Removal puts
the last event into the freed slot and only ever sifts it *down*. That is enough
unless the last event is earlier than the event above the freed slot, which can
happen when the two lie in different subtrees; then it should have gone up.
-/

namespace Alliance.CK

open Function Lib Lib.BinHeap Lib.Circular

variable {m m' : Heaps} {ht : HeapType} {e x : Addr} {i next : Nat} {b : TIME}

theorem cless_iff {x y : TIME} (hx : Within b x) (hy : Within b y) :
    cless x y ↔ offset b x < offset b y := before_iff hx hy

namespace Heaps

/-- `x` is due before `y`. -/
def earlier (m : Heaps) (x y : Addr) : Prop := cless (m.time x) (m.time y)

/-- No child's time is circularly less than its parent's. -/
def HeapOrdered (m : Heaps) (ht : HeapType) : Prop := Ordered m.earlier (m.slot ht) (m.used ht)

/-- The times in the heap lie within half the circle. -/
def Windowed (m : Heaps) (ht : HeapType) : Prop :=
  ∃ b, ∀ i, i < m.used ht → Within b (m.time (m.slot ht i))

/-- On one half circle, being due earlier is a strict weak order. -/
theorem earlier_weakOrder (m : Heaps) (b : TIME) :
    WeakOrderOn m.earlier (fun x => Within b (m.time x)) where
  asymm := by
    intro x y hx hy h
    unfold earlier at h ⊢
    rw [cless_iff hx hy] at h
    rw [cless_iff hy hx]
    omega
  trans := by
    intro x y z hx hy hz h1 h2
    unfold earlier at h1 h2 ⊢
    rw [cless_iff hx hy] at h1
    rw [cless_iff hy hz] at h2
    rw [cless_iff hx hz]
    omega

theorem SameEvents.earlier (h : SameEvents m m') : m'.earlier = m.earlier := by
  funext x y
  unfold Heaps.earlier
  rw [h.time, h.time]

@[simp] theorem earlier_place {j : Nat} : (m.place ht j e).earlier = m.earlier :=
  sameEvents_place.earlier

end Heaps

/-! ## The loops -/

/-- The loop of `CKsiftup` and `CKprioritise` restores the order. -/
theorem siftupFrom_ordered (hn : next < m.used ht)
    (hw : ∀ i, i < m.used ht → i ≠ next → Within b (m.time (m.slot ht i))) (he : Within b (m.time e))
    (o : UpOrder m.earlier (m.slot ht) (m.used ht) next e) :
    (siftupFrom m ht e next).HeapOrdered ht := by
  induction m, next using siftupFrom.induct ht e with
  | case1 m next h ih =>
      rw [siftupFrom, dif_pos h]
      have hp := parent_lt h.1
      have hmove := o.move (m.earlier_weakOrder b) hw he h.1 hn h.2
      refine ih (by rw [Heaps.used_place]; omega) ?_ (by simpa using he) ?_
      · intro i hi _
        rw [Heaps.used_place] at hi
        rw [Heaps.time_place, Heaps.slot_place_self]
        by_cases hin : i = next
        · rw [hin, update_self]
          exact hw _ (by omega) (by omega)
        · rw [update_of_ne hin]
          exact hw i hi hin
      · rwa [Heaps.earlier_place, Heaps.slot_place_self, Heaps.used_place]
  | case2 m next h =>
      rw [siftupFrom, dif_neg h]
      unfold Heaps.HeapOrdered
      rw [Heaps.earlier_place, Heaps.slot_place_self, Heaps.used_place]
      exact o.finish fun h0 hlt => h ⟨h0, hlt⟩

/-- When there are children, `MINCHILD` is one of them. -/
theorem minchild_child (m : Heaps) (ht : HeapType) (x : Nat) :
    0 < minchild m ht x ∧ parent (minchild m ht x) = x := by
  have h := lt_minchild m ht x
  refine ⟨by omega, ?_⟩
  unfold minchild
  split
  · exact parent_rchild x
  · exact parent_lchild x

theorem minchild_lt (h : lchild i < m.used ht) : minchild m ht i < m.used ht := by
  unfold minchild
  split
  · rename_i hc
    have := hc.1
    unfold lchild at this
    unfold rchild
    omega
  · exact h

/-- No child is due before `MINCHILD`. -/
theorem minchild_first (hw : ∀ j, j < m.used ht → j ≠ i → Within b (m.time (m.slot ht j)))
    {c : Nat} (h0 : 0 < c) (hc : c < m.used ht) (hp : parent c = i) :
    ¬ m.earlier (m.slot ht c) (m.slot ht (minchild m ht i)) := by
  have w := m.earlier_weakOrder b
  have hsplit := (parent_eq_iff h0).mp hp
  have hli := lt_lchild i
  have hrl : rchild i = lchild i + 1 := rfl
  have hwc : Within b (m.time (m.slot ht c)) := hw c hc (by omega)
  unfold minchild
  split
  · rename_i hr
    have hwl := hw (lchild i) (by omega) (by omega)
    have hwr := hw (rchild i) (by omega) (by omega)
    rcases hsplit with rfl | rfl
    · exact (beforeEq_iff hwr hwl).mp hr.2
    · exact w.irrefl hwc
  · rename_i hr
    rcases hsplit with rfl | rfl
    · exact w.irrefl hwc
    · have hwl := hw (lchild i) (by omega) (by omega)
      have hnot : ¬ clse (m.time (m.slot ht (rchild i))) (m.time (m.slot ht (lchild i))) :=
        fun hle => hr ⟨by omega, hle⟩
      have hlr := Decidable.not_not.mp fun hn => hnot ((beforeEq_iff hwc hwl).mpr hn)
      exact w.asymm hwl hwc hlr

/-- The loop of `CKsiftdown` and `CKremoveEvent` restores the order. -/
theorem siftdownFrom_ordered (hn : next < m.used ht)
    (hw : ∀ i, i < m.used ht → i ≠ next → Within b (m.time (m.slot ht i))) (he : Within b (m.time e))
    (o : DownOrder m.earlier (m.slot ht) (m.used ht) next e) :
    (siftdownFrom m ht e next).HeapOrdered ht := by
  induction m, next using siftdownFrom.induct ht e with
  | case1 m next h ih =>
      rw [siftdownFrom, dif_pos h]
      obtain ⟨hc0, hpc⟩ := minchild_child m ht next
      have hgt := lt_minchild m ht next
      have hmove := o.move (m.earlier_weakOrder b) hw he hc0 h.1 hpc
        (fun s h0 hs hp => minchild_first hw h0 hs hp) h.2
      refine ih (by rw [Heaps.used_place]; exact h.1) ?_ (by simpa using he) ?_
      · intro i hi _
        rw [Heaps.used_place] at hi
        rw [Heaps.time_place, Heaps.slot_place_self]
        by_cases hin : i = next
        · rw [hin, update_self]
          exact hw _ h.1 (by omega)
        · rw [update_of_ne hin]
          exact hw i hi hin
      · rwa [Heaps.earlier_place, Heaps.slot_place_self, Heaps.used_place]
  | case2 m next h =>
      rw [siftdownFrom, dif_neg h]
      unfold Heaps.HeapOrdered
      rw [Heaps.earlier_place, Heaps.slot_place_self, Heaps.used_place]
      refine o.finish ?_
      intro c h0 hc hp
      have hl := lchild_le_of_parent h0 hp
      have hgt := lt_lchild next
      have hgt' := lt_minchild m ht next
      have hmin : minchild m ht next < m.used ht := minchild_lt (by omega)
      have hstop : ¬ m.earlier (m.slot ht (minchild m ht next)) e := fun hlt => h ⟨hmin, hlt⟩
      exact (m.earlier_weakOrder b).trans (hw c hc (by omega)) (hw _ hmin (by omega)) he
        (minchild_first hw h0 hc hp) hstop

/-! ## The operations -/

/-- A heap the operations may be run on: back pointers, a window, and heap order. -/
structure Heaps.Sound (m : Heaps) (ht : HeapType) : Prop where
  back : m.BackPtrs ht
  windowed : m.Windowed ht
  ordered : m.HeapOrdered ht

theorem Heaps.Sound.root_first (h : m.Sound ht) :
    ∀ i, i < m.used ht → ¬ m.earlier (m.slot ht i) (m.slot ht 0) := by
  obtain ⟨b, hw⟩ := h.windowed
  exact h.ordered.root_first (m.earlier_weakOrder b) hw

/-- Events that lie in a window still do after an operation that left their times alone. -/
theorem windowed_of_mem {P : Addr → Prop} (hs : m.SameEvents m')
    (hsub : ∀ x, m'.Contains ht x → P x) (hP : ∀ x, P x → Within b (m.time x)) :
    m'.Windowed ht :=
  ⟨b, fun i hi => by rw [hs.time]; exact hP _ (hsub _ ⟨i, hi, rfl⟩)⟩

/-- **Insertion restores the order.** -/
theorem ckSiftup_sound (h : ckSiftup m ht e = some m') (hm : m.Sound ht)
    (ha : ¬ m.Contains ht e) (he : Within b (m.time e))
    (hw : ∀ i, i < m.used ht → Within b (m.time (m.slot ht i))) : m'.Sound ht := by
  obtain ⟨hb', hc⟩ := ckSiftup_spec h hm.back ha
  refine ⟨hb', ?_, ?_⟩
  · refine windowed_of_mem (b := b) (P := fun x => x = e ∨ m.Contains ht x)
      (ckSiftup_frame h).same ?_ ?_
    · intro x hx
      rw [← Heaps.mem_contents, hc, Multiset.mem_cons, Heaps.mem_contents] at hx
      exact hx
    · rintro x (rfl | ⟨i, hi, rfl⟩)
      · exact he
      · exact hw i hi
  · obtain ⟨_, _, rfl⟩ := ckSiftup_used h
    -- nothing lies below the slot the source starts from
    have hleaf : ∀ c, 0 < c → c < m.used ht + 1 → parent c ≠ m.used ht := by
      intro c h0 hc
      have := parent_lt h0
      omega
    refine siftupFrom_ordered (b := b) (by rw [Heaps.used_setUsed_self]; omega) ?_ he ⟨?_, ?_, ?_⟩
    · intro i hi hne
      rw [Heaps.used_setUsed_self] at hi
      rw [Heaps.slot_setUsed]
      exact hw i (by omega)
    · intro i h0 hi hne _
      rw [Heaps.used_setUsed_self] at hi
      rw [Heaps.slot_setUsed]
      exact hm.ordered i h0 (by omega)
    · intro _ c h0 hc hp
      rw [Heaps.used_setUsed_self] at hc
      exact absurd hp (hleaf c h0 hc)
    · intro c h0 hc hp
      rw [Heaps.used_setUsed_self] at hc
      exact absurd hp (hleaf c h0 hc)

/-- The event at another slot is another event, so a store to `e` leaves its time alone. -/
theorem time_setTime_slot {t : TIME} (hb : m.BackPtrs ht) {j : Nat} (hj : j < m.used ht)
    (hi : i < m.used ht) (hne : i ≠ j) :
    (m.setTime (m.slot ht j) t).time (m.slot ht i) = m.time (m.slot ht i) := by
  have : m.slot ht i ≠ m.slot ht j := fun he => hne (hb.slot_inj hi hj he)
  unfold Heaps.time Heaps.setTime
  rw [Heaps.ev_setEv_ne this]

@[simp] theorem time_setTime_self {t : TIME} : (m.setTime e t).time e = t := by
  simp [Heaps.time, Heaps.setTime]

/-- Off slot `j`, giving the event in it a new time changes no comparison. -/
theorem orderedExcept_setTime {t : TIME} {j : Nat} (hb : m.BackPtrs ht)
    (ho : m.HeapOrdered ht) (hj : j < m.used ht) :
    OrderedExcept (m.setTime (m.slot ht j) t).earlier (m.slot ht) (m.used ht) j := by
  intro i h0 hi hne hpne
  have hp := parent_lt h0
  unfold Heaps.earlier
  rw [time_setTime_slot hb hj hi hne, time_setTime_slot hb hj (by omega) hpne]
  exact ho i h0 hi

/-- **Sifting down the root restores the order** of a heap in order everywhere else. -/
theorem ckSiftdown_sound (hb : m.BackPtrs ht) (hpos : 0 < m.used ht)
    (ho : OrderedExcept m.earlier (m.slot ht) (m.used ht) 0)
    (hw : ∀ i, i < m.used ht → Within b (m.time (m.slot ht i))) : (ckSiftdown m ht).Sound ht := by
  obtain ⟨hb', hc⟩ := ckSiftdown_spec hpos hb
  refine ⟨hb', ?_, ?_⟩
  · refine windowed_of_mem (b := b) (P := fun x => m.Contains ht x)
      (ckSiftdown_frame _ ht).same ?_ ?_
    · intro x hx
      rwa [← Heaps.mem_contents, hc, Heaps.mem_contents] at hx
    · rintro x ⟨i, hi, rfl⟩
      exact hw i hi
  · refine siftdownFrom_ordered (b := b) hpos (fun i hi _ => hw i hi) (hw 0 hpos) ⟨ho, ?_, ?_⟩
    · intro h0
      exact absurd h0 (Nat.lt_irrefl 0)
    · intro h0
      exact absurd h0 (Nat.lt_irrefl 0)

/-- The last event fits where it is put: it is not due before the event above slot `i`. -/
def LastFits (m : Heaps) (ht : HeapType) (i : Nat) : Prop :=
  0 < i → ¬ m.earlier (m.slot ht (m.used ht - 1)) (m.slot ht (parent i))

/-- **Removal restores the order exactly when the last event fits** under the event above
the freed slot. -/
theorem ckRemoveEvent_ordered_iff {evt : Slot} (h : ckRemoveEvent m ht evt = some m')
    (hm : m.Sound ht) (hi : evt.idx < m.used ht) :
    m'.HeapOrdered ht ↔ LastFits m ht evt.idx := by
  obtain ⟨_, hpos, rfl⟩ := ckRemoveEvent_eq h
  obtain ⟨b, hw⟩ := hm.windowed
  have w := m.earlier_weakOrder b
  obtain ⟨n, hn⟩ : ∃ n, m.used ht = n + 1 := ⟨m.used ht - 1, by omega⟩
  unfold LastFits
  rw [hn, Nat.add_sub_cancel]
  generalize evt.idx = i at hi
  generalize hm₁ : (m.place ht i (m.slot ht n)).setUsed ht n = m₁
  have hused : m₁.used ht = n := by rw [← hm₁, Heaps.used_setUsed_self]
  have hslot : m₁.slot ht = update (m.slot ht) i (m.slot ht n) := by
    rw [← hm₁, Heaps.slot_setUsed, Heaps.slot_place_self]
  have hsame : m.SameEvents m₁ := by
    rw [← hm₁]
    exact Heaps.sameEvents_place
  have hlast : Within b (m₁.time (m.slot ht n)) := by
    rw [hsame.time]
    exact hw n (by omega)
  have hexcept : OrderedExcept m.earlier (m₁.slot ht) n i := by
    intro j h0 hj hne hpne
    have hp := parent_lt h0
    rw [hslot, update_of_ne hne, update_of_ne hpne]
    exact hm.ordered j h0 (by omega)
  have hbridged : Bridged m.earlier (m₁.slot ht) n i := by
    intro h0 c hc0 hc hpc
    have hp := parent_lt h0
    have hcp := parent_lt hc0
    rw [hslot, update_of_ne (by omega), update_of_ne (by omega)]
    exact hm.ordered.bridged w hw hi h0 c hc0 (by omega) hpc
  rcases Nat.lt_or_ge i n with hlt | hge
  · constructor
    · -- an event that is too early stays in the freed slot
      intro hord h0 hearly
      have hp := parent_lt h0
      rw [siftdownFrom, dif_neg] at hord
      · unfold Heaps.HeapOrdered at hord
        rw [Heaps.earlier_place, Heaps.slot_place_self, Heaps.used_place, hused,
          hsame.earlier] at hord
        refine not_ordered_update h0 hlt ?_ hord
        rw [hslot, update_of_ne (by omega)]
        exact hearly
      · rintro ⟨hc, hbefore⟩
        rw [hused] at hc
        obtain ⟨hc0, hpc⟩ := minchild_child m₁ ht i
        have hgt := lt_minchild m₁ ht i
        have hchild : ¬ m.earlier (m₁.slot ht (minchild m₁ ht i)) (m.slot ht (parent i)) := by
          have := hbridged h0 _ hc0 hc hpc
          rwa [hslot, update_of_ne (by omega : parent i ≠ i), ← hslot] at this
        have hwc : Within b (m.time (m₁.slot ht (minchild m₁ ht i))) := by
          rw [hslot, update_of_ne (by omega)]
          exact hw _ (by omega)
        rw [hsame.time, hsame.time] at hbefore
        have hl := hw n (by omega)
        exact w.trans hwc (hw (parent i) (by omega)) hl hchild
          (w.asymm hl (hw (parent i) (by omega)) hearly) hbefore
    · intro hfits
      refine siftdownFrom_ordered (b := b) (by rw [hused]; exact hlt) ?_ hlast ⟨?_, ?_, ?_⟩
      · intro j hj hne
        rw [hused] at hj
        rw [hslot, update_of_ne hne, hsame.time]
        exact hw j (by omega)
      · rw [hsame.earlier, hused]
        exact hexcept
      · rw [hsame.earlier, hused]
        exact hbridged
      · intro h0
        have hp := parent_lt h0
        rw [hsame.earlier, hslot, update_of_ne (by omega)]
        exact hfits h0
  · -- the removed event is the last one: what is left was in order
    have hin : i = n := by omega
    refine ⟨fun _ h0 => hin ▸ hm.ordered i h0 (by omega), fun _ => ?_⟩
    rw [siftdownFrom_of_le (by rw [hused]; exact hge)]
    unfold Heaps.HeapOrdered
    rw [Heaps.earlier_place, Heaps.slot_place_self, Heaps.used_place, hused, hsame.earlier, hslot]
    intro j h0 hj
    have hp := parent_lt h0
    rw [update_of_ne (by omega), update_of_ne (by omega), update_of_ne (by omega),
      update_of_ne (by omega)]
    exact hm.ordered j h0 (by omega)

theorem ckRemoveEvent_sound {evt : Slot} (h : ckRemoveEvent m ht evt = some m')
    (hm : m.Sound ht) (hi : evt.idx < m.used ht) (hfits : LastFits m ht evt.idx) :
    m'.Sound ht := by
  obtain ⟨b, hw⟩ := hm.windowed
  obtain ⟨hb', hc⟩ := ckRemoveEvent_spec h hm.back hi
  refine ⟨hb', ?_, (ckRemoveEvent_ordered_iff h hm hi).mpr hfits⟩
  refine windowed_of_mem (b := b) (P := fun x => m.Contains ht x)
    (ckRemoveEvent_frame h).2.same ?_ ?_
  · intro x hx
    rw [← Heaps.mem_contents] at hx ⊢
    rw [← hc]
    exact Multiset.mem_cons_of_mem hx
  · rintro x ⟨i, hi, rfl⟩
    exact hw i hi

/-- **Prioritising restores the order**: the event takes the root's time and moves up. -/
theorem ckPrioritise_sound (h : ckPrioritise m e = some m') (hm : m.Sound .timesharing)
    (hc : m.Contains .timesharing e) : m'.Sound .timesharing := by
  rcases ckPrioritise_eq h with ⟨_, rfl⟩ | ⟨_, _, hm'⟩
  · exact hm
  obtain ⟨b, hw⟩ := hm.windowed
  obtain ⟨_, hidx, hslot⟩ := hm.back.own_slot hc
  obtain ⟨hb', hcont⟩ := ckPrioritise_spec h hm.back hc
  have hpos : 0 < m.used .timesharing := by omega
  have hw₁ : ∀ x, m.Contains .timesharing x →
      Within b ((m.setTime e (m.ckGetNextTime .timesharing)).time x) := by
    rintro x ⟨i, hi, rfl⟩
    by_cases hxe : m.slot .timesharing i = e
    · rw [hxe, time_setTime_self]
      exact hw 0 hpos
    · rw [Heaps.time, Heaps.setTime, Heaps.ev_setEv_ne hxe]
      exact hw i hi
  have hsame : (m.setTime e (m.ckGetNextTime .timesharing)).SameEvents m' := by
    rw [hm']
    exact (siftupFrom_sifts (m.setTime e (m.ckGetNextTime .timesharing)) .timesharing e _
      hidx).frame.same
  refine ⟨hb', ?_, ?_⟩
  · refine windowed_of_mem hsame ?_ hw₁
    intro x hx
    rwa [← Heaps.mem_contents, hcont, Heaps.mem_contents] at hx
  · have htime : ∀ {i : Nat}, i < m.used .timesharing → i ≠ (m.ev e).heap.idx →
        (m.setTime e (m.ckGetNextTime .timesharing)).time (m.slot .timesharing i)
          = m.time (m.slot .timesharing i) := by
      intro i hi hne
      have := time_setTime_slot (t := m.ckGetNextTime .timesharing) hm.back hidx hi hne
      rwa [hslot] at this
    have hexcept := orderedExcept_setTime (t := m.ckGetNextTime .timesharing)
      hm.back hm.ordered hidx
    rw [hslot] at hexcept
    rw [hm']
    refine siftupFrom_ordered (b := b) hidx (fun i hi _ => hw₁ _ ⟨i, hi, rfl⟩)
      (hw₁ e hc) ⟨hexcept, ?_, ?_⟩
    · intro h0 c hc0 hc hpc
      have hp := parent_lt h0
      have hcp := parent_lt hc0
      unfold Heaps.earlier
      rw [Heaps.setTime, Heaps.slot_setEv, ← Heaps.setTime, htime hc (by omega),
        htime (by omega) (by omega)]
      exact hm.ordered.bridged (m.earlier_weakOrder b) hw hidx h0 c hc0 hc hpc
    · intro c hc0 hc hpc
      have hcp := parent_lt hc0
      unfold Heaps.earlier
      rw [time_setTime_self, Heaps.setTime, Heaps.slot_setEv, ← Heaps.setTime,
        htime hc (by omega)]
      exact hm.root_first c hc

/-! ## Runs -/

/-- The operations that move events, each with what it is given; `siftdown t` is
`CKsiftdown` after the root's time was raised to `t`. -/
inductive OrderOp where
  | siftup (e : Addr)
  | siftdown (t : TIME)
  | removeEvent (e : Addr)
  | prioritise (e : Addr)

def orderStep (ht : HeapType) (m : Heaps) : OrderOp → Option Heaps
  | .siftup e => ckSiftup m ht e
  | .siftdown t => some (ckSiftdown (m.setTime (m.slot ht 0) t) ht)
  | .removeEvent e => ckRemoveEvent m ht (m.ev e).heap
  | .prioritise e => ckPrioritise m e

/-- How the operations are called: new times fall in a window with those already there. -/
def OrderOp.Legal (ht : HeapType) (m : Heaps) : OrderOp → Prop
  | .siftup e => ¬ m.Contains ht e ∧ m.used ht < MAXEVENTS ∧
      ∃ b, Within b (m.time e) ∧ ∀ i, i < m.used ht → Within b (m.time (m.slot ht i))
  | .siftdown t => 0 < m.used ht ∧ clse (m.time (m.slot ht 0)) t ∧
      ∃ b, Within b t ∧ ∀ i, 0 < i → i < m.used ht → Within b (m.time (m.slot ht i))
  | .removeEvent e => m.Contains ht e
  | .prioritise e => m.Contains ht e ∧ (ht = .timesharing ∨ (m.ev e).ts ≠ .running)

/-- A removal finds a last event that fits under the event above the freed slot. -/
def OrderOp.Fits (ht : HeapType) (m : Heaps) : OrderOp → Prop
  | .removeEvent e => LastFits m ht (m.ev e).heap.idx
  | _ => True

theorem orderStep_sound {op : OrderOp} (hm : m.Sound ht) (hl : op.Legal ht m)
    (hf : op.Fits ht m) (h : orderStep ht m op = some m') : m'.Sound ht := by
  cases op with
  | siftup e =>
      obtain ⟨ha, _, b, he, hw⟩ := hl
      exact ckSiftup_sound h hm ha he hw
  | siftdown t =>
      obtain rfl := Option.some.inj h
      obtain ⟨hpos, _, b, ht', hw⟩ := hl
      refine ckSiftdown_sound (b := b) (hm.back.setEv rfl) hpos
        (orderedExcept_setTime hm.back hm.ordered hpos) ?_
      intro i hi
      rcases Nat.eq_zero_or_pos i with rfl | h0
      · rwa [Heaps.setTime, Heaps.slot_setEv, ← Heaps.setTime, time_setTime_self]
      · rw [Heaps.setTime, Heaps.slot_setEv, ← Heaps.setTime,
          time_setTime_slot hm.back hpos hi (by omega)]
        exact hw i h0 hi
  | removeEvent e =>
      obtain ⟨_, hidx, _⟩ := hm.back.own_slot hl
      exact ckRemoveEvent_sound h hm hidx hf
  | prioritise e =>
      obtain ⟨hc, hts⟩ := hl
      rcases ckPrioritise_eq h with ⟨_, rfl⟩ | ⟨hrun, _⟩
      · exact hm
      · obtain rfl : ht = .timesharing := hts.resolve_right fun hn => hn hrun
        exact ckPrioritise_sound h hm hc

/-- **Heap order over runs.** In every run whose removals each find a last event that fits,
every state reached is ordered with a minimum at the root; and in such a state a removal
restores the order exactly when the last event fits. -/
theorem heap_order_run {ops : List OrderOp}
    (hr : Run (orderStep ht) (fun m op => op.Legal ht m ∧ op.Fits ht m) m ops m')
    (hm : m.Sound ht) :
    (∀ i, 0 < i → i < m'.used ht →
        ¬ cless (m'.time (m'.slot ht i)) (m'.time (m'.slot ht (parent i))))
      ∧ (∀ i, i < m'.used ht → ¬ cless (m'.time (m'.slot ht i)) (m'.time (m'.slot ht 0)))
      ∧ ∀ e m'', m'.Contains ht e → orderStep ht m' (.removeEvent e) = some m'' →
        (m''.HeapOrdered ht ↔ OrderOp.Fits ht m' (.removeEvent e)) := by
  have hs : m'.Sound ht :=
    hr.invariant (I := fun m => m.Sound ht) (fun h hl hs => orderStep_sound h hl.1 hl.2 hs) hm
  refine ⟨hs.ordered, hs.root_first, ?_⟩
  intro e m'' hc h
  obtain ⟨_, hidx, _⟩ := hs.back.own_slot hc
  exact ckRemoveEvent_ordered_iff h hs hidx

/-! ## A heap that removal leaves out of order -/

/-- Times below `2^31` lie on one half circle. -/
theorem heapOf_windowed {times : List Nat} (h : ∀ t ∈ times, t < 2 ^ 31) :
    (heapOf times).Windowed .timesharing := by
  refine ⟨0, fun i hi => ?_⟩
  have hi' : i < times.length := hi
  have ht := h _ (List.getElem_mem hi')
  have hlt : times[i] < 2 ^ 32 := by omega
  show 2 * ((BitVec.ofNat 32 (times.getD (i + 1 - 1) 0)) - 0#32).toNat < 2 ^ 32
  rw [Nat.add_sub_cancel, List.getD_eq_getElem?_getD, List.getElem?_eq_getElem hi',
    Option.getD_some, BitVec.sub_zero, BitVec.toNat_ofNat, Nat.mod_eq_of_lt hlt]
  omega

/-- Seven events in heap order; the last one is due before the event above slot 3. -/
theorem heapOf_seven_sound : (heapOf [1, 10, 2, 11, 12, 3, 4]).Sound .timesharing where
  back := heapOf_back _
  windowed := heapOf_windowed (by decide)
  ordered := by
    have h : ∀ i, i < 7 → 0 < i → ¬ (heapOf [1, 10, 2, 11, 12, 3, 4]).earlier
        ((heapOf [1, 10, 2, 11, 12, 3, 4]).slot .timesharing i)
        ((heapOf [1, 10, 2, 11, 12, 3, 4]).slot .timesharing (parent i)) := by
      unfold Heaps.earlier
      decide
    exact fun i h0 hi => h i hi h0

/-- Removing the event in slot 3 of that heap puts time 4 below time 10. -/
theorem ckRemoveEvent_breaks_order :
    (heapOf [1, 10, 2, 11, 12, 3, 4]).Sound .timesharing
      ∧ OrderOp.Legal .timesharing (heapOf [1, 10, 2, 11, 12, 3, 4]) (.removeEvent 4)
      ∧ ∃ m', orderStep .timesharing (heapOf [1, 10, 2, 11, 12, 3, 4]) (.removeEvent 4) = some m'
        ∧ ¬ m'.HeapOrdered .timesharing := by
  refine ⟨heapOf_seven_sound, ⟨3, by decide, rfl⟩, _, rfl, ?_⟩
  intro h
  exact h 3 (by decide) (by decide +kernel) (by unfold Heaps.earlier; decide +kernel)

/-- The run theorem on a heap of three events: the last one is removed. -/
theorem heap_order_run_three : ∃ m', Run (orderStep .timesharing)
    (fun m op => op.Legal .timesharing m ∧ op.Fits .timesharing m) (heapOf [1, 2, 3])
      [.removeEvent 3] m' ∧
    ∀ i, i < m'.used .timesharing →
      ¬ cless (m'.time (m'.slot .timesharing i)) (m'.time (m'.slot .timesharing 0)) := by
  have hs : (heapOf [1, 2, 3]).Sound .timesharing :=
    { back := heapOf_back _
      windowed := heapOf_windowed (by decide)
      ordered := by
        have h : ∀ i, i < 3 → 0 < i → ¬ (heapOf [1, 2, 3]).earlier
            ((heapOf [1, 2, 3]).slot .timesharing i)
            ((heapOf [1, 2, 3]).slot .timesharing (parent i)) := by
          unfold Heaps.earlier
          decide
        exact fun i h0 hi => h i hi h0 }
  have hr : Run (orderStep .timesharing)
      (fun m op => op.Legal .timesharing m ∧ op.Fits .timesharing m) (heapOf [1, 2, 3])
      [.removeEvent 3] _ :=
    .cons ⟨⟨2, by decide, rfl⟩, by
      intro _
      unfold Heaps.earlier
      decide⟩ rfl (.nil _)
  exact ⟨_, hr, (heap_order_run hr hs).2.1⟩

end Alliance.CK
