import Alliance.CK.SchedCalls
import Alliance.CK.HeapOrder

/-!
# The flush finds the running thread at the root

`CKflushPrevTask` changes the time of `currtask` and sifts down the *root* of a heap,
so the two have to be the same thread. They are when `CKschedule` dispatches a thread,
and no heap call moves the root of a heap except by taking it out: an event enters with
the root's time, which is not earlier, and the last event goes below the slot of the
removed one. So `currtask` stays at the root until it is taken out itself, and is not
there any more if it is put back among others.

With `currtask` at the root the flush restores the heap order: the running thread is the
only one whose time may be out of place, and it is sifted down or removed.
-/

namespace Alliance.CK

open Function Lib Lib.BinHeap Lib.Circular

variable {m m' : Heaps} {ht ht' : HeapType} {a e x curr : Addr} {s s' : Sched} {op : SchedOp}
  {next j : Nat} {b t : TIME}

/-! ## The root of a heap -/

/-- Sifting towards the leaves writes no slot above the first one. -/
theorem slot_siftdownFrom (hj : j < next) :
    (siftdownFrom m ht e next).slot ht j = m.slot ht j := by
  induction m, next using siftdownFrom.induct ht e with
  | case1 m next h ih =>
      have hlt := lt_minchild m ht next
      rw [siftdownFrom, dif_pos h, ih (by omega), Heaps.slot_place_self,
        update_of_ne (by omega)]
  | case2 m next h =>
      rw [siftdownFrom, dif_neg h, Heaps.slot_place_self, update_of_ne (by omega)]

/-- Sifting an event towards the root does not reach the root, unless it is due before it. -/
theorem root_siftupFrom (h0 : next = 0 → m.slot ht 0 = e)
    (hn : ¬ cless (m.time e) (m.time (m.slot ht 0))) :
    (siftupFrom m ht e next).slot ht 0 = m.slot ht 0 := by
  induction m, next using siftupFrom.induct ht e with
  | case1 m next h ih =>
      have hp : parent next ≠ 0 := by
        intro hp
        rw [hp] at h
        exact hn h.2
      have hroot : (m.place ht next (m.slot ht (parent next))).slot ht 0 = m.slot ht 0 := by
        rw [Heaps.slot_place_self, update_of_ne (by omega)]
      rw [siftupFrom, dif_pos h, ih (fun h => absurd h hp), hroot]
      rwa [hroot, Heaps.time_place, Heaps.time_place]
  | case2 m next h =>
      rw [siftupFrom, dif_neg h, Heaps.slot_place_self]
      rcases Nat.eq_zero_or_pos next with rfl | hpos
      · rw [update_self, h0 rfl]
      · rw [update_of_ne (by omega)]

/-- An event that is not due before the root leaves it in its place. -/
theorem root_ckSiftup (h : ckSiftup m ht e = some m') (hpos : 0 < m.used ht)
    (hn : ¬ cless (m.time e) (m.time (m.slot ht 0))) : m'.slot ht 0 = m.slot ht 0 := by
  obtain ⟨-, -, rfl⟩ := ckSiftup_used h
  rw [root_siftupFrom (fun h => by omega) (by rwa [Heaps.slot_setUsed]), Heaps.slot_setUsed]

/-- The first event of a heap is its root. -/
theorem root_ckSiftup_empty (h : ckSiftup m ht e = some m') (h0 : m.used ht = 0) :
    m'.slot ht 0 = e := by
  obtain ⟨-, -, rfl⟩ := ckSiftup_used h
  rw [h0, siftupFrom, dif_neg (by omega), Heaps.slot_place_self, update_self]

/-- Removing another event leaves the root in its place. -/
theorem root_ckRemoveEvent {evt : Slot} (h : ckRemoveEvent m ht evt = some m')
    (hi : 0 < evt.idx) : m'.slot ht 0 = m.slot ht 0 := by
  obtain ⟨-, -, rfl⟩ := ckRemoveEvent_eq h
  rw [slot_siftdownFrom hi, Heaps.slot_setUsed, Heaps.slot_place_self, update_of_ne (by omega)]

theorem slot_congr_sel (h : m'.sel ht = m.sel ht) : m'.slot ht j = m.slot ht j := by
  unfold Heaps.slot
  rw [h]

theorem cless_irrefl (t : TIME) : ¬ cless t t := by
  unfold cless Before
  rw [BitVec.sub_self]
  decide

/-- A thread enters a heap that is not empty with the time of the root. -/
theorem enterTime_of_pos (h : 0 < m.used ht) : m.enterTime ht = m.time (m.slot ht 0) :=
  if_neg (Nat.ne_of_gt h)

/-- A thread that is in no heap enters a heap that is not empty below its root. -/
theorem root_enterHeap (h : enterHeap m ht a = some m') (hpos : 0 < m.used ht)
    (ha : ¬ m.Contains ht a) : m'.slot ht 0 = m.slot ht 0 := by
  have hne : m.slot ht 0 ≠ a := fun he => ha ⟨0, hpos, he⟩
  rw [Heaps.enterHeap_eq] at h
  refine root_ckSiftup (m := m.entered ht a) h hpos ?_
  show ¬ cless ((m.entered ht a).time a) ((m.entered ht a).time (m.slot ht 0))
  unfold Heaps.time
  rw [Heaps.ev_entered_self, Heaps.ev_entered_ne hne]
  show ¬ cless (m.enterTime ht) (m.time (m.slot ht 0))
  rw [enterTime_of_pos hpos]
  exact cless_irrefl _

/-- A thread is the root of a heap if it is in it at all. -/
def Heaps.Rooted (m : Heaps) (a : Addr) : Prop := ∀ ht, m.Contains ht a → m.slot ht 0 = a

/-- A thread that is woken finds its heap empty, if it is `curr`. -/
def HeapCall.RootKept (curr : Addr) (m : Heaps) : HeapCall → Prop
  | .wake ht a => a = curr → (m.ev a).ts = .blocked → m.ckIsHeapEmpty ht
  | _ => True

/-- **One call** keeps `curr` at the root if it wakes it into empty heaps only. -/
theorem heapCall_rooted {c : HeapCall} (hm : m.Consistent) (hc : c.InPlace m)
    (hr : c.RootKept curr m) (h : heapCall m c = some m') (hroot : m.Rooted curr) :
    m'.Rooted curr := by
  cases c with
  | block a =>
      obtain ⟨-, hcont⟩ := ckBlockThread_consistent hm hc h
      intro ht hx
      obtain ⟨hx, hne⟩ := (hcont ht curr).mp hx
      have h0 := hroot ht hx
      obtain ⟨m₁, h₁, rfl⟩ := ckBlockThread_eq h
      show m₁.slot ht 0 = curr
      rcases leaveHeap_cases h₁ with ⟨-, rfl⟩ | ⟨ht', hts, h₁⟩
      · exact h0
      · by_cases hh : ht = ht'
        · subst hh
          -- the blocked thread is another one, and so not in slot 0
          obtain ⟨-, hidx, hslot⟩ := (hm.back ht).own_slot (hc ht hts)
          rw [root_ckRemoveEvent h₁ ?_, h0]
          rcases Nat.eq_zero_or_pos (m.ev a).heap.idx with hz | hpos
          · rw [hz, h0] at hslot
            exact absurd hslot hne
          · exact hpos
        · rw [slot_congr_sel ((ckRemoveEvent_frame h₁).2.sel ht hh), h0]
  | wake ht a =>
      by_cases hts : (m.ev a).ts = .blocked
      · have h' : enterHeap m ht a = some m' := (if_pos hts).symm.trans h
        obtain ⟨-, hcont⟩ := enterHeap_consistent hm hts h'
        intro ht' hx
        rcases (hcont ht' curr).mp hx with hx | ⟨hca, rfl⟩
        · by_cases hh : ht' = ht
          · subst hh
            obtain ⟨i, hi, -⟩ := id hx
            rw [root_enterHeap h' (by omega) (hm.not_contains hts)]
            exact hroot ht' hx
          · rw [Heaps.enterHeap_eq] at h'
            rw [slot_congr_sel ((ckSiftup_frame h').sel ht' hh)]
            exact hroot ht' hx
        · rw [root_ckSiftup_empty h' (hr hca.symm hts), hca]
      · obtain rfl := Option.some.inj ((if_neg hts).symm.trans h)
        exact hroot
  | prioritise a =>
      obtain ⟨-, hcont⟩ := ckPrioritise_consistent hm hc h
      intro ht hx
      have hx' := (hcont ht curr).mp hx
      clear hx
      rcases ckPrioritise_eq h with ⟨-, rfl⟩ | ⟨hts, -, rfl⟩
      · exact hroot ht hx'
      · obtain ⟨-, hidx, hslot⟩ := (hm.back _).own_slot (hc .timesharing hts)
        by_cases hh : ht = .timesharing
        · subst hh
          rw [root_siftupFrom (m := m.setTime a _)]
          · exact hroot _ hx'
          · intro h0
            rw [h0] at hslot
            exact hslot
          · -- the thread has the time of the root, even if it is the root
            have hroot' : (m.setTime a (m.ckGetNextTime .timesharing)).time
                (m.slot .timesharing 0) = m.ckGetNextTime .timesharing := by
              by_cases he : m.slot .timesharing 0 = a
              · rw [he, time_setTime_self]
              · rw [Heaps.time, Heaps.setTime, Heaps.ev_setEv_ne he]
                rfl
            show ¬ cless _ ((m.setTime a _).time (m.slot .timesharing 0))
            rw [hroot', time_setTime_self]
            exact cless_irrefl _
        · have hf := (siftupFrom_sifts (m.setTime a (m.ckGetNextTime .timesharing)) .timesharing
            a _ hidx).frame
          rw [slot_congr_sel (hf.sel ht hh)]
          exact hroot ht hx'
  | store a v =>
      obtain rfl := Option.some.inj h
      exact hroot

/-! ## The order of the heaps -/

/-- A heap whose slots, times and back pointers are as before is as sound as before. -/
theorem Heaps.Sound.congr (h : m.Sound ht) (hsel : m'.sel ht = m.sel ht)
    (hev : ∀ x, m.Contains ht x →
      (m'.ev x).time = (m.ev x).time ∧ (m'.ev x).heap = (m.ev x).heap) : m'.Sound ht := by
  have hused := used_congr_sel hsel
  have htime {i : Nat} (hi : i < m.used ht) :
      m'.time (m'.slot ht i) = m.time (m.slot ht i) := by
    rw [slot_congr_sel hsel]
    exact (hev _ ⟨i, hi, rfl⟩).1
  refine ⟨?_, ?_, ?_⟩
  · intro i hi
    rw [hused] at hi
    rw [slot_congr_sel hsel, (hev _ ⟨i, hi, rfl⟩).2]
    exact h.back i hi
  · obtain ⟨b, hw⟩ := h.windowed
    refine ⟨b, fun i hi => ?_⟩
    rw [hused] at hi
    rw [htime hi]
    exact hw i hi
  · intro i h0 hi
    rw [hused] at hi
    have hp := parent_lt h0
    unfold Heaps.earlier
    rw [htime hi, htime (by omega)]
    exact h.ordered i h0 hi

/-- An operation on one heap leaves the others as sound as they were. -/
theorem OpFrame.sound (hf : OpFrame ht e m m') (hm : m.Consistent) (hne : ht' ≠ ht)
    (he : ¬ m.Contains ht' e) (h : m.Sound ht') : m'.Sound ht' := by
  refine h.congr (hf.sel ht' hne) fun x hx => ?_
  have hev : m'.ev x = m.ev x :=
    hf.ev x (fun hxe => he (hxe ▸ hx)) fun hx' => hne (hm.contains_unique hx hx')
  rw [hev]
  exact ⟨rfl, rfl⟩

/-- A removal finds a last event that fits under the event above the freed slot. -/
def HeapCall.RemovalFits (m : Heaps) : HeapCall → Prop
  | .block a => ∀ ht, (m.ev a).ts = ht.ts → LastFits m ht (m.ev a).heap.idx
  | _ => True

theorem ckBlockThread_sound (hm : m.Consistent) (ha : m.Sits a)
    (hf : HeapCall.RemovalFits m (.block a)) (h : ckBlockThread m a = some m')
    (hs : ∀ ht, m.Sound ht) (ht : HeapType) : m'.Sound ht := by
  obtain ⟨m₁, h₁, rfl⟩ := ckBlockThread_eq h
  have hs₁ : m₁.Sound ht := by
    rcases leaveHeap_cases h₁ with ⟨-, rfl⟩ | ⟨ht', hts, h₁⟩
    · exact hs ht
    · obtain ⟨-, hidx, -⟩ := (hm.back ht').own_slot (ha ht' hts)
      by_cases hne : ht = ht'
      · subst hne
        exact ckRemoveEvent_sound h₁ (hs ht) hidx (hf ht hts)
      · have hlast : m.Contains ht' (m.slot ht' (m.used ht' - 1)) := ⟨_, by omega, rfl⟩
        exact (ckRemoveEvent_frame h₁).2.sound hm hne
          (fun hc => hne (hm.contains_unique hc hlast)) (hs ht)
  refine hs₁.congr rfl fun x _ => ?_
  by_cases hx : x = a
  · rw [hx, Heaps.setTs, Heaps.ev_setEv_self]
    exact ⟨rfl, rfl⟩
  · rw [Heaps.setTs, Heaps.ev_setEv_ne hx]
    exact ⟨rfl, rfl⟩

/-- An event that is in no heap may be given any time and state. -/
theorem Heaps.Sound.setEv {v : EVENT} (h : m.Sound ht) (ha : ¬ m.Contains ht a) :
    (m.setEv a v).Sound ht := by
  refine h.congr rfl fun x hx => ?_
  have hne : x ≠ a := fun he => ha (he ▸ hx)
  rw [Heaps.ev_setEv_ne hne]
  exact ⟨rfl, rfl⟩

/-- The times of a heap, with the time `t` in place of that of `a`, lie on half the circle. -/
def Heaps.WindowWith (m : Heaps) (ht : HeapType) (a : Addr) (t : TIME) : Prop :=
  ∃ b, Within b t ∧ ∀ x, m.Contains ht x → x ≠ a → Within b (m.time x)

theorem within_self (b : TIME) : Within b b := by
  unfold Within
  rw [offset_self]
  decide

/-- A thread outside may join at the root's time. -/
theorem Heaps.Sound.windowWith_root (h : m.Sound ht) (hpos : 0 < m.used ht) :
    m.WindowWith ht a (m.time (m.slot ht 0)) := by
  obtain ⟨b, hw⟩ := h.windowed
  refine ⟨b, hw 0 hpos, ?_⟩
  rintro x ⟨i, hi, rfl⟩ -
  exact hw i hi

/-- A heap of one event has any time. -/
theorem Heaps.windowWith_empty (h : m.used ht = 0) : m.WindowWith ht a t := by
  refine ⟨t, within_self t, ?_⟩
  rintro x ⟨i, hi, -⟩ -
  omega

theorem windowWith_enterTime (h : m.Sound ht) : m.WindowWith ht a (m.enterTime ht) := by
  rcases Nat.eq_zero_or_pos (m.used ht) with h0 | hpos
  · exact Heaps.windowWith_empty h0
  · rw [enterTime_of_pos hpos]
    exact h.windowWith_root hpos

/-- **An event that fits the window enters a heap**, and all heaps are in order. -/
theorem ckSiftup_all_sound (h : ckSiftup m ht a = some m')
    (hout : ∀ ht, ¬ m.Contains ht a) (hw : m.WindowWith ht a (m.time a))
    (hm : ∀ {ht ht' : HeapType} {x : Addr}, m.Contains ht x → m.Contains ht' x → ht = ht')
    (hs : ∀ ht, m.Sound ht) (ht' : HeapType) : m'.Sound ht' := by
  by_cases hne : ht' = ht
  · subst hne
    obtain ⟨b, hb, hw⟩ := hw
    refine ckSiftup_sound h (hs ht') (hout ht') hb fun i hi => ?_
    exact hw _ ⟨i, hi, rfl⟩ fun he => hout ht' ⟨i, hi, he⟩
  · have hf := ckSiftup_frame h
    refine (hs ht').congr (hf.sel ht' hne) fun x hx => ?_
    rw [hf.ev x (fun he => hout ht' (he ▸ hx)) fun hx' => hne (hm hx hx')]
    exact ⟨rfl, rfl⟩

theorem enterHeap_sound (hm : m.Consistent) (hts : (m.ev a).ts = .blocked)
    (h : enterHeap m ht a = some m') (hs : ∀ ht, m.Sound ht) (ht' : HeapType) : m'.Sound ht' := by
  have hout : ∀ ht, ¬ m.Contains ht a := fun ht => hm.not_contains hts
  refine ckSiftup_all_sound (m := m.entered ht a) h hout ?_
    (fun h₁ h₂ => hm.contains_unique h₁ h₂) (fun ht => ((hs ht).setEv (hout ht)).setEv (hout ht)) ht'
  obtain ⟨b, hb, hw⟩ := windowWith_enterTime (a := a) (hs ht)
  refine ⟨b, ?_, fun x hx hne => ?_⟩
  · rw [Heaps.time, Heaps.ev_entered_self]
    exact hb
  · rw [Heaps.time, Heaps.ev_entered_ne hne]
    exact hw x hx hne

theorem ckPrioritise_all_sound (hm : m.Consistent) (ha : m.Sits a)
    (h : ckPrioritise m a = some m') (hs : ∀ ht, m.Sound ht) (ht : HeapType) : m'.Sound ht := by
  by_cases hts : (m.ev a).ts = .running
  · have hc := ha .timesharing hts
    by_cases hne : ht = .timesharing
    · subst hne
      exact ckPrioritise_sound h (hs _) hc
    · obtain ⟨m₂, h₂, hsift⟩ := ckPrioritise_sifts hts (hm.back _) hc
      obtain rfl := Option.some.inj (h₂.symm.trans h)
      refine (hs ht).congr (hsift.frame.sel ht hne) fun x hx => ?_
      have hxa : x ≠ a := fun he => hne (hm.contains_unique (he ▸ hx) hc)
      rw [hsift.frame.ev x hxa fun i hi _ he => hne (hm.contains_unique hx ⟨i, hi, he⟩),
        Heaps.setTime, Heaps.ev_setEv_ne hxa]
      exact ⟨rfl, rfl⟩
  · rcases ckPrioritise_eq h with ⟨-, rfl⟩ | ⟨h', -⟩
    · exact hs ht
    · exact absurd h' hts

/-- **One call** keeps all heaps in order if its removal finds a last event that fits. -/
theorem heapCall_sound {c : HeapCall} (hm : m.Consistent) (hc : c.InPlace m)
    (hf : c.RemovalFits m) (h : heapCall m c = some m') (hs : ∀ ht, m.Sound ht)
    (ht : HeapType) : m'.Sound ht := by
  cases c with
  | block a => exact ckBlockThread_sound hm hc hf h hs ht
  | wake ht' a =>
      by_cases hts : (m.ev a).ts = .blocked
      · exact enterHeap_sound hm hts ((if_pos hts).symm.trans h) hs ht
      · obtain rfl := Option.some.inj ((if_neg hts).symm.trans h)
        exact hs ht
  | prioritise a => exact ckPrioritise_all_sound hm hc h hs ht
  | store a v =>
      obtain rfl := Option.some.inj h
      refine (hs ht).congr rfl fun x _ => ?_
      by_cases hx : x = a
      · rw [hx, Heaps.ev_setEv_self]
        exact ⟨hc.2.1, hc.1⟩
      · rw [Heaps.ev_setEv_ne hx]
        exact ⟨rfl, rfl⟩

/-- Removing the root restores the order of a heap in order everywhere else. -/
theorem ckRemoveEvent_root_sound {evt : Slot} (h : ckRemoveEvent m ht evt = some m')
    (h0 : evt.idx = 0) (hb : m.BackPtrs ht)
    (ho : OrderedExcept m.earlier (m.slot ht) (m.used ht) 0)
    (hw : ∀ i, 0 < i → i < m.used ht → Within b (m.time (m.slot ht i))) : m'.Sound ht := by
  obtain ⟨hused, hf⟩ := ckRemoveEvent_frame h
  obtain ⟨-, hpos, hm'⟩ := ckRemoveEvent_eq h
  obtain ⟨hb', hcont⟩ := ckRemoveEvent_spec h hb (by omega)
  rw [h0] at hcont hm'
  -- what is left in the heap was in it off the root
  have hleft : ∀ i, i < m'.used ht → Within b (m'.time (m'.slot ht i)) := by
    intro i hi
    have hmem : m'.slot ht i ∈ m'.contents ht := Heaps.mem_contents.mpr ⟨i, hi, rfl⟩
    have hold : m'.slot ht i ∈ m.contents ht := hcont ▸ Multiset.mem_cons_of_mem hmem
    obtain ⟨k, hk, he⟩ := Heaps.mem_contents.mp hold
    have hk0 : k ≠ 0 := by
      rintro rfl
      have hnd := hb.nodup
      rw [← hcont, Multiset.nodup_cons, he] at hnd
      exact hnd.1 hmem
    rw [hf.same.time, ← he]
    exact hw k (by omega) hk
  refine ⟨hb', ⟨b, hleft⟩, ?_⟩
  obtain ⟨n, hn⟩ : ∃ n, m.used ht = n + 1 := ⟨m.used ht - 1, by omega⟩
  rcases Nat.eq_zero_or_pos n with rfl | hn0
  · intro i _ hi
    omega
  · rw [hn, Nat.add_sub_cancel] at hm'
    rw [hm']
    have hsame : m.SameEvents ((m.place ht 0 (m.slot ht n)).setUsed ht n) :=
      Heaps.sameEvents_place
    refine siftdownFrom_ordered (b := b) (by rw [Heaps.used_setUsed_self]; exact hn0) ?_ ?_
      ⟨?_, fun h => absurd h (Nat.lt_irrefl 0), fun h => absurd h (Nat.lt_irrefl 0)⟩
    · intro i hi hne
      rw [Heaps.used_setUsed_self] at hi
      rw [Heaps.slot_setUsed, Heaps.slot_place_self, update_of_ne hne, hsame.time]
      exact hw i (by omega) (by omega)
    · rw [hsame.time]
      exact hw n hn0 (by omega)
    · intro i hi0 hi hne hpne
      rw [Heaps.used_setUsed_self] at hi
      rw [Heaps.slot_setUsed, Heaps.slot_place_self, update_of_ne hne, update_of_ne hpne,
        hsame.earlier]
      exact ho i hi0 (by omega) hne hpne

/-! ## The flush -/

/-- The flush keeps the running thread in heap `ht`: it sifts the root down. -/
def Sched.Stays (s : Sched) : HeapType → Prop
  | .timesharing => s.ts s.currtask = .running ∧ ¬ cless s.lasttime (s.userTime s.currtask)
  | .realtime => s.ts s.currtask = .realTime ∧ cless s.lasttime (s.userTime s.currtask)
  | .idle => s.ts s.currtask = .idle ∧ s.currtask ≠ idleLoop

instance (s : Sched) : (ht : HeapType) → Decidable (s.Stays ht)
  | .timesharing => inferInstanceAs (Decidable (_ ∧ _))
  | .realtime => inferInstanceAs (Decidable (_ ∧ _))
  | .idle => inferInstanceAs (Decidable (_ ∧ _))

/-- The time a thread that stays in a heap gets. -/
def Sched.stayTime (s : Sched) : HeapType → TIME
  | .realtime => s.userTime s.currtask
  | _ => s.userTime s.currtask + (s.heaps.ev s.currtask).defer

theorem Heaps.setTime_setTime {u : TIME} : (m.setTime a t).setTime a u = m.setTime a u := by
  simp [Heaps.setTime, Heaps.setEv]

/-- A thread that stays gets its new time, and the *root* is sifted down. -/
theorem flush_stays (h : s.Stays ht) : ∃ s', ckFlushPrevTask s.takeUserTime = some s' ∧
    s'.heaps = ckSiftdown (s.heaps.setTime s.currtask (s.stayTime ht)) ht := by
  have htime := time_takeUserTime (s := s)
  have hts := ts_takeUserTime (s := s) (x := s.currtask)
  have hset (d : TIME) : s.takeUserTime.heaps.setTime s.currtask (s.userTime s.currtask + d) =
      s.heaps.setTime s.currtask (s.userTime s.currtask + d) := Heaps.setTime_setTime
  have hdefer : (s.takeUserTime.heaps.ev s.currtask).defer = (s.heaps.ev s.currtask).defer := by
    simp [Sched.takeUserTime, Heaps.setTime]
  cases ht with
  | timesharing =>
      refine ⟨_, flush_timesharing (hts.trans h.1) (htime ▸ h.2), ?_⟩
      show ckSiftdown (s.takeUserTime.heaps.setTime s.currtask _) _ = _
      rw [show s.takeUserTime.currtask = s.currtask from rfl, htime, hdefer, hset]
      rfl
  | realtime => exact ⟨_, flush_realtime (hts.trans h.1) (htime ▸ h.2), rfl⟩
  | idle =>
      refine ⟨_, flush_idle (hts.trans h.1) h.2, ?_⟩
      show ckSiftdown (s.takeUserTime.heaps.setTime s.currtask _) _ = _
      rw [show s.takeUserTime.currtask = s.currtask from rfl, htime, hdefer, hset]
      rfl

/-- The times of the heap the flush leaves the running thread in lie on half the circle. A
thread that becomes timesharing again takes the root's time. -/
structure Sched.FlushWindow (s : Sched) : Prop where
  stays : ∀ ht, s.Stays ht → s.heaps.WindowWith ht s.currtask (s.stayTime ht)
  promotes : s.Promotes → s.heaps.WindowWith .realtime s.currtask (s.userTime s.currtask)

/-- Sifting down a root that was given a new time restores the order. -/
theorem siftdown_root_sound (hm : m.Consistent) (hs : ∀ ht, m.Sound ht) (hc : m.Contains ht a)
    (hroot : m.slot ht 0 = a) (hw : m.WindowWith ht a t) (ht' : HeapType) :
    (ckSiftdown (m.setTime a t) ht).Sound ht' := by
  obtain ⟨b, hb, hw⟩ := hw
  obtain ⟨i, hi, -⟩ := id hc
  have hpos : 0 < m.used ht := by omega
  by_cases hne : ht' = ht
  · subst hne
    subst hroot
    refine ckSiftdown_sound (b := b) ((hm.back ht').setEv rfl) hpos
      (orderedExcept_setTime (hm.back ht') (hs ht').ordered hpos) fun i hi => ?_
    have hi' : i < m.used ht' := hi
    rw [Heaps.setTime, Heaps.slot_setEv, ← Heaps.setTime]
    rcases Nat.eq_zero_or_pos i with rfl | h0
    · rw [time_setTime_self]
      exact hb
    · rw [time_setTime_slot (hm.back ht') hpos hi' (by omega)]
      exact hw _ ⟨i, hi', rfl⟩ fun he => absurd ((hm.back ht').slot_inj hi' hpos he) (by omega)
  · have hout : ¬ m.Contains ht' a := fun h => hne (hm.contains_unique h hc)
    have hf := ckSiftdown_frame (m.setTime a t) ht
    refine ((hs ht').setEv (v := { m.ev a with time := t }) hout).congr (hf.sel ht' hne) ?_
    intro x hx
    have hx' : m.Contains ht' x := hx
    have hxa : x ≠ a := fun he => hout (he ▸ hx')
    have hev := hf.ev x (by rw [Heaps.setTime, Heaps.slot_setEv, hroot]; exact hxa)
      fun h => hne (hm.contains_unique hx' h)
    rw [hev]
    exact ⟨rfl, rfl⟩

/-- Taking the root out of one heap and putting it into another keeps all heaps in order. -/
theorem changeHeap_sound {v : EVENT} {m₁ : Heaps} (hm : m.Consistent) (hs : ∀ ht, m.Sound ht)
    (hc : m.Contains ht a) (hroot : m.slot ht 0 = a) (hv : v.heap = (m.ev a).heap)
    (hne : ht' ≠ ht) (hw : m.WindowWith ht' a v.time)
    (h₁ : ckRemoveEvent (m.setEv a v) ht (m.ev a).heap = some m₁)
    (h₂ : ckSiftup m₁ ht' a = some m') (k : HeapType) : m'.Sound k := by
  have hts : (m.ev a).ts.heap? = some ht := heap?_eq_iff.mpr (hm.ts ht a hc)
  have hsits : m.Sits a := fun k hk => by
    rw [show k = ht from by
      have := hk.symm.trans (hm.ts ht a hc)
      revert this
      cases k <;> cases ht <;> decide]
    exact hc
  obtain ⟨m₂, hm₂, hsame, -, hp⟩ :=
    (((hm.placed hsits).but (.inr rfl) hts).setEv hv).ckRemoveEvent
  rw [Heaps.ev_setEv_self, hv] at hm₂
  obtain rfl := Option.some.inj (hm₂.symm.trans h₁)
  obtain ⟨-, hf⟩ := ckRemoveEvent_frame h₁
  have hout : ∀ k, ¬ m₂.Contains k a := fun k h => ((hp.mem k a).mp h).1.2 rfl
  have hpos : 0 < m.used ht := by
    obtain ⟨i, hi, -⟩ := hc
    omega
  have hidx : (m.ev a).heap.idx = 0 := by
    rw [← hroot, hm.back ht 0 hpos]
  -- other heaps do not see the store to the removed thread
  have hother : ∀ k, k ≠ ht → ∀ x, m.Contains k x → m₂.ev x = m.ev x := by
    intro k hk x hx
    have hxa : x ≠ a := fun he => hk (hm.contains_unique (he ▸ hx) hc)
    rw [hf.ev x ?_ fun h => hk (hm.contains_unique hx h), Heaps.ev_setEv_ne hxa]
    intro he
    exact hk (hm.contains_unique hx ⟨m.used ht - 1, by omega, he.symm⟩)
  have hs₂ : ∀ k, m₂.Sound k := by
    intro k
    by_cases hk : k = ht
    · subst hk
      obtain ⟨b, hb⟩ := (hs k).windowed
      subst hroot
      refine ckRemoveEvent_root_sound (b := b) h₁ hidx ((hm.back k).setEv hv) ?_ ?_
      · have := orderedExcept_setTime (t := v.time) (hm.back k) (hs k).ordered hpos
        intro i h0 hi hne hpne
        have hp := parent_lt h0
        have hi' : i < m.used k := hi
        have h1 : m.slot k i ≠ m.slot k 0 := fun he =>
          hne ((hm.back k).slot_inj hi' hpos he)
        have h2 : m.slot k (parent i) ≠ m.slot k 0 := fun he =>
          hpne ((hm.back k).slot_inj (by omega) hpos he)
        unfold Heaps.earlier Heaps.time
        rw [Heaps.slot_setEv, Heaps.ev_setEv_ne h1, Heaps.ev_setEv_ne h2]
        exact (hs k).ordered i h0 hi'
      · intro i h0 hi
        have hi' : i < m.used k := hi
        have h1 : m.slot k i ≠ m.slot k 0 := fun he => by
          have := (hm.back k).slot_inj hi' hpos he
          omega
        rw [Heaps.slot_setEv, Heaps.time, Heaps.ev_setEv_ne h1]
        exact hb i hi'
    · refine (hs k).congr (hf.sel k hk) fun x hx => ?_
      rw [hother k hk x hx]
      exact ⟨rfl, rfl⟩
  refine ckSiftup_all_sound h₂ hout ?_ (fun h h' => hp.consistent.contains_unique h h') hs₂ k
  obtain ⟨b, hb, hw⟩ := hw
  refine ⟨b, ?_, fun x hx hxa => ?_⟩
  · rw [hsame.time, Heaps.time, Heaps.ev_setEv_self]
    exact hb
  · have hx' : m.Contains ht' x := (contains_congr_sel (hf.sel ht' hne)).mp hx
    rw [Heaps.time, hother ht' hne x hx']
    exact hw x hx' hxa

/-- **The flush leaves all heaps in order** if the running thread is at the root of its heap. -/
theorem flush_sound (hm : s.Members) (hroot : s.heaps.Rooted s.currtask)
    (hs : ∀ ht, s.heaps.Sound ht) (hw : s.FlushWindow)
    (h : ckFlushPrevTask s.takeUserTime = some s') (k : HeapType) : s'.heaps.Sound k := by
  have hcon := hm.placed.consistent
  have htime := time_takeUserTime (s := s)
  have hts' := ts_takeUserTime (s := s) (x := s.currtask)
  have hin (ht : HeapType) (ha : s.loaded s.currtask = true) (hts : s.ts s.currtask = ht.ts) :
      s.heaps.Contains ht s.currtask := hm.placed.sits ha ht hts
  have hstay (ht : HeapType) (ha : s.loaded s.currtask = true) (hts : s.ts s.currtask = ht.ts)
      (hst : s.Stays ht) : s'.heaps.Sound k := by
    obtain ⟨s₁, h₁, he⟩ := flush_stays hst
    obtain rfl := Option.some.inj (h₁.symm.trans h)
    rw [he]
    have hc := hin ht ha hts
    exact siftdown_root_sound hcon hs hc (hroot ht hc) (hw.stays ht hst) k
  have hnone (h' : ckFlushPrevTask s.takeUserTime = some s.takeUserTime)
      (hout : ∀ ht, ¬ s.heaps.Contains ht s.currtask) : s'.heaps.Sound k := by
    obtain rfl := Option.some.inj (h'.symm.trans h)
    exact (hs k).setEv (hout k)
  cases hts : s.ts s.currtask with
  | running =>
      have ha := hm.curr_loaded (by rw [hts]; simp) (by rw [hts]; simp)
      by_cases hlt : cless s.lasttime (s.userTime s.currtask)
      · rw [flush_promote (hts'.trans hts) (htime.symm ▸ hlt)] at h
        obtain ⟨m₁, h₁, h⟩ := Option.bind_eq_some_iff.mp h
        obtain ⟨m₂, h₂, h⟩ := Option.bind_eq_some_iff.mp h
        obtain rfl := Option.some.inj h
        have hc := hin .timesharing ha hts
        refine changeHeap_sound (v := { s.heaps.ev s.currtask with
          time := s.userTime s.currtask, ts := .realTime }) hcon hs hc (hroot _ hc) rfl
          (by decide) (hw.promotes ⟨hts, hlt⟩) ?_ h₂ k
        simpa [Sched.takeUserTime, Heaps.setTime, Heaps.setTs, Heaps.setEv_setEv] using h₁
      · exact hstay .timesharing ha hts ⟨hts, hlt⟩
  | realTime =>
      have ha := hm.curr_loaded (by rw [hts]; simp) (by rw [hts]; simp)
      by_cases hlt : cless s.lasttime (s.userTime s.currtask)
      · exact hstay .realtime ha hts ⟨hts, hlt⟩
      · rw [flush_demote (hts'.trans hts) (htime.symm ▸ hlt)] at h
        obtain ⟨m₁, h₁, h⟩ := Option.bind_eq_some_iff.mp h
        obtain ⟨m₂, h₂, h⟩ := Option.bind_eq_some_iff.mp h
        obtain rfl := Option.some.inj h
        have hc := hin .realtime ha hts
        refine changeHeap_sound (v := { s.heaps.ev s.currtask with
          time := s.takeUserTime.heaps.ckGetNextTime .timesharing, ts := .running }) hcon hs hc
          (hroot _ hc) rfl (by decide) ?_ ?_ h₂ k
        · rcases Nat.eq_zero_or_pos (s.heaps.used .timesharing) with h0 | hpos
          · exact Heaps.windowWith_empty h0
          · have hne : s.heaps.slot .timesharing 0 ≠ s.currtask := fun he => by
              have := hcon.contains_unique hc (he ▸ ⟨0, hpos, rfl⟩ :
                s.heaps.Contains .timesharing s.currtask)
              exact absurd this (by decide)
            have ht : s.takeUserTime.heaps.ckGetNextTime .timesharing =
                s.heaps.time (s.heaps.slot .timesharing 0) := by
              show (s.heaps.setTime _ _).time (s.heaps.slot .timesharing 0) = _
              rw [Heaps.time, Heaps.setTime, Heaps.ev_setEv_ne hne]
              rfl
            show s.heaps.WindowWith _ _ (s.takeUserTime.heaps.ckGetNextTime .timesharing)
            rw [ht]
            exact (hs .timesharing).windowWith_root hpos
        · simpa [Sched.takeUserTime, Heaps.setTime, Heaps.setTs, Heaps.setEv_setEv] using h₁
  | idle =>
      by_cases hi : s.currtask = idleLoop
      · refine hnone (flush_none (.inr ⟨hts'.trans hts, hi⟩)) fun ht hc => ?_
        have := ((hm.placed.mem ht _).mp hc).1
        rw [hi, hm.idleOut] at this
        exact absurd this (by simp)
      · have ha := hm.curr_loaded (by rw [hts]; simp) fun _ => hi
        exact hstay .idle ha hts ⟨hts, hi⟩
  | blocked =>
      exact hnone (flush_none (.inl (hts'.trans hts))) fun ht => hcon.not_contains hts

/-! ## `CKschedule` -/

/-- `CKschedule` is the flush, the choice of the next task, and the switch to it. -/
theorem ckSchedule_eq {timer : TIME} (h : ckSchedule s timer = some s') :
    ∃ s₁, ckFlushPrevTask s.takeUserTime = some s₁ ∧ s' = contextSwitch (selectTask s₁ timer) := by
  obtain ⟨s₁, h₁, rfl⟩ := Option.map_eq_some_iff.mp h
  exact ⟨s₁, h₁, rfl⟩

@[simp] theorem currtask_contextSwitch : (contextSwitch s).currtask = s.currtask := by
  unfold contextSwitch
  split <;> rfl

@[simp] theorem sel_contextSwitch : (contextSwitch s).heaps.sel = s.heaps.sel := by
  unfold contextSwitch
  split <;> rfl

/-- Switching to a task changes no event but for its signals. -/
theorem ev_contextSwitch : ∃ signals, (contextSwitch s).heaps.ev x =
    { s.heaps.ev x with signals := signals } := by
  unfold contextSwitch
  split
  · by_cases hx : x = s.currtask
    · subst hx
      exact ⟨_, Heaps.ev_setEv_self⟩
    · exact ⟨(s.heaps.ev x).signals, Heaps.ev_setEv_ne hx⟩
  · exact ⟨(s.heaps.ev x).signals, rfl⟩

theorem Heaps.Sound.contextSwitch (h : s.heaps.Sound ht) :
    (CK.contextSwitch s).heaps.Sound ht := by
  refine h.congr (congrFun sel_contextSwitch ht) fun x _ => ?_
  obtain ⟨signals, he⟩ := ev_contextSwitch (s := s) (x := x)
  rw [he]
  exact ⟨rfl, rfl⟩

/-- The task that `CKschedule` dispatches is the root of a heap, or in none. -/
theorem rooted_schedule {timer : TIME} (hm : s'.Members) (h : ckSchedule s timer = some s') :
    s'.heaps.Rooted s'.currtask := by
  obtain ⟨s₁, -, rfl⟩ := ckSchedule_eq h
  intro ht hc
  rw [currtask_contextSwitch] at hc ⊢
  have hslot : ∀ k i, (contextSwitch (selectTask s₁ timer)).heaps.slot k i = s₁.heaps.slot k i :=
    fun k _ => slot_congr_sel (congrFun sel_contextSwitch k)
  rw [hslot]
  rcases ckGetNextTask_cases (ckUpdateRealtime s₁ timer) with ⟨k, hne, he⟩ | he
  · have hcurr : (selectTask s₁ timer).currtask = s₁.heaps.slot k 0 := he
    have hk : (contextSwitch (selectTask s₁ timer)).heaps.Contains k
        (selectTask s₁ timer).currtask :=
      ⟨0, by
        rw [used_congr_sel (congrFun sel_contextSwitch k)]
        exact Nat.pos_of_ne_zero hne, (hslot k 0).trans hcurr.symm⟩
    obtain rfl := hm.placed.consistent.contains_unique hc hk
    exact hcurr.symm
  · have hcurr : (selectTask s₁ timer).currtask = idleLoop := he
    have hl := ((hm.placed.mem ht _).mp hc).1
    rw [hcurr, hm.idleOut] at hl
    exact absurd hl (by simp)

/-! ## Runs -/

/-- An operation wakes the running thread only into a heap that is empty. -/
def SchedOp.RootKept (s : Sched) (op : SchedOp) : Prop :=
  Along heapCall (HeapCall.RootKept s.currtask) s.heaps (op.calls s)

/-- The removals of an operation find last events that fit, and the time the flush gives the
running thread lies in the window of its heap. -/
def SchedOp.OrderKept (s : Sched) : SchedOp → Prop
  | .schedule _ => s.FlushWindow
  | op => Along heapCall HeapCall.RemovalFits s.heaps (op.calls s)

/-- A heap that is empty is sound. -/
theorem sound_empty (h : m.used ht = 0) : m.Sound ht := by
  refine ⟨fun i hi => ?_, ⟨0, fun i hi => ?_⟩, fun i _ hi => ?_⟩ <;> omega

/-- **One operation** keeps the running thread at the root. -/
theorem schedStep_rooted (hm : s.Members) (hl : op.Legal s) (hf : op.Fits s)
    (hr : op.RootKept s) (h : schedStep s op = some s') (hroot : s.heaps.Rooted s.currtask) :
    s'.heaps.Rooted s'.currtask := by
  have hm' : s'.Members := by
    obtain ⟨s₁, h₁, hm₁⟩ := schedStep_members hm hl hf
    exact Option.some.inj (h₁.symm.trans h) ▸ hm₁
  by_cases hop : ∃ timer, op = .schedule timer
  · obtain ⟨timer, rfl⟩ := hop
    exact rooted_schedule hm' h
  · have hop : ∀ timer, op ≠ .schedule timer := fun timer he => hop ⟨timer, he⟩
    rcases (schedStep_rest h hop).currtask with hc | hc
    · rw [hc]
      exact schedStep_keeps (I := fun m => m.Rooted s.currtask)
        (fun hcon hin hC hs hi => heapCall_rooted hcon hin hC hs hi) hm hl hr h hop hroot
    · intro ht hz
      have hl := ((hm'.placed.mem ht _).mp hz).1
      rw [hc, hm'.zombieOut] at hl
      exact absurd hl (by simp)

/-- **One operation** keeps the heaps in order. -/
theorem schedStep_sound (hm : s.Members) (hl : op.Legal s) (hroot : s.heaps.Rooted s.currtask)
    (ho : op.OrderKept s) (h : schedStep s op = some s') (hs : ∀ ht, s.heaps.Sound ht) :
    ∀ ht, s'.heaps.Sound ht := by
  by_cases hop : ∃ timer, op = .schedule timer
  · obtain ⟨timer, rfl⟩ := hop
    obtain ⟨s₁, h₁, rfl⟩ := ckSchedule_eq h
    exact fun ht => Heaps.Sound.contextSwitch (s := selectTask s₁ timer)
      (flush_sound hm hroot hs ho h₁ ht)
  · have hop : ∀ timer, op ≠ .schedule timer := fun timer he => hop ⟨timer, he⟩
    have hfits : Along heapCall HeapCall.RemovalFits s.heaps (op.calls s) := by
      cases op with
      | schedule timer => exact absurd rfl (hop timer)
      | _ => exact ho
    exact schedStep_keeps (I := fun m => ∀ ht, m.Sound ht)
      (fun hcon hin hC hc hi => heapCall_sound hcon hin hC hc hi) hm hl hfits h hop hs

/-- A thread that stays in a heap is in it. -/
theorem Sched.Members.contains_stays (hm : s.Members) (h : s.Stays ht) :
    s.heaps.Contains ht s.currtask := by
  have hts : s.ts s.currtask = ht.ts := by
    cases ht <;> exact h.1
  refine hm.placed.sits (hm.curr_loaded ?_ ?_) ht hts
  · rw [hts]
    cases ht <;> decide
  · intro hi
    rw [hts] at hi
    cases ht with
    | idle => exact h.2
    | timesharing => exact absurd hi (by decide)
    | realtime => exact absurd hi (by decide)

end Alliance.CK
