import Alliance.CK.PriHeap
import Alliance.Lib.Run

/-!
# What is in a heap, and where it points back

Both sift loops do the same thing to memory: an event moves from some used slot
into the hole, its old slot becomes the hole, and at the end the sifted event is
stored. `Sifts` says just that, leaving open which event moves, and everything in
this file is proved of it once:

* the back pointers of all used slots are right again when the loop ends;
* the events in the heap are the ones that were there, with the sifted one in the
  hole's place;
* other heaps, and the events that are not in this one, are untouched.

Times play no part: the loops keep all of this whatever they compare.
-/

namespace Alliance.CK

open Function Lib Lib.BinHeap

variable {m m' : Heaps} {ht ht' : HeapType} {e x : Addr} {i j hole : Nat}

namespace Heaps

/-! ## Reading after a store -/

@[simp] theorem slot_place_self : (m.place ht i e).slot ht = update (m.slot ht) i e := by
  show ((m.place ht i e).sel ht).heap = update (m.sel ht).heap i e
  simp [place]

@[simp] theorem used_place : (m.place ht i e).used ht' = m.used ht' := CK.used_place m ht i e ht'

theorem sel_place_ne (h : ht' ≠ ht) : (m.place ht i e).sel ht' = m.sel ht' := by
  simp [place, h]

@[simp] theorem ev_place_self : (m.place ht i e).ev e = { m.ev e with heap := ⟨ht, i⟩ } := by
  simp [place]

theorem ev_place_ne (h : x ≠ e) : (m.place ht i e).ev x = m.ev x := by
  simp [place, h]

@[simp] theorem slot_setUsed {n : Nat} : (m.setUsed ht n).slot ht' = m.slot ht' := by
  by_cases h : ht' = ht
  · subst h
    funext k
    simp [slot, setUsed]
  · funext k
    simp [slot, setUsed, h]

@[simp] theorem used_setUsed_self {n : Nat} : (m.setUsed ht n).used ht = n := by
  simp [used, setUsed]

theorem sel_setUsed_ne {n : Nat} (h : ht' ≠ ht) : (m.setUsed ht n).sel ht' = m.sel ht' := by
  simp [setUsed, h]

@[simp] theorem ev_setUsed {n : Nat} : (m.setUsed ht n).ev = m.ev := rfl

@[simp] theorem sel_setEv {v : EVENT} : (m.setEv e v).sel = m.sel := rfl

@[simp] theorem slot_setEv {v : EVENT} : (m.setEv e v).slot ht = m.slot ht := rfl

@[simp] theorem used_setEv {v : EVENT} : (m.setEv e v).used ht = m.used ht := rfl

@[simp] theorem ev_setEv_self {v : EVENT} : (m.setEv e v).ev e = v := by simp [setEv]

theorem ev_setEv_ne {v : EVENT} (h : x ≠ e) : (m.setEv e v).ev x = m.ev x := by simp [setEv, h]

/-- The two memories agree on every event but for the back pointers. -/
def SameEvents (m m' : Heaps) : Prop :=
  ∀ x, m'.ev x = { m.ev x with heap := (m'.ev x).heap }

theorem SameEvents.refl (m : Heaps) : SameEvents m m := fun _ => rfl

theorem SameEvents.trans {m'' : Heaps} (h : SameEvents m m') (h' : SameEvents m' m'') :
    SameEvents m m'' := by
  intro x
  rw [h' x, h x]

theorem SameEvents.time (h : SameEvents m m') (x : Addr) : m'.time x = m.time x := by
  unfold Heaps.time
  rw [h x]

theorem SameEvents.ts (h : SameEvents m m') (x : Addr) : (m'.ev x).ts = (m.ev x).ts := by
  rw [h x]

theorem sameEvents_place : SameEvents m (m.place ht i e) := by
  intro x
  by_cases h : x = e
  · subst h
    simp
  · rw [ev_place_ne h]

@[simp] theorem time_place : (m.place ht i e).time x = m.time x := sameEvents_place.time x

/-- Every used slot's event points back to that slot. -/
def BackPtrs (m : Heaps) (ht : HeapType) : Prop :=
  ∀ i, i < m.used ht → (m.ev (m.slot ht i)).heap = ⟨ht, i⟩

/-- The event is in the heap. -/
def Contains (m : Heaps) (ht : HeapType) (e : Addr) : Prop :=
  ∃ i, i < m.used ht ∧ m.slot ht i = e

/-- The events in the heap. -/
def contents (m : Heaps) (ht : HeapType) : Multiset Addr := slots (m.slot ht) (m.used ht)

theorem mem_contents : e ∈ m.contents ht ↔ m.Contains ht e := mem_slots

/-- No event occupies two slots of a heap whose back pointers are right. -/
theorem BackPtrs.slot_inj (h : m.BackPtrs ht) (hi : i < m.used ht) (hj : j < m.used ht)
    (he : m.slot ht i = m.slot ht j) : i = j := by
  have h1 := h i hi
  rw [he, h j hj] at h1
  exact (congrArg Slot.idx h1).symm

/-- An event in the heap is found through its own back pointer. -/
theorem BackPtrs.own_slot (h : m.BackPtrs ht) (hc : m.Contains ht e) :
    (m.ev e).heap.heap = ht ∧ (m.ev e).heap.idx < m.used ht
      ∧ m.slot ht (m.ev e).heap.idx = e := by
  obtain ⟨i, hi, rfl⟩ := hc
  rw [h i hi]
  exact ⟨rfl, hi, rfl⟩

end Heaps

/-! ## Sifting, whatever is compared -/

/-- The hole walks from slot to slot, the event it walks to taking its place, and `e` is
stored where it stops. -/
inductive Sifts (ht : HeapType) (e : Addr) : Heaps → Nat → Heaps → Prop
  | stop (m : Heaps) (hole : Nat) : Sifts ht e m hole (m.place ht hole e)
  | move {m m' : Heaps} {hole j : Nat} : j < m.used ht → j ≠ hole →
      Sifts ht e (m.place ht hole (m.slot ht j)) j m' → Sifts ht e m hole m'

theorem siftupFrom_sifts (m : Heaps) (ht : HeapType) (e : Addr) (next : Nat)
    (hn : next < m.used ht) : Sifts ht e m next (siftupFrom m ht e next) := by
  induction m, next using siftupFrom.induct ht e with
  | case1 m next h ih =>
      rw [siftupFrom, dif_pos h]
      have hp := parent_lt h.1
      exact .move (by omega) (by omega) (ih (by rw [Heaps.used_place]; omega))
  | case2 m next h =>
      rw [siftupFrom, dif_neg h]
      exact .stop m next

theorem siftdownFrom_sifts (m : Heaps) (ht : HeapType) (e : Addr) (next : Nat) :
    Sifts ht e m next (siftdownFrom m ht e next) := by
  induction m, next using siftdownFrom.induct ht e with
  | case1 m next h ih =>
      rw [siftdownFrom, dif_pos h]
      have hlt := lt_minchild m ht next
      exact .move h.1 (by omega) ih
  | case2 m next h =>
      rw [siftdownFrom, dif_neg h]
      exact .stop m next

/-- Past the end of the heap there is nothing to compare with. -/
theorem siftdownFrom_of_le (h : m.used ht ≤ i) : siftdownFrom m ht e i = m.place ht i e := by
  rw [siftdownFrom, dif_neg]
  rintro ⟨hlt, _⟩
  have := lt_minchild m ht i
  omega

/-- Everything but the slots and back pointers of this heap stays as it was. -/
structure SiftFrame (ht : HeapType) (e : Addr) (m : Heaps) (hole : Nat) (m' : Heaps) : Prop where
  /-- No heap grows or shrinks. -/
  used : ∀ ht', m'.used ht' = m.used ht'
  /-- The other heaps keep their slots. -/
  sel : ∀ ht', ht' ≠ ht → m'.sel ht' = m.sel ht'
  /-- Events change in their back pointers only. -/
  same : m.SameEvents m'
  /-- An event that is not in this heap is untouched. -/
  ev : ∀ x, x ≠ e → (∀ i, i < m.used ht → i ≠ hole → m.slot ht i ≠ x) → m'.ev x = m.ev x

theorem Sifts.frame (h : Sifts ht e m hole m') : SiftFrame ht e m hole m' := by
  induction h with
  | stop m hole =>
      exact ⟨fun _ => Heaps.used_place, fun _ h => Heaps.sel_place_ne h, Heaps.sameEvents_place,
        fun x hx _ => Heaps.ev_place_ne hx⟩
  | @move m m' hole j hj hjh _ ih =>
      refine ⟨?_, ?_, ?_, ?_⟩
      · intro ht'
        rw [ih.used, Heaps.used_place]
      · intro ht' hne
        rw [ih.sel ht' hne, Heaps.sel_place_ne hne]
      · exact Heaps.sameEvents_place.trans ih.same
      · intro x hx habs
        rw [ih.ev x hx, Heaps.ev_place_ne (habs j hj hjh).symm]
        intro i hi hij
        rw [Heaps.slot_place_self]
        rw [Heaps.used_place] at hi
        by_cases hih : i = hole
        · rw [hih, update_self]
          exact habs j hj hjh
        · rw [update_of_ne hih]
          exact habs i hi hih

/-- The back pointers are right except in the hole, and `e` is in no other slot. -/
structure HoleAt (m : Heaps) (ht : HeapType) (e : Addr) (hole : Nat) : Prop where
  /-- Every other used slot is pointed back to. -/
  back : ∀ i, i < m.used ht → i ≠ hole → (m.ev (m.slot ht i)).heap = ⟨ht, i⟩
  /-- The sifted event is elsewhere. -/
  absent : ∀ i, i < m.used ht → i ≠ hole → m.slot ht i ≠ e

theorem HoleAt.move (h : HoleAt m ht e hole) (hj : j < m.used ht) (hjh : j ≠ hole) :
    HoleAt (m.place ht hole (m.slot ht j)) ht e j := by
  refine ⟨?_, ?_⟩
  · intro i hi hij
    rw [Heaps.used_place] at hi
    rw [Heaps.slot_place_self]
    by_cases hih : i = hole
    · rw [hih, update_self, Heaps.ev_place_self]
    · rw [update_of_ne hih]
      have hne : m.slot ht i ≠ m.slot ht j := by
        intro he
        have h1 := h.back i hi hih
        rw [he, h.back j hj hjh] at h1
        exact hij (congrArg Slot.idx h1).symm
      rw [Heaps.ev_place_ne hne]
      exact h.back i hi hih
  · intro i hi hij
    rw [Heaps.used_place] at hi
    rw [Heaps.slot_place_self]
    by_cases hih : i = hole
    · rw [hih, update_self]
      exact h.absent j hj hjh
    · rw [update_of_ne hih]
      exact h.absent i hi hih

theorem HoleAt.finish (h : HoleAt m ht e hole) : (m.place ht hole e).BackPtrs ht := by
  intro i hi
  rw [Heaps.used_place] at hi
  rw [Heaps.slot_place_self]
  by_cases hih : i = hole
  · rw [hih, update_self, Heaps.ev_place_self]
  · rw [update_of_ne hih, Heaps.ev_place_ne (h.absent i hi hih)]
    exact h.back i hi hih

/-- **A sift leaves every back pointer right.** -/
theorem Sifts.backPtrs (h : Sifts ht e m hole m') (hh : HoleAt m ht e hole) :
    m'.BackPtrs ht := by
  induction h with
  | stop m hole => exact hh.finish
  | move hj hjh _ ih => exact ih (hh.move hj hjh)

/-- **A sift keeps the events of the heap**, with the sifted one in the hole. -/
theorem Sifts.contents (h : Sifts ht e m hole m') (hn : hole < m.used ht) :
    m'.contents ht = slots (update (m.slot ht) hole e) (m.used ht) := by
  induction h with
  | stop m hole =>
      unfold Heaps.contents
      rw [Heaps.slot_place_self, Heaps.used_place]
  | @move m m' hole j hj hjh _ ih =>
      rw [ih (by rw [Heaps.used_place]; exact hj), Heaps.slot_place_self, Heaps.used_place]
      exact slots_move hn hj hjh e

/-! ## The operations -/

/-- What an operation on heap `ht` that was given event `e` leaves alone. -/
structure OpFrame (ht : HeapType) (e : Addr) (m m' : Heaps) : Prop where
  /-- The other heaps. -/
  sel : ∀ ht', ht' ≠ ht → m'.sel ht' = m.sel ht'
  /-- All of every event but its back pointer. -/
  same : m.SameEvents m'
  /-- Events that are not in the heap. -/
  ev : ∀ x, x ≠ e → ¬ m.Contains ht x → m'.ev x = m.ev x

theorem ckSiftup_used (h : ckSiftup m ht e = some m') :
    m.used ht < MAXEVENTS ∧ m'.used ht = m.used ht + 1
      ∧ m' = siftupFrom (m.setUsed ht (m.used ht + 1)) ht e (m.used ht) := by
  unfold ckSiftup at h
  split at h
  · rename_i hroom
    injection h with h
    have hs := siftupFrom_sifts (m.setUsed ht (m.used ht + 1)) ht e (m.used ht)
      (by rw [Heaps.used_setUsed_self]; omega)
    refine ⟨hroom, ?_, h.symm⟩
    rw [← h, hs.frame.used, Heaps.used_setUsed_self]
  · exact absurd h (by simp)

theorem ckSiftup_frame (h : ckSiftup m ht e = some m') : OpFrame ht e m m' := by
  obtain ⟨_, _, rfl⟩ := ckSiftup_used h
  have hf := (siftupFrom_sifts (m.setUsed ht (m.used ht + 1)) ht e (m.used ht)
    (by rw [Heaps.used_setUsed_self]; omega)).frame
  refine ⟨?_, ?_, ?_⟩
  · intro ht' hne
    rw [hf.sel ht' hne, Heaps.sel_setUsed_ne hne]
  · exact hf.same
  · intro x hx hc
    refine hf.ev x hx ?_
    intro i hi hne he
    rw [Heaps.used_setUsed_self] at hi
    rw [Heaps.slot_setUsed] at he
    exact hc ⟨i, by omega, he⟩

/-- **Insertion** of an event that is not in the heap. -/
theorem ckSiftup_spec (h : ckSiftup m ht e = some m') (hb : m.BackPtrs ht)
    (ha : ¬ m.Contains ht e) : m'.BackPtrs ht ∧ m'.contents ht = e ::ₘ m.contents ht := by
  obtain ⟨_, _, rfl⟩ := ckSiftup_used h
  have hs := siftupFrom_sifts (m.setUsed ht (m.used ht + 1)) ht e (m.used ht)
    (by rw [Heaps.used_setUsed_self]; omega)
  have hh : HoleAt (m.setUsed ht (m.used ht + 1)) ht e (m.used ht) := by
    refine ⟨?_, ?_⟩ <;> intro i hi hne <;> rw [Heaps.used_setUsed_self] at hi <;>
      rw [Heaps.slot_setUsed]
    · exact hb i (by omega)
    · exact fun he => ha ⟨i, by omega, he⟩
  refine ⟨hs.backPtrs hh, ?_⟩
  rw [hs.contents (by rw [Heaps.used_setUsed_self]; omega), Heaps.used_setUsed_self,
    Heaps.slot_setUsed, slots_succ, update_self]
  refine congrArg _ (slots_congr fun i hi => ?_)
  exact update_of_ne (by omega) _ _

theorem ckSiftdown_sifts (m : Heaps) (ht : HeapType) :
    Sifts ht (m.slot ht 0) m 0 (ckSiftdown m ht) := siftdownFrom_sifts m ht _ 0

theorem ckSiftdown_used (m : Heaps) (ht ht' : HeapType) :
    (ckSiftdown m ht).used ht' = m.used ht' := (ckSiftdown_sifts m ht).frame.used ht'

theorem ckSiftdown_frame (m : Heaps) (ht : HeapType) :
    OpFrame ht (m.slot ht 0) m (ckSiftdown m ht) := by
  have hf := (ckSiftdown_sifts m ht).frame
  refine ⟨hf.sel, hf.same, ?_⟩
  intro x hx hc
  exact hf.ev x hx fun i hi _ he => hc ⟨i, hi, he⟩

/-- **Sifting down the root** of a heap that is not empty. -/
theorem ckSiftdown_spec (hpos : 0 < m.used ht) (hb : m.BackPtrs ht) :
    (ckSiftdown m ht).BackPtrs ht ∧ (ckSiftdown m ht).contents ht = m.contents ht := by
  have hs := ckSiftdown_sifts m ht
  refine ⟨hs.backPtrs ⟨fun i hi _ => hb i hi, ?_⟩, ?_⟩
  · intro i hi hne he
    exact hne (hb.slot_inj hi hpos he)
  · rw [hs.contents hpos, update_eq_self]
    rfl

theorem ckRemoveEvent_eq {evt : Slot} (h : ckRemoveEvent m ht evt = some m') :
    evt.heap = ht ∧ 0 < m.used ht ∧
      m' = siftdownFrom ((m.place ht evt.idx (m.slot ht (m.used ht - 1))).setUsed ht
        (m.used ht - 1)) ht (m.slot ht (m.used ht - 1)) evt.idx := by
  unfold ckRemoveEvent at h
  split at h
  · rename_i hc
    injection h with h
    refine ⟨hc.1, hc.2, ?_⟩
    rw [← h, Heaps.slot_setUsed, Heaps.slot_place_self, update_self]
  · exact absurd h (by simp)

theorem ckRemoveEvent_frame {evt : Slot} (h : ckRemoveEvent m ht evt = some m') :
    m'.used ht = m.used ht - 1 ∧ OpFrame ht (m.slot ht (m.used ht - 1)) m m' := by
  obtain ⟨_, hpos, rfl⟩ := ckRemoveEvent_eq h
  have hf := (siftdownFrom_sifts ((m.place ht evt.idx (m.slot ht (m.used ht - 1))).setUsed ht
    (m.used ht - 1)) ht (m.slot ht (m.used ht - 1)) evt.idx).frame
  refine ⟨by rw [hf.used, Heaps.used_setUsed_self], ?_, ?_, ?_⟩
  · intro ht' hne
    rw [hf.sel ht' hne, Heaps.sel_setUsed_ne hne, Heaps.sel_place_ne hne]
  · exact Heaps.sameEvents_place.trans hf.same
  · intro x hx hc
    rw [hf.ev x hx, Heaps.ev_setUsed, Heaps.ev_place_ne hx]
    intro i hi hne he
    rw [Heaps.used_setUsed_self] at hi
    rw [Heaps.slot_setUsed, Heaps.slot_place_self, update_of_ne hne] at he
    exact hc ⟨i, by omega, he⟩

/-- **Removal** of the event in slot `evt.idx`. -/
theorem ckRemoveEvent_spec {evt : Slot} (h : ckRemoveEvent m ht evt = some m')
    (hb : m.BackPtrs ht) (hi : evt.idx < m.used ht) :
    m'.BackPtrs ht ∧ m.slot ht evt.idx ::ₘ m'.contents ht = m.contents ht := by
  obtain ⟨_, hpos, rfl⟩ := ckRemoveEvent_eq h
  obtain ⟨n, hn⟩ : ∃ n, m.used ht = n + 1 := ⟨m.used ht - 1, by omega⟩
  rw [hn, Nat.add_sub_cancel]
  have hs := siftdownFrom_sifts ((m.place ht evt.idx (m.slot ht n)).setUsed ht n) ht
    (m.slot ht n) evt.idx
  have hne : ∀ i, i < n → m.slot ht i ≠ m.slot ht n := fun i hi' he =>
    absurd (hb.slot_inj (by omega) (by omega) he) (by omega)
  refine ⟨hs.backPtrs ⟨?_, ?_⟩, ?_⟩
  · intro i hi' hih
    rw [Heaps.used_setUsed_self] at hi'
    rw [Heaps.slot_setUsed, Heaps.slot_place_self, Heaps.ev_setUsed, update_of_ne hih,
      Heaps.ev_place_ne (hne i hi')]
    exact hb i (by omega)
  · intro i hi' hih
    rw [Heaps.used_setUsed_self] at hi'
    rw [Heaps.slot_setUsed, Heaps.slot_place_self, update_of_ne hih]
    exact hne i hi'
  · have hcont : m.contents ht = m.slot ht n ::ₘ slots (m.slot ht) n := by
      rw [Heaps.contents, hn, slots_succ]
    rcases Nat.lt_or_ge evt.idx n with hlt | hge
    · rw [hs.contents (by rw [Heaps.used_setUsed_self]; exact hlt), Heaps.used_setUsed_self,
        Heaps.slot_setUsed, Heaps.slot_place_self, update_idem, slots_update hlt, hcont]
    · -- the removed event is the last one: nothing moves
      have hin : evt.idx = n := by omega
      rw [hcont, hin, siftdownFrom_of_le (by rw [Heaps.used_setUsed_self]), Heaps.contents,
        Heaps.used_place, Heaps.used_setUsed_self, Heaps.slot_place_self, Heaps.slot_setUsed,
        Heaps.slot_place_self]
      refine congrArg _ (slots_congr fun i hi' => ?_)
      rw [update_of_ne (by omega), update_of_ne (by omega)]

/-- What `CKprioritise` does: nothing, or give a timesharing event the root's time and
sift it up from its own slot. -/
theorem ckPrioritise_eq (h : ckPrioritise m e = some m') :
    ((m.ev e).ts ≠ .running ∧ m' = m) ∨
    ((m.ev e).ts = .running ∧ (m.ev e).heap.heap = .timesharing ∧
      m' = siftupFrom (m.setTime e (m.ckGetNextTime .timesharing)) .timesharing e
        (m.ev e).heap.idx) := by
  unfold ckPrioritise at h
  split at h
  · rename_i hts
    simp only [Heaps.setTime, Heaps.ev_setEv_self] at h
    split at h
    · rename_i hheap
      injection h with h
      exact Or.inr ⟨hts, hheap, h.symm⟩
    · exact absurd h (by simp)
  · rename_i hts
    injection h with h
    exact Or.inl ⟨hts, h.symm⟩

theorem ckPrioritise_sifts (hts : (m.ev e).ts = .running) (hb : m.BackPtrs .timesharing)
    (hc : m.Contains .timesharing e) :
    ∃ m', ckPrioritise m e = some m' ∧
      Sifts .timesharing e (m.setTime e (m.ckGetNextTime .timesharing)) (m.ev e).heap.idx m' := by
  obtain ⟨hheap, hidx, _⟩ := hb.own_slot hc
  refine ⟨_, ?_, siftupFrom_sifts _ .timesharing e _ hidx⟩
  unfold ckPrioritise
  rw [if_pos hts]
  simp [Heaps.setTime, hheap]

theorem Heaps.BackPtrs.setEv {v : EVENT} (hb : m.BackPtrs ht) (hv : v.heap = (m.ev e).heap) :
    (m.setEv e v).BackPtrs ht := by
  intro i hi
  by_cases he : m.slot ht i = e
  · rw [slot_setEv, he, ev_setEv_self, hv, ← he]
    exact hb i hi
  · rw [slot_setEv, ev_setEv_ne he]
    exact hb i hi

/-- **Prioritising** an event of the timesharing heap. -/
theorem ckPrioritise_spec (h : ckPrioritise m e = some m') (hb : m.BackPtrs .timesharing)
    (hc : m.Contains .timesharing e) :
    m'.BackPtrs .timesharing ∧ m'.contents .timesharing = m.contents .timesharing := by
  by_cases hts : (m.ev e).ts = .running
  · obtain ⟨m₁, h₁, hs⟩ := ckPrioritise_sifts hts hb hc
    obtain rfl : m₁ = m' := Option.some.inj (h₁.symm.trans h)
    obtain ⟨_, hidx, hslot⟩ := hb.own_slot hc
    have hb' : (m.setTime e (m.ckGetNextTime .timesharing)).BackPtrs .timesharing := hb.setEv rfl
    refine ⟨hs.backPtrs ⟨fun i hi _ => hb' i hi, ?_⟩, ?_⟩
    · intro i hi hne he
      exact hne (hb.slot_inj hi hidx (he.trans hslot.symm))
    · rw [hs.contents hidx]
      unfold Heaps.setTime
      rw [Heaps.slot_setEv, Heaps.used_setEv, update_eq_self_iff.mpr hslot.symm]
      rfl
  · rcases ckPrioritise_eq h with ⟨_, rfl⟩ | ⟨h', _⟩
    · exact ⟨hb, rfl⟩
    · exact absurd h' hts

/-! ## Runs -/

/-- The heap operations, and the stores the rest of the kernel makes between them. -/
inductive HeapOp where
  | siftup (e : Addr)
  | siftdown
  | removeEvent (e : Addr)
  | prioritise (e : Addr)
  | store (e : Addr) (t : TIME) (s : ThreadState)

/-- One operation on heap `ht`; an event is removed through its own heap pointer. -/
def heapStep (ht : HeapType) (m : Heaps) : HeapOp → Option Heaps
  | .siftup e => ckSiftup m ht e
  | .siftdown => some (ckSiftdown m ht)
  | .removeEvent e => ckRemoveEvent m ht (m.ev e).heap
  | .prioritise e => ckPrioritise m e
  | .store e t s => some (m.setEv e { m.ev e with time := t, ts := s })

/-- How the operations are called: only `CKprioritise` is tied to one of the heaps. -/
def HeapOp.Legal (ht : HeapType) (m : Heaps) : HeapOp → Prop
  | .siftup e => ¬ m.Contains ht e ∧ m.used ht < MAXEVENTS
  | .siftdown => 0 < m.used ht
  | .removeEvent e => m.Contains ht e
  | .prioritise e => m.Contains ht e ∧ (ht = .timesharing ∨ (m.ev e).ts ≠ .running)
  | .store _ _ _ => True

/-- The event an operation inserts. -/
def HeapOp.inserts : HeapOp → Multiset Addr
  | .siftup e => {e}
  | _ => 0

/-- The event an operation removes. -/
def HeapOp.removes : HeapOp → Multiset Addr
  | .removeEvent e => {e}
  | _ => 0

def insertedBy (ops : List HeapOp) : Multiset Addr := (ops.map HeapOp.inserts).sum

def removedBy (ops : List HeapOp) : Multiset Addr := (ops.map HeapOp.removes).sum

/-- **One operation** keeps the back pointers and moves exactly its own event in or out. -/
theorem heapStep_contents {op : HeapOp} (hb : m.BackPtrs ht) (hl : op.Legal ht m)
    (h : heapStep ht m op = some m') :
    m'.BackPtrs ht ∧ m'.contents ht + op.removes = m.contents ht + op.inserts := by
  cases op with
  | siftup e =>
      obtain ⟨hb', hc⟩ := ckSiftup_spec h hb hl.1
      refine ⟨hb', ?_⟩
      simp [HeapOp.removes, HeapOp.inserts, hc, Multiset.add_comm, Multiset.singleton_add]
  | siftdown =>
      obtain rfl := Option.some.inj h
      obtain ⟨hb', hc⟩ := ckSiftdown_spec hl hb
      exact ⟨hb', by simp [HeapOp.removes, HeapOp.inserts, hc]⟩
  | removeEvent e =>
      obtain ⟨_, hidx, hslot⟩ := hb.own_slot hl
      obtain ⟨hb', hc⟩ := ckRemoveEvent_spec h hb hidx
      rw [hslot] at hc
      refine ⟨hb', ?_⟩
      simp [HeapOp.removes, HeapOp.inserts, ← hc, Multiset.add_comm, Multiset.singleton_add]
  | prioritise e =>
      obtain ⟨hc, hts⟩ := hl
      rcases ckPrioritise_eq h with ⟨_, rfl⟩ | ⟨hrun, _⟩
      · exact ⟨hb, rfl⟩
      · obtain rfl : ht = .timesharing := hts.resolve_right fun hn => hn hrun
        obtain ⟨hb', hc'⟩ := ckPrioritise_spec h hb hc
        exact ⟨hb', by simp [HeapOp.removes, HeapOp.inserts, hc']⟩
  | store e t s =>
      obtain rfl := Option.some.inj h
      exact ⟨hb.setEv rfl, by simp [HeapOp.removes, HeapOp.inserts, Heaps.contents]⟩

/-- Every legal operation is defined. -/
theorem heapStep_isSome {op : HeapOp} (hb : m.BackPtrs ht) (hl : op.Legal ht m) :
    (heapStep ht m op).isSome := by
  cases op with
  | siftup e => simp [heapStep, ckSiftup, hl.2]
  | siftdown => rfl
  | removeEvent e =>
      obtain ⟨hheap, hidx, _⟩ := hb.own_slot hl
      simp [heapStep, ckRemoveEvent, hheap, Nat.zero_lt_of_lt hidx]
  | prioritise e =>
      by_cases hts : (m.ev e).ts = .running
      · obtain rfl : ht = .timesharing := hl.2.resolve_right fun hn => hn hts
        obtain ⟨m', h', _⟩ := ckPrioritise_sifts hts hb hl.1
        simp [heapStep, h']
      · simp [heapStep, ckPrioritise, hts]
  | store e t s => rfl

/-- **Every run of legal operations** keeps the back pointers right and no event in two
slots, and the heap holds what was inserted less what was removed. -/
theorem heap_contents_run {ops : List HeapOp}
    (hr : Run (heapStep ht) (fun m op => op.Legal ht m) m ops m') (hb : m.BackPtrs ht) :
    (∀ i, i < m'.used ht → (m'.ev (m'.slot ht i)).heap = ⟨ht, i⟩)
      ∧ (∀ i j, i < m'.used ht → j < m'.used ht → m'.slot ht i = m'.slot ht j → i = j)
      ∧ m'.contents ht + removedBy ops = m.contents ht + insertedBy ops
      ∧ ∀ op : HeapOp, op.Legal ht m' → (heapStep ht m' op).isSome := by
  have hb' : m'.BackPtrs ht :=
    hr.invariant (I := fun m => m.BackPtrs ht) (fun h hl hs => (heapStep_contents h hl hs).1) hb
  refine ⟨hb', fun i j hi hj he => hb'.slot_inj hi hj he, ?_, fun op hl => heapStep_isSome hb' hl⟩
  refine Run.relates (I := fun m => m.BackPtrs ht)
    (R := fun m ops m' => m'.contents ht + removedBy ops = m.contents ht + insertedBy ops)
    (fun h hl hs => (heapStep_contents h hl hs).1) (fun _ _ => rfl) ?_ hr hb
  intro s s' s'' op ops h hl hs hrest
  have hstep := (heapStep_contents h hl hs).2
  simp only [removedBy, insertedBy, List.map_cons, List.sum_cons] at hrest ⊢
  calc s''.contents ht + (op.removes + (ops.map HeapOp.removes).sum)
      = (s''.contents ht + (ops.map HeapOp.removes).sum) + op.removes := by
        rw [Multiset.add_comm op.removes, Multiset.add_assoc]
    _ = (s'.contents ht + op.removes) + (ops.map HeapOp.inserts).sum := by
        rw [hrest, Multiset.add_assoc, Multiset.add_comm _ op.removes, Multiset.add_assoc]
    _ = s.contents ht + (op.inserts + (ops.map HeapOp.inserts).sum) := by
        rw [hstep, Multiset.add_assoc]

/-- The timesharing heap that holds events `1, 2, ..` with these times, in slot order. -/
def heapOf (times : List Nat) : Heaps where
  sel ht := { heap := fun i => i + 1, used := if ht = .timesharing then times.length else 0 }
  ev a :=
    { objectData := NIL, quantum := 1, defer := 1, time := BitVec.ofNat 32 (times.getD (a - 1) 0)
      heap := ⟨.timesharing, a - 1⟩, ts := .running, signals := [] }

theorem heapOf_back (times : List Nat) : (heapOf times).BackPtrs .timesharing :=
  fun _ _ => rfl

/-- The run theorem on a heap of two events, one of which is removed. -/
theorem heap_contents_run_two : ∃ m', Run (heapStep .timesharing)
    (fun m op => op.Legal .timesharing m) (heapOf [5, 6]) [.siftdown, .removeEvent 2] m' ∧
    m'.contents .timesharing + removedBy [.siftdown, .removeEvent 2]
      = (heapOf [5, 6]).contents .timesharing + insertedBy [.siftdown, .removeEvent 2] := by
  have hc : (ckSiftdown (heapOf [5, 6]) .timesharing).Contains .timesharing 2 := by
    rw [← Heaps.mem_contents, (ckSiftdown_spec (by decide) (heapOf_back _)).2,
      Heaps.mem_contents]
    exact ⟨1, by decide, rfl⟩
  have hl : HeapOp.Legal .timesharing (ckSiftdown (heapOf [5, 6]) .timesharing)
      (.removeEvent 2) := hc
  obtain ⟨m', hm'⟩ := Option.isSome_iff_exists.mp
    (heapStep_isSome (ckSiftdown_spec (by decide) (heapOf_back _)).1 hl)
  have hr : Run (heapStep .timesharing) (fun m op => op.Legal .timesharing m) (heapOf [5, 6])
      [.siftdown, .removeEvent 2] m' :=
    .cons (by show 0 < _; decide) rfl (.cons hl hm' (.nil m'))
  exact ⟨m', hr, (heap_contents_run hr (heapOf_back _)).2.2.1⟩

end Alliance.CK
