import Alliance.CK.Sched
import Alliance.CK.HeapContents

/-!
# Threads in the heaps of their states

`Heaps.Placed L` says of a set of threads `L` that they are where their states say,
and that nothing else is in a heap. Every operation takes a thread out of `L`, moves
it, and puts it back: `leaveHeap` gives `Placed` without the thread, `enterHeap`
gives `Placed` with it, and a store to a thread that is outside is free. The system
calls are put together from these three.

The flush stores the new state before it removes the thread from the heap of the old
one; `PlacedBut` is what holds in between.
-/

namespace Alliance.CK

open Function Lib Lib.BinHeap

variable {m m' : Heaps} {ht ht' : HeapType} {a x : Addr} {L : Addr → Prop} {s s' : Sched}

namespace Heaps

/-- The threads of `L` are in the heaps their states say, and nothing else is in a heap. -/
structure Placed (m : Heaps) (L : Addr → Prop) : Prop where
  back : ∀ ht, m.BackPtrs ht
  mem : ∀ ht a, m.Contains ht a ↔ L a ∧ (m.ev a).ts.heap? = some ht

theorem Placed.congr {L' : Addr → Prop} (h : m.Placed L) (hL : ∀ a, L a ↔ L' a) :
    m.Placed L' := by
  obtain rfl : L = L' := funext fun a => propext (hL a)
  exact h

theorem BackPtrs.nodup (h : m.BackPtrs ht) : (m.contents ht).Nodup :=
  (Multiset.nodup_range _).map_on fun _ hi _ hj he =>
    h.slot_inj (Multiset.mem_range.mp hi) (Multiset.mem_range.mp hj) he

/-- A store to an event that is in no heap, or one that leaves state and back pointer. -/
theorem Placed.setEv {v : EVENT} (h : m.Placed L)
    (hv : ¬ L a ∨ v.ts = (m.ev a).ts ∧ v.heap = (m.ev a).heap) : (m.setEv a v).Placed L where
  back ht := by
    rcases hv with hout | ⟨-, hheap⟩
    · intro i hi
      have hne : m.slot ht i ≠ a := fun he => hout (((h.mem ht a).mp ⟨i, hi, he⟩).1)
      rw [slot_setEv, ev_setEv_ne hne]
      exact h.back ht i hi
    · exact (h.back ht).setEv hheap
  mem ht x := by
    show m.Contains ht x ↔ _
    rw [h.mem ht x]
    by_cases hx : x = a
    · subst hx
      rw [ev_setEv_self]
      rcases hv with hout | ⟨hts, -⟩
      · exact ⟨fun hl => absurd hl.1 hout, fun hl => absurd hl.1 hout⟩
      · rw [hts]
    · rw [ev_setEv_ne hx]

/-- A heap operation that keeps the contents of all heaps keeps every thread in place. -/
theorem Placed.of_contents (h : m.Placed L) (hs : m.SameEvents m')
    (hback : ∀ ht, m'.BackPtrs ht) (hc : ∀ ht, m'.contents ht = m.contents ht) :
    m'.Placed L where
  back := hback
  mem ht x := by
    rw [← mem_contents, hc, mem_contents, h.mem, hs.ts]

end Heaps

/-! ## The heap operations on placed threads -/

theorem contents_congr_sel (h : m'.sel ht = m.sel ht) : m'.contents ht = m.contents ht := by
  unfold Heaps.contents Heaps.slot Heaps.used
  rw [h]

theorem used_congr_sel (h : m'.sel ht = m.sel ht) : m'.used ht = m.used ht := by
  unfold Heaps.used
  rw [h]

theorem contains_congr_sel (h : m'.sel ht = m.sel ht) : m'.Contains ht x ↔ m.Contains ht x := by
  rw [← Heaps.mem_contents, contents_congr_sel h, Heaps.mem_contents]

/-- An operation on one heap leaves the back pointers of the others, if the event it was
given is in none of them. -/
theorem OpFrame.backPtrs (hf : OpFrame ht a m m') (hb : ∀ ht, m.BackPtrs ht)
    (hdis : ∀ ht' x, ht' ≠ ht → m.Contains ht' x → x ≠ a ∧ ¬ m.Contains ht x)
    (hself : m'.BackPtrs ht) (ht' : HeapType) : m'.BackPtrs ht' := by
  by_cases hne : ht' = ht
  · exact hne ▸ hself
  · intro i hi
    rw [used_congr_sel (hf.sel ht' hne)] at hi
    have hslot : m'.slot ht' i = m.slot ht' i := by
      unfold Heaps.slot
      rw [hf.sel ht' hne]
    obtain ⟨hxa, hxc⟩ := hdis ht' (m.slot ht' i) hne ⟨i, hi, rfl⟩
    rw [hslot, hf.ev _ hxa hxc]
    exact hb ht' i hi

namespace Heaps

theorem Placed.disjoint (h : m.Placed L) (hne : ht' ≠ ht) (hx : m.Contains ht' x) :
    ¬ m.Contains ht x := by
  intro hx'
  have h1 := ((h.mem ht' x).mp hx).2
  rw [((h.mem ht x).mp hx').2] at h1
  exact hne (Option.some.inj h1).symm

/-- All but `a` are where their states say; `a` is in heap `ht`, whatever its state says. -/
structure PlacedBut (m : Heaps) (L : Addr → Prop) (ht : HeapType) (a : Addr) : Prop where
  back : ∀ ht, m.BackPtrs ht
  mem : ∀ ht' x, x ≠ a → (m.Contains ht' x ↔ L x ∧ (m.ev x).ts.heap? = some ht')
  self : ∀ ht', m.Contains ht' a ↔ ht' = ht

theorem Placed.but (h : m.Placed L) (ha : L a) (hts : (m.ev a).ts.heap? = some ht) :
    m.PlacedBut L ht a where
  back := h.back
  mem ht' x _ := h.mem ht' x
  self ht' := by
    rw [h.mem, hts]
    exact ⟨fun hc => (Option.some.inj hc.2).symm, fun he => ⟨ha, congrArg some he.symm⟩⟩

/-- Storing into `a` does not matter while only its heap is known. -/
theorem PlacedBut.setEv {v : EVENT} (h : m.PlacedBut L ht a) (hv : v.heap = (m.ev a).heap) :
    (m.setEv a v).PlacedBut L ht a where
  back ht' := (h.back ht').setEv hv
  mem ht' x hx := by
    rw [ev_setEv_ne hx]
    exact h.mem ht' x hx
  self ht' := h.self ht'

theorem PlacedBut.disjoint (h : m.PlacedBut L ht a) (hne : ht' ≠ ht) (hx : m.Contains ht' x) :
    ¬ m.Contains ht x := by
  intro hx'
  have hxa : x ≠ a := by
    rintro rfl
    exact hne ((h.self ht').mp hx)
  have h1 := ((h.mem ht' x hxa).mp hx).2
  rw [((h.mem ht x hxa).mp hx').2] at h1
  exact hne (Option.some.inj h1).symm

/-- **A thread leaves the heap it is in.** -/
theorem PlacedBut.ckRemoveEvent (h : m.PlacedBut L ht a) :
    ∃ m', ckRemoveEvent m ht (m.ev a).heap = some m' ∧ m.SameEvents m' ∧
      (m'.used ht + 1 = m.used ht ∧ ∀ ht', ht' ≠ ht → m'.used ht' = m.used ht') ∧
      m'.Placed (fun x => L x ∧ x ≠ a) := by
  obtain ⟨hheap, hidx, hslot⟩ := (h.back ht).own_slot ((h.self ht).mpr rfl)
  obtain ⟨m', hm'⟩ : ∃ m', CK.ckRemoveEvent m ht (m.ev a).heap = some m' :=
    ⟨_, if_pos ⟨hheap, Nat.zero_lt_of_lt hidx⟩⟩
  obtain ⟨hused, hf⟩ := ckRemoveEvent_frame hm'
  obtain ⟨hb', hcont⟩ := ckRemoveEvent_spec hm' (h.back ht) hidx
  rw [hslot] at hcont
  refine ⟨m', hm', hf.same, ⟨by omega, fun ht' hne => used_congr_sel (hf.sel ht' hne)⟩, ?_, ?_⟩
  · refine hf.backPtrs h.back (fun ht' x hne hx => ⟨?_, h.disjoint hne hx⟩) hb'
    rintro rfl
    exact h.disjoint hne hx ⟨m.used ht - 1, by omega, rfl⟩
  · -- what is left in the heap is what was there besides `a`, and `a` is in no other heap
    have hleft : ∀ ht' x, m'.Contains ht' x ↔ m.Contains ht' x ∧ x ≠ a := by
      intro ht' x
      by_cases hne : ht' = ht
      · subst hne
        have hnd := (h.back ht').nodup
        rw [← hcont, Multiset.nodup_cons] at hnd
        rw [← mem_contents, ← mem_contents, ← hcont, Multiset.mem_cons]
        constructor
        · intro hx
          exact ⟨.inr hx, fun he => hnd.1 (he ▸ hx)⟩
        · rintro ⟨hx, hxa⟩
          exact hx.resolve_left hxa
      · rw [contains_congr_sel (hf.sel ht' hne)]
        refine ⟨fun hx => ⟨hx, ?_⟩, fun hx => hx.1⟩
        rintro rfl
        exact hne ((h.self ht').mp hx)
    intro ht' x
    rw [hleft, hf.same.ts]
    by_cases hxa : x = a
    · simp [hxa]
    · rw [h.mem ht' x hxa]
      simp [hxa]

theorem Placed.ckRemoveEvent (h : m.Placed L) (hts : (m.ev a).ts.heap? = some ht) (ha : L a) :
    ∃ m', CK.ckRemoveEvent m ht (m.ev a).heap = some m' ∧ m.SameEvents m' ∧
      (m'.used ht + 1 = m.used ht ∧ ∀ ht', ht' ≠ ht → m'.used ht' = m.used ht') ∧
      m'.Placed (fun x => L x ∧ x ≠ a) :=
  (h.but ha hts).ckRemoveEvent

/-- **A thread that is in no heap enters one**, with the state of its threads. -/
theorem Placed.ckSiftup (h : m.Placed L) (ha : ¬ L a) (hts : (m.ev a).ts = ht.ts)
    (hroom : m.used ht < MAXEVENTS) :
    ∃ m', ckSiftup m ht a = some m' ∧ m.SameEvents m' ∧
      (m'.used ht = m.used ht + 1 ∧ ∀ ht', ht' ≠ ht → m'.used ht' = m.used ht') ∧
      m'.Placed (fun x => L x ∨ x = a) := by
  have hout : ∀ ht', ¬ m.Contains ht' a := fun ht' hc => ha ((h.mem ht' a).mp hc).1
  obtain ⟨m', hm'⟩ : ∃ m', CK.ckSiftup m ht a = some m' := ⟨_, if_pos hroom⟩
  have hf := ckSiftup_frame hm'
  obtain ⟨-, hused, -⟩ := ckSiftup_used hm'
  obtain ⟨hb', hcont⟩ := ckSiftup_spec hm' (h.back ht) (hout ht)
  refine ⟨m', hm', hf.same, ⟨hused, fun ht' hne => used_congr_sel (hf.sel ht' hne)⟩, ?_, ?_⟩
  · refine hf.backPtrs h.back (fun ht' x hne hx => ⟨?_, h.disjoint hne hx⟩) hb'
    rintro rfl
    exact hout ht' hx
  · have hheap : ∀ ht', ht.ts.heap? = some ht' ↔ ht' = ht := by
      intro ht'
      cases ht <;> cases ht' <;> decide
    intro ht' x
    rw [hf.same.ts]
    by_cases hxa : x = a
    · subst hxa
      rw [hts, hheap]
      by_cases hne : ht' = ht
      · subst hne
        rw [← mem_contents, hcont]
        simp
      · rw [contains_congr_sel (hf.sel ht' hne)]
        simp [hout ht', hne]
    · have hiff : m'.Contains ht' x ↔ m.Contains ht' x := by
        by_cases hne : ht' = ht
        · subst hne
          rw [← mem_contents, hcont, Multiset.mem_cons, mem_contents]
          simp [hxa]
        · exact contains_congr_sel (hf.sel ht' hne)
      rw [hiff, h.mem]
      simp [hxa]

/-- Sifting down the root of a heap that is not empty moves no thread out of it. -/
theorem Placed.ckSiftdown (h : m.Placed L) (hpos : 0 < m.used ht) :
    m.SameEvents (ckSiftdown m ht) ∧ (∀ ht', (CK.ckSiftdown m ht).used ht' = m.used ht') ∧
      (CK.ckSiftdown m ht).Placed L := by
  have hf := ckSiftdown_frame m ht
  obtain ⟨hb', hcont⟩ := ckSiftdown_spec hpos (h.back ht)
  refine ⟨hf.same, ckSiftdown_used m ht, h.of_contents hf.same ?_ ?_⟩
  · refine hf.backPtrs h.back (fun ht' x hne hx => ⟨?_, h.disjoint hne hx⟩) hb'
    rintro rfl
    exact h.disjoint hne hx ⟨0, hpos, rfl⟩
  · intro ht'
    by_cases hne : ht' = ht
    · exact hne ▸ hcont
    · exact contents_congr_sel (hf.sel ht' hne)

/-- Prioritising a thread leaves it where it is. -/
theorem Placed.ckPrioritise (h : m.Placed L) (ha : L a) :
    ∃ m', ckPrioritise m a = some m' ∧ (∀ ht, m'.used ht = m.used ht) ∧ m'.Placed L ∧
      ((m.ev a).ts ≠ .running ∧ m' = m ∨
        (m.ev a).ts = .running ∧ (m.setTime a (m.ckGetNextTime .timesharing)).SameEvents m') := by
  by_cases hts : (m.ev a).ts = .running
  · have hc : m.Contains .timesharing a := (h.mem _ a).mpr ⟨ha, by rw [hts]; rfl⟩
    obtain ⟨m', hm', hs⟩ := ckPrioritise_sifts hts (h.back _) hc
    obtain ⟨hb', hcont⟩ := ckPrioritise_spec hm' (h.back _) hc
    have h₁ : (m.setTime a (m.ckGetNextTime .timesharing)).Placed L := h.setEv (.inr ⟨rfl, rfl⟩)
    have hf : OpFrame .timesharing a (m.setTime a (m.ckGetNextTime .timesharing)) m' :=
      ⟨hs.frame.sel, hs.frame.same, fun x hx hxc =>
        hs.frame.ev x hx fun i hi _ he => hxc ⟨i, hi, he⟩⟩
    refine ⟨m', hm', fun ht => hs.frame.used ht, h₁.of_contents hf.same ?_ ?_, .inr ⟨hts, hf.same⟩⟩
    · refine hf.backPtrs h₁.back (fun ht' x hne hx => ⟨?_, h₁.disjoint hne hx⟩) hb'
      rintro rfl
      exact h₁.disjoint hne hx hc
    · intro ht'
      by_cases hne : ht' = .timesharing
      · exact hne ▸ hcont
      · exact contents_congr_sel (hf.sel ht' hne)
  · exact ⟨m, if_neg hts, fun _ => rfl, h, .inl ⟨hts, rfl⟩⟩

/-- **A thread leaves its heap**, if it is in one. -/
theorem Placed.leaveHeap (h : m.Placed L) (ha : L a) :
    ∃ m', leaveHeap m a = some m' ∧ m.SameEvents m' ∧
      (∀ ht, m'.used ht + (if (m.ev a).ts.heap? = some ht then 1 else 0) = m.used ht) ∧
      m'.Placed (fun x => L x ∧ x ≠ a) := by
  unfold CK.leaveHeap
  cases hts : (m.ev a).ts.heap? with
  | some ht =>
      obtain ⟨m', hm', hs, ⟨hu, hu'⟩, hp⟩ := h.ckRemoveEvent hts ha
      refine ⟨m', hm', hs, fun ht' => ?_, hp⟩
      by_cases hne : ht' = ht
      · subst hne
        rw [if_pos rfl, hu]
      · rw [if_neg fun he => hne (Option.some.inj he).symm, hu' ht' hne, Nat.add_zero]
  | none =>
      refine ⟨m, rfl, SameEvents.refl m, fun ht' => by simp, h.back, fun ht x => ?_⟩
      rw [h.mem]
      constructor
      · rintro ⟨hl, ht⟩
        refine ⟨⟨hl, ?_⟩, ht⟩
        rintro rfl
        rw [hts] at ht
        exact absurd ht (by simp)
      · rintro ⟨⟨hl, -⟩, ht⟩
        exact ⟨hl, ht⟩

/-- A thread given the time and state of a heap. -/
def entered (m : Heaps) (ht : HeapType) (a : Addr) : Heaps :=
  (m.setTime a (m.enterTime ht)).setTs a ht.ts

theorem ev_entered_self : (m.entered ht a).ev a =
    { m.ev a with time := m.enterTime ht, ts := ht.ts } := by
  simp [entered, setTs, setTime]

theorem ev_entered_ne (hx : x ≠ a) : (m.entered ht a).ev x = m.ev x := by
  simp [entered, setTs, setTime, ev_setEv_ne hx]

theorem enterHeap_eq : enterHeap m ht a = CK.ckSiftup (m.entered ht a) ht a := rfl

/-- **A thread that is in no heap enters one** if there is room. -/
theorem Placed.enterHeap (h : m.Placed L) (ha : ¬ L a) (hroom : m.used ht < MAXEVENTS) :
    ∃ m', enterHeap m ht a = some m' ∧ (m.entered ht a).SameEvents m' ∧
      (m'.used ht = m.used ht + 1 ∧ ∀ ht', ht' ≠ ht → m'.used ht' = m.used ht') ∧
      m'.Placed (fun x => L x ∨ x = a) := by
  have h₁ : (m.entered ht a).Placed L := (h.setEv (.inl ha)).setEv (.inl ha)
  exact h₁.ckSiftup ha (by rw [ev_entered_self]) hroom

theorem enterHeap_none (hroom : ¬ m.used ht < MAXEVENTS) : CK.enterHeap m ht a = none :=
  if_neg hroom

/-- A blocked thread may be counted in or out. -/
theorem Placed.insert_blocked (h : m.Placed (fun x => L x ∧ x ≠ a)) (ha : L a)
    (hts : (m.ev a).ts = .blocked) : m.Placed L where
  back := h.back
  mem ht x := by
    rw [h.mem]
    by_cases hx : x = a
    · subst hx
      simp [hts, ThreadState.heap?]
    · simp [hx]

/-- **Blocking** a thread. -/
theorem Placed.ckBlockThread (h : m.Placed L) (ha : L a) :
    ∃ m' m₁, CK.leaveHeap m a = some m₁ ∧ ckBlockThread m a = some m' ∧
      m' = m₁.setTs a .blocked ∧ m.SameEvents m₁ ∧
      (∀ ht, m'.used ht + (if (m.ev a).ts.heap? = some ht then 1 else 0) = m.used ht) ∧
      m'.Placed L := by
  obtain ⟨m₁, hm₁, hs, hu, hp⟩ := h.leaveHeap ha
  refine ⟨_, m₁, hm₁, ?_, rfl, hs, hu, ?_⟩
  · unfold CK.ckBlockThread
    rw [hm₁]
    rfl
  · have hp' : (m₁.setTs a .blocked).Placed (fun x => L x ∧ x ≠ a) :=
      hp.setEv (.inl fun hl => hl.2 rfl)
    exact hp'.insert_blocked ha (by simp [setTs])

/-- A blocked thread that enters a heap: `CKunblockThread` and `CKidleThread`. -/
theorem Placed.enterHeap_blocked (h : m.Placed L) (ha : L a) (hts : (m.ev a).ts = .blocked)
    (hroom : m.used ht < MAXEVENTS) :
    ∃ m', CK.enterHeap m ht a = some m' ∧ (m.entered ht a).SameEvents m' ∧
      (m'.used ht = m.used ht + 1 ∧ ∀ ht', ht' ≠ ht → m'.used ht' = m.used ht') ∧
      m'.Placed L := by
  obtain ⟨m₁, hm₁, -, -, hp⟩ := h.leaveHeap ha
  have he : m₁ = m := by
    unfold CK.leaveHeap at hm₁
    rw [hts] at hm₁
    exact (Option.some.inj hm₁).symm
  subst he
  obtain ⟨m', hm', hs, hu, hp'⟩ := hp.enterHeap (a := a) (fun hl => hl.2 rfl) hroom
  refine ⟨m', hm', hs, hu, hp'.congr fun x => ?_⟩
  by_cases hx : x = a
  · simp [hx, ha]
  · simp [hx]

end Heaps

end Alliance.CK
