import Alliance.CK.Timer
import Mathlib.Algebra.Group.Int.Defs

/-!
# Which task runs next, and for how long

`CKgetNextTask` runs the realtime root if it is due, and else the timesharing root, an idle
thread or the idle loop, in this order. While a realtime thread waits that is not due, the
timer is programmed to go off before it is.

All of it is said with one signed distance: the ticks that remain until the realtime root
is due. A quantum is added to the clock on the other side of a circular comparison, which
is the comparison of the distance with the quantum as long as the two are less than half
the circle apart.
-/

namespace Alliance.CK

open Lib Lib.Circular

variable {s : Sched}

/-- The ticks that remain until the realtime root is due: its time minus the fudge, seen
from the clock. -/
def Sched.remaining (s : Sched) : Int :=
  (s.heaps.ckGetNextTime .realtime - s.fudge - s.realtime).toInt

/-- The task that the three heaps and the idle loop agree on. -/
def Sched.policy (s : Sched) : Addr :=
  if ¬ s.heaps.ckIsHeapEmpty .realtime ∧ s.remaining ≤ 0 then s.heaps.ckGetNextEvent .realtime
  else if ¬ s.heaps.ckIsHeapEmpty .timesharing then s.heaps.ckGetNextEvent .timesharing
  else if ¬ s.heaps.ckIsHeapEmpty .idle then s.heaps.ckGetNextEvent .idle
  else idleLoop

/-- The quanta of the threads in the heaps and of the idle loop. -/
def Sched.QuantaBounded (s : Sched) : Prop :=
  ∀ e, (e = idleLoop ∨ ∃ ht, s.heaps.Contains ht e) →
    1 ≤ (s.heaps.ev e).quantum.toInt ∧ (s.heaps.ev e).quantum.toInt ≤ 2 ^ 30

/-- The times of the threads in the realtime heap, seen from the clock. -/
def Sched.DeadlinesNear (s : Sched) : Prop :=
  ∀ e, s.heaps.Contains .realtime e →
    -2 ^ 30 ≤ (s.heaps.time e - s.realtime).toInt ∧ (s.heaps.time e - s.realtime).toInt ≤ 2 ^ 30

/-! ## The comparisons -/

/-- The realtime root is due: nothing remains. -/
theorem due_iff : clse (s.heaps.ckGetNextTime .realtime - s.fudge) s.realtime ↔
    s.remaining ≤ 0 := beforeEq_iff_toInt

/-- The realtime root is due before a quantum is over. -/
theorem due_within_iff {quantum : TIME} (hq : 1 ≤ quantum.toInt) (hq' : quantum.toInt ≤ 2 ^ 30)
    (hr : 0 < s.remaining) :
    clse (s.heaps.ckGetNextTime .realtime - s.fudge) (quantum + s.realtime) ↔
      s.remaining ≤ quantum.toInt := by
  have hlt : s.remaining < 2 ^ 31 := BitVec.toInt_lt
  have hdist : s.heaps.ckGetNextTime .realtime - s.fudge - (quantum + s.realtime) =
      (s.heaps.ckGetNextTime .realtime - s.fudge - s.realtime) - quantum := by grind
  have hsub : (s.heaps.ckGetNextTime .realtime - s.fudge - (quantum + s.realtime)).toInt =
      s.remaining - quantum.toInt := by
    rw [hdist]
    unfold Sched.remaining at hr hlt ⊢
    exact toInt_sub_of_fits (by omega) (by omega)
  unfold clse
  rw [beforeEq_iff_toInt, hsub]
  omega

/-- The period that makes room for the realtime root. -/
theorem toInt_period : (s.heaps.ckGetNextTime .realtime - s.realtime - s.fudge).toInt =
    s.remaining := by
  unfold Sched.remaining
  congr 1
  grind

/-- The smaller of a quantum and what remains, as the two branches of the source compute it. -/
theorem period_le {quantum : TIME} (hq : 1 ≤ quantum.toInt) (hq' : quantum.toInt ≤ 2 ^ 30)
    (hr : 0 < s.remaining) {period : TIME}
    (hp : period =
      if clse (s.heaps.ckGetNextTime .realtime - s.fudge) (quantum + s.realtime) then
        s.heaps.ckGetNextTime .realtime - s.realtime - s.fudge
      else
        quantum) : 0 < period.toInt ∧ period.toInt ≤ s.remaining := by
  simp only [due_within_iff hq hq' hr] at hp
  split at hp
  · rw [hp, toInt_period]
    exact ⟨hr, Int.le_refl _⟩
  · rw [hp]
    omega

/-- What is programmed for a positive period is positive and not more than the period. -/
theorem programmed_le {period : TIME} (h : 0 < period.toInt) :
    0 < programmed (ckSetTimerPeriod period) ∧
      (programmed (ckSetTimerPeriod period) : Int) ≤ period.toInt := by
  have hnat : (period.toNat : Int) = period.toInt := by
    rw [BitVec.toInt_eq_toNat_cond] at h ⊢
    have := period.isLt
    split at h <;> split <;> omega
  rw [programmed_ckSetTimerPeriod]
  omega

/-! ## The selection -/

/-- The root of a heap that is not empty is in it. -/
theorem contains_root {m : Heaps} {ht : HeapType} (h : ¬ m.ckIsHeapEmpty ht) :
    m.Contains ht (m.ckGetNextEvent ht) :=
  ⟨0, Nat.pos_of_ne_zero h, rfl⟩

theorem getIdleTask_fst : (getIdleTask s).1 =
    if s.heaps.ckIsHeapEmpty .idle then idleLoop else s.heaps.ckGetNextEvent .idle := by
  unfold getIdleTask
  dsimp only
  rw [apply_ite Prod.fst]
  exact ite_self _

/-- The idle part runs its task for a quantum, or until the realtime root is due. -/
theorem getIdleTask_snd (hrt : ¬ s.heaps.ckIsHeapEmpty .realtime) : (getIdleTask s).2 =
    if clse (s.heaps.ckGetNextTime .realtime - s.fudge)
        ((s.heaps.ev (getIdleTask s).1).quantum + s.realtime) then
      s.heaps.ckGetNextTime .realtime - s.realtime - s.fudge
    else
      (s.heaps.ev (getIdleTask s).1).quantum := by
  rw [getIdleTask_fst]
  unfold getIdleTask
  simp only [hrt, not_false_eq_true, true_and]
  rw [apply_ite Prod.snd]

/-- The idle task's quantum is bounded as the others are. -/
theorem Sched.QuantaBounded.idle (hq : s.QuantaBounded) :
    1 ≤ (s.heaps.ev (getIdleTask s).1).quantum.toInt ∧
      (s.heaps.ev (getIdleTask s).1).quantum.toInt ≤ 2 ^ 30 := by
  rw [getIdleTask_fst]
  split
  · exact hq _ (.inl rfl)
  · rename_i h
    exact hq _ (.inr ⟨.idle, contains_root h⟩)

theorem ckGetNextTask_fst (s : Sched) : (ckGetNextTask s).1 = s.policy := by
  unfold ckGetNextTask Sched.policy
  dsimp only
  simp only [due_iff]
  by_cases hdue : ¬ s.heaps.ckIsHeapEmpty .realtime ∧ s.remaining ≤ 0
  · rw [if_pos hdue, if_pos hdue]
  rw [if_neg hdue, if_neg hdue]
  by_cases hts : s.heaps.ckIsHeapEmpty .timesharing
  · rw [if_pos hts, if_neg (not_not.mpr hts), getIdleTask_fst, ite_not]
  · rw [if_neg hts, if_pos hts, apply_ite Prod.fst]
    exact ite_self _

/-- While the realtime root waits, the period ends before it is due. -/
theorem ckGetNextTask_period (hq : s.QuantaBounded) (hrt : ¬ s.heaps.ckIsHeapEmpty .realtime)
    (hr : 0 < s.remaining) :
    0 < (ckGetNextTask s).2.1.toInt ∧ (ckGetNextTask s).2.1.toInt ≤ s.remaining := by
  unfold ckGetNextTask
  dsimp only
  simp only [due_iff]
  rw [if_neg (fun h => Int.not_le.mpr hr h.2)]
  by_cases hts : s.heaps.ckIsHeapEmpty .timesharing
  · rw [if_pos hts]
    exact period_le hq.idle.1 hq.idle.2 hr (getIdleTask_snd hrt)
  · have hroot := hq _ (.inr ⟨.timesharing, contains_root hts⟩)
    rw [if_neg hts]
    refine period_le hroot.1 hroot.2 hr ?_
    simp only [hrt, not_false_eq_true, true_and]
    rw [apply_ite Prod.snd, apply_ite Prod.fst]
    rfl

/-- `CKgetNextTask` follows the policy at the updated clock. While a realtime thread waits
that is not due, the period is positive, and what is programmed for it is over before the
thread is due. What remains is the thread's time minus the fudge and the clock, exactly,
for every fudge of up to 2^30 ticks. -/
theorem next_task_policy (s : Sched) (timer : TIME)
    (hq : (ckUpdateRealtime s timer).QuantaBounded)
    (hd : (ckUpdateRealtime s timer).DeadlinesNear) :
    (ckGetNextTask (ckUpdateRealtime s timer)).1 = (ckUpdateRealtime s timer).policy ∧
      (¬ s.heaps.ckIsHeapEmpty .realtime → 0 < (ckUpdateRealtime s timer).remaining →
        0 < (ckGetNextTask (ckUpdateRealtime s timer)).2.1.toInt ∧
        0 < programmed (ckSetTimerPeriod (ckGetNextTask (ckUpdateRealtime s timer)).2.1) ∧
        (programmed (ckSetTimerPeriod (ckGetNextTask (ckUpdateRealtime s timer)).2.1) : Int) ≤
          (ckUpdateRealtime s timer).remaining) ∧
      (¬ s.heaps.ckIsHeapEmpty .realtime → 0 ≤ s.fudge.toInt → s.fudge.toInt ≤ 2 ^ 30 →
        (ckUpdateRealtime s timer).remaining =
          (s.heaps.ckGetNextTime .realtime - (ckUpdateRealtime s timer).realtime).toInt -
            s.fudge.toInt) := by
  refine ⟨ckGetNextTask_fst _, fun hrt hr => ?_, fun hrt hf hf' => ?_⟩
  · obtain ⟨hpos, hle⟩ := ckGetNextTask_period hq hrt hr
    obtain ⟨hpos', hle'⟩ := programmed_le hpos
    exact ⟨hpos, hpos', Int.le_trans hle' hle⟩
  · have hnear := hd _ (contains_root hrt)
    have hswap : s.heaps.ckGetNextTime .realtime - s.fudge - (ckUpdateRealtime s timer).realtime =
        (s.heaps.ckGetNextTime .realtime - (ckUpdateRealtime s timer).realtime) - s.fudge := by
      grind
    show (s.heaps.ckGetNextTime .realtime - s.fudge - (ckUpdateRealtime s timer).realtime).toInt = _
    rw [hswap]
    have hn : -2 ^ 30 ≤
        (s.heaps.ckGetNextTime .realtime - (ckUpdateRealtime s timer).realtime).toInt ∧
        (s.heaps.ckGetNextTime .realtime - (ckUpdateRealtime s timer).realtime).toInt ≤ 2 ^ 30 :=
      hnear
    exact toInt_sub_of_fits (by omega) (by omega)

/-- One realtime thread waits, to be run at tick 100, and no other thread is there. -/
def schedWaiting : Sched :=
  { schedAtBoot with
    heaps :=
      { sel := fun ht => ⟨fun _ => 16, if ht = .realtime then 1 else 0⟩
        ev := fun a => ⟨NIL, 0x1000, 0, if a = 16 then 100 else 0, ⟨.realtime, 0⟩, .realTime, []⟩ }
    fudge := 3 }

/-- The idle loop runs, and the timer goes off after 97 ticks. -/
theorem next_task_policy_waiting : schedWaiting.remaining = 97 ∧
    (ckGetNextTask (ckUpdateRealtime schedWaiting 0)).1 = idleLoop ∧
    (programmed (ckSetTimerPeriod (ckGetNextTask (ckUpdateRealtime schedWaiting 0)).2.1) : Int) ≤
      (ckUpdateRealtime schedWaiting 0).remaining := by
  have hquanta : (ckUpdateRealtime schedWaiting 0).QuantaBounded := by
    intro e _
    show 1 ≤ (0x1000 : TIME).toInt ∧ (0x1000 : TIME).toInt ≤ 2 ^ 30
    decide
  have hnear : (ckUpdateRealtime schedWaiting 0).DeadlinesNear := by
    intro e he
    obtain ⟨i, -, rfl⟩ := he
    show -2 ^ 30 ≤ ((100 : TIME) - 0).toInt ∧ ((100 : TIME) - 0).toInt ≤ 2 ^ 30
    decide
  have hpolicy := next_task_policy schedWaiting 0 hquanta hnear
  refine ⟨by decide, ?_, (hpolicy.2.1 (by decide) (by decide)).2.2⟩
  exact hpolicy.1.trans (by decide)

end Alliance.CK
