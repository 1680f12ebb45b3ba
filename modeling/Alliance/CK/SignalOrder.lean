import Alliance.CK.Signal
import Alliance.Lib.DList
import Alliance.Lib.Run
import Mathlib.Logic.Function.Basic

/-!
# Signal order

`SigLog` is a thread's queue of signals with a record of what became of every signal ever
sent to it: signals are numbered as they are sent, and `started` and `removed` are the
numbers of those whose handlers were started and of those taken out of the queue. A handler
is started where its entry is marked `SFBUSY`.

The queue is in the order of priority first and number second, and a marked entry has no
unmarked one of its priority before it. So whichever of the two places starts a handler
starts that of the first signal of all, and none that is being handled is as urgent.
-/

namespace Alliance.CK

open Function Lib

structure SigLog where
  signals : List SIGNAL
  /-- How many signals were sent. -/
  sent : ℕ
  /-- The number of the signal whose entry is at an address. -/
  order : Addr → ℕ
  started : List ℕ
  removed : List ℕ

/-- The calls that work on the queue of a thread. -/
inductive QueueOp where
  | send (addr sender : Addr) (signal extra priority : UDATA)
  /-- The signal check of `CKschedule`. -/
  | check (interruptable : UDATA)
  | endOfSignal

namespace SigLog

/-- `x` is more urgent than `y`, or as urgent and sent before. -/
def Before (s : SigLog) (x y : SIGNAL) : Prop :=
  x.priority < y.priority ∨ x.priority = y.priority ∧ s.order x.addr < s.order y.addr

/-- Start the handler of the head, if a check says so. -/
def check (s : SigLog) (interruptable : UDATA) : SigLog where
  signals := (signalCheck interruptable s.signals).1
  sent := s.sent
  order := s.order
  started :=
    match signalCheck interruptable s.signals with
    | (head :: _, true) => s.order head.addr :: s.started
    | _ => s.started
  removed := s.removed

/-- Remove the head if its handler is done. -/
def drop (s : SigLog) : SigLog where
  signals := dropFinished s.signals
  sent := s.sent
  order := s.order
  started := s.started
  removed :=
    match s.signals with
    | head :: _ => if head.busy then s.order head.addr :: s.removed else s.removed
    | [] => s.removed

def send (s : SigLog) (x : SIGNAL) : SigLog where
  signals := ckSendSignal x s.signals
  sent := s.sent + 1
  order := update s.order x.addr s.sent
  started := s.started
  removed := s.removed

/-- Nothing was sent yet. -/
def empty : SigLog where
  signals := []
  sent := 0
  order _ := 0
  started := []
  removed := []

end SigLog

def queueStep (s : SigLog) : QueueOp → Option SigLog
  | .send addr sender signal extra priority =>
    some (s.send (newSignal addr sender signal extra priority))
  | .check interruptable => some (s.check interruptable)
  | .endOfSignal => some (s.drop.check 0)

/-- An entry is allocated at an address that no pending signal has. -/
def QueueOp.Legal (s : SigLog) : QueueOp → Prop
  | .send addr _ _ _ _ => addr ∉ s.signals.map SIGNAL.addr
  | _ => True

instance QueueOp.decidableLegal (s : SigLog) : (op : QueueOp) → Decidable (op.Legal s)
  | .send .. => inferInstanceAs (Decidable (_ ∉ _))
  | .check _ => isTrue trivial
  | .endOfSignal => isTrue trivial

namespace SigLog

/-- **The queue is in order**, and the record is right about it. -/
structure Ordered (s : SigLog) : Prop where
  distinct : (s.signals.map SIGNAL.addr).Nodup
  numbered : (s.signals.map fun x => s.order x.addr).Nodup
  sorted : s.signals.Pairwise s.Before
  /-- What is marked is more urgent than what it had to be put before. -/
  ahead : s.signals.Pairwise fun x y => x.busy = false → y.busy = true → x.priority < y.priority
  busy : ∀ x ∈ s.signals, x.busy = true ↔ s.order x.addr ∈ s.started
  once : s.started.Nodup
  started : ∀ n ∈ s.removed, n ∈ s.started
  sent : ∀ n ∈ s.started, n < s.sent
  pending : ∀ n, n < s.sent ↔ n ∈ s.removed ∨ ∃ x ∈ s.signals, s.order x.addr = n
  apart : ∀ x ∈ s.signals, s.order x.addr ∉ s.removed

variable {s : SigLog} {x : SIGNAL}

theorem Ordered.order_lt (h : s.Ordered) (hx : x ∈ s.signals) : s.order x.addr < s.sent :=
  (h.pending _).mpr (.inr ⟨x, hx, rfl⟩)

theorem Ordered.empty : Ordered SigLog.empty where
  distinct := .nil
  numbered := .nil
  sorted := .nil
  ahead := .nil
  busy x hx := absurd hx List.not_mem_nil
  once := .nil
  started n hn := absurd hn List.not_mem_nil
  sent n hn := absurd hn List.not_mem_nil
  pending n := by simp [SigLog.empty]
  apart x hx := absurd hx List.not_mem_nil

theorem lt_trans_le {a b c : UDATA} (h : a < b) (h' : b ≤ c) : a < c := by
  rw [BitVec.lt_def, BitVec.le_def] at *
  omega

/-- In a queue ordered by priority a signal is put behind those that are as urgent. -/
theorem insertBehind_split {xs : List SIGNAL} (h : xs.Pairwise fun a b => a.priority ≤ b.priority) :
    ∃ as bs, xs = as ++ bs ∧ insertBehind x xs = as ++ x :: bs ∧
      (∀ a ∈ as, a.priority ≤ x.priority) ∧ ∀ b ∈ bs, x.priority < b.priority := by
  induction xs with
  | nil => exact ⟨[], [], rfl, rfl, by simp, by simp⟩
  | cons y ys ih =>
    obtain ⟨hy, hys⟩ := List.pairwise_cons.mp h
    rw [insertBehind]
    split
    · next hle =>
      obtain ⟨as, bs, h1, h2, h3, h4⟩ := ih hys
      refine ⟨y :: as, bs, by rw [h1]; rfl, by rw [h2]; rfl, fun a ha => ?_, h4⟩
      rcases List.mem_cons.mp ha with rfl | ha
      · exact hle
      · exact h3 a ha
    · next hgt =>
      refine ⟨[], y :: ys, rfl, rfl, by simp, fun b hb => ?_⟩
      have hxy : x.priority < y.priority := BitVec.not_le.mp hgt
      rcases List.mem_cons.mp hb with rfl | hb
      · exact hxy
      · exact lt_trans_le hxy (hy b hb)

theorem ckSendSignal_split {xs : List SIGNAL}
    (h : xs.Pairwise fun a b => a.priority ≤ b.priority) :
    ∃ as bs, xs = as ++ bs ∧ ckSendSignal x xs = as ++ x :: bs ∧
      (∀ a ∈ as, a.priority ≤ x.priority) ∧ ∀ b ∈ bs, x.priority < b.priority := by
  cases xs with
  | nil => exact ⟨[], [], rfl, rfl, by simp, by simp⟩
  | cons y ys =>
    obtain ⟨hy, hys⟩ := List.pairwise_cons.mp h
    rw [ckSendSignal]
    split
    · next hlt =>
      refine ⟨[], y :: ys, rfl, rfl, by simp, fun b hb => ?_⟩
      rcases List.mem_cons.mp hb with rfl | hb
      · exact hlt
      · exact lt_trans_le hlt (hy b hb)
    · next hge =>
      obtain ⟨as, bs, h1, h2, h3, h4⟩ := insertBehind_split (x := x) hys
      refine ⟨y :: as, bs, by rw [h1]; rfl, by rw [h2]; rfl, fun a ha => ?_, h4⟩
      rcases List.mem_cons.mp ha with rfl | ha
      · exact BitVec.not_lt.mp hge
      · exact h3 a ha

theorem Before.le (s : SigLog) {x y : SIGNAL} (h : s.Before x y) : x.priority ≤ y.priority := by
  rcases h with h | ⟨h, -⟩
  · exact BitVec.le_of_lt h
  · exact h ▸ BitVec.le_refl _

/-- A signal that is sent is the last of its priority. -/
theorem Ordered.send (h : s.Ordered) (hx : x.addr ∉ s.signals.map SIGNAL.addr)
    (hb : x.busy = false) : (s.send x).Ordered := by
  obtain ⟨as, bs, hsplit, hsend, has, hbs⟩ :=
    ckSendSignal_split (x := x) (h.sorted.imp (Before.le s))
  have haddr : ∀ y ∈ s.signals, y.addr ≠ x.addr := fun y hy he =>
    hx (he ▸ List.mem_map_of_mem hy)
  have hold : ∀ y ∈ s.signals, (s.send x).order y.addr = s.order y.addr := fun y hy =>
    update_of_ne (haddr y hy) _ _
  have hnew : (s.send x).order x.addr = s.sent := update_self ..
  have hsignals : (s.send x).signals = as ++ x :: bs := hsend
  have hmem : ∀ {y}, y ∈ (s.send x).signals ↔ y = x ∨ y ∈ s.signals := by
    intro y
    rw [hsignals, hsplit]
    exact mem_insert
  have hperm : (as ++ x :: bs).Perm (x :: s.signals) := hsplit ▸ List.perm_middle
  have hleft : ∀ {a}, a ∈ as → a ∈ s.signals := fun ha => hsplit ▸ List.mem_append_left _ ha
  have hright : ∀ {b}, b ∈ bs → b ∈ s.signals := fun hb => hsplit ▸ List.mem_append_right _ hb
  have hnot : s.sent ∉ s.started := fun hm => Nat.lt_irrefl _ (h.sent _ hm)
  refine
    { distinct := ?_
      numbered := ?_
      sorted := ?_
      ahead := ?_
      busy := fun y hy => ?_
      once := h.once
      started := h.started
      sent := fun n hn => Nat.lt_succ_of_lt (h.sent n hn)
      pending := fun n => ?_
      apart := fun y hy => ?_ }
  · rw [hsignals, (hperm.map _).nodup_iff]
    exact List.nodup_cons.mpr ⟨hx, h.distinct⟩
  · rw [hsignals, (hperm.map _).nodup_iff, List.map_cons, hnew, List.map_congr_left hold]
    refine List.nodup_cons.mpr ⟨fun hm => ?_, h.numbered⟩
    obtain ⟨y, hy, he⟩ := List.mem_map.mp hm
    exact Nat.ne_of_lt (h.order_lt hy) he
  · have hs : (as ++ bs).Pairwise (s.send x).Before := hsplit ▸ h.sorted.imp_of_mem
      fun {a b} ha hb hab => by
        unfold Before
        rw [hold a ha, hold b hb]
        exact hab
    rw [hsignals]
    refine pairwise_insert hs (fun a ha => ?_) fun b hb => .inl (hbs b hb)
    by_cases he : a.priority = x.priority
    · refine .inr ⟨he, ?_⟩
      rw [hnew, hold a (hleft ha)]
      exact h.order_lt (hleft ha)
    · refine .inl ?_
      have hle := has a ha
      have hne : a.priority.toNat ≠ x.priority.toNat := fun h => he (BitVec.eq_of_toNat_eq h)
      rw [BitVec.lt_def]
      rw [BitVec.le_def] at hle
      omega
  · rw [hsignals]
    refine pairwise_insert (hsplit ▸ h.ahead) (fun a _ _ hbusy => ?_) fun b hb' _ _ => hbs b hb'
    rw [hb] at hbusy
    exact absurd hbusy (by simp)
  · rcases hmem.mp hy with rfl | hy
    · rw [hnew]
      exact ⟨fun hbusy => absurd (hb.symm.trans hbusy) (by simp), fun hm => absurd hm hnot⟩
    · rw [hold y hy]
      exact h.busy y hy
  · show n < s.sent + 1 ↔ n ∈ s.removed ∨ _
    rw [Nat.lt_succ_iff_lt_or_eq, h.pending]
    constructor
    · rintro ((hr | ⟨y, hy, rfl⟩) | rfl)
      · exact .inl hr
      · exact .inr ⟨y, hmem.mpr (.inr hy), hold y hy⟩
      · exact .inr ⟨x, hmem.mpr (.inl rfl), hnew⟩
    · rintro (hr | ⟨y, hy, rfl⟩)
      · exact .inl (.inl hr)
      · rcases hmem.mp hy with rfl | hy
        · exact .inr hnew
        · exact .inl (.inr ⟨y, hy, (hold y hy).symm⟩)
  · rcases hmem.mp hy with rfl | hy
    · rw [hnew]
      exact fun hm => hnot (h.started _ hm)
    · rw [hold y hy]
      exact h.apart y hy

/-- The head is the first signal of all. -/
theorem Ordered.head {rest : List SIGNAL} (h : s.Ordered) (hs : s.signals = x :: rest) :
    ∀ y ∈ rest, s.Before x y ∧ (x.busy = false → y.busy = true → x.priority < y.priority) :=
  fun _ hy => ⟨List.rel_of_pairwise_cons (hs ▸ h.sorted) hy,
    List.rel_of_pairwise_cons (hs ▸ h.ahead) hy⟩

theorem Ordered.order_ne {y : SIGNAL} {rest : List SIGNAL} (h : s.Ordered)
    (hs : s.signals = x :: rest) (hy : y ∈ rest) : s.order y.addr ≠ s.order x.addr := by
  have hn := h.numbered
  rw [hs] at hn
  exact fun he => (List.nodup_cons.mp hn).1 (List.mem_map.mpr ⟨y, hy, he⟩)

/-- Removing the head. -/
theorem Ordered.drop (h : s.Ordered) : s.drop.Ordered := by
  obtain ⟨signals, sent, order, started, removed⟩ := s
  cases signals with
  | nil => exact h
  | cons x rest =>
    by_cases hb : x.busy = true
    · have hd : SigLog.drop ⟨x :: rest, sent, order, started, removed⟩ =
          ⟨rest, sent, order, started, order x.addr :: removed⟩ := by
        simp [SigLog.drop, dropFinished, hb]
      rw [hd]
      have hother : ∀ y ∈ rest, order y.addr ≠ order x.addr := fun y hy => h.order_ne rfl hy
      refine
        { distinct := (List.nodup_cons.mp h.distinct).2
          numbered := (List.nodup_cons.mp h.numbered).2
          sorted := (List.pairwise_cons.mp h.sorted).2
          ahead := (List.pairwise_cons.mp h.ahead).2
          busy := fun y hy => h.busy y (.tail _ hy)
          once := h.once
          started := fun n hn => ?_
          sent := h.sent
          pending := fun n => ?_
          apart := fun y hy hm => ?_ }
      · rcases List.mem_cons.mp hn with rfl | hn
        · exact (h.busy x (.head _)).mp hb
        · exact h.started n hn
      · refine (h.pending n).trans ⟨?_, ?_⟩
        · rintro (hr | ⟨y, hy, rfl⟩)
          · exact .inl (.tail _ hr)
          · rcases List.mem_cons.mp hy with rfl | hy
            · exact .inl (.head _)
            · exact .inr ⟨y, hy, rfl⟩
        · rintro (hr | ⟨y, hy, rfl⟩)
          · rcases List.mem_cons.mp hr with rfl | hr
            · exact .inr ⟨x, .head _, rfl⟩
            · exact .inl hr
          · exact .inr ⟨y, .tail _ hy, rfl⟩
      · rcases List.mem_cons.mp hm with he | hm
        · exact hother y hy he
        · exact h.apart y (.tail _ hy) hm
    · have hd : SigLog.drop ⟨x :: rest, sent, order, started, removed⟩ =
          ⟨x :: rest, sent, order, started, removed⟩ := by
        simp [SigLog.drop, dropFinished, hb]
      rwa [hd]

/-- A check starts at most the head, which is first of all signals. -/
theorem Ordered.check (h : s.Ordered) (i : UDATA) : (s.check i).Ordered := by
  obtain ⟨signals, sent, order, started, removed⟩ := s
  cases signals with
  | nil => exact h
  | cons x rest =>
    by_cases hb : x.busy = true ∨ i ≠ 0
    · have hc : signalCheck i (x :: rest) = (x :: rest, false) := if_pos hb
      have hd : SigLog.check ⟨x :: rest, sent, order, started, removed⟩ i =
          ⟨x :: rest, sent, order, started, removed⟩ := by
        simp only [SigLog.check, hc]
      rwa [hd]
    · have hc : signalCheck i (x :: rest) = (x.mark :: rest, true) := if_neg hb
      have hd : SigLog.check ⟨x :: rest, sent, order, started, removed⟩ i =
          ⟨x.mark :: rest, sent, order, order x.addr :: started, removed⟩ := by
        simp only [SigLog.check, hc, mark_addr]
      have hsorted := List.pairwise_cons.mp h.sorted
      have hfresh : order x.addr ∉ started := fun hm =>
        hb (.inl ((h.busy x (.head _)).mpr hm))
      rw [hd]
      refine
        { distinct := h.distinct
          numbered := h.numbered
          sorted := List.pairwise_cons.mpr ⟨hsorted.1, hsorted.2⟩
          ahead := List.pairwise_cons.mpr ⟨fun y _ hx => ?_, (List.pairwise_cons.mp h.ahead).2⟩
          busy := fun y hy => ?_
          once := List.nodup_cons.mpr ⟨hfresh, h.once⟩
          started := fun n hn => .tail _ (h.started n hn)
          sent := fun n hn => ?_
          pending := fun n => ?_
          apart := fun y hy => ?_ }
      · exact absurd hx (by simp)
      · rcases List.mem_cons.mp hy with rfl | hy
        · exact ⟨fun _ => .head _, fun _ => mark_busy x⟩
        · refine (h.busy y (.tail _ hy)).trans ⟨.tail _, fun hm => ?_⟩
          exact (List.mem_cons.mp hm).resolve_left (h.order_ne rfl hy)
      · rcases List.mem_cons.mp hn with rfl | hn
        · exact h.order_lt (.head _)
        · exact h.sent n hn
      · refine (h.pending n).trans (or_congr_right ?_)
        simp only [List.mem_cons, exists_eq_or_imp, mark_addr]
      · rcases List.mem_cons.mp hy with rfl | hy
        · exact h.apart x (.head _)
        · exact h.apart y (.tail _ hy)

end SigLog

open SigLog

/-! ## Runs -/

/-- **One call** keeps the queue in order. -/
theorem queueStep_ordered {s s' : SigLog} {op : QueueOp} (h : s.Ordered) (hl : op.Legal s)
    (hs : queueStep s op = some s') : s'.Ordered := by
  cases op with
  | send addr sender signal extra priority =>
    obtain rfl := Option.some.inj hs
    exact h.send hl (newSignal_busy ..)
  | check i =>
    obtain rfl := Option.some.inj hs
    exact h.check i
  | endOfSignal =>
    obtain rfl := Option.some.inj hs
    exact h.drop.check 0

/-- What a check starts is first of all signals in the queue, and none that is marked is as
urgent. -/
theorem SigLog.Ordered.check_started {s : SigLog} {i : UDATA} {n : ℕ} (h : s.Ordered)
    (hn : n ∈ (s.check i).started) (hn' : n ∉ s.started) :
    ∃ x ∈ (s.check i).signals, (s.check i).order x.addr = n ∧
      ∀ y ∈ (s.check i).signals, y.addr ≠ x.addr →
        (s.check i).Before x y ∧ (y.busy = true → x.priority < y.priority) := by
  cases hs : s.signals with
  | nil =>
    refine absurd ?_ hn'
    simpa only [SigLog.check, hs, signalCheck] using hn
  | cons x rest =>
    by_cases hb : x.busy = true ∨ i ≠ 0
    · have hc : signalCheck i s.signals = (x :: rest, false) := by rw [hs]; exact if_pos hb
      refine absurd ?_ hn'
      simpa only [SigLog.check, hc] using hn
    · have hc : signalCheck i s.signals = (x.mark :: rest, true) := by rw [hs]; exact if_neg hb
      have hx : x.busy = false := by simpa using (not_or.mp hb).1
      have hn : n ∈ s.order x.addr :: s.started := by
        simpa only [SigLog.check, hc, mark_addr] using hn
      have hsig : (s.check i).signals = x.mark :: rest := by simp only [SigLog.check, hc]
      rw [hsig]
      refine ⟨x.mark, .head _, ((List.mem_cons.mp hn).resolve_right hn').symm, fun y hy hne => ?_⟩
      rcases List.mem_cons.mp hy with rfl | hy
      · exact absurd rfl hne
      · exact ⟨(h.head hs y hy).1, (h.head hs y hy).2 hx⟩

/-- What is removed was started before. -/
theorem SigLog.Ordered.drop_removed {s : SigLog} {n : ℕ} (h : s.Ordered)
    (hn : n ∈ s.drop.removed) (hn' : n ∉ s.removed) : n ∈ s.started := by
  cases hs : s.signals with
  | nil =>
    refine absurd ?_ hn'
    simpa only [SigLog.drop, hs] using hn
  | cons x rest =>
    by_cases hb : x.busy = true
    · have hn : n ∈ s.order x.addr :: s.removed := by
        simpa only [SigLog.drop, hs, hb, if_true] using hn
      obtain rfl := (List.mem_cons.mp hn).resolve_right hn'
      exact (h.busy x (hs ▸ .head _)).mp hb
    · refine absurd ?_ hn'
      simpa only [SigLog.drop, hs, if_neg hb] using hn

/-- **Signal order over runs.** The queue is in the order of priority, then of sending; every
signal sent is in the queue or was removed; none is started twice, and what an operation
removes was started before. What an operation starts is the first of all signals in the
queue, and every other one that is being handled is strictly less urgent. -/
theorem signal_order_run {s : SigLog} {ops : List QueueOp}
    (hr : Run queueStep (fun s op => op.Legal s) SigLog.empty ops s) :
    s.signals.Pairwise s.Before ∧ s.started.Nodup ∧ (∀ n ∈ s.removed, n ∈ s.started) ∧
      (∀ n, n < s.sent ↔ n ∈ s.removed ∨ ∃ x ∈ s.signals, s.order x.addr = n) ∧
      ∀ (op : QueueOp) s', op.Legal s → queueStep s op = some s' →
        (∀ n ∈ s'.removed, n ∉ s.removed → n ∈ s.started) ∧
        ∀ n ∈ s'.started, n ∉ s.started → ∃ x ∈ s'.signals, s'.order x.addr = n ∧
          ∀ y ∈ s'.signals, y.addr ≠ x.addr →
            s'.Before x y ∧ (y.busy = true → x.priority < y.priority) := by
  have h : s.Ordered := hr.invariant (I := Ordered)
    (fun h hl hs => queueStep_ordered h hl hs) Ordered.empty
  refine ⟨h.sorted, h.once, h.started, h.pending, fun op s' _ hs => ?_⟩
  cases op with
  | send addr sender signal extra priority =>
    obtain rfl := Option.some.inj hs
    exact ⟨fun n hn hn' => absurd hn hn', fun n hn hn' => absurd hn hn'⟩
  | check i =>
    obtain rfl := Option.some.inj hs
    exact ⟨fun n hn hn' => absurd hn hn', fun n hn hn' => h.check_started hn hn'⟩
  | endOfSignal =>
    obtain rfl := Option.some.inj hs
    exact ⟨fun n hn hn' => h.drop_removed hn hn', fun n hn hn' => h.drop.check_started hn hn'⟩

/-- A step of a thread with its signal frames is an operation on its queue, or leaves it. -/
theorem sigStep_queue {t t' : SigThread} {op : SigOp} {s : SigLog} (hs : s.signals = t.signals)
    (hl : op.Legal t) (hstep : sigStep t op = some t') :
    t'.signals = t.signals ∨ ∃ (qop : QueueOp) (s' : SigLog), qop.Legal s ∧
      queueStep s qop = some s' ∧ s'.signals = t'.signals := by
  cases op with
  | send addr sender signal extra priority =>
    obtain rfl := Option.some.inj hstep
    refine .inr ⟨.send addr sender signal extra priority, _, ?_, rfl, ?_⟩
    · show addr ∉ s.signals.map SIGNAL.addr
      rw [hs]
      exact hl
    · show ckSendSignal _ s.signals = _
      rw [hs]
  | resume i =>
    obtain rfl := Option.some.inj hstep
    refine .inr ⟨.check i, _, trivial, rfl, ?_⟩
    show (signalCheck i s.signals).1 = _
    rw [hs]
    rfl
  | signal =>
    left
    change ckSignal t = some t' at hstep
    unfold ckSignal at hstep
    split at hstep
    · obtain rfl := Option.some.inj hstep
      rfl
    · exact absurd hstep (by simp)
  | endOfSignal =>
    refine .inr ⟨.endOfSignal, _, trivial, rfl, ?_⟩
    show (ckEndOfSignal s.signals).1 = _
    rw [hs]
    change finishSignal t = some t' at hstep
    unfold finishSignal at hstep
    split at hstep
    · exact absurd hstep (by simp)
    · exact absurd hstep (by simp)
    · split at hstep
      all_goals
        next he =>
          obtain rfl := Option.some.inj hstep
          exact congrArg Prod.fst he

/-- The runs of a thread with its signal frames are such runs of its queue. -/
theorem sigRun_queue {t t' : SigThread} {ops : List SigOp}
    (hr : Run sigStep (fun s op => op.Legal s) t ops t') {s : SigLog}
    (hs : s.signals = t.signals) :
    ∃ ops' s', Run queueStep (fun s op => op.Legal s) s ops' s' ∧ s'.signals = t'.signals := by
  induction hr generalizing s with
  | nil => exact ⟨[], s, .nil s, hs⟩
  | cons hl hstep _ ih =>
    rcases sigStep_queue hs hl hstep with he | ⟨qop, s₁, hl', hs₁, he⟩
    · exact ih (hs.trans he.symm)
    · obtain ⟨ops', s', hr', he'⟩ := ih he
      exact ⟨qop :: ops', s', .cons hl' hs₁ hr', he'⟩

theorem signal_order_run_three : ∃ s, Run queueStep (fun s op => op.Legal s) SigLog.empty
      [.send 100 4 1 0 5, .check 0, .send 200 4 2 0 3, .send 300 4 3 0 3, .check 0] s ∧
    s.started = [1, 0] ∧ s.signals.Pairwise s.Before := by
  obtain ⟨s, hr, hp⟩ := Run.of_exec_any
    (show (exec queueStep (fun s op => op.Legal s) SigLog.empty
      [.send 100 4 1 0 5, .check 0, .send 200 4 2 0 3, .send 300 4 3 0 3, .check 0]).any
        (fun s => decide (s.started = [1, 0])) = true by decide +kernel)
  exact ⟨s, hr, of_decide_eq_true hp, (signal_order_run hr).1⟩

end Alliance.CK
