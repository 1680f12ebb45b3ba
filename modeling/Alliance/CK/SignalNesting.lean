import Alliance.CK.Signal
import Alliance.Lib.Run
import Mathlib.Tactic.ByContra

/-!
# Signal nesting

`Nested` is what the busy bits are for: the marked entries of the queue, in queue
order, are the entries of the frames whose handlers are not finished, innermost
first. A new signal is not marked and goes between them; a handler is started for
the head, which becomes both the first marked entry and the innermost frame.

Two things break it. `CKsignal` reads the head of the queue after interrupts are on
again, so a more urgent signal that arrived since the marking gets the handler. And
the end-of-signal code runs again when control returns into a frame whose handler is
already finished; if the head of the queue is marked then, it belongs to a handler
further out that is still running, and is removed. `SigOp.Regular` excludes just
these two.
-/

namespace Alliance.CK

open Lib

variable {s s' : SigThread} {op : SigOp}

/-- The marked entries, in queue order. -/
def busyEntries (signals : List SIGNAL) : List Addr :=
  (signals.filter SIGNAL.busy).map SIGNAL.addr

/-- The entries of handlers started and not finished, innermost first. -/
def openFrames (frames : List Frame) : List Addr :=
  (frames.filter (fun f => f.stage ≠ .finished)).map Frame.sig

/-- The marked entries are those of the handlers started and not finished. -/
def SigThread.Nested (s : SigThread) : Prop := busyEntries s.signals = openFrames s.frames

/-- Every pending signal has its own entry. -/
def SigThread.Distinct (s : SigThread) : Prop := (s.signals.map SIGNAL.addr).Nodup

/-- The conditions the nesting rests on: `CKsignal` finds the head of the queue marked, and
an end of signal executed again in a finished frame does not. -/
def SigOp.Regular (s : SigThread) : SigOp → Prop
  | .signal => ∀ head ∈ s.signals.head?, head.busy
  | .endOfSignal => ∀ f ∈ s.frames.head?, f.stage = .finished →
      ∀ head ∈ s.signals.head?, ¬ head.busy
  | _ => True

/-- What an operation may do to the entries of the queue: an end of signal in a frame whose
handler it finishes removes the entry of that handler; otherwise nothing is removed. -/
def SigOp.Removes (s s' : SigThread) : SigOp → Prop
  | .endOfSignal =>
    s'.signals.map SIGNAL.addr = s.signals.map SIGNAL.addr ∨
      ∃ f frames, s.frames = f :: frames ∧ f.stage ≠ .finished ∧
        s.signals.map SIGNAL.addr = f.sig :: s'.signals.map SIGNAL.addr
  | _ => (s.signals.map SIGNAL.addr).Sublist (s'.signals.map SIGNAL.addr)

/-! ## The queue -/

@[simp] theorem busyEntries_nil : busyEntries [] = [] := rfl

theorem busyEntries_cons (x : SIGNAL) (xs : List SIGNAL) :
    busyEntries (x :: xs) = if x.busy then x.addr :: busyEntries xs else busyEntries xs := by
  unfold busyEntries
  rw [List.filter_cons]
  split <;> rfl

theorem openFrames_cons (f : Frame) (fs : List Frame) :
    openFrames (f :: fs) = if f.stage = .finished then openFrames fs else f.sig :: openFrames fs := by
  unfold openFrames
  rw [List.filter_cons]
  by_cases h : f.stage = .finished <;> simp [h]

theorem busyEntries_sublist (xs : List SIGNAL) :
    (busyEntries xs).Sublist (xs.map SIGNAL.addr) := List.filter_sublist.map _

theorem insertBehind_perm (x : SIGNAL) (xs : List SIGNAL) :
    ∃ as bs, xs = as ++ bs ∧ insertBehind x xs = as ++ x :: bs := by
  induction xs with
  | nil => exact ⟨[], [], rfl, rfl⟩
  | cons y ys ih =>
      rw [insertBehind]
      split
      · obtain ⟨as, bs, h1, h2⟩ := ih
        exact ⟨y :: as, bs, by rw [h1]; rfl, by rw [h2]; rfl⟩
      · exact ⟨[], y :: ys, rfl, rfl⟩

/-- A signal that is sent goes somewhere into the queue. -/
theorem ckSendSignal_inserts (x : SIGNAL) (xs : List SIGNAL) :
    ∃ as bs, xs = as ++ bs ∧ ckSendSignal x xs = as ++ x :: bs := by
  cases xs with
  | nil => exact ⟨[], [], rfl, rfl⟩
  | cons y ys =>
      rw [ckSendSignal]
      split
      · exact ⟨[], y :: ys, rfl, rfl⟩
      · obtain ⟨as, bs, h1, h2⟩ := insertBehind_perm x ys
        exact ⟨y :: as, bs, by rw [h1]; rfl, by rw [h2]; rfl⟩

theorem busyEntries_append (xs ys : List SIGNAL) :
    busyEntries (xs ++ ys) = busyEntries xs ++ busyEntries ys := by
  simp [busyEntries]

theorem busyEntries_send {x : SIGNAL} (hx : x.busy = false) (xs : List SIGNAL) :
    busyEntries (ckSendSignal x xs) = busyEntries xs := by
  obtain ⟨as, bs, h1, h2⟩ := ckSendSignal_inserts x xs
  rw [h2, h1, busyEntries_append, busyEntries_append, busyEntries_cons, hx]
  simp

theorem addr_send (x : SIGNAL) (xs : List SIGNAL) :
    ((ckSendSignal x xs).map SIGNAL.addr).Perm (x.addr :: xs.map SIGNAL.addr) := by
  obtain ⟨as, bs, h1, h2⟩ := ckSendSignal_inserts x xs
  rw [h2, h1]
  simp

theorem sublist_send (x : SIGNAL) (xs : List SIGNAL) :
    (xs.map SIGNAL.addr).Sublist ((ckSendSignal x xs).map SIGNAL.addr) := by
  obtain ⟨as, bs, h1, h2⟩ := ckSendSignal_inserts x xs
  rw [h2, h1]
  exact ((List.sublist_cons_self x bs).append_left as).map _

/-- The check marks at most the head, so the entries stay what they are. -/
theorem addr_signalCheck (i : UDATA) (xs : List SIGNAL) :
    (signalCheck i xs).1.map SIGNAL.addr = xs.map SIGNAL.addr := by
  cases xs with
  | nil => rfl
  | cons x xs =>
      rw [signalCheck]
      split <;> simp

/-- **Starting a handler keeps the nesting**: the head is marked and gets the new frame. -/
theorem nested_pushFrame (i : UDATA) (xs : List SIGNAL) (fs : List Frame)
    (h : busyEntries xs = openFrames fs) : (pushFrame (signalCheck i xs) fs).Nested := by
  cases xs with
  | nil => exact h
  | cons x xs =>
      rw [signalCheck]
      split
      · exact h
      · rename_i hn
        have hx : x.busy = false := by
          cases hb : x.busy with
          | false => rfl
          | true => exact absurd (.inl hb) hn
        rw [busyEntries_cons, hx] at h
        simp only [SigThread.Nested, pushFrame, busyEntries_cons, openFrames_cons]
        simpa using h

/-! ## One step -/

/-- The head of the queue, if it is marked, is the entry of the innermost open frame. -/
theorem Nested.head_eq {x : SIGNAL} {xs : List SIGNAL} {f : Frame} {fs : List Frame}
    (h : busyEntries (x :: xs) = openFrames (f :: fs)) (hx : x.busy = true)
    (hf : f.stage ≠ .finished) : x.addr = f.sig ∧ busyEntries xs = openFrames fs := by
  rw [busyEntries_cons, if_pos hx, openFrames_cons, if_neg hf] at h
  exact List.cons.inj h

theorem nested_signal (hn : s.Nested) (hr : SigOp.Regular s .signal) (h : ckSignal s = some s') :
    s'.Nested ∧ s'.signals = s.signals := by
  obtain ⟨xs, fs⟩ := s
  unfold ckSignal at h
  split at h
  · rename_i sig frames x rest hfs hxs
    simp only at hfs hxs
    subst hfs hxs
    obtain rfl := Option.some.inj h
    have hx : x.busy = true := hr x (by simp)
    obtain ⟨ha, hrest⟩ := Nested.head_eq hn hx (by simp)
    refine ⟨?_, rfl⟩
    simp only [SigThread.Nested, busyEntries_cons, openFrames_cons, hx, hrest]
    simp
  · exact absurd h (by simp)

/-- Where `CKsignal` finds the head not marked, the handler it starts is not a marked one. -/
theorem not_nested_signal (hn : s.Nested) (hd : s.Distinct) (hr : ¬ SigOp.Regular s .signal)
    (h : ckSignal s = some s') : ¬ s'.Nested := by
  obtain ⟨xs, fs⟩ := s
  unfold ckSignal at h
  split at h
  · rename_i sig frames x rest hfs hxs
    simp only at hfs hxs
    subst hfs hxs
    obtain rfl := Option.some.inj h
    have hx : x.busy = false := by
      cases hb : x.busy with
      | false => rfl
      | true => exact absurd (fun y hy => by simp at hy; rw [← hy, hb]) hr
    intro hn'
    simp only [SigThread.Nested, busyEntries_cons, hx, openFrames_cons] at hn'
    -- the head's entry would be among the marked entries behind it
    have hmem : x.addr ∈ busyEntries rest := by
      simp at hn'
      rw [hn']
      exact List.mem_cons_self
    have hnd : x.addr ∉ rest.map SIGNAL.addr := (List.nodup_cons.mp hd).1
    exact hnd ((busyEntries_sublist rest).subset hmem)
  · exact absurd h (by simp)

/-- What an end of signal removes is the entry of the handler it finishes. -/
theorem nested_dropFinished {xs : List SIGNAL} {f : Frame} {fs : List Frame}
    (h : busyEntries xs = openFrames (f :: fs))
    (hr : f.stage = .finished → ∀ x ∈ xs.head?, ¬ x.busy) :
    busyEntries (dropFinished xs) = openFrames (f.ended xs :: fs) ∧
      ((dropFinished xs = xs ∧ f.ended xs = f ∧ ∀ x ∈ xs.head?, x.busy = false) ∨
        (f.stage ≠ .finished ∧ (f.ended xs).stage = .finished ∧
          xs.map SIGNAL.addr = f.sig :: (dropFinished xs).map SIGNAL.addr)) := by
  cases xs with
  | nil => exact ⟨h, .inl ⟨rfl, rfl, by simp⟩⟩
  | cons x xs =>
      unfold dropFinished Frame.ended
      cases hx : x.busy with
      | false =>
          have hn : ¬ x.busy = true := by simp [hx]
          simp only [if_neg hn]
          exact ⟨h, .inl ⟨trivial, trivial, by simp [hx]⟩⟩
      | true =>
          have hf : f.stage ≠ .finished := fun hf => hr hf x (by simp) hx
          obtain ⟨ha, hrest⟩ := Nested.head_eq h hx hf
          simp only [if_pos hx]
          refine ⟨?_, .inr ⟨hf, trivial, by rw [List.map_cons, ha]⟩⟩
          rw [hrest, openFrames_cons, if_pos rfl]

/-- **An end of signal keeps the nesting** where it does not find another handler's entry
in front. -/
theorem nested_finishSignal (hn : s.Nested) (hr : SigOp.Regular s .endOfSignal)
    (h : finishSignal s = some s') : s'.Nested ∧ SigOp.Removes s s' .endOfSignal := by
  obtain ⟨xs, fs⟩ := s
  unfold finishSignal at h
  split at h
  · exact absurd h (by simp)
  · exact absurd h (by simp)
  · rename_i f fs hnot hfs
    simp only at hfs
    subst hfs
    obtain ⟨hdrop, hcases⟩ := nested_dropFinished hn (hr f (by simp))
    have hrem : ∀ ys, ys.map SIGNAL.addr = (dropFinished xs).map SIGNAL.addr →
        ∀ gs, SigOp.Removes ⟨xs, f :: fs⟩ ⟨ys, gs⟩ .endOfSignal := by
      intro ys hys gs
      rcases hcases with ⟨he, -, -⟩ | ⟨hf, -, he⟩
      · exact .inl (by rw [hys, he])
      · exact .inr ⟨f, fs, rfl, hf, by rw [hys]; exact he⟩
    split at h
    · -- the next handler is started on top of the frame
      rename_i ys hc
      obtain rfl := Option.some.inj h
      have hpush := nested_pushFrame 0 _ _ hdrop
      unfold ckEndOfSignal at hc
      rw [hc] at hpush
      refine ⟨hpush, hrem ys ?_ _⟩
      rw [← addr_signalCheck 0 (dropFinished xs), hc]
    · -- the frame is left: its handler is finished, or nothing in the queue would be its own
      rename_i ys hc
      obtain rfl := Option.some.inj h
      unfold ckEndOfSignal at hc
      refine ⟨?_, hrem ys (by rw [← addr_signalCheck 0 (dropFinished xs), hc]) _⟩
      have hys : ys = dropFinished xs := by
        cases hd : dropFinished xs with
        | nil =>
            rw [hd] at hc
            exact (Prod.mk.inj hc).1.symm
        | cons y rest =>
            rw [hd, signalCheck] at hc
            split at hc
            · exact (Prod.mk.inj hc).1.symm
            · exact absurd (Prod.mk.inj hc).2 (by simp)
      subst hys
      unfold SigThread.Nested
      rw [hdrop, openFrames_cons, if_pos]
      rcases hcases with ⟨he, hf, hfree⟩ | ⟨-, hf, -⟩
      · by_contra hopen
        rw [openFrames_cons, if_neg hopen] at hdrop
        rw [he] at hc hdrop
        cases xs with
        | nil => exact absurd hdrop (by simp)
        | cons x rest =>
            have hx : x.busy = false := hfree x (by simp)
            rw [signalCheck, hx] at hc
            exact absurd hc (by simp)
      · exact hf

/-- Executed again in a finished frame, an end of signal that finds the head marked removes
an entry although it finishes no handler. -/
theorem not_removes_finishSignal (hr : ¬ SigOp.Regular s .endOfSignal)
    (h : finishSignal s = some s') : ¬ SigOp.Removes s s' .endOfSignal := by
  obtain ⟨xs, fs⟩ := s
  unfold finishSignal at h
  split at h
  · exact absurd h (by simp)
  · exact absurd h (by simp)
  · rename_i f fs hnot hfs
    simp only at hfs
    subst hfs
    have hfin : f.stage = .finished := by
      by_contra hf
      exact hr fun g hg hg' => by
        simp at hg
        exact absurd (hg ▸ hg') hf
    obtain ⟨x, rest, rfl, hx⟩ : ∃ x rest, xs = x :: rest ∧ x.busy = true := by
      cases xs with
      | nil => exact absurd (fun _ _ _ x hx => by simp at hx) hr
      | cons x rest =>
          refine ⟨x, rest, rfl, ?_⟩
          cases hx : x.busy with
          | true => rfl
          | false => exact absurd (fun _ _ _ y hy => by simp at hy; rw [← hy, hx]; simp) hr
    have haddr : s'.signals.map SIGNAL.addr = rest.map SIGNAL.addr := by
      have hdrop : dropFinished (x :: rest) = rest := by rw [dropFinished, if_pos hx]
      rw [← addr_signalCheck 0 rest, ← hdrop]
      split at h <;> obtain rfl := Option.some.inj h <;> rename_i ys hc <;>
        unfold ckEndOfSignal at hc <;> rw [hc]
      rfl
    rintro (he | ⟨g, gs, hg, hgf, -⟩)
    · have := congrArg List.length he
      rw [haddr] at this
      simp at this
    · exact hgf ((List.cons.inj hg).1 ▸ hfin)

theorem dropFinished_sublist (xs : List SIGNAL) : (dropFinished xs).Sublist xs := by
  cases xs with
  | nil => exact List.Sublist.refl _
  | cons x xs =>
      rw [dropFinished]
      split
      · exact List.sublist_cons_self x xs
      · exact List.Sublist.refl _

/-- Entries stay distinct. -/
theorem distinct_sigStep (hd : s.Distinct) (hl : op.Legal s) (h : sigStep s op = some s') :
    s'.Distinct := by
  cases op with
  | send addr sender signal extra priority =>
      obtain rfl := Option.some.inj h
      exact (addr_send _ _).nodup_iff.mpr (List.nodup_cons.mpr ⟨hl, hd⟩)
  | resume i =>
      obtain rfl := Option.some.inj h
      show ((signalCheck i s.signals).1.map SIGNAL.addr).Nodup
      rw [addr_signalCheck]
      exact hd
  | signal =>
      change ckSignal s = some s' at h
      unfold ckSignal at h
      split at h
      · obtain rfl := Option.some.inj h
        exact hd
      · exact absurd h (by simp)
  | endOfSignal =>
      change finishSignal s = some s' at h
      have hdrop : ((dropFinished s.signals).map SIGNAL.addr).Nodup :=
        hd.sublist ((dropFinished_sublist s.signals).map _)
      rw [← addr_signalCheck 0] at hdrop
      unfold finishSignal at h
      split at h
      · exact absurd h (by simp)
      · exact absurd h (by simp)
      · split at h <;> obtain rfl := Option.some.inj h <;> rename_i ys hc <;>
          unfold ckEndOfSignal at hc <;> rw [hc] at hdrop <;> exact hdrop

/-- **One regular step** keeps the nesting and removes no entry but the finishing handler's. -/
theorem nested_sigStep (hn : s.Nested) (hr : op.Regular s) (h : sigStep s op = some s') :
    s'.Nested ∧ op.Removes s s' := by
  cases op with
  | send addr sender signal extra priority =>
      obtain rfl := Option.some.inj h
      refine ⟨?_, sublist_send _ _⟩
      unfold SigThread.Nested
      rw [busyEntries_send (newSignal_busy ..)]
      exact hn
  | resume i =>
      obtain rfl := Option.some.inj h
      refine ⟨nested_pushFrame i _ _ hn, ?_⟩
      show (s.signals.map SIGNAL.addr).Sublist ((signalCheck i s.signals).1.map SIGNAL.addr)
      simp only [addr_signalCheck, List.Sublist.refl]
  | signal =>
      obtain ⟨hn', he⟩ := nested_signal hn hr h
      refine ⟨hn', ?_⟩
      show (s.signals.map SIGNAL.addr).Sublist (s'.signals.map SIGNAL.addr)
      simp only [he, List.Sublist.refl]
  | endOfSignal => exact nested_finishSignal hn hr h

/-- A step that keeps the nesting and removes no other entry is a regular one. -/
theorem regular_of_nested (hn : s.Nested) (hd : s.Distinct) (h : sigStep s op = some s')
    (hn' : s'.Nested) (hrem : op.Removes s s') : op.Regular s := by
  by_contra hr
  cases op with
  | send => exact hr trivial
  | resume => exact hr trivial
  | signal => exact not_nested_signal hn hd hr h hn'
  | endOfSignal => exact not_removes_finishSignal hr h hrem

/-! ## Runs -/

end Alliance.CK
