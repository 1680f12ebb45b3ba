import Alliance.CK.Memory

/-!
# Who holds memory

The blocks that were allocated and not freed since, each under a name for its holder. None of
their bytes is free, and no byte is in two of them. An allocation adds a holder, and freeing the
block of a holder takes the holder out, so what is allocated is never a block that is held.
-/

namespace Alliance.CK

open Function
open KL (adjustSize)
open KL.KLfreeListDescriptor (InBlock)

variable {ι : Type} {s s' : Memory} {live live' : ι → Prop} {block block' : ι → UADDR × UADDR}
  {i : ι} {r size : UADDR}

/-- The byte is in the block, whose size is rounded up. -/
def InHeld (b : UADDR × UADDR) (a : Nat) : Prop := InBlock b.1 (adjustSize b.2) a

/-- **The blocks of the holders**, with the sizes that they were asked for. -/
structure Held (s : Memory) (live : ι → Prop) (block : ι → UADDR × UADDR) : Prop where
  quiet : s.Quiet
  proper : ∀ i, live i → (block i).1 ≠ KL.NIL ∧ adjustSize (block i).2 ≠ 0#32
  taken : ∀ i, live i → ∀ a, InHeld (block i) a → a < KL.ADDRESSES ∧ ¬ s.FreeByte a
  apart : ∀ i j, live i → live j → i ≠ j → ∀ a, InHeld (block i) a → ¬ InHeld (block j) a

namespace Held

theorem none (hq : s.Quiet) (hlive : ∀ i, ¬ live i) : Held s live block where
  quiet := hq
  proper i hi := absurd hi (hlive i)
  taken i hi := absurd hi (hlive i)
  apart i _ hi := absurd hi (hlive i)

/-- The same blocks, with no more bytes free. -/
theorem mono (h : Held s live block) (hq : s'.Quiet) (hfree : ∀ a, s'.FreeByte a → s.FreeByte a)
    (hlive : ∀ i, live' i → live i) (hblock : ∀ i, live' i → block' i = block i) :
    Held s' live' block' where
  quiet := hq
  proper i hi := by
    rw [hblock i hi]
    exact h.proper i (hlive i hi)
  taken i hi a ha := by
    rw [hblock i hi] at ha
    exact (h.taken i (hlive i hi) a ha).imp_right fun hn hf => hn (hfree a hf)
  apart i j hi hj hne := by
    rw [hblock i hi, hblock j hj]
    exact h.apart i j (hlive i hi) (hlive j hj) hne

/-- The first byte of a block. -/
theorem start_mem (h : Held s live block) (hi : live i) :
    InHeld (block i) (block i).1.toNat := by
  have hpos := (KL.KLfreeListDescriptor.adjustSize_cases (block i).2).resolve_left (h.proper i hi).2
  exact ⟨Nat.le_refl _, by omega⟩

/-- **What is allocated** is held by nobody. -/
theorem fresh (h : Held s live block) (ht : s.Takes s' r (adjustSize size)) (hr : r ≠ KL.NIL)
    (hi : live i) : block i ≠ (r, size) := by
  intro he
  rcases ht with ⟨h0, -⟩ | ⟨-, hin, -⟩
  · exact hr h0
  · have hstart := h.start_mem hi
    have htaken := (h.taken i hi _ hstart).2
    unfold InHeld at hstart
    rw [he] at hstart htaken
    exact htaken (hin _ hstart)

/-- **An allocation** adds a holder. -/
theorem took (h : Held s live block) (hq : s'.Quiet) (ht : s.Takes s' r (adjustSize size))
    (hr : r ≠ KL.NIL) (hsize : adjustSize size ≠ 0#32)
    (hlive : ∀ j, live' j → j = i ∨ live j) (hnew : block' i = (r, size))
    (hold : ∀ j, j ≠ i → live' j → block' j = block j) : Held s' live' block' := by
  rcases ht with ⟨h0, -⟩ | ⟨-, hin, hfree⟩
  · exact absurd h0 hr
  have hother : ∀ j, j ≠ i → live' j → live j ∧ block' j = block j := fun j hj hl =>
    ⟨(hlive j hl).resolve_left hj, hold j hj hl⟩
  -- the bytes of the new block were free
  have hout : ∀ j, j ≠ i → live' j → ∀ a, InHeld (block' j) a → ¬ InHeld (block' i) a := by
    intro j hj hl a ha hai
    obtain ⟨hlj, hbj⟩ := hother j hj hl
    rw [hbj] at ha
    rw [hnew] at hai
    exact (h.taken j hlj a ha).2 (hin a hai)
  refine ⟨hq, fun j hl => ?_, fun j hl a ha => ?_, fun j j' hl hl' hne a ha ha' => ?_⟩
  · by_cases hj : j = i
    · subst hj
      rw [hnew]
      exact ⟨hr, hsize⟩
    · obtain ⟨hlj, hbj⟩ := hother j hj hl
      rw [hbj]
      exact h.proper j hlj
  · by_cases hj : j = i
    · subst hj
      rw [hnew] at ha
      exact ⟨(hin a ha).bound, fun hf => ((hfree a).mp hf).2 ha⟩
    · obtain ⟨hlj, hbj⟩ := hother j hj hl
      rw [hbj] at ha
      exact (h.taken j hlj a ha).imp_right fun hn hf => hn ((hfree a).mp hf).1
  · by_cases hj : j = i
    · subst hj
      exact hout j' (Ne.symm hne) hl' a ha' ha
    · by_cases hj' : j' = i
      · subst hj'
        exact hout j hj hl a ha ha'
      · obtain ⟨hlj, hbj⟩ := hother j hj hl
        obtain ⟨hlj', hbj'⟩ := hother j' hj' hl'
        rw [hbj] at ha
        rw [hbj'] at ha'
        exact h.apart j j' hlj hlj' hne a ha ha'

/-- **Freeing** the block of a holder takes the holder out. -/
theorem gave (h : Held s live block) (hi : live i)
    (hs : s.ckMemFree (block i).1 (block i).2 = .ok (s', ()))
    (hlive : ∀ j, live' j → j ≠ i ∧ live j) (hblock : ∀ j, live' j → block' j = block j) :
    Held s' live' block' := by
  obtain ⟨hdata, hsize⟩ := h.proper i hi
  have hpos := (KL.KLfreeListDescriptor.adjustSize_cases (block i).2).resolve_left hsize
  have hlast : InHeld (block i) ((block i).1.toNat + (adjustSize (block i).2).toNat - 1) :=
    ⟨by omega, by omega⟩
  have hbound := (h.taken i hi _ hlast).1
  obtain ⟨s₁, hs₁, hq₁, hfree₁⟩ := h.quiet.ckMemFree_gives hdata hsize (by omega)
    fun a ha => (h.taken i hi a ha).2
  obtain ⟨rfl, -⟩ := Prod.mk.inj (Except.ok.inj (hs₁.symm.trans hs))
  refine ⟨hq₁, fun j hl => ?_, fun j hl a ha => ?_, fun j j' hl hl' hne => ?_⟩
  · rw [hblock j hl]
    exact h.proper j (hlive j hl).2
  · obtain ⟨hj, hlj⟩ := hlive j hl
    rw [hblock j hl] at ha
    refine (h.taken j hlj a ha).imp_right fun hn hf => ?_
    rcases (hfree₁ a).mp hf with hf | hin
    · exact hn hf
    · exact h.apart j i hlj hi hj a ha hin
  · rw [hblock j hl, hblock j' hl']
    exact h.apart j j' (hlive j hl).2 (hlive j' hl').2 hne

end Held

end Alliance.CK
