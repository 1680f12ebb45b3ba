import Mathlib.Data.List.Basic
import Mathlib.Logic.Function.Basic
import Mathlib.Algebra.Group.Nat.Defs

/-!
# Loops that fill an array

`storeAlong` is the loop that writes cells, one value for each. A cell behind the loop
has its value from the loop if the loop came past it (`storeAlong_inside`), else its old one
(`storeAlong_outside`). `fill` does so with the cells of an array one behind the other, and `store`
in a memory whose addresses are words. `copyAlong` reads what it stores from the memory as the
loop has left it: it is a copy of what was there before if no cell gets another value than it had
(`copyAlong_iff`), and of what is there behind it if no source gets another one after it is read
(`copyAlong_shared_iff`).
A cell that was empty adds its value to those of an array (`filterMap_update_perm`).
-/

namespace Alliance.Lib

open Function

variable {α κ : Type} [DecidableEq κ] {m : κ → α} {dst src : Nat → κ} {c : κ}
  {mem : Nat → α} {f : Nat → α} {start n a i : Nat}

/-! ## Cells anywhere -/

/-- `for(i = 0; i < n; i++) m[dst(i)] = f(i)`. -/
def storeAlong (dst : Nat → κ) (n : Nat) (f : Nat → α) (m : κ → α) : κ → α :=
  (List.range n).foldl (fun m i => update m (dst i) (f i)) m

theorem storeAlong_succ :
    storeAlong dst (n + 1) f m = update (storeAlong dst n f m) (dst n) (f n) := by
  rw [storeAlong, List.range_succ, List.foldl_append]
  rfl

theorem storeAlong_outside (h : ∀ i < n, c ≠ dst i) : storeAlong dst n f m c = m c := by
  induction n with
  | zero => rfl
  | succ n ih =>
      rw [storeAlong_succ, update_of_ne (h n (Nat.lt_succ_self n))]
      exact ih fun i hi => h i (Nat.lt_succ_of_lt hi)

/-- A cell that the loop comes to only once. -/
theorem storeAlong_self (h : i < n) (hi : ∀ j < n, dst j = dst i → j = i) :
    storeAlong dst n f m (dst i) = f i := by
  induction n with
  | zero => exact absurd h (Nat.not_lt_zero i)
  | succ n ih =>
      rw [storeAlong_succ]
      by_cases hn : i = n
      · rw [hn, update_self]
      · rw [update_of_ne fun he => hn (hi n (Nat.lt_succ_self n) he.symm).symm]
        exact ih (by omega) fun j hj => hi j (Nat.lt_succ_of_lt hj)

theorem storeAlong_inside (hinj : ∀ i < n, ∀ j < n, dst i = dst j → i = j) (h : i < n) :
    storeAlong dst n f m (dst i) = f i :=
  storeAlong_self h fun j hj he => hinj j hj i h he

/-- One value for all cells. -/
theorem storeAlong_const (b : α) (h : ∃ i < n, c = dst i) :
    storeAlong dst n (fun _ => b) m c = b := by
  induction n with
  | zero =>
      obtain ⟨i, hi, -⟩ := h
      exact absurd hi (Nat.not_lt_zero i)
  | succ n ih =>
      rw [storeAlong_succ]
      by_cases hn : c = dst n
      · rw [hn, update_self]
      · rw [update_of_ne hn]
        obtain ⟨i, hi, he⟩ := h
        refine ih ⟨i, Nat.lt_of_le_of_ne (Nat.le_of_lt_succ hi) ?_, he⟩
        rintro rfl
        exact hn he

/-! ## Consecutive cells -/

/-- `for(i = 0; i < n; i++) mem[start + i] = f(i)`. -/
def fill (start n : Nat) (f mem : Nat → α) : Nat → α :=
  (List.range n).foldl (fun mem i => update mem (start + i) (f i)) mem

theorem fill_eq : fill start n f mem = storeAlong (start + ·) n f mem := rfl

theorem fill_outside (h : a < start ∨ start + n ≤ a) : fill start n f mem a = mem a := by
  rw [fill_eq]
  exact storeAlong_outside fun i hi => by omega

theorem fill_inside (h : i < n) : fill start n f mem (start + i) = f i := by
  rw [fill_eq]
  have hinj : ∀ i < n, ∀ j < n, start + i = start + j → i = j := fun i _ j _ => Nat.add_left_cancel
  exact storeAlong_inside hinj h

/-! ## Arrays of which some cells are empty -/

/-- A value that is added where there was none. -/
theorem filterMap_update_perm {f : Nat → Option α} {b : α} (hi : i < n) (hnone : f i = none) :
    ((List.range n).filterMap (update f i (some b))).Perm ((List.range n).filterMap f ++ [b]) := by
  induction n with
  | zero => exact absurd hi (Nat.not_lt_zero i)
  | succ n ih =>
      rw [List.range_succ, List.filterMap_append, List.filterMap_append]
      by_cases hlast : i = n
      · subst hlast
        have hsame :
            (List.range i).filterMap (update f i (some b)) = (List.range i).filterMap f := by
          refine List.filterMap_congr fun j hj => update_of_ne ?_ _ _
          exact Nat.ne_of_lt (List.mem_range.mp hj)
        rw [hsame]
        simp [hnone]
      · have hother : [n].filterMap (update f i (some b)) = [n].filterMap f := by
          refine List.filterMap_congr fun j hj => ?_
          obtain rfl := List.mem_singleton.mp hj
          exact update_of_ne (Ne.symm hlast) _ _
        rw [hother]
        refine ((ih (by omega)).append_right _).trans ?_
        rw [List.append_assoc, List.append_assoc]
        exact List.perm_append_comm.append_left _

/-! ## Addresses of `w` bits -/

variable {w : Nat} {memory : BitVec w → α} {x p : BitVec w}

/-- The `n` cells from `p` on. -/
def store (memory : BitVec w → α) (p : BitVec w) (n : Nat) (f : Nat → α) : BitVec w → α :=
  (List.range n).foldl (fun memory i => update memory (p + BitVec.ofNat w i) (f i)) memory

theorem store_eq : store memory p n f = storeAlong (fun i => p + BitVec.ofNat w i) n f memory := rfl

theorem store_outside (h : ∀ i < n, x ≠ p + BitVec.ofNat w i) :
    store memory p n f x = memory x := by
  rw [store_eq]
  exact storeAlong_outside h

/-- The cells do not meet again behind the end of the address space. -/
theorem store_inside (hn : n ≤ 2 ^ w) (h : i < n) :
    store memory p n f (p + BitVec.ofNat w i) = f i := by
  have hinj : ∀ i < n, ∀ j < n, p + BitVec.ofNat w i = p + BitVec.ofNat w j → i = j := by
    intro i hi j hj he
    have h := congrArg BitVec.toNat ((BitVec.add_right_inj p).mp he)
    rwa [BitVec.toNat_ofNat, BitVec.toNat_ofNat, Nat.mod_eq_of_lt (by omega),
      Nat.mod_eq_of_lt (by omega)] at h
  rw [store_eq]
  exact storeAlong_inside hinj h

/-! ## Copies -/

/-- `for(i = 0; i < n; i++) m[dst(i)] = m[src(i)]`. -/
def copyAlong (dst src : Nat → κ) (n : Nat) (m : κ → α) : κ → α :=
  (List.range n).foldl (fun m i => update m (dst i) (m (src i))) m

theorem copyAlong_succ : copyAlong dst src (n + 1) m =
    update (copyAlong dst src n m) (dst n) (copyAlong dst src n m (src n)) := by
  rw [copyAlong, List.range_succ, List.foldl_append]
  rfl

/-- Each cell gets what its source has by then. -/
theorem copyAlong_store : copyAlong dst src n m =
    storeAlong dst n (fun i => copyAlong dst src i m (src i)) m := by
  induction n with
  | zero => rfl
  | succ n ih => rw [copyAlong_succ, storeAlong_succ, ← ih]

theorem copyAlong_outside (h : ∀ i < n, c ≠ dst i) : copyAlong dst src n m c = m c := by
  rw [copyAlong_store]
  exact storeAlong_outside h

/-- The rounds that do not come to a cell leave it. -/
theorem copyAlong_since (hi : i ≤ n) (h : ∀ j < n, i ≤ j → c ≠ dst j) :
    copyAlong dst src n m c = copyAlong dst src i m c := by
  induction n with
  | zero => rw [Nat.le_zero.mp hi]
  | succ n ih =>
      rcases Nat.le_succ_iff.mp hi with hle | rfl
      · rw [copyAlong_succ, update_of_ne (h n (Nat.lt_succ_self n) hle)]
        exact ih hle fun j hj => h j (Nat.lt_succ_of_lt hj)
      · rfl

/-- A cell keeps what it gets. -/
theorem copyAlong_inside (hinj : ∀ i < n, ∀ j < n, dst i = dst j → i = j) (h : i < n) :
    copyAlong dst src n m (dst i) = copyAlong dst src i m (src i) := by
  rw [copyAlong_store, storeAlong_inside hinj h]

/-- Where the loop leaves its sources as they were, the copies are what was there before. -/
theorem copyAlong_eq (hinj : ∀ i < n, ∀ j < n, dst i = dst j → i = j)
    (hsrc : ∀ i < n, copyAlong dst src n m (src i) = m (src i)) (h : i < n) :
    copyAlong dst src n m (dst i) = m (src i) := by
  rw [copyAlong_inside hinj h]
  -- the source was overwritten by an earlier round, which it kept, or not at all
  by_cases hearly : ∃ j < i, src i = dst j
  · obtain ⟨j, hj, he⟩ := hearly
    have hinj' : ∀ a < i, ∀ b < i, dst a = dst b → a = b := fun a ha b hb =>
      hinj a (Nat.lt_trans ha h) b (Nat.lt_trans hb h)
    have hkept : copyAlong dst src n m (dst j) = copyAlong dst src j m (src j) :=
      copyAlong_inside hinj (Nat.lt_trans hj h)
    rw [he, copyAlong_inside hinj' hj, ← hkept, ← he]
    exact hsrc i h
  · exact copyAlong_outside fun j hj he => hearly ⟨j, hj, he⟩

/-- The sources are as they were if a source that is also a destination gets its own value. -/
theorem copyAlong_iff (hinj : ∀ i < n, ∀ j < n, dst i = dst j → i = j) :
    (∀ i < n, copyAlong dst src n m (src i) = m (src i)) ↔
      ∀ i < n, ∀ j < n, dst i = src j → m (src i) = m (src j) := by
  constructor
  · intro hsrc i hi j hj he
    rw [← copyAlong_eq hinj hsrc hi, he]
    exact hsrc j hj
  · intro hsame
    -- no round changes a source
    have key : ∀ k ≤ n, ∀ i < n, copyAlong dst src k m (src i) = m (src i) := by
      intro k
      induction k with
      | zero => exact fun _ _ _ => rfl
      | succ k ih =>
          intro hk i hi
          rw [copyAlong_succ]
          by_cases he : src i = dst k
          · rw [he, update_self, ih (by omega) k (by omega), ← he]
            exact hsame k (by omega) i hi he.symm
          · rw [update_of_ne he]
            exact ih (by omega) i hi
    exact key n (Nat.le_refl n)

/-- In the end each cell has what its source has, where the loop comes to a source before it is
read; where it comes to it behind, the cell that is stored there then has to have the same. -/
theorem copyAlong_shared_iff (hinj : ∀ i < n, ∀ j < n, dst i = dst j → i = j)
    (hside : (∀ i < n, ∀ j < n, dst j = src i → j ≤ i) ∨
      ∀ i < n, ∀ j < n, dst j = src i → i ≤ j) :
    (∀ i < n, copyAlong dst src n m (dst i) = copyAlong dst src n m (src i)) ↔
      ∀ i < n, ∀ j < n, i < j → dst j = src i → m (src j) = m (src i) := by
  rcases hside with hbefore | hbehind
  · refine iff_of_true (fun i hi => ?_) fun i hi j hj hlt he =>
      absurd (hbefore i hi j hj he) (Nat.not_le.mpr hlt)
    rw [copyAlong_inside hinj hi]
    by_cases he : dst i = src i
    · rw [← copyAlong_inside hinj hi, he]
    · refine (copyAlong_since (Nat.le_of_lt hi) fun j hj hle hj' => he ?_).symm
      obtain rfl := Nat.le_antisymm hle (hbefore i hi j hj hj'.symm)
      exact hj'.symm
  · -- every read comes before the store to what it reads
    have hread : ∀ i < n, copyAlong dst src n m (dst i) = m (src i) := by
      intro i hi
      rw [copyAlong_inside hinj hi]
      exact copyAlong_outside fun j hj he =>
        absurd (hbehind i hi j (Nat.lt_trans hj hi) he.symm) (Nat.not_le.mpr hj)
    constructor
    · intro hsame i hi j hj _ he
      rw [← hread j hj, he, ← hsame i hi, hread i hi]
    · intro hword i hi
      rw [hread i hi]
      by_cases he : ∃ j < n, src i = dst j
      · obtain ⟨j, hj, he⟩ := he
        rw [congrArg (copyAlong dst src n m) he, hread j hj]
        rcases Nat.lt_or_eq_of_le (hbehind i hi j hj he.symm) with hlt | rfl
        · exact (hword i hi j hj hlt he.symm).symm
        · rfl
      · exact (copyAlong_outside fun j hj hj' => he ⟨j, hj, hj'⟩).symm

end Alliance.Lib
