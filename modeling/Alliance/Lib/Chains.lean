import Alliance.Lib.Queue

/-!
# Chains that share their nodes

The chains of a hash table take their nodes from one array, and have no node in common. A new node
is put at the head of a chain (`Chains.push`), and a node that was found may be moved there
(`Chains.toFront`). Neither touches the other chains.
-/

namespace Alliance.Lib

open Function

variable {α ι : Type} {nil p a x : α} {fwd fwd' : α → α} {l as bs : List α}

/-- A new node in front of the others. -/
theorem Chained.push [DecidableEq α] (h : Chained nil fwd p l) (hx : x ≠ nil) (hl : x ∉ l) :
    Chained nil (update fwd x p) x (x :: l) := by
  refine ⟨rfl, hx, ?_⟩
  rw [update_self]
  exact h.congr fun y hy => update_of_ne (ne_of_mem_of_not_mem hy hl) _ _

/-- A node is taken out, and put in front of the others. -/
theorem Chained.toFront [DecidableEq α] (h : Chained nil fwd p (as ++ a :: x :: bs)) :
    Chained nil (update (update fwd a (fwd x)) x p) x (x :: (as ++ a :: bs)) := by
  have hbehind : Chained nil fwd p ((as ++ [a]) ++ x :: bs) := by rwa [List.append_assoc]
  obtain ⟨hx, hrest⟩ := List.nodup_cons.mp (List.nodup_middle.mp hbehind.nodup)
  rw [List.append_assoc, List.singleton_append] at hx hrest
  have ha : a ∉ bs := (List.nodup_cons.mp (List.nodup_append.mp hrest).2.1).1
  have hnil : x ≠ nil := fun he => h.nil_notMem (he ▸ List.mem_append_right _ (.tail _ (.head _)))
  exact (h.retarget hbehind.after ha).push hnil hx

/-- The chains of a table. -/
structure Chains (nil : α) (fwd : α → α) (head : ι → α) (chain : ι → List α) : Prop where
  chained : ∀ b, Chained nil fwd (head b) (chain b)
  disjoint : ∀ {b c a}, a ∈ chain b → a ∈ chain c → b = c

namespace Chains

variable {head : ι → α} {chain : ι → List α} {b : ι}

theorem empty : Chains nil fwd (fun _ : ι => nil) fun _ => [] where
  chained _ := rfl
  disjoint h _ := absurd h List.not_mem_nil

theorem congr (h : Chains nil fwd head chain) (hf : ∀ c, ∀ y ∈ chain c, fwd' y = fwd y) :
    Chains nil fwd' head chain :=
  ⟨fun c => (h.chained c).congr (hf c), h.disjoint⟩

variable [DecidableEq ι]

/-- One chain is another one, and the links of the others are kept. -/
theorem replace (h : Chains nil fwd head chain) (hl : Chained nil fwd' p l)
    (hfwd : ∀ c ≠ b, ∀ y ∈ chain c, fwd' y = fwd y) (hnew : ∀ c ≠ b, ∀ y ∈ l, y ∉ chain c) :
    Chains nil fwd' (update head b p) (update chain b l) where
  chained c := by
    by_cases hc : c = b
    · rw [hc, update_self, update_self]
      exact hl
    · rw [update_of_ne hc, update_of_ne hc]
      exact (h.chained c).congr (hfwd c hc)
  disjoint := by
    intro c d y hc hd
    by_cases hcb : c = b <;> by_cases hdb : d = b
    · rw [hcb, hdb]
    · rw [hcb, update_self] at hc
      rw [update_of_ne hdb] at hd
      exact absurd hd (hnew d hdb y hc)
    · rw [hdb, update_self] at hd
      rw [update_of_ne hcb] at hc
      exact absurd hc (hnew c hcb y hd)
    · rw [update_of_ne hcb] at hc
      rw [update_of_ne hdb] at hd
      exact h.disjoint hc hd

variable [DecidableEq α]

theorem push (h : Chains nil fwd head chain) (hx : x ≠ nil) (hnew : ∀ c, x ∉ chain c) (b : ι) :
    Chains nil (update fwd x (head b)) (update head b x) (update chain b (x :: chain b)) := by
  refine h.replace ((h.chained b).push hx (hnew b))
    (fun c _ y hy => update_of_ne (ne_of_mem_of_not_mem hy (hnew c)) _ _) ?_
  intro c hc y hy hyc
  rcases List.mem_cons.mp hy with rfl | hy
  · exact hnew c hyc
  · exact hc (h.disjoint hyc hy)

theorem toFront (h : Chains nil fwd head chain) (hb : chain b = as ++ a :: x :: bs) :
    Chains nil (update (update fwd a (fwd x)) x (head b)) (update head b x)
      (update chain b (x :: (as ++ a :: bs))) := by
  have hold : ∀ y ∈ x :: (as ++ a :: bs), y ∈ chain b := by
    intro y hy
    rw [hb]
    simp only [List.mem_cons, List.mem_append] at hy ⊢
    tauto
  have hchain := h.chained b
  rw [hb] at hchain
  refine h.replace hchain.toFront (fun c hc y hy => ?_) fun c hc y hy hyc =>
    hc (h.disjoint hyc (hold y hy))
  have hother : ∀ z ∈ x :: (as ++ a :: bs), y ≠ z := fun z hz he =>
    hc (h.disjoint hy (hold y (he ▸ hz)))
  rw [update_of_ne (hother x (.head _)),
    update_of_ne (hother a (.tail _ (List.mem_append_right _ (.head _))))]

end Chains

end Alliance.Lib
