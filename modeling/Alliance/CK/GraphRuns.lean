import Alliance.CK.GraphProof
import Mathlib.Data.Multiset.AddSub

/-!
# Runs of the dependency array

Edges are added and removed in any order and by either removal, the one by slot and
the one by search. Over every such run the array stays sorted, the edges of a parent
stay together and every header knows where its own start; and each call changes the
edges by the one it names and leaves the others of every parent in their order.
-/

namespace Alliance.CK

open Lib

/-- The calls into `graph.c`, and the search that `objmgmt.c` removes edges by. -/
inductive DepOp where
  | add (parent child : Addr)
  | remove (dep : Nat)
  | removeSearch (object child : Addr)

def depStep (g : ODG) : DepOp → Option ODG
  | .add parent child => ckAddObjectDep g parent child
  | .remove dep => some (ckRemoveObjectDep g dep)
  | .removeSearch object child => some (ckRemoveDepSearch g object child)

/-- There is room for an edge that is added, its parent is not the word before the
table, and a slot that is freed holds an edge. -/
def DepOp.Legal (g : ODG) : DepOp → Prop
  | .add parent _ => g.lastDep < MAXDEPS ∧ parent ≠ g.before
  | .remove dep => dep < g.lastDep
  | .removeSearch _ _ => True

/-- `es'` has the edge `e` more than `es`, and the edges of every parent in the order they
have in `es`. -/
def OneMore (e : EDGE) (es es' : List EDGE) : Prop :=
  (es' : Multiset EDGE) = e ::ₘ (es : Multiset EDGE) ∧
    ∀ v, (es.filter (fun e => e.parent = v)).Sublist (es'.filter (fun e => e.parent = v))

/-- What an operation does to the edges. -/
def DepOp.Changes (g g' : ODG) : DepOp → Prop
  | .add parent child => OneMore ⟨parent, child⟩ g.edges g'.edges
  | .remove dep => OneMore (g.oda dep) g'.edges g.edges
  | .removeSearch object child =>
    (⟨object, child⟩ ∈ g.edges → OneMore ⟨object, child⟩ g'.edges g.edges) ∧
      (⟨object, child⟩ ∉ g.edges → g'.edges = g.edges)

theorem Inserted.oneMore {e : EDGE} {es es' : List EDGE} (h : Inserted e es es') :
    OneMore e es es' :=
  ⟨h.multiset, fun _ => h.order _⟩

/-- **One call** keeps the array indexed and changes the edges as it says. -/
theorem depStep_indexed {g g' : ODG} {op : DepOp} (hg : g.Indexed) (hl : op.Legal g)
    (h : depStep g op = some g') : g'.Indexed ∧ op.Changes g g' := by
  cases op with
  | add p c =>
    obtain ⟨hins, hi, -⟩ := ckAddObjectDep_spec hg hl.2 h
    exact ⟨hi, hins.oneMore⟩
  | remove k =>
    obtain rfl := Option.some.inj h
    obtain ⟨hrem, hi, -⟩ := ckRemoveObjectDep_spec hg hl
    exact ⟨hi, hrem.inserted.oneMore⟩
  | removeSearch v c =>
    obtain rfl := Option.some.inj h
    rcases ckRemoveDepSearch_spec hg v c with ⟨k, hk, -, hlt, heq⟩ | ⟨hnot, heq⟩
    · rw [heq]
      obtain ⟨hrem, hi, -⟩ := ckRemoveObjectDep_spec hg hlt
      refine ⟨hi, fun _ => ?_, fun hnot => ?_⟩
      · rw [← hk]
        exact hrem.inserted.oneMore
      · exact absurd (ODG.mem_edges.mpr ⟨k, hlt, hk⟩) hnot
    · rw [heq]
      exact ⟨hg, fun hmem => absurd hmem hnot, fun _ => rfl⟩

/-- Every legal call is defined. -/
theorem depStep_isSome {g : ODG} {op : DepOp} (hl : op.Legal g) :
    ∃ g', depStep g op = some g' := by
  cases op with
  | add p c => exact ⟨_, if_pos hl.1⟩
  | remove k => exact ⟨_, rfl⟩
  | removeSearch v c => exact ⟨_, rfl⟩

/-- **Every run from the empty table** leaves it sorted by parent, each parent's edges
together, and every header with its first edge and the number of its edges; and every
further call changes the edges by exactly the one it names. -/
theorem dependency_array_run {g g' : ODG} {ops : List DepOp} (h0 : g.Empty)
    (hr : Run depStep (fun g op => op.Legal g) g ops g') :
    (∀ i j k, i ≤ j → j ≤ k → k < g'.lastDep → g'.parent i = g'.parent k →
        g'.parent j = g'.parent k)
      ∧ (∀ i j, i < j → j < g'.lastDep → g'.parent i ≤ g'.parent j)
      ∧ (∀ v i, i < g'.lastDep → g'.parent i = v →
        g'.firstDependency v < g'.lastDep ∧ g'.parent (g'.firstDependency v) = v
          ∧ ∀ j < g'.firstDependency v, g'.parent j ≠ v)
      ∧ (∀ v, g'.dependencies v = g'.edges.countP (fun e => e.parent = v))
      ∧ ∀ op : DepOp, op.Legal g' → ∃ g'', depStep g' op = some g'' ∧ op.Changes g' g'' := by
  have hg : g'.Indexed :=
    hr.invariant (I := ODG.Indexed) (fun h hl hs => (depStep_indexed h hl hs).1) h0.indexed
  refine ⟨fun i j k hij hjk hk he => hg.between hij hjk hk he rfl, hg.sorted, ?_, hg.counted, ?_⟩
  · intro v i hi hv
    obtain ⟨hle, hfirst, hlow⟩ := hg.first hi hv
    exact ⟨Nat.lt_of_le_of_lt hle hi, hfirst, hlow⟩
  · intro op hl
    obtain ⟨g'', hs⟩ := depStep_isSome hl
    exact ⟨g'', hs, (depStep_indexed hg hl hs).2⟩

/-- The table at boot. -/
def odaAtBoot : ODG where
  vertex _ := ⟨.SIGTHREAD, 0, NIL, NIL, NIL, 0, 0⟩
  oda _ := ⟨NIL, NIL⟩
  lastDep := 0
  before := NIL

/-- The run theorem on three edges of two parents, the first of which is removed. -/
theorem dependency_array_run_three : ∃ g', Run depStep (fun g op => op.Legal g) odaAtBoot
    [.add 20 1, .add 10 2, .add 20 3, .removeSearch 20 1] g' ∧
    ∀ v, g'.dependencies v = g'.edges.countP (fun e => e.parent = v) := by
  have hr : Run depStep (fun g op => op.Legal g) odaAtBoot
      [.add 20 1, .add 10 2, .add 20 3, .removeSearch 20 1] _ :=
    .cons ⟨by decide, by decide⟩ rfl (.cons ⟨by decide, by decide⟩ rfl
      (.cons ⟨by decide, by decide⟩ rfl (.cons trivial rfl (.nil _))))
  exact ⟨_, hr, (dependency_array_run ⟨rfl, fun _ => rfl⟩ hr).2.2.2.1⟩

end Alliance.CK
