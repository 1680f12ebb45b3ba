import Alliance.CK.Objects
import Alliance.Lib.Run
import Mathlib.Algebra.Order.Group.Multiset

/-!
# The object dependency graph (`graph.c`)

The Object Dependency Array is one table of edges, sorted by the address of the
parent. An object header caches where its own edges start and how many there are.
Adding an edge moves the edges of all later parents up one slot, removing one moves
everything behind it down, and both re-base the cached pointer of every parent whose
first edge moved.

A pointer into the table is the index of its slot; `lastDep` is one more than the
index the source's `lastDep` points at. `CKaddObjectDep` compares the first edge with
`ODA[-1]`, the memory before the table, whose parent word is `before`.
-/

namespace Alliance.CK

open Function Lib

/-- `EDGE`: from a parent to an object that depends on it. -/
@[ext] structure EDGE where
  parent : Addr
  child : Addr
  deriving DecidableEq, Repr

inductive ObjectSignature where
  | SIGTHREAD
  | SIGADDRSPC
  | SIGKERNEL
  | SIGSHMEM
  deriving DecidableEq, Repr

/-- `OFLOCKED`: the object is locked into the Cache Kernel. -/
def OFLOCKED : UDATA := 1#32

/-- The object header every object starts with. -/
structure ObjectHeader where
  objectSignature : ObjectSignature
  flags : UDATA
  objectData : Addr
  nextObject : Addr
  prevObject : Addr
  dependencies : Nat
  /-- The slot of the first edge; read only where there are dependencies. -/
  firstDependency : Nat
  deriving DecidableEq, Repr

abbrev VERTEX := ObjectHeader

/-- A header without its place in the dependency table. -/
def ObjectHeader.unindexed (x : ObjectHeader) : ObjectHeader :=
  { x with dependencies := 0, firstDependency := 0 }

def MAXDEPS : Nat := 4096

/-- The dependency table and the object headers. -/
structure ODG where
  vertex : Addr → VERTEX
  oda : Nat → EDGE
  lastDep : Nat
  before : Addr

namespace ODG

variable (g : ODG)

/-- `(ODA + i)->parent`. -/
def parent (i : Nat) : Addr := (g.oda i).parent

/-- `(currDep-1)->parent`. -/
def parentBefore : Nat → Addr
  | 0 => g.before
  | i + 1 => g.parent i

def dependencies (v : Addr) : Nat := (g.vertex v).dependencies

def firstDependency (v : Addr) : Nat := (g.vertex v).firstDependency

/-- What the graph code never writes of a header. -/
def header (v : Addr) : VERTEX := (g.vertex v).unindexed

/-- `v->firstDependency = ODA + i`. -/
def setFirst (v : Addr) (i : Nat) : ODG :=
  { g with vertex := update g.vertex v { g.vertex v with firstDependency := i } }

def setDependencies (v : Addr) (n : Nat) : ODG :=
  { g with vertex := update g.vertex v { g.vertex v with dependencies := n } }

def setDep (i : Nat) (e : EDGE) : ODG := { g with oda := update g.oda i e }

def setLastDep (n : Nat) : ODG := { g with lastDep := n }

/-- The edges in the table, in order. -/
def edges : List EDGE := (List.range g.lastDep).map g.oda

end ODG

/-! ## The operations -/

/-- The loop of `CKaddObjectDep`: edges of later parents move up, from the slot below
`currDep` downwards. It returns the slot that came free. -/
def makeRoom (g : ODG) (parent : Addr) : Nat → ODG × Nat
  | 0 => (g, 0)
  | k + 1 =>
    if parent < g.parent k then
      let g := if g.parent k ≠ g.parentBefore k then g.setFirst (g.parent k) (k + 1) else g
      makeRoom (g.setDep (k + 1) (g.oda k)) parent k
    else
      (g, k + 1)

/-- `CKaddObjectDep`: add an edge behind the other edges of its parent. -/
def ckAddObjectDep (g : ODG) (parent child : Addr) : Option ODG :=
  if g.lastDep < MAXDEPS then
    let r := makeRoom ((g.setLastDep (g.lastDep + 1)).setDependencies parent
      (g.dependencies parent + 1)) parent g.lastDep
    let g := r.1.setDep r.2 ⟨parent, child⟩
    some (if r.2 = 0 ∨ g.parentBefore r.2 ≠ parent then g.setFirst parent r.2 else g)
  else
    none

/-- The loop of `CKremoveObjectDep`: the edges behind slot `k` move down. -/
def closeGap (g : ODG) (k : Nat) : ODG :=
  if _h : k + 1 < g.lastDep then
    let g' := g.setDep k (g.oda (k + 1))
    if k = 0 ∨ g'.parent k ≠ g'.parentBefore k then
      closeGap (g'.setFirst (g'.parent k) k) (k + 1)
    else
      closeGap g' (k + 1)
  else
    g
termination_by g.lastDep - k
decreasing_by all_goals (simp only [ODG.setDep, ODG.setFirst]; omega)

/-- `CKremoveObjectDep`: remove the edge in slot `dep`. -/
def ckRemoveObjectDep (g : ODG) (dep : Nat) : ODG :=
  let g := closeGap (g.setDependencies (g.parent dep) (g.dependencies (g.parent dep) - 1)) dep
  g.setLastDep (g.lastDep - 1)

/-- `CKremoveDepSearch`: remove the first edge from `object` to `child`. -/
def ckRemoveDepSearch (g : ODG) (object child : Addr) : ODG :=
  match (List.range (g.dependencies object)).find?
      (fun i => (g.oda (g.firstDependency object + i)).child = child) with
  | some i => ckRemoveObjectDep g (g.firstDependency object + i)
  | none => g

/-! ## Stores into the graph -/

namespace ODG

variable (g : ODG) (v w : Addr) (i j n : Nat) (e : EDGE)

@[simp] theorem oda_setFirst : (g.setFirst v i).oda = g.oda := rfl
@[simp] theorem oda_setDependencies : (g.setDependencies v n).oda = g.oda := rfl
@[simp] theorem oda_setLastDep : (g.setLastDep n).oda = g.oda := rfl
@[simp] theorem oda_setDep : (g.setDep i e).oda = update g.oda i e := rfl
@[simp] theorem lastDep_setFirst : (g.setFirst v i).lastDep = g.lastDep := rfl
@[simp] theorem lastDep_setDependencies : (g.setDependencies v n).lastDep = g.lastDep := rfl
@[simp] theorem lastDep_setDep : (g.setDep i e).lastDep = g.lastDep := rfl
@[simp] theorem lastDep_setLastDep : (g.setLastDep n).lastDep = n := rfl
@[simp] theorem before_setFirst : (g.setFirst v i).before = g.before := rfl
@[simp] theorem before_setDependencies : (g.setDependencies v n).before = g.before := rfl
@[simp] theorem before_setDep : (g.setDep i e).before = g.before := rfl
@[simp] theorem before_setLastDep : (g.setLastDep n).before = g.before := rfl
@[simp] theorem vertex_setDep : (g.setDep i e).vertex = g.vertex := rfl
@[simp] theorem vertex_setLastDep : (g.setLastDep n).vertex = g.vertex := rfl

@[simp] theorem dependencies_setFirst : (g.setFirst v i).dependencies = g.dependencies := by
  funext w
  by_cases h : w = v
  · subst h; simp [dependencies, setFirst]
  · simp [dependencies, setFirst, h]

@[simp] theorem dependencies_setDep : (g.setDep i e).dependencies = g.dependencies := rfl

@[simp] theorem dependencies_setLastDep : (g.setLastDep n).dependencies = g.dependencies := rfl

theorem dependencies_setDependencies :
    (g.setDependencies v n).dependencies = update g.dependencies v n := by
  funext w
  by_cases h : w = v
  · subst h; simp [dependencies, setDependencies]
  · simp [dependencies, setDependencies, h]

@[simp] theorem header_setDep : (g.setDep i e).header = g.header := rfl

@[simp] theorem header_setLastDep : (g.setLastDep n).header = g.header := rfl

@[simp] theorem header_setFirst : (g.setFirst v i).header = g.header := by
  funext w
  by_cases h : w = v
  · subst h; simp [header, setFirst, ObjectHeader.unindexed]
  · simp [header, setFirst, h]

@[simp] theorem header_setDependencies : (g.setDependencies v n).header = g.header := by
  funext w
  by_cases h : w = v
  · subst h; simp [header, setDependencies, ObjectHeader.unindexed]
  · simp [header, setDependencies, h]

theorem firstDependency_setFirst :
    (g.setFirst v i).firstDependency = update g.firstDependency v i := by
  funext w
  by_cases h : w = v
  · subst h; simp [firstDependency, setFirst]
  · simp [firstDependency, setFirst, h]

@[simp] theorem firstDependency_setDep : (g.setDep i e).firstDependency = g.firstDependency := rfl

@[simp] theorem firstDependency_setLastDep :
    (g.setLastDep n).firstDependency = g.firstDependency := rfl

@[simp] theorem firstDependency_setDependencies :
    (g.setDependencies v n).firstDependency = g.firstDependency := by
  funext w
  by_cases h : w = v
  · subst h; simp [firstDependency, setDependencies]
  · simp [firstDependency, setDependencies, h]

end ODG

end Alliance.CK
