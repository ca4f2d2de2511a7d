import Mathlib.Data.List.Destutter
import Mathlib.Data.List.Sort
import Valuelib.Base.DepthFirst
import Valuelib.Database.Entity

namespace Valuelib.Database

def edgeLe (p q : Nat × Nat) : Prop := p.1 < q.1 ∨ p.1 = q.1 ∧ p.2 ≤ q.2

instance : DecidableRel edgeLe := fun p q =>
  inferInstanceAs (Decidable (p.1 < q.1 ∨ p.1 = q.1 ∧ p.2 ≤ q.2))

/-- The members of `ddl_context`: edges lead from a dependent's index to the
index of its dependency. -/
structure Context (Entity : Type) where
  edges : List (Nat × Nat)
  entities : List Entity
deriving DecidableEq, Repr

def Context.empty {Entity : Type} : Context Entity := ⟨[], []⟩

inductive Failure where
  | logicError (what : String)
  | outOfRange (index : Nat)
deriving DecidableEq, Repr

/-- The two functions of the graph library that `ddl_context` calls: the edges
handed to the visitor's `back_edge`, and the output of `topological_sort`. -/
structure BoostGraph where
  depthFirstSearch : DepthFirst.Graph → List (Nat × Nat)
  topologicalSort : DepthFirst.Graph → List Nat

/-- What the documentation of the graph library promises. -/
structure BoostGraph.Contract (boost : BoostGraph) : Prop where
  backEdge : ∀ g : DepthFirst.Graph, g.Bounded →
    (boost.depthFirstSearch g ≠ [] ↔ ¬ g.Acyclic) ∧ ∀ e ∈ boost.depthFirstSearch g, e ∈ g.edges
  topological : ∀ g : DepthFirst.Graph, g.Bounded → g.Acyclic →
    g.TargetFirst (boost.topologicalSort g)

def depthFirstBoost : BoostGraph where
  depthFirstSearch g := (DepthFirst.search g).backEdges
  topologicalSort g := (DepthFirst.search g).finished

/-- A depth-first search meets the contract. -/
theorem depthFirstBoost_contract : depthFirstBoost.Contract := by
  constructor
  · intro g hg
    exact ⟨DepthFirst.backEdges_iff hg, DepthFirst.backEdges_mem hg⟩
  · intro g hg hac
    exact DepthFirst.finished_targetFirst hg hac

variable {Entity : Type}

section
variable [DecidableEq Entity]

/-- `std::find_if` yields the end when nothing matches, and the insertion is
then at the end. -/
def indexEntity (c : Context Entity) (e : Entity) : Nat × Context Entity :=
  let it := c.entities.idxOf e
  if it = c.entities.length then (it, { c with entities := c.entities ++ [e] }) else (it, c)

/-- The overload of `register_entity` that takes the index of the dependent.
The fuel is the depth of calls allowed: `none` is a call that has not returned. -/
def registerEntityFor (m : Schema Entity) :
    Nat → Context Entity → Entity → Nat → Option (Context Entity)
  | 0, _, _, _ => none
  | fuel + 1, c, e, dependentIdx =>
    let (i, c) := indexEntity c e
    let c := { c with edges := c.edges ++ [(dependentIdx, i)] }
    (m.dependencies e).foldlM (fun c d => registerEntityFor m fuel c d i) c

def sortUnique (edges : List (Nat × Nat)) : List (Nat × Nat) :=
  (edges.insertionSort edgeLe).destutter (· ≠ ·)

def registerEntity (m : Schema Entity) (fuel : Nat) (c : Context Entity) (e : Entity) :
    Option (Context Entity) := do
  let (i, c) := indexEntity c e
  let c ← (m.dependencies e).foldlM (fun c d => registerEntityFor m fuel c d i) c
  some { c with edges := sortUnique c.edges }

def registerAll (m : Schema Entity) (fuel : Nat) (c : Context Entity) (roots : List Entity) :
    Option (Context Entity) :=
  roots.foldlM (registerEntity m fuel) c

end

def generateGraph (c : Context Entity) : DepthFirst.Graph := ⟨c.entities.length, c.edges⟩

def entityAt (c : Context Entity) (i : Nat) : Except Failure Entity :=
  match c.entities[i]? with
  | some e => .ok e
  | none => .error (.outOfRange i)

def backEdgeLine (m : Schema Entity) (c : Context Entity) (p : Nat × Nat) :
    Except Failure String := do
  let first ← entityAt c p.1
  let second ← entityAt c p.2
  return m.typeName first ++ " <<==>> " ++ m.typeName second ++ "\n"

def checkCycles (boost : BoostGraph) (m : Schema Entity) (c : Context Entity)
    (g : DepthFirst.Graph) : Except Failure Unit :=
  let backEdges := boost.depthFirstSearch g
  if backEdges = [] then .ok ()
  else do
    let lines ← backEdges.mapM (backEdgeLine m c)
    throw (.logicError ("cyclic dependency detected. Back edges are:\n" ++ String.join lines))

def createOrder (boost : BoostGraph) (m : Schema Entity) (c : Context Entity) :
    Except Failure (List Entity) := do
  let g := generateGraph c
  checkCycles boost m c g
  (boost.topologicalSort g).mapM (entityAt c)

def dropOrder (boost : BoostGraph) (m : Schema Entity) (c : Context Entity) :
    Except Failure (List Entity) := do
  let result ← createOrder boost m c
  return result.reverse

end Valuelib.Database
