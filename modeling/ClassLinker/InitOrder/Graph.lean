import ClassLinker.Error

/-!
The initialization graph: nodes are class names, and an edge from one class to another says that
the other has to be initialized first. An order lists every node after all of its successors; nodes
and successors are visited in name order, so it depends on the graph alone. A cycle is reported
with the nodes on it.
-/

namespace ClassLinker

/-- A graph of class names: every node with the targets of its edges, in the order of addition. -/
structure Graph where
  adjacency : List (Text × List Text) := []
deriving DecidableEq, Repr

namespace Graph

/-- Whether a name is a node. -/
def has (g : Graph) (name : Text) : Bool := g.adjacency.any fun (n, _) => n = name

/-- Adds a node unless it is there. -/
def addNode (g : Graph) (name : Text) : Graph :=
  if g.has name then g else ⟨g.adjacency ++ [(name, [])]⟩

/-- Adds both ends of an edge and the edge. -/
def addEdge (g : Graph) (source target : Text) : Graph :=
  ⟨((g.addNode source).addNode target).adjacency.map fun (n, targets) =>
    if n = source && !targets.contains target then (n, targets ++ [target]) else (n, targets)⟩

/-- All nodes in name order. -/
def nodes (g : Graph) : List Text := Text.sort (g.adjacency.map Prod.fst)

/-- The number of nodes. -/
def size (g : Graph) : Nat := g.adjacency.length

/-- The targets of a node's edges in name order. -/
def successors (g : Graph) (name : Text) : List Text :=
  Text.sort ((g.adjacency.lookup name).getD [])

/-- The part of a path, latest node first, that goes from `name` to its end, in the direction of the
edges and closed with `name` again. -/
def cycleAt (path : List Text) (name : Text) : List Text :=
  name :: ((path.takeWhile (· ≠ name)).reverse ++ [name])

/-- Visits a node: all its unvisited successors first, then the node itself. `path` holds the nodes
whose visit is under way, latest first, and `done` the visited ones in order. The nodes on a path
differ, so `depth` of at least the number of nodes never runs out. -/
def visit (g : Graph) : Nat → List Text → List Text → Text → Except Error (List Text)
  | 0, path, _, name => .error (.cyclic name (cycleAt path name))
  | depth + 1, path, done, name =>
    if done.contains name then .ok done
    else if path.contains name then .error (.cyclic name (cycleAt path name))
    else do
      let done ← (g.successors name).foldlM (visit g depth (name :: path)) done
      return done ++ [name]

/-- The nodes, each after all of its successors. `first`, when it is a node, is visited before all
others. -/
def order (g : Graph) (first : Text) : Except Error (List Text) :=
  let starts := if g.has first then first :: g.nodes else g.nodes
  starts.foldlM (g.visit (g.size + 1) []) []

end Graph

end ClassLinker
