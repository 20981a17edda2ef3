import ClassLinker.InitOrder.Graph
import ClassLinker.Numeric
import ClassLinker.Registry.Lookup

/-!
The order of static initializers. Starting at each kept initializer, every member that a traversed
method refers to makes the class of the method depend on the class of the member and on the class
that declares it; static methods are traversed in turn.
-/

namespace ClassLinker.InitOrder

/-- A method to traverse: the row of its class and its signature. -/
abbrev MethodKey := Nat × Signature

/-- The state of a traversal: the graph so far, the methods found so far and those still to be
traversed, the next one first. -/
structure Traversal where
  graph : Graph := {}
  found : List MethodKey := []
  pending : List MethodKey := []
deriving DecidableEq, Repr

/-- The members that a method refers to. -/
def membersOf (r : Registry) (m : Method) : List Member :=
  m.memberDeps.filterMap fun a =>
    match (r.refAt? a).map Reference.body with
    | some (.memberRef m _ _ _ _) => some m
    | _ => none

/-- Adds the edge from one class to another unless they are the same. -/
def depend (g : Graph) (source target : Text) : Graph :=
  if source = target then g else g.addEdge source target

/-- Follows one member that a method of the class `self` refers to. -/
def follow (r : Registry) (self : Text) (t : Traversal) (m : Member) : Except Error Traversal := do
  let graph := depend t.graph self m.className
  let (row, d) ← r.findMember m
  let owner := ((r.classAt? row).map Class.name).getD []
  let graph := if owner = m.className then graph else depend graph self owner
  match d with
  | .method callee =>
    if callee.isStatic && !t.found.contains (row, callee.sig) then
      return { graph, found := (row, callee.sig) :: t.found
               pending := (row, callee.sig) :: t.pending }
    else return { t with graph }
  | .field _ => return { t with graph }

/-- Traverses the pending methods. Each method is found once, so `fuel` of at least the number of
methods never runs out. -/
def traverse (r : Registry) : Nat → Traversal → Except Error Traversal
  | 0, t => .ok t
  | fuel + 1, t =>
    match t.pending with
    | [] => .ok t
    | (row, sig) :: pending =>
      let t := { t with pending }
      match r.classAt? row with
      | none => traverse r fuel t
      | some c =>
        match c.methods.find? fun m => m.sig = sig with
        | none => traverse r fuel t
        | some m => do
          let t ← (membersOf r m).reverse.foldlM (follow r c.name) t
          traverse r fuel t

/-- The number of methods of all classes. -/
def methodCount (r : Registry) : Nat := total (r.rows.toList.map fun c => c.methods.length)

/-- Adds the initializer of one class, if it has a kept one, and what it leads to. A member with the
name of an initializer that is no method has no meaning. -/
def addInitializer (r : Registry) (t : Traversal) (row : Nat) (c : Class) :
    Except Failure Traversal :=
  match c.declared? Signature.initializer with
  | none => .ok t
  | some d =>
    if !d.kept then .ok t
    else
      match d with
      | .field _ => .error .fault
      | .method m =>
        (traverse r (methodCount r + 1)
          { graph := t.graph.addNode c.name
            found := (row, m.sig) :: t.found
            pending := [(row, m.sig)] }).mapError .error

/-- The initialization graph of the kept static initializers. -/
def graphOf (r : Registry) : Except Failure Graph := do
  let t ← r.keptClasses.foldlM (fun t (row, c) => addInitializer r t row c) ({} : Traversal)
  return t.graph

/-- The classes in initialization order, with `bootstrap` first when it takes part. -/
def schedule (r : Registry) (bootstrap : Text) : Except Failure (List Text) := do
  let g ← graphOf r
  (g.order bootstrap).mapError .error

end ClassLinker.InitOrder
