import ClassLinker.Builtin
import ClassLinker.Registry.Create
import ClassLinker.Registry.Keep
import ClassLinker.Registry.Lookup
import ClassLinker.Seeds
import ClassLinker.Source

/-!
The state of a link under way: the registry it fills, the catalog entries it has kept, and the
members it still has to require, the latest first.
-/

namespace ClassLinker

/-- The state of a link under way. -/
structure Linker where
  registry : Registry := {}
  /-- The kept catalog entries, ascending. -/
  builtins : List Nat := []
  /-- The members still to be required, the next one first. -/
  pending : List Member := []
  /-- The references to array classes that were added to the pool of a class id. -/
  arrayRefs : List ((Nat × Text) × RefAddr) := []
  /-- How many methods had their dependencies followed. -/
  expansions : Nat := 0
  /-- The name of the root of the class hierarchy. -/
  root : Text := RuntimeSeeds.defaultRoot
  /-- The names that the source was asked for, the latest first. -/
  asked : List Text := []
  /-- Whether a recursion ran out of fuel and was given up. -/
  cut : Bool := false
deriving DecidableEq, Repr

/-- A step of a link. When it fails, what it had changed before stays changed. -/
abbrev LinkM := EStateM Failure Linker

namespace LinkM

/-- Does something to the registry of the link. -/
def onRegistry {α : Type} (x : RegistryM α) : LinkM α := fun l =>
  match x l.registry with
  | .ok a r => .ok a { l with registry := r }
  | .error e r => .error e { l with registry := r }

/-- Fails with an error. -/
def fail {α : Type} (e : Error) : LinkM α := throw (.error e)

/-- Gives up a recursion that ran out of fuel. -/
def giveUp {α : Type} : LinkM α := fun l => .error .fault { l with cut := true }

/-- Asks the source for a class. -/
def ask (source : Source) (name : Text) : LinkM (Except Error ClassDecl) := fun l =>
  .ok (source.load name) { l with asked := name :: l.asked }

/-- Changes the error that a step fails with. -/
def mapError {α : Type} (f : Error → Error) (x : LinkM α) : LinkM α := fun l =>
  match x l with
  | .ok a l => .ok a l
  | .error (.error e) l => .error (.error (f e)) l
  | .error .fault l => .error .fault l

/-- The row of the class registered under a name. -/
def registered? (name : Text) : LinkM (Option Nat) := return (← get).registry.find? name

/-- Puts a member in front of those still to be required. -/
def push (m : Member) : LinkM Unit := modify fun l => { l with pending := m :: l.pending }

end LinkM

end ClassLinker
