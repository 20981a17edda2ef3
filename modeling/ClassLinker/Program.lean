import ClassLinker.Closure.Overrides
import ClassLinker.InitOrder.Schedule
import ClassLinker.InitOrder.Startup
import ClassLinker.Registry.Compact

/-!
Linking a program: the reachability closure of the runtime's seeds, the entry method and the
required members is resolved, overrides included; then the static initializers are ordered, the
startup method is added, and the registry is laid out and compacted.
-/

namespace ClassLinker

/-- What to link. -/
structure LinkOptions where
  /-- The class that declares the entry method. -/
  entry : Text
  /-- The entry method; an empty signature stands for the default one. -/
  entryMethod : Signature
  /-- Members that are kept whether or not anything refers to them. -/
  required : List Member
  runtime : RuntimeSeeds
deriving DecidableEq, Repr

/-- A linked program. -/
structure Program where
  registry : Registry
  /-- The row of the entry class, which has the startup method. -/
  entryRow : Nat
  main : Member
  initOrder : List Text
  builtins : List Nat
  runtime : RuntimeSeeds
  stats : Stats
deriving DecidableEq, Repr

namespace LinkOptions

/-- The options with defaults for what they leave open. -/
def withDefaults (o : LinkOptions) : LinkOptions :=
  { o with
    entryMethod := if o.entryMethod = ⟨[], []⟩ then Signature.defaultEntry else o.entryMethod
    runtime :=
      { o.runtime with
        root := if o.runtime.root = [] then RuntimeSeeds.defaultRoot else o.runtime.root } }

/-- The entry method as a member. -/
def main (o : LinkOptions) : Member := ⟨o.entry, o.entryMethod⟩

end LinkOptions

namespace Program

open LinkM Closure

/-- Requires the entry method, which has to be a static method that the entry class itself
declares. -/
def requireEntry (source : Source) (main : Member) : LinkM Unit := do
  discard (load source main.className)
  match (← get).registry.findMember main with
  | .error e => fail e
  | .ok (row, d) =>
    let reference := main.className ++ " " ++ main.sig.name ++ " " ++ main.sig.descriptor
    let owner ← onRegistry (RegistryM.classAt row)
    match d with
    | .field _ => fail (.seed reference "entry is not a method")
    | .method m =>
      if !main.sig.isMethod then fail (.seed reference "entry is not a method")
      if !m.isStatic then fail (.seed reference "entry method is not static")
      if owner.name ≠ main.className then
        fail (.seed reference ("entry method is inherited from " ++ owner.name))
      require source main

/-- Resolves everything that a program reaches. -/
def resolve (source : Source) (o : LinkOptions) : LinkM Unit := do
  discard (load source o.runtime.root)
  o.runtime.arrays.forM fun name => mapError (.within "vm array") (discard (load source name))
  o.runtime.classes.forM fun name => mapError (.within "vm class") (discard (load source name))
  requireEntry source o.main
  o.required.forM fun m =>
    mapError (.within ("required reference " ++ m.text)) (require source m)
  o.runtime.members.forM fun m =>
    mapError (.within ("vm reference " ++ m.text)) (require source m)
  requireOverrides source

/-- Links what was resolved. -/
def finish (o : LinkOptions) : LinkM Program := do
  let stats := (← get).stats
  let order ←
    match InitOrder.schedule (← get).registry o.runtime.bootstrap with
    | .ok order => pure order
    | .error e => throw e
  let entryRow ← onRegistry (InitOrder.addStartup o.entry o.entryMethod order)
  onRegistry Registry.link
  onRegistry Registry.compact
  let l ← get
  return {
    registry := l.registry, entryRow, main := o.main, initOrder := order, builtins := l.builtins
    runtime := o.runtime, stats }

/-- Links a program. -/
def link (source : Source) (o : LinkOptions) : Except Failure Program :=
  if o.entry = [] then .error (.error (.seed [] "no entry class"))
  else
    let o := o.withDefaults
    match (do resolve source o; finish o : LinkM Program) { root := o.runtime.root } with
    | .ok p _ => .ok p
    | .error e _ => .error e

/-- The startup method of a linked program. -/
def startup? (p : Program) : Option Method :=
  (p.registry.classAt? p.entryRow).bind fun c => c.methods.find? fun m => m.sig = Signature.startup

/-- The code offset that the runtime starts at. -/
def entryOffset (p : Program) : Option Nat := p.startup?.bind Method.codeOffset

end Program

end ClassLinker
