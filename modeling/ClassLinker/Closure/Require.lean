import ClassLinker.Closure.Load
import ClassLinker.Numeric

/-!
Requiring members. A required member is looked up and kept, and a method that was not kept before
brings everything its code depends on: classes, array classes, literals, catalog entries and the
members it refers to, which are required in turn.
-/

namespace ClassLinker

namespace Closure

open LinkM

/-- The class that every string literal needs. -/
def stringClass : Text := "java/lang/String"

/-- Keeps a catalog entry and its steps, loads their classes and has their members required. -/
def keepBuiltin (source : Source) (id : Int) : LinkM Unit := do
  let l ← get
  if l.builtins.any fun k => (k : Int) = id then return ()
  match Builtin.keep? l.builtins id, Builtin.expand? id with
  | some kept, some ids =>
    set { l with builtins := kept }
    (ids.filterMap fun (e : Nat) => Builtin.lookup? e).forM fun e => do
      discard (loadClass source e.className)
      if e.isMember then push ⟨e.className, e.member, e.descriptor⟩
  | _, _ => throw .fault

/-- The member that the reference at an address refers to. -/
def memberAt (a : RefAddr) : LinkM Member := do
  match (← onRegistry (RegistryM.refAt a)).body with
  | .memberRef m _ _ _ _ => return m
  | _ => throw .fault

/-- Keeps everything that a method depends on. The members it refers to will be required in the
order of its code. -/
def expand (source : Source) (m : Method) : LinkM Unit := do
  m.classDeps.forM fun a => do
    discard (onRegistry (Registry.keepRef a))
    match (← onRegistry (RegistryM.refAt a)).body with
    | .classRef target _ => discard (loadClass source target)
    | _ => throw .fault
  m.arrayDeps.forM fun code => discard (loadClass source (Primitive.arrayName code))
  m.literalDeps.forM fun a => do
    discard (onRegistry (Registry.keepRef a))
    match (← onRegistry (RegistryM.refAt a)).body with
    | .literal (.string _) => discard (loadClass source stringClass)
    | _ => return ()
  m.builtins.forM (keepBuiltin source)
  m.memberDeps.forM fun a => discard (onRegistry (Registry.keepRef a))
  m.memberDeps.reverse.forM fun a => do push (← memberAt a)

/-- Follows a member that was not kept before: a method is counted and expanded. -/
def follow (source : Source) : Declaration → LinkM Unit
  | .field _ => return ()
  | .method method => do
    modify fun l => { l with expansions := l.expansions + 1 }
    expand source method

/-- Looks up and keeps a member whose class is loaded. -/
def requireLoaded (source : Source) (m : Member) : LinkM Unit := do
  match (← get).registry.findMember m with
  | .error e => fail e
  | .ok (row, d) =>
    if ← onRegistry (Registry.keepMember row d.sig) then follow source d

/-- Requires one member: its class is loaded, the member is looked up and kept, and a newly kept
method is expanded. -/
def requireOne (source : Source) (m : Member) : LinkM Unit := do
  discard (loadClass source m.className)
  requireLoaded source m

/-- Requires all pending members. An error leaves none of them pending. -/
def drainFrom (source : Source) : Nat → LinkM Unit
  | 0 => do
    if !(← get).pending.isEmpty then giveUp
  | fuel + 1 => do
    match (← get).pending with
    | [] => return ()
    | m :: rest =>
      modify fun l => { l with pending := rest }
      fun l =>
        match requireOne source m l with
        | .ok _ l => drainFrom source fuel l
        | .error (.error e) l => .error (.error e) { l with pending := [] }
        | .error .fault l => .error .fault l

/-- How many members can become pending at most: those that are, one for each member reference of a
registered method and for each instruction of a method that can still be registered, one for each
class that can still be registered, and the members of the catalog. -/
def workBound (source : Source) (l : Linker) : Nat :=
  l.pending.length +
    total (l.registry.rows.toList.map fun c => total (c.methods.map fun m => m.memberDeps.length)) +
    total (source.decls.map fun d => 1 + total (d.methods.map fun m => m.code.length)) +
    Builtin.catalog.length * Builtin.catalog.length

/-- Requires all pending members. -/
def drain (source : Source) : LinkM Unit := fun l => drainFrom source (workBound source l) l

/-- Requires a member and everything it brings. Requiring a member that is already kept does
nothing. -/
def require (source : Source) (m : Member) : LinkM Unit := do
  push m
  drain source

/-- Loads a class and everything it brings. -/
def load (source : Source) (name : Text) : LinkM Nat := do
  let row ← loadClass source name
  drain source
  return row

end Closure

/-- What a link has kept so far. -/
structure Stats where
  classes : Nat
  methods : Nat
  fields : Nat
  refs : Nat
  builtins : Nat
  expansions : Nat
deriving DecidableEq, Repr

namespace Linker

/-- Counts what is kept. -/
def stats (l : Linker) : Stats :=
  let kept := l.registry.keptClasses.map Prod.snd
  { classes := kept.length
    methods := total (kept.map fun c => c.methods.countP Method.kept)
    fields := total (kept.map fun c => c.fields.countP Field.kept)
    refs := total (kept.map fun c => c.references.countP fun (_, ref) => ref.kept)
    builtins := l.builtins.length
    expansions := l.expansions }

end Linker

end ClassLinker
