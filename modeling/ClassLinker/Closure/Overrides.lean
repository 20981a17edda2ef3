import ClassLinker.Closure.Require
import ClassLinker.Numeric

/-!
Overrides: a kept method may be called on an instance of a subclass, so the methods that override it
are required too. Each pass goes one level down the hierarchy, and passes are repeated until one
requires nothing.
-/

namespace ClassLinker.Closure

open LinkM

/-- Whether a kept method can be called through dispatch. -/
def isDispatched (m : Method) : Bool := m.kept && !m.isStatic && m.kind ≠ .constructor

/-- Adds signatures that are not there yet. -/
def addNew (sigs : List Signature) (more : List Signature) : List Signature :=
  more.foldl (fun sigs sig => if sigs.contains sig then sigs else sigs ++ [sig]) sigs

/-- The signatures of the dispatched methods among those of `methods` that nothing nearer shadows,
and what they shadow in turn. -/
def addInherited (found : List Signature × List Signature) (methods : List Method) :
    List Signature × List Signature :=
  methods.foldl (fun (sigs, shadowed) m =>
    if shadowed.contains m.sig then (sigs, shadowed)
    else (if isDispatched m then addNew sigs [m.sig] else sigs, m.sig :: shadowed)) found

/-- The signatures that overrides in direct subclasses of a class may be called through: those of
its own dispatched methods, of its direct interfaces' and of the ones it inherits. -/
def keptSignatures (r : Registry) (row : Nat) (c : Class) : List Signature :=
  let dispatched (c : Class) : List Signature := (c.methods.filter isDispatched).map Method.sig
  let own := addNew [] (dispatched c)
  let withInterfaces := c.interfaces.foldl (fun sigs name =>
    match (r.find? name).bind r.classAt? with
    | some i => addNew sigs (dispatched i)
    | none => sigs) own
  let supers := (r.chain row).drop 1
  (supers.foldl (fun found (_, s) => addInherited found s.methods)
    (withInterfaces, c.methods.map Method.sig)).1

/-- Requires the override of a signature in a subclass, if it has one that is not kept. The answer
says whether it had. -/
def requireOverride (source : Source) (row : Nat) (sig : Signature) : LinkM Bool := do
  let c ← onRegistry (RegistryM.classAt row)
  match c.declared? sig with
  | some (.method m) =>
    if m.kept || m.kind = .constructor then return false
    require source (c.member sig)
    return true
  | _ => return false

/-- Requires the overrides in the direct subclasses of one class and counts them. -/
def overridesOf (source : Source) (row : Nat) : LinkM Nat := do
  let c ← onRegistry (RegistryM.classAt row)
  let r := (← get).registry
  let sigs := keptSignatures r row c
  if sigs.isEmpty then return 0
  (r.subclasses c).foldlM (fun added (sub, _) => do
    let s ← onRegistry (RegistryM.classAt sub)
    if !s.kept then return added
    sigs.foldlM (fun added sig => do
      if ← requireOverride source sub sig then return added + 1 else return added) added) 0

/-- One pass over the kept classes; the number of overrides it required. -/
def overridePass (source : Source) : LinkM Nat := do
  let rows := (← get).registry.keptClasses.map Prod.fst
  rows.foldlM (fun added row => return added + (← overridesOf source row)) 0

/-- Repeats passes until one requires nothing. Every other pass keeps a method, so `fuel` above the
number of methods never runs out. -/
def overridePasses (source : Source) : Nat → LinkM Unit
  | 0 => giveUp
  | fuel + 1 => do
    if (← overridePass source) ≠ 0 then overridePasses source fuel

/-- The number of methods that are registered or can still be. -/
def methodBound (source : Source) (l : Linker) : Nat :=
  total (l.registry.rows.toList.map fun c => c.methods.length) +
    total (source.decls.map fun d => d.methods.length)

/-- Requires every override of a kept method. -/
def requireOverrides (source : Source) : LinkM Unit := fun l =>
  overridePasses source (methodBound source l + 1) l

end ClassLinker.Closure
