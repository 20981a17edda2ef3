import ClassLinker.Instruction.Relocate
import ClassLinker.Registry.Create
import ClassLinker.Registry.Keep

/-!
The startup method: it calls the kept static initializers in order, then the entry method, and
returns. Its calls use new slots of the entry class's pool.
-/

namespace ClassLinker.InitOrder

open RegistryM

/-- Adds a kept reference to a member at a new slot of a class. -/
def addCall (row : Nat) (m : Member) : RegistryM (Int × RefAddr) := do
  let slot ← Registry.allocSlot row
  let a ← Registry.createMemberRef row slot m
  discard (Registry.keepRef a)
  return (slot, a)

/-- The classes of an order that have a kept static initializer. -/
def initializedClasses (r : Registry) (order : List Text) : List Text :=
  order.filter fun name =>
    match (r.find? name).bind r.classAt? with
    | none => false
    | some c => ((c.declared? Signature.initializer).map Declaration.kept).getD false

/-- Adds the startup method to the entry class and keeps it. -/
def addStartup (entry : Text) (main : Signature) (order : List Text) : RegistryM Nat := do
  let r ← get
  match (r.find? entry).bind fun row => (r.classAt? row).map (row, ·) with
  | none => inconsistent (.entryNotKept entry)
  | some (row, c) =>
    if !c.kept then inconsistent (.entryNotKept entry)
    let initializers : List Member :=
      (initializedClasses r order).map fun name => ⟨name, Signature.initializer⟩
    let calls ← (initializers ++ [Member.mk entry main]).mapM (addCall row)
    Registry.createMethod row
      { sig := Signature.startup, isStatic := true, isNative := false, isAbstract := false
        code := Code.invokeAll (calls.map fun (slot, _) => slot.toNat) ++ [Opcode.ret]
        argSlots := 0, maxLocals := 0, lines := [], handlers := [] }
    calls.forM fun (_, a) => modify (Registry.addMemberDep row Signature.startup a)
    discard (Registry.keepMember row Signature.startup)
    return row

end ClassLinker.InitOrder
