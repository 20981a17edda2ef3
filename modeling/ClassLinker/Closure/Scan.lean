import ClassLinker.Closure.Basic
import ClassLinker.Instruction.Decode

/-!
Scanning a method: recording the references that its code, its exception handlers and its throws
clause depend on, and the catalog entries that its instructions may trigger.
-/

namespace ClassLinker

/-- The name of the array class whose elements are of a given class. -/
def arrayOf (name : Text) : Text :=
  if name.head? = some (Text.byte '[') then Text.byte '[' :: name
  else "[L" ++ name ++ ";"

namespace Closure

open LinkM

/-- What a message says about an instruction. -/
def place (i : Instruction) : Text := i.name ++ " at pc " ++ Text.ofNat i.pc

/-- What a message says about a slot. -/
def slotText (slot : Int) : Text := "pool slot " ++ Text.ofInt slot

/-- The reference at a slot of the class in a row. -/
def refAtSlot? (row : Nat) (slot : Int) : LinkM (Option (RefAddr × Reference)) := do
  let c ← onRegistry (RegistryM.classAt row)
  let r := (← get).registry
  return do
    let a ← r.refAddr? c.id slot
    let ref ← r.refAt? a
    return (a, ref)

/-- The class reference at a slot, with the name of its target. -/
def classRefAt (row : Nat) (slot : Int) : LinkM (RefAddr × Text) := do
  match ← refAtSlot? row slot with
  | none => fail (.plain (slotText slot ++ " is not a loadable entry"))
  | some (a, ref) =>
    match ref.body with
    | .classRef target _ => return (a, target)
    | _ => fail (.plain (slotText slot ++ " is not a class reference"))

/-- The reference from a class to an array class that its own pool does not name. The first use adds
it at a new slot. -/
def arrayRef (row : Nat) (name : Text) : LinkM RefAddr := do
  let c ← onRegistry (RegistryM.classAt row)
  match (← get).arrayRefs.lookup (c.id, name) with
  | some a => return a
  | none =>
    let slot ← onRegistry (Registry.allocSlot row)
    let a ← onRegistry (Registry.createClassRef row slot name)
    modify fun l => { l with arrayRefs := ((c.id, name), a) :: l.arrayRefs }
    return a

/-- Changes the registry. -/
def record (f : Registry → Registry) : LinkM Unit :=
  modify fun l => { l with registry := f l.registry }

/-- Records what one instruction of a method depends on. -/
def scanInstruction (row : Nat) (sig : Signature) (i : Instruction) : LinkM Unit := do
  (Builtin.triggers i.op).forM fun id => record (Registry.addBuiltin row sig id)
  let slot : Int := i.slot?.getD 0
  match Opcode.operand i.op with
  | .none => return ()
  | .memberSlot =>
    match ← refAtSlot? row slot with
    | some (a, ⟨_, _, _, .memberRef _ _ _ _ _⟩) => record (Registry.addMemberDep row sig a)
    | _ => fail (.within (place i) (.plain (slotText slot ++ " is not a member reference")))
  | .classSlot =>
    let (a, target) ← mapError (.within (place i)) (classRefAt row slot)
    record (Registry.addClassDep row sig a)
    if i.op = Opcode.anewarray then
      let a ← arrayRef row (arrayOf target)
      record (Registry.addClassDep row sig a)
  | .constantSlot =>
    match ← refAtSlot? row slot with
    | none => fail (.within (place i) (.plain (slotText slot ++ " is not a loadable entry")))
    | some (a, ref) =>
      match ref.body with
      | .literal _ => record (Registry.addLiteralDep row sig a)
      | .classRef _ _ => record (Registry.addClassDep row sig a)
      | .memberRef _ _ _ _ _ =>
        fail (.within (place i) (.plain (slotText slot ++ " is a member reference")))
  | .arrayType =>
    let code : Int := (i.arrayType?.getD 0).toNat
    if (Primitive.ofCode? code).isNone then
      fail (.within (place i) (.plain ("unknown element type " ++ Text.ofInt code)))
    record (Registry.addArrayDep row sig code)
  | .dynamicSlot =>
    fail (.within (place i) (.plain "dynamic call sites are not supported"))

/-- Records what a method depends on. -/
def scan (row : Nat) (sig : Signature) (code : Bytes) (handlers : List Handler)
    (throws : List Int) : LinkM Unit := do
  let decoded := Code.decode code
  decoded.instrs.forM (scanInstruction row sig)
  match decoded.ending with
  | .complete => pure ()
  | .fault cause => fail (.code cause)
  | .stuck _ => throw .fault
  handlers.forM fun h => do
    if h.catchSlot ≠ 0 then
      let (a, _) ← mapError (.within "exception handler") (classRefAt row h.catchSlot)
      record (Registry.addClassDep row sig a)
  throws.forM fun slot => do
    let (a, _) ← mapError (.within "throws clause") (classRefAt row slot)
    record (Registry.addClassDep row sig a)

end Closure

end ClassLinker
