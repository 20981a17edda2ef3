import ClassLinker.Registry.Basic

/-!
Registering classes, members and references. A class is registered after its superclass and its
interfaces; the first class registered is the root of the hierarchy and the only one without a
superclass.
-/

namespace ClassLinker

/-- A class to register. -/
structure ClassSpec where
  name : Text
  super : Text
  kind : ClassKind
  interfaces : List Text
  element : Text
  elementType : Int
  /-- The size of the class file's constant pool; the slots from there on are free. -/
  poolSize : Int
deriving DecidableEq, Repr

/-- A method to register. -/
structure MethodSpec where
  sig : Signature
  isStatic : Bool
  isNative : Bool
  isAbstract : Bool
  code : Bytes
  argSlots : Int
  maxLocals : Int
  lines : List LineMark
  handlers : List Handler
deriving DecidableEq, Repr

/-- A field to register. -/
structure FieldSpec where
  sig : Signature
  isStatic : Bool
  size : Int
deriving DecidableEq, Repr

namespace ClassSpec

/-- The class to be stored for a specification. -/
def toClass (spec : ClassSpec) (id : Nat) : Class where
  id := id
  name := spec.name
  super := spec.super
  kind := spec.kind
  interfaces := spec.interfaces
  element := spec.element
  elementType := spec.elementType
  kept := false
  ownSize := 0
  totalSize := 0
  methods := []
  fields := []
  pool := #[]
  listed := []
  slots := []
  children := []
  maxSlot := if spec.poolSize > 1 then spec.poolSize - 1 else 0
  table := []
  forwarding := []

end ClassSpec

namespace MethodSpec

/-- The kind of the method. -/
def kind (spec : MethodSpec) : MethodKind :=
  if spec.isNative then .native
  else if spec.isAbstract then .abstract
  else if spec.sig.name = Signature.constructorName then .constructor
  else if spec.sig.name = Signature.initializerName then .initializer
  else .concrete

/-- The method to be stored for a specification. -/
def toMethod (spec : MethodSpec) : Method where
  sig := spec.sig
  isStatic := spec.isStatic
  kind := spec.kind
  kept := false
  linkId := none
  rawCode := spec.code
  relocated := none
  argSlots := spec.argSlots
  maxLocals := spec.maxLocals
  lines := spec.lines
  handlers := spec.handlers
  classDeps := []
  memberDeps := []
  literalDeps := []
  arrayDeps := []
  builtins := []
  codeOffset := none
  nativeIndex := none

end MethodSpec

namespace FieldSpec

/-- The field to be stored for a specification. -/
def toField (spec : FieldSpec) : Field where
  sig := spec.sig
  isStatic := spec.isStatic
  kept := false
  linkId := none
  size := spec.size
  address := -1

end FieldSpec

namespace Registry

open RegistryM

/-- Makes a class a child of another one. -/
def addChild (r : Registry) (parent child : Nat) : Registry :=
  r.modifyClass parent fun c => { c with children := c.children ++ [child] }

/-- Makes a class a child of each of its interfaces in turn, up to the first that is not
registered. -/
def addToInterfaces (name : Text) (row : Nat) : List Text → RegistryM Unit
  | [] => return ()
  | interface :: rest => do
    match (← get).find? interface with
    | none => inconsistent (.missingInterface name interface)
    | some parent =>
      modify (·.addChild parent row)
      addToInterfaces name row rest

/-- Registers a class. Its superclass and interfaces must be registered. -/
def createClass (spec : ClassSpec) : RegistryM Nat := do
  checkOpen .createClass
  let r ← get
  if (r.find? spec.name).isSome then inconsistent (.classTwice spec.name)
  if spec.super = [] && !r.live.isEmpty then inconsistent (.secondRoot spec.name)
  if spec.super ≠ [] && r.live.isEmpty then inconsistent (.beforeRoot spec.name)
  let row := r.rows.size
  let stored := { r with rows := r.rows.push (spec.toClass r.live.length) }
  if spec.super = [] then set stored
  else
    match r.find? spec.super with
    | none => inconsistent (.missingSuper spec.name spec.super)
    | some parent => set (stored.addChild parent row)
  addToInterfaces spec.name row spec.interfaces
  modify fun r => { r with live := r.live ++ [row], names := (spec.name, row) :: r.names }
  return row

/-- Registers a method of a class. Exactly the methods that are neither native nor abstract have
code. -/
def createMethod (row : Nat) (spec : MethodSpec) : RegistryM Unit := do
  checkOpen .createMethod
  let c ← classAt row
  if (c.declared? spec.sig).isSome then inconsistent (.declaredTwice c.name spec.sig)
  if (spec.kind = .native || spec.kind = .abstract) ≠ spec.code.isEmpty then
    inconsistent (.codeMismatch c.name spec.sig spec.kind spec.code.length)
  modify (·.modifyClass row fun c => { c with methods := c.methods ++ [spec.toMethod] })

/-- Registers a field of a class. -/
def createField (row : Nat) (spec : FieldSpec) : RegistryM Unit := do
  checkOpen .createField
  let c ← classAt row
  if (c.declared? spec.sig).isSome then inconsistent (.declaredTwice c.name spec.sig)
  modify (·.modifyClass row fun c => { c with fields := c.fields ++ [spec.toField] })

/-- The highest slot of a constant pool. -/
def lastSlot : Int := 0xFFFF

/-- Registers a reference at a slot of a class. -/
def createRef (row : Nat) (slot : Int) (body : RefBody) : RegistryM RefAddr := do
  checkOpen .createReference
  let c ← classAt row
  if slot ≤ 0 || lastSlot < slot then inconsistent (.slotOutOfRange c.name slot)
  if ((← get).refAddr? c.id slot).isSome then inconsistent (.slotTwice c.name slot)
  modify (·.modifyClass row fun c =>
    { c with
      pool := c.pool.push { owner := c.id, slot, kept := false, body }
      listed := c.listed ++ [c.pool.size]
      slots := (slot, c.pool.size) :: c.slots
      maxSlot := max c.maxSlot slot })
  return ⟨row, c.pool.size⟩

/-- Registers a reference to a class. -/
def createClassRef (row : Nat) (slot : Int) (target : Text) : RegistryM RefAddr :=
  createRef row slot (.classRef target none)

/-- Registers a reference to a member. -/
def createMemberRef (row : Nat) (slot : Int) (target : Member) : RegistryM RefAddr :=
  createRef row slot (.memberRef target none none none none)

/-- Registers a literal; its value must be of the kind with the given number. -/
def createLiteral (row : Nat) (slot : Int) (kind : Int) (value : Option Literal) :
    RegistryM RefAddr := do
  let c ← classAt row
  match value with
  | some v =>
    if LiteralKind.ofCode? kind = some v.kind then createRef row slot (.literal v)
    else inconsistent (.literalMismatch c.name slot value kind)
  | none => inconsistent (.literalMismatch c.name slot value kind)

/-- Reserves the next slot of a class above everything in use. -/
def allocSlot (row : Nat) : RegistryM Int := do
  checkOpen .allocSlot
  let c ← classAt row
  if lastSlot ≤ c.maxSlot then inconsistent (.poolExhausted c.name)
  modify (·.modifyClass row fun c => { c with maxSlot := c.maxSlot + 1 })
  return c.maxSlot + 1

end Registry

end ClassLinker
