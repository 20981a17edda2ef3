import ClassLinker.ClassDecl

/-!
The registry: every class, member and constant pool reference of one link. Classes are stored in
rows that are never moved or removed, so a row number names a class for good while its id, its place
among the live classes, may change. References are stored the same way in the pool of their class.
-/

namespace ClassLinker

/-- Where a reference is stored: the row of its class and its position in the pool of that class. -/
structure RefAddr where
  row : Nat
  pos : Nat
deriving DecidableEq, Repr

/-- What a reference refers to, and what linking found there. Ids are absent until they are
resolved. -/
inductive RefBody where
  | classRef (target : Text) (targetId : Option Nat)
  | memberRef (target : Member) (targetId declaringId linkId index : Option Nat)
  | literal (value : Literal)
deriving DecidableEq, Repr

/-- A constant pool reference. `owner` is the id of its class under which it is known. -/
structure Reference where
  owner : Nat
  slot : Int
  kept : Bool
  body : RefBody
deriving DecidableEq, Repr

/-- A declared method and the dependencies found in its code. -/
structure Method where
  sig : Signature
  isStatic : Bool
  kind : MethodKind
  kept : Bool
  linkId : Option Nat
  /-- The code as it was declared. -/
  rawCode : Bytes
  /-- The code with compacted slots, once there is one. -/
  relocated : Option Bytes
  argSlots : Int
  maxLocals : Int
  lines : List LineMark
  handlers : List Handler
  classDeps : List RefAddr
  memberDeps : List RefAddr
  literalDeps : List RefAddr
  arrayDeps : List Int
  builtins : List Int
  codeOffset : Option Nat
  nativeIndex : Option Nat
deriving DecidableEq, Repr

/-- A declared field. Its address is -1 until it is laid out. -/
structure Field where
  sig : Signature
  isStatic : Bool
  kept : Bool
  linkId : Option Nat
  size : Int
  address : Int
deriving DecidableEq, Repr

/-- A registered class. -/
structure Class where
  id : Nat
  name : Text
  super : Text
  kind : ClassKind
  interfaces : List Text
  element : Text
  elementType : Int
  kept : Bool
  /-- The storage of the class's own instance fields. -/
  ownSize : Int
  /-- The storage of all instance fields, the inherited ones included. -/
  totalSize : Int
  methods : List Method
  fields : List Field
  /-- Every reference ever created for the class. -/
  pool : Array Reference
  /-- The positions of the references the class has now, in order. -/
  listed : List Nat
  /-- The position of the reference known at each slot. -/
  slots : List (Int × Nat)
  /-- The rows of the direct subclasses and implementers. -/
  children : List Nat
  maxSlot : Int
  /-- The positions of the distinct member references, in the order of their compacted slots. -/
  table : List Nat
  /-- The position of the distinct member reference that each slot stands for. -/
  forwarding : List (Int × Nat)
deriving DecidableEq, Repr

/-- The registry of one link. -/
structure Registry where
  rows : Array Class := #[]
  /-- The rows of the registered classes in the order of their ids. -/
  live : List Nat := []
  /-- The row that each class name stands for. -/
  names : List (Text × Nat) := []
  /-- The linked signatures; a signature's position is its link id. -/
  signatures : List Signature := []
  staticSize : Int := 0
  linked : Bool := false
  /-- Whether the compacted member tables have been built. -/
  compacted : Bool := false
  /-- A closed registry takes no more changes. -/
  closed : Bool := false
deriving DecidableEq, Repr

/-- A member that a class declares. -/
inductive Declaration where
  | method (m : Method)
  | field (f : Field)
deriving DecidableEq, Repr

namespace Declaration

/-- The signature of a declared member. -/
def sig : Declaration → Signature
  | method m => m.sig
  | field f => f.sig

/-- Whether a declared member is static. -/
def isStatic : Declaration → Bool
  | method m => m.isStatic
  | field f => f.isStatic

/-- Whether a declared member is kept. -/
def kept : Declaration → Bool
  | method m => m.kept
  | field f => f.kept

/-- The link id of a declared member. -/
def linkId : Declaration → Option Nat
  | method m => m.linkId
  | field f => f.linkId

end Declaration

namespace Method

/-- Whether the method was declared with code. -/
def hasCode (m : Method) : Bool := !m.rawCode.isEmpty

/-- The code of the method, relocated once the registry is compacted. -/
def code (m : Method) : Bytes := m.relocated.getD m.rawCode

end Method

namespace Class

/-- The member that a class itself declares with a given signature. -/
def declared? (c : Class) (sig : Signature) : Option Declaration :=
  match c.methods.find? fun m => m.sig = sig with
  | some m => some (.method m)
  | none => (c.fields.find? fun f => f.sig = sig).map .field

/-- A member of the class by its full name. -/
def member (c : Class) (sig : Signature) : Member := ⟨c.name, sig⟩

/-- The name and the id of a class. -/
def text (c : Class) : Text := c.name ++ "#" ++ Text.ofNat c.id

/-- The references the class has now, with their positions. -/
def references (c : Class) : List (Nat × Reference) :=
  c.listed.filterMap fun pos => c.pool[pos]?.map (pos, ·)

end Class

namespace Registry

/-- The class in a row. -/
def classAt? (r : Registry) (row : Nat) : Option Class := r.rows[row]?

/-- The row of the class registered under a name. -/
def find? (r : Registry) (name : Text) : Option Nat := r.names.lookup name

/-- The row of the class with a given id. -/
def byId? (r : Registry) (id : Int) : Option Nat := if id < 0 then none else r.live[id.toNat]?

/-- The registered classes in id order, with their rows. -/
def classes (r : Registry) : List (Nat × Class) :=
  r.live.filterMap fun row => (r.classAt? row).map (row, ·)

/-- The kept classes in id order, with their rows. -/
def keptClasses (r : Registry) : List (Nat × Class) := r.classes.filter fun (_, c) => c.kept

/-- The reference stored at an address. -/
def refAt? (r : Registry) (a : RefAddr) : Option Reference := do
  let c ← r.classAt? a.row
  c.pool[a.pos]?

/-- The address of the reference known under a class id and a slot. -/
def refAddr? (r : Registry) (owner : Int) (slot : Int) : Option RefAddr :=
  r.rows.toList.zipIdx.findSome? fun (c, row) =>
    if (c.id : Int) = owner then (c.slots.lookup slot).map (⟨row, ·⟩) else none

/-- The superclass of a class. -/
def superOf? (r : Registry) (c : Class) : Option Nat :=
  if c.super = [] then none else r.find? c.super

/-- The direct subclasses and implementers of a class in id order. -/
def subclasses (r : Registry) (c : Class) : List (Nat × Class) :=
  (c.children.filterMap fun row => (r.classAt? row).map (row, ·)).mergeSort fun a b =>
    a.2.id ≤ b.2.id

/-- The link id of a signature. -/
def linkId? (r : Registry) (sig : Signature) : Option Nat := r.signatures.idxOf? sig

/-- Changes the class in a row. -/
def modifyClass (r : Registry) (row : Nat) (f : Class → Class) : Registry :=
  { r with rows := r.rows.modify row f }

/-- Changes the reference at an address. -/
def modifyRef (r : Registry) (a : RefAddr) (f : Reference → Reference) : Registry :=
  r.modifyClass a.row fun c => { c with pool := c.pool.modify a.pos f }

/-- Changes the method of a class with a given signature. -/
def modifyMethod (r : Registry) (row : Nat) (sig : Signature) (f : Method → Method) : Registry :=
  r.modifyClass row fun c =>
    { c with methods := c.methods.map fun m => if m.sig = sig then f m else m }

end Registry

/-- An operation on the registry. When it fails, what it had changed before stays changed. -/
abbrev RegistryM := EStateM Failure Registry

namespace RegistryM

/-- Fails with a broken invariant. -/
def inconsistent {α : Type} (cause : Inconsistency) : RegistryM α := throw (.internal cause)

/-- Refuses an operation on a closed registry. -/
def checkOpen (op : RegistryOp) : RegistryM Unit := do
  if (← get).closed then inconsistent (.closed op)

/-- The class in a row. Rows are only made by the registry, so one that does not exist has no
meaning. -/
def classAt (row : Nat) : RegistryM Class := do
  match (← get).classAt? row with
  | some c => return c
  | none => throw .fault

/-- The reference at an address. -/
def refAt (a : RefAddr) : RegistryM Reference := do
  match (← get).refAt? a with
  | some ref => return ref
  | none => throw .fault

end RegistryM

end ClassLinker
