import ClassLinker.Error

/-!
Class declarations: what linking needs to know of a class file, with every name resolved. A
declaration is made from a class file by `ofClassFile`; texts, name-and-type entries and entries of
dynamic calls are not carried over.
-/

namespace ClassLinker

/-- The contents of a pool slot. Constants are numbered by kind from 3 on: int, float, long, double,
string. -/
inductive PoolItem where
  | classRef (name : Text)
  | member (className name descriptor : Text) (isField : Bool)
  | constant (kind : Int) (value : Option Literal)
deriving DecidableEq, Repr

namespace PoolItem

/-- The kind of literal that a numbered kind of constant holds. -/
def literalKind? (kind : Int) : Option LiteralKind := LiteralKind.ofCode? (kind - 3)

/-- The name of a numbered kind of pool item. -/
def textOfCode (kind : Int) : Text :=
  if kind = 1 then "class"
  else if kind = 2 then "member"
  else
    match literalKind? kind with
    | some k => k.text
    | none => "PoolKind(" ++ Text.ofInt kind ++ ")"

/-- The number of the kind of a pool item. -/
def kindCode : PoolItem → Int
  | classRef _ => 1
  | member _ _ _ _ => 2
  | constant kind _ => kind

/-- The pool item of a literal. -/
def ofLiteral (v : Literal) : PoolItem :=
  match v.kind with
  | .int => constant 3 (some v)
  | .float => constant 4 (some v)
  | .long => constant 5 (some v)
  | .double => constant 6 (some v)
  | .string => constant 7 (some v)

end PoolItem

/-- A pool slot and its contents. -/
structure PoolSlot where
  slot : Int
  item : PoolItem
deriving DecidableEq, Repr

/-- The source line of the code from a pc on. -/
structure LineMark where
  pc : Int
  line : Int
deriving DecidableEq, Repr

/-- The code range that an exception handler covers, the handler's pc and the pool slot of the class
it catches, 0 for every class. -/
structure Handler where
  start : Int
  stop : Int
  target : Int
  catchSlot : Int
deriving DecidableEq, Repr

/-- A declared field. -/
structure FieldDecl where
  name : Text
  descriptor : Text
  isStatic : Bool
  size : Int
deriving DecidableEq, Repr

/-- A declared method. -/
structure MethodDecl where
  name : Text
  descriptor : Text
  isStatic : Bool
  isNative : Bool
  isAbstract : Bool
  code : Bytes
  maxLocals : Int
  argSlots : Int
  lines : List LineMark
  handlers : List Handler
  /-- The pool slots of the classes that the method declares to throw. -/
  throws : List Int
deriving DecidableEq, Repr

/-- A declared class. The root of the hierarchy has an empty superclass name. -/
structure ClassDecl where
  name : Text
  super : Text
  isInterface : Bool
  interfaces : List Text
  fields : List FieldDecl
  methods : List MethodDecl
  pool : List PoolSlot
  poolSize : Int
deriving DecidableEq, Repr

namespace ClassDecl

/-- The pool item of a constant pool entry; none for an entry that linking has no use for. -/
def itemOf? (pool : ConstantPool) (slot : UInt16) : Constant → Except PoolError (Option PoolItem)
  | .classRef _ => do
    return some (.classRef (← ConstantPool.className pool slot))
  | .member _ _ _ => do
    let m ← ConstantPool.memberInfo pool slot
    return some (.member m.className m.name m.descriptor m.isField)
  | .integer bits => .ok (some (.ofLiteral (.int bits.toInt32.toInt)))
  | .float bits => .ok (some (.ofLiteral (.float bits)))
  | .long bits => .ok (some (.ofLiteral (.long bits.toInt64.toInt)))
  | .double bits => .ok (some (.ofLiteral (.double bits)))
  | .string _ => do
    return some (.ofLiteral (.string (← ConstantPool.string pool slot)))
  | _ => .ok none

/-- The pool slots of the entries from slot `i` on. -/
def poolOf (name : Text) (pool : ConstantPool) : Nat → List (Option Constant) →
    Except Error (List PoolSlot)
  | _, [] => .ok []
  | i, none :: rest => poolOf name pool (i + 1) rest
  | i, some c :: rest =>
    match itemOf? pool i.toUInt16 c with
    | .error e => .error (.within (name ++ ": pool slot " ++ Text.ofNat i) (.pool e))
    | .ok item =>
      match poolOf name pool (i + 1) rest with
      | .error e => .error e
      | .ok slots =>
        match item with
        | none => .ok slots
        | some item => .ok (⟨i, item⟩ :: slots)

/-- The declaration of a field. -/
def fieldOf (f : FieldEntry) : FieldDecl where
  name := f.name
  descriptor := f.descriptor
  isStatic := f.isStatic
  size := FieldType.sizeOfDescriptor f.descriptor

/-- The declaration of a method. A method with neither code nor an excuse for having none is
refused. -/
def methodOf (className : Text) (m : MethodEntry) : Except Error MethodDecl :=
  match MethodType.read m.descriptor with
  | .error e => .error (.within (className ++ "." ++ m.name) (.descriptor e))
  | .ok type =>
    let bare : MethodDecl :=
      { name := m.name, descriptor := m.descriptor, isStatic := m.isStatic, isNative := m.isNative
        isAbstract := m.isAbstract, code := [], maxLocals := 0, argSlots := type.argSlots m.isStatic
        lines := [], handlers := [], throws := m.exceptions.map fun slot => (slot.toNat : Int) }
    match m.code with
    | some body =>
      .ok { bare with
        code := body.code
        maxLocals := body.maxLocals.toNat
        lines := body.lines.map fun row => ⟨row.start.toNat, row.line.toNat⟩
        handlers := body.handlers.map fun row =>
          ⟨row.start.toNat, row.stop.toNat, row.target.toNat, row.catchType.toNat⟩ }
    | none =>
      if m.isNative || m.isAbstract then .ok bare
      else
        .error (.within (className ++ "." ++ m.name ++ m.descriptor)
          (.plain "concrete method without Code attribute"))

/-- The declaration of a class file. -/
def ofClassFile (cf : ClassFile) : Except Error ClassDecl := do
  let name ← cf.className.mapError fun e => .within "resolving this_class" (.pool e)
  let interfaces ← cf.interfaceNames.mapError fun e =>
    .within (name ++ ": resolving interfaces") (.pool e)
  let pool ← poolOf name cf.pool 0 cf.pool.toList
  let methods ← cf.methods.mapM (methodOf name)
  return {
    name, interfaces, pool, methods
    super := cf.superName
    isInterface := cf.isInterface
    fields := cf.fields.map fieldOf
    poolSize := cf.pool.size }

/-- Reads a class file and makes its declaration. -/
def read (data : Bytes) : Except Error ClassDecl := do
  let cf ← (ClassFile.read data).mapError .classFile
  ofClassFile cf

end ClassDecl

end ClassLinker
