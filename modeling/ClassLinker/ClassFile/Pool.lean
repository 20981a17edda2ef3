import ClassLinker.ClassFile.Basic

/-!
Resolving constant pool entries: the text of an entry, the name of a class entry, the value of a
string entry and the class, name and descriptor of a member entry.
-/

namespace ClassLinker

/-- Why a pool entry cannot be resolved. -/
inductive PoolError where
  | invalidIndex (index : UInt16)
  | notUtf8 (index : UInt16) (tag : Nat)
  | notClass (index : UInt16) (tag : Nat)
  | notString (index : UInt16) (tag : Nat)
  | notMember (index : UInt16) (tag : Nat)
  | notNameAndType (index : UInt16)
  | memberClass (cause : PoolError)
  | memberNameAndType (cause : PoolError)
  | memberName (cause : PoolError)
  | memberDescriptor (cause : PoolError)
deriving DecidableEq, Repr

namespace PoolError

/-- An index in a message. -/
def indexText (index : UInt16) : Text := "constant pool index " ++ Text.ofNat index.toNat

/-- A tag in a message. -/
def tagText (tag : Nat) : Text := " (tag=" ++ Text.ofNat tag ++ ")"

/-- The message of an entry that cannot be resolved. -/
def message : PoolError → Text
  | invalidIndex i => "invalid " ++ indexText i
  | notUtf8 i tag => indexText i ++ " is not Utf8" ++ tagText tag
  | notClass i tag => indexText i ++ " is not Class" ++ tagText tag
  | notString i tag => indexText i ++ " is not String" ++ tagText tag
  | notMember i tag => indexText i ++ " is not a member reference" ++ tagText tag
  | notNameAndType i => indexText i ++ " is not NameAndType"
  | memberClass e => "resolving member reference class: " ++ e.message
  | memberNameAndType e => "resolving NameAndType: " ++ e.message
  | memberName e => "resolving member name: " ++ e.message
  | memberDescriptor e => "resolving member descriptor: " ++ e.message

end PoolError

/-- A member entry with its indices resolved. -/
structure MemberInfo where
  className : Text
  name : Text
  descriptor : Text
  isField : Bool
deriving DecidableEq, Repr

namespace ConstantPool

/-- The entry at a slot. -/
def entry (pool : ConstantPool) (index : UInt16) : Except PoolError Constant :=
  match pool[index.toNat]? with
  | some (some c) => .ok c
  | _ => .error (.invalidIndex index)

/-- The text of a text entry. -/
def utf8 (pool : ConstantPool) (index : UInt16) : Except PoolError Text := do
  match ← entry pool index with
  | .utf8 text => return text
  | c => throw (.notUtf8 index c.tag)

/-- The name of the class that a class entry refers to. -/
def className (pool : ConstantPool) (index : UInt16) : Except PoolError Text := do
  match ← entry pool index with
  | .classRef name => utf8 pool name
  | c => throw (.notClass index c.tag)

/-- The value of a string entry. -/
def string (pool : ConstantPool) (index : UInt16) : Except PoolError Text := do
  match ← entry pool index with
  | .string text => utf8 pool text
  | c => throw (.notString index c.tag)

/-- The class, name and descriptor of a member entry. -/
def memberInfo (pool : ConstantPool) (index : UInt16) : Except PoolError MemberInfo := do
  match ← entry pool index with
  | .member tag owner nameAndType =>
    let className ← (className pool owner).mapError .memberClass
    match ← (entry pool nameAndType).mapError .memberNameAndType with
    | .nameAndType name descriptor =>
      let name ← (utf8 pool name).mapError .memberName
      let descriptor ← (utf8 pool descriptor).mapError .memberDescriptor
      return { className, name, descriptor, isField := tag = .field }
    | _ => throw (.notNameAndType nameAndType)
  | c => throw (.notMember index c.tag)

end ConstantPool

namespace ClassFile

/-- The name of the class. -/
def className (cf : ClassFile) : Except PoolError Text :=
  ConstantPool.className cf.pool cf.thisClass

/-- The name of the superclass; empty when there is none or its entry does not resolve. -/
def superName (cf : ClassFile) : Text :=
  if cf.superClass = 0 then []
  else
    match ConstantPool.className cf.pool cf.superClass with
    | .ok name => name
    | .error _ => []

/-- The names of the interfaces. -/
def interfaceNames (cf : ClassFile) : Except PoolError (List Text) :=
  cf.interfaces.mapM (ConstantPool.className cf.pool)

end ClassFile

end ClassLinker
