import ClassLinker.Instruction.Decode

/-!
The contents of a class file as they are read: the constant pool slot by slot, the class header, the
fields and the methods with their code.
-/

namespace ClassLinker

/-- The three kinds of constant pool entry that name a member. -/
inductive MemberTag where
  | field
  | method
  | interfaceMethod
deriving DecidableEq, Repr

/-- A constant pool entry. Indices refer to other entries of the same pool; entries of the kinds
that linking has no use for keep only their tag. -/
inductive Constant where
  | utf8 (text : Text)
  | integer (bits : UInt32)
  | float (bits : UInt32)
  | long (bits : UInt64)
  | double (bits : UInt64)
  | classRef (name : UInt16)
  | string (text : UInt16)
  | member (tag : MemberTag) (owner nameAndType : UInt16)
  | nameAndType (name descriptor : UInt16)
  | methodHandle
  | methodType
  | dynamic
  | invokeDynamic
deriving DecidableEq, Repr

namespace MemberTag

/-- The tag byte of a member entry. -/
def code : MemberTag → Nat
  | field => 9
  | method => 10
  | interfaceMethod => 11

end MemberTag

namespace Constant

/-- The tag byte of an entry. -/
def tag : Constant → Nat
  | utf8 _ => 1
  | integer _ => 3
  | float _ => 4
  | long _ => 5
  | double _ => 6
  | classRef _ => 7
  | string _ => 8
  | member t _ _ => t.code
  | nameAndType _ _ => 12
  | methodHandle => 15
  | methodType => 16
  | dynamic => 17
  | invokeDynamic => 18

/-- Longs and doubles take two slots of the pool, of which the second is unusable. -/
def isWide : Constant → Bool
  | long _ => true
  | double _ => true
  | _ => false

end Constant

/-- A constant pool by slot. Slot 0 and the slot after a long or double hold nothing. -/
abbrev ConstantPool := Array (Option Constant)

/-- An attribute as it stands in the file. -/
structure Attribute where
  name : Text
  data : Bytes
deriving DecidableEq, Repr

/-- A row of an exception table. A catch type of 0 catches everything. -/
structure ExceptionRow where
  start : UInt16
  stop : UInt16
  target : UInt16
  catchType : UInt16
deriving DecidableEq, Repr

/-- A row of a line number table. -/
structure LineRow where
  start : UInt16
  line : UInt16
deriving DecidableEq, Repr

/-- The code of a method. -/
structure CodeBody where
  maxStack : UInt16
  maxLocals : UInt16
  code : Bytes
  handlers : List ExceptionRow
  lines : List LineRow
deriving DecidableEq, Repr

/-- A field of a class file. -/
structure FieldEntry where
  flags : UInt16
  name : Text
  descriptor : Text
  attributes : List Attribute
deriving DecidableEq, Repr

/-- A method of a class file. -/
structure MethodEntry where
  flags : UInt16
  name : Text
  descriptor : Text
  attributes : List Attribute
  code : Option CodeBody
  /-- The pool slots of the classes that the method declares to throw. -/
  exceptions : List UInt16
deriving DecidableEq, Repr

/-- A class file. -/
structure ClassFile where
  minor : UInt16
  major : UInt16
  pool : ConstantPool
  flags : UInt16
  thisClass : UInt16
  superClass : UInt16
  interfaces : List UInt16
  fields : List FieldEntry
  methods : List MethodEntry
deriving DecidableEq, Repr

/-- The bits of access flags that linking looks at. -/
inductive AccessFlag where
  | isStatic
  | isNative
  | isInterface
  | isAbstract
deriving DecidableEq, Repr

namespace AccessFlag

/-- The position of a flag's bit. -/
def bit : AccessFlag → Nat
  | isStatic => 3
  | isNative => 8
  | isInterface => 9
  | isAbstract => 10

/-- Whether a flag is set. -/
def isSet (flag : AccessFlag) (flags : UInt16) : Bool := flags.toNat.testBit flag.bit

end AccessFlag

namespace FieldEntry

/-- Whether the field belongs to the class and not to its instances. -/
def isStatic (f : FieldEntry) : Bool := AccessFlag.isStatic.isSet f.flags

end FieldEntry

namespace MethodEntry

/-- Whether the method has no receiver. -/
def isStatic (m : MethodEntry) : Bool := AccessFlag.isStatic.isSet m.flags

/-- Whether the method is implemented outside the program. -/
def isNative (m : MethodEntry) : Bool := AccessFlag.isNative.isSet m.flags

/-- Whether the method has no implementation. -/
def isAbstract (m : MethodEntry) : Bool := AccessFlag.isAbstract.isSet m.flags

end MethodEntry

namespace ClassFile

/-- Whether the class file declares an interface. -/
def isInterface (cf : ClassFile) : Bool := AccessFlag.isInterface.isSet cf.flags

/-- The position of the first method with a given name and descriptor. -/
def findMethod? (cf : ClassFile) (name descriptor : Text) : Option Nat :=
  cf.methods.findIdx? fun m => m.name = name && m.descriptor = descriptor

end ClassFile

end ClassLinker
