import Mathlib.Tactic.Common
import ClassLinker.ClassFile.Basic

/-! The class file format. A class file as it is written has its names by the slots of the pool, its
pool slot by slot, and the bodies of its attributes in parts. The serialized form puts down every
number high byte first and every list behind its length; what is written is the class file with the
names in place of their slots. -/

namespace ClassLinker

namespace ClassFile

/-! ### Class files as they are written -/

/-- A pool entry as it is written. -/
inductive WrittenConstant where
  | utf8 (text : Text)
  | integer (bits : UInt32)
  | float (bits : UInt32)
  | long (bits : UInt64)
  | double (bits : UInt64)
  | classRef (name : UInt16)
  | string (text : UInt16)
  | member (tag : MemberTag) (owner nameAndType : UInt16)
  | nameAndType (name descriptor : UInt16)
  | methodHandle (kind : UInt8) (reference : UInt16)
  | methodType (descriptor : UInt16)
  | dynamic (bootstrap nameAndType : UInt16)
  | invokeDynamic (bootstrap nameAndType : UInt16)
deriving DecidableEq, Repr

/-- An attribute as it is written: the slot of its name and its body. -/
structure WrittenAttribute (β : Type) where
  name : UInt16
  body : β
deriving DecidableEq, Repr

/-- The body of an attribute of a code body. -/
inductive CodeAttributeBody where
  | lines (rows : List LineRow)
  | other (data : Bytes)
deriving DecidableEq, Repr

/-- The body of a code attribute. -/
structure WrittenCode where
  maxStack : UInt16
  maxLocals : UInt16
  code : Bytes
  handlers : List ExceptionRow
  attributes : List (WrittenAttribute CodeAttributeBody)
deriving DecidableEq, Repr

/-- The body of an attribute of a member or a class. -/
inductive AttributeBody where
  | code (body : WrittenCode)
  | exceptions (slots : List UInt16)
  | other (data : Bytes)
deriving DecidableEq, Repr

/-- A field or a method as it is written. -/
structure WrittenMember where
  flags : UInt16
  name : UInt16
  descriptor : UInt16
  attributes : List (WrittenAttribute AttributeBody)
deriving DecidableEq, Repr

/-- A class file as it is written. The pool is given by slot. -/
structure Written where
  minor : UInt16
  major : UInt16
  slots : List (Option WrittenConstant)
  flags : UInt16
  thisClass : UInt16
  superClass : UInt16
  interfaces : List UInt16
  fields : List WrittenMember
  methods : List WrittenMember
  attributes : List (WrittenAttribute AttributeBody)
deriving DecidableEq, Repr

/-! ### The serialized form -/

/-- The eight bytes of a 64-bit number, high byte first. -/
def eightBytes (n : Nat) : Bytes := fourBytes (n / 0x100000000) ++ fourBytes n

/-- A 16-bit number. -/
def u2 (n : UInt16) : Bytes := twoBytes n.toNat

/-- Items behind their number. -/
def counted {α : Type} (bytes : α → Bytes) (items : List α) : Bytes :=
  twoBytes items.length ++ items.flatMap bytes

namespace WrittenConstant

/-- The tag byte of an entry. -/
def tag : WrittenConstant → UInt8
  | utf8 _ => 1
  | integer _ => 3
  | float _ => 4
  | long _ => 5
  | double _ => 6
  | classRef _ => 7
  | string _ => 8
  | member .field _ _ => 9
  | member .method _ _ => 10
  | member .interfaceMethod _ _ => 11
  | nameAndType _ _ => 12
  | methodHandle _ _ => 15
  | methodType _ => 16
  | dynamic _ _ => 17
  | invokeDynamic _ _ => 18

/-- The bytes after the tag. -/
def body : WrittenConstant → Bytes
  | utf8 text => twoBytes text.length ++ text
  | integer bits | float bits => fourBytes bits.toNat
  | long bits | double bits => eightBytes bits.toNat
  | classRef i | string i | methodType i => u2 i
  | member _ i j | nameAndType i j | dynamic i j | invokeDynamic i j => u2 i ++ u2 j
  | methodHandle kind i => kind :: u2 i

/-- The bytes of an entry. -/
def bytes (c : WrittenConstant) : Bytes := c.tag :: c.body

/-- Whether the entry takes two slots. -/
def isWide : WrittenConstant → Bool
  | long _ | double _ => true
  | _ => false

end WrittenConstant

/-- The bytes of an attribute. -/
def WrittenAttribute.bytes {β : Type} (body : β → Bytes) (a : WrittenAttribute β) : Bytes :=
  u2 a.name ++ fourBytes (body a.body).length ++ body a.body

/-- The bytes of a row of a line number table. -/
def rowBytes (r : LineRow) : Bytes := u2 r.start ++ u2 r.line

/-- The bytes of a row of an exception table. -/
def handlerBytes (r : ExceptionRow) : Bytes := u2 r.start ++ u2 r.stop ++ u2 r.target ++ u2 r.catchType

/-- The bytes of the body of an attribute of a code body. -/
def CodeAttributeBody.bytes : CodeAttributeBody → Bytes
  | lines rows => counted rowBytes rows
  | other data => data

/-- The bytes of the body of a code attribute. -/
def WrittenCode.bytes (c : WrittenCode) : Bytes :=
  u2 c.maxStack ++ u2 c.maxLocals ++ fourBytes c.code.length ++ c.code ++
    counted handlerBytes c.handlers ++
    counted (WrittenAttribute.bytes CodeAttributeBody.bytes) c.attributes

/-- The bytes of the body of an attribute. -/
def AttributeBody.bytes : AttributeBody → Bytes
  | code body => body.bytes
  | exceptions slots => counted u2 slots
  | other data => data

/-- The bytes of a field or a method. -/
def WrittenMember.bytes (m : WrittenMember) : Bytes :=
  u2 m.flags ++ u2 m.name ++ u2 m.descriptor ++
    counted (WrittenAttribute.bytes AttributeBody.bytes) m.attributes

/-- The bytes of the entries in some slots. -/
def slotBytes (slots : List (Option WrittenConstant)) : Bytes :=
  slots.flatMap fun slot => (slot.map WrittenConstant.bytes).getD []

/-- The serialized form of a class file. -/
def Written.bytes (w : Written) : Bytes :=
  [0xCA, 0xFE, 0xBA, 0xBE] ++ u2 w.minor ++ u2 w.major ++
    twoBytes w.slots.length ++ slotBytes w.slots ++
    u2 w.flags ++ u2 w.thisClass ++ u2 w.superClass ++ counted u2 w.interfaces ++
    counted WrittenMember.bytes w.fields ++ counted WrittenMember.bytes w.methods ++
    counted (WrittenAttribute.bytes AttributeBody.bytes) w.attributes

/-! ### What is written -/

/-- The entry that is written. Of the kinds that linking has no use for only the kind counts. -/
def WrittenConstant.constant : WrittenConstant → Constant
  | utf8 text => .utf8 text
  | integer bits => .integer bits
  | float bits => .float bits
  | long bits => .long bits
  | double bits => .double bits
  | classRef i => .classRef i
  | string i => .string i
  | member tag i j => .member tag i j
  | nameAndType i j => .nameAndType i j
  | methodHandle _ _ => .methodHandle
  | methodType _ => .methodType
  | dynamic _ _ => .dynamic
  | invokeDynamic _ _ => .invokeDynamic

section Meaning

variable (slots : List (Option WrittenConstant))

/-- The text in a slot, if a text entry is there. -/
def textAt? (index : UInt16) : Option Text :=
  match slots[index.toNat]? with
  | some (some (.utf8 text)) => some text
  | _ => none

/-- The text in a slot that has one. -/
def textAt (index : UInt16) : Text := (textAt? slots index).getD []

/-- The attribute that is written. -/
def WrittenAttribute.attribute (a : WrittenAttribute AttributeBody) : Attribute :=
  ⟨textAt slots a.name, a.body.bytes⟩

/-- The rows of an attribute of a code body, if it is a line number table. -/
def WrittenAttribute.rows (a : WrittenAttribute CodeAttributeBody) : List LineRow :=
  if textAt slots a.name = ("LineNumberTable" : Text) then
    match a.body with
    | .lines rows => rows
    | .other _ => []
  else []

/-- The code that is written. The rows of all its line number tables are put together. -/
def WrittenCode.codeBody (c : WrittenCode) : CodeBody where
  maxStack := c.maxStack
  maxLocals := c.maxLocals
  code := c.code
  handlers := c.handlers
  lines := c.attributes.flatMap (WrittenAttribute.rows slots)

/-- The code in an attribute of a method, if it is a code attribute. -/
def WrittenAttribute.code? (a : WrittenAttribute AttributeBody) : Option CodeBody :=
  if textAt slots a.name = ("Code" : Text) then
    match a.body with
    | .code body => some (body.codeBody slots)
    | _ => none
  else none

/-- The slots in an attribute of a method, if it lists the thrown classes. -/
def WrittenAttribute.exceptions? (a : WrittenAttribute AttributeBody) : Option (List UInt16) :=
  if textAt slots a.name = ("Exceptions" : Text) then
    match a.body with
    | .exceptions slots => some slots
    | _ => none
  else none

/-- The field that is written. -/
def WrittenMember.field (m : WrittenMember) : FieldEntry where
  flags := m.flags
  name := textAt slots m.name
  descriptor := textAt slots m.descriptor
  attributes := m.attributes.map (WrittenAttribute.attribute slots)

/-- The method that is written. The last attribute of each kind counts. -/
def WrittenMember.method (m : WrittenMember) : MethodEntry where
  flags := m.flags
  name := textAt slots m.name
  descriptor := textAt slots m.descriptor
  attributes := m.attributes.map (WrittenAttribute.attribute slots)
  code := (m.attributes.filterMap (WrittenAttribute.code? slots)).getLast?
  exceptions := ((m.attributes.filterMap (WrittenAttribute.exceptions? slots)).getLast?).getD []

end Meaning

/-- The pool that is written. -/
def poolOf (slots : List (Option WrittenConstant)) : ConstantPool :=
  (slots.map (Option.map WrittenConstant.constant)).toArray

/-- The class file that is written. -/
def Written.classFile (w : Written) : ClassFile where
  minor := w.minor
  major := w.major
  pool := poolOf w.slots
  flags := w.flags
  thisClass := w.thisClass
  superClass := w.superClass
  interfaces := w.interfaces
  fields := w.fields.map (WrittenMember.field w.slots)
  methods := w.methods.map (WrittenMember.method w.slots)

/-! ### Well-formed class files -/

/-- Slots that are filled one after the other: an entry takes one slot, and a wide one also the slot
after it. -/
inductive Filled : List (Option WrittenConstant) → Prop
  | nil : Filled []
  | narrow {c : WrittenConstant} {slots : List (Option WrittenConstant)} (hnarrow : c.isWide = false)
      (hrest : Filled slots) : Filled (some c :: slots)
  | wide {c : WrittenConstant} {slots : List (Option WrittenConstant)} (hwide : c.isWide = true)
      (hrest : Filled slots) : Filled (some c :: none :: slots)

theorem filled_cons_iff {slot : Option WrittenConstant} {slots : List (Option WrittenConstant)} :
    Filled (slot :: slots) ↔ ∃ c ∈ slot, (c.isWide = false ∧ Filled slots) ∨
      (c.isWide = true ∧ slots.head? = some none ∧ Filled slots.tail) := by
  constructor
  · rintro (_ | ⟨hnarrow, hrest⟩ | ⟨hwide, hrest⟩)
    · exact ⟨_, rfl, .inl ⟨hnarrow, hrest⟩⟩
    · exact ⟨_, rfl, .inr ⟨hwide, rfl, hrest⟩⟩
  · rintro ⟨c, rfl, ⟨hnarrow, hrest⟩ | ⟨hwide, hhead, hrest⟩⟩
    · exact .narrow hnarrow hrest
    · obtain ⟨rest, rfl⟩ := List.head?_eq_some_iff.mp hhead
      exact .wide hwide hrest

instance decidableFilled : (slots : List (Option WrittenConstant)) → Decidable (Filled slots)
  | [] => isTrue .nil
  | [_] =>
    have : Decidable (Filled []) := isTrue .nil
    have : Decidable (Filled ([] : List (Option WrittenConstant)).tail) := isTrue .nil
    decidable_of_iff' _ filled_cons_iff
  | _ :: next :: slots =>
    have := decidableFilled (next :: slots)
    have : Decidable (Filled (next :: slots).tail) := decidableFilled slots
    decidable_of_iff' _ filled_cons_iff

/-- The length of a text fits into two bytes. -/
def WrittenConstant.Fits : WrittenConstant → Prop
  | utf8 text => text.length < 0x10000
  | _ => True

instance : DecidablePred WrittenConstant.Fits
  | .utf8 text => Nat.decLt text.length 0x10000
  | .integer _ | .float _ | .long _ | .double _ | .classRef _ | .string _ | .member _ _ _
  | .nameAndType _ _ | .methodHandle _ _ | .methodType _ | .dynamic _ _ | .invokeDynamic _ _ =>
    isTrue trivial

/-- A pool: slot 0 holds nothing, and the others are filled. A pool without any slot has nothing
to fill. -/
@[mk_iff]
structure PoolWellFormed (slots : List (Option WrittenConstant)) : Prop where
  filled : ∀ slot ∈ slots.head?, slot = none ∧ Filled slots.tail
  length_lt : slots.length < 0x10000
  fits : ∀ slot ∈ slots, ∀ c ∈ slot, c.Fits

instance : DecidablePred PoolWellFormed := fun slots => decidable_of_iff' _ (poolWellFormed_iff slots)

section WellFormed

variable (slots : List (Option WrittenConstant))

/-- An attribute has a name, and the length of its body fits into four bytes. -/
@[mk_iff]
structure WrittenAttribute.WellFormed {β : Type} (body : β → Bytes) (a : WrittenAttribute β) :
    Prop where
  named : (textAt? slots a.name).isSome = true
  length_lt : (body a.body).length < 0x100000000

instance {β : Type} (body : β → Bytes) : DecidablePred (WrittenAttribute.WellFormed slots body) :=
  fun a => decidable_of_iff' _ (WrittenAttribute.wellFormed_iff slots body a)

/-- The body is a line number table. -/
def CodeAttributeBody.IsLines : CodeAttributeBody → Prop
  | lines rows => rows.length < 0x10000
  | other _ => False

instance : DecidablePred CodeAttributeBody.IsLines
  | .lines rows => Nat.decLt rows.length 0x10000
  | .other _ => isFalse id

theorem CodeAttributeBody.IsLines.exists_lines {body : CodeAttributeBody} (h : body.IsLines) :
    ∃ rows, body = .lines rows ∧ rows.length < 0x10000 := by
  cases body with
  | lines rows => exact ⟨rows, rfl, h⟩
  | other data => exact h.elim

/-- The attributes of a code body that are named so are line number tables. -/
@[mk_iff]
structure WrittenCode.WellFormed (c : WrittenCode) : Prop where
  code_length_lt : c.code.length < 0x100000000
  handlers_length_lt : c.handlers.length < 0x10000
  attributes_length_lt : c.attributes.length < 0x10000
  attributes : ∀ a ∈ c.attributes, a.WellFormed slots CodeAttributeBody.bytes
  lines : ∀ a ∈ c.attributes, textAt slots a.name = ("LineNumberTable" : Text) → a.body.IsLines

instance : DecidablePred (WrittenCode.WellFormed slots) :=
  fun c => decidable_of_iff' _ (WrittenCode.wellFormed_iff slots c)

/-- The body is code. -/
def AttributeBody.IsCode : AttributeBody → Prop
  | code body => body.WellFormed slots
  | _ => False

instance : DecidablePred (AttributeBody.IsCode slots)
  | .code body => inferInstanceAs (Decidable (body.WellFormed slots))
  | .exceptions _ | .other _ => isFalse id

variable {slots} in
theorem AttributeBody.IsCode.exists_code {body : AttributeBody} (h : body.IsCode slots) :
    ∃ code, body = .code code ∧ code.WellFormed slots := by
  cases body with
  | code code => exact ⟨code, rfl, h⟩
  | exceptions thrown => exact h.elim
  | other data => exact h.elim

/-- The body is a list of thrown classes. -/
def AttributeBody.IsExceptions : AttributeBody → Prop
  | exceptions thrown => thrown.length < 0x10000
  | _ => False

instance : DecidablePred AttributeBody.IsExceptions
  | .exceptions thrown => Nat.decLt thrown.length 0x10000
  | .code _ | .other _ => isFalse id

theorem AttributeBody.IsExceptions.exists_exceptions {body : AttributeBody} (h : body.IsExceptions) :
    ∃ thrown, body = .exceptions thrown ∧ thrown.length < 0x10000 := by
  cases body with
  | code code => exact h.elim
  | exceptions thrown => exact ⟨thrown, rfl, h⟩
  | other data => exact h.elim

/-- A field or a method has a name and a descriptor, and its attributes are well-formed. -/
@[mk_iff]
structure WrittenMember.WellFormed (m : WrittenMember) : Prop where
  named : (textAt? slots m.name).isSome = true
  described : (textAt? slots m.descriptor).isSome = true
  attributes_length_lt : m.attributes.length < 0x10000
  attributes : ∀ a ∈ m.attributes, a.WellFormed slots AttributeBody.bytes

instance : DecidablePred (WrittenMember.WellFormed slots) :=
  fun m => decidable_of_iff' _ (WrittenMember.wellFormed_iff slots m)

/-- The attributes of a method that are named so are its code and its thrown classes. -/
@[mk_iff]
structure WrittenMember.MethodWellFormed (m : WrittenMember) : Prop extends m.WellFormed slots where
  code : ∀ a ∈ m.attributes, textAt slots a.name = ("Code" : Text) → a.body.IsCode slots
  exceptions : ∀ a ∈ m.attributes, textAt slots a.name = ("Exceptions" : Text) → a.body.IsExceptions

instance : DecidablePred (WrittenMember.MethodWellFormed slots) :=
  fun m => decidable_of_iff' _ (WrittenMember.methodWellFormed_iff slots m)

end WellFormed

/-- A class file whose names are there, whose lists and bodies fit the space for their lengths, and
whose attributes are what their names say. -/
@[mk_iff]
structure Written.WellFormed (w : Written) : Prop where
  pool : PoolWellFormed w.slots
  interfaces_length_lt : w.interfaces.length < 0x10000
  fields_length_lt : w.fields.length < 0x10000
  methods_length_lt : w.methods.length < 0x10000
  attributes_length_lt : w.attributes.length < 0x10000
  fields : ∀ m ∈ w.fields, m.WellFormed w.slots
  methods : ∀ m ∈ w.methods, m.MethodWellFormed w.slots
  attributes : ∀ a ∈ w.attributes, a.WellFormed w.slots AttributeBody.bytes

instance : DecidablePred Written.WellFormed := fun w => decidable_of_iff' _ (Written.wellFormed_iff w)

end ClassFile

end ClassLinker
