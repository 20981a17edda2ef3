import ClassLinker.ClassFile.Pool

/-!
Reading class files. A class file is a sequence of big-endian items; the reader takes them off the
front of the remaining bytes and the first item that is not there ends the reading with the place in
the file where it was expected. The bodies of attributes are cut out whole first, and the bodies of
`Code`, `Exceptions` and `LineNumberTable` attributes are read from what was cut out. Bytes after
the class attributes are not looked at.

The first failure ends the reading at once. A reader that remembers its first failure, answers every
later item with zeros and is asked for the failure where a `locate` ends gives the same result. Until
then it only stores these zeros in what is thrown away with the failure, or takes them for the number
of further items, which are not read either. Every other use of an item, such as that of a tag, of the
index of a name or of the count of a table, comes after the `locate` that it was taken in.
-/

namespace ClassLinker

/-- How the input ended where an item was expected: before it, inside it, or with a fault of the
input itself. -/
inductive ReadFault where
  | ended
  | endedInside
  | broken (message : Text)
deriving DecidableEq, Repr

namespace ReadFault

/-- The message of an input that ended. -/
def message : ReadFault → Text
  | ended => "EOF"
  | endedInside => "unexpected EOF"
  | broken text => text

end ReadFault

/-- A place in a class file. -/
inductive Place where
  | magic
  | version
  | pool
  | poolTag (index : UInt16)
  | poolEntry (index : UInt16) (tag : UInt8)
  | header
  | fields
  | methods
  | classAttributes
  | fieldCount
  | methodCount
  | attributeCount
  | field (index : Nat)
  | method (index : Nat)
  | fieldName (index : Nat)
  | fieldDescriptor (index : Nat)
  | methodName (index : Nat)
  | methodDescriptor (index : Nat)
  | fieldAttributes (name : Text)
  | methodAttributes (name : Text)
  | attributeBody (index : Nat)
  | attributeName (index : Nat)
  | codeOf (name descriptor : Text)
  | exceptionsOf (name descriptor : Text)
  | codeLength (length : UInt32)
  | handlerCount
  | handler (index : Nat)
  | codeAttributeCount
  | codeAttributeName (index : Nat)
  | lineNumbers
deriving DecidableEq, Repr

namespace Place

/-- What a message says about a place. -/
def text : Place → Text
  | magic => "reading magic number"
  | version => "reading version and constant pool count"
  | pool => "parsing constant pool"
  | poolTag i => "reading constant pool tag at index " ++ Text.ofNat i.toNat
  | poolEntry i tag =>
    "reading constant pool entry " ++ Text.ofNat i.toNat ++ " (tag " ++ Text.ofNat tag.toNat ++ ")"
  | header => "reading class header"
  | fields => "parsing fields"
  | methods => "parsing methods"
  | classAttributes => "parsing class attributes"
  | fieldCount => "reading fields count"
  | methodCount => "reading methods count"
  | attributeCount => "reading attributes count"
  | field i => "reading field " ++ Text.ofNat i
  | method i => "reading method " ++ Text.ofNat i
  | fieldName i => "resolving field " ++ Text.ofNat i ++ " name"
  | fieldDescriptor i => "resolving field " ++ Text.ofNat i ++ " descriptor"
  | methodName i => "resolving method " ++ Text.ofNat i ++ " name"
  | methodDescriptor i => "resolving method " ++ Text.ofNat i ++ " descriptor"
  | fieldAttributes name => "parsing field " ++ name ++ " attributes"
  | methodAttributes name => "parsing method " ++ name ++ " attributes"
  | attributeBody i => "reading attribute " ++ Text.ofNat i
  | attributeName i => "resolving attribute " ++ Text.ofNat i ++ " name"
  | codeOf name descriptor => "parsing Code attribute for method " ++ name ++ descriptor
  | exceptionsOf name descriptor => "parsing Exceptions attribute for method " ++ name ++ descriptor
  | codeLength n => "code_length " ++ Text.ofNat n.toNat
  | handlerCount => "exception table length"
  | handler i => "exception handler " ++ Text.ofNat i
  | codeAttributeCount => "code attributes count"
  | codeAttributeName i => "resolving code attribute " ++ Text.ofNat i ++ " name"
  | lineNumbers => "parsing LineNumberTable"

end Place

/-- Why a class file is refused. -/
inductive ClassFileError where
  | input (fault : ReadFault)
  | badMagic (magic : UInt32)
  | unknownTag (tag : UInt8) (index : UInt16)
  | unresolved (cause : PoolError)
  | shortBody (need offset available : Nat)
  | within (place : Place) (cause : ClassFileError)
deriving DecidableEq, Repr

namespace ClassFileError

/-- The message of a refused class file. -/
def message : ClassFileError → Text
  | input fault => fault.message
  | badMagic magic =>
    "invalid magic number: 0x" ++ Text.upperHex magic.toNat ++ " (expected 0xCAFEBABE)"
  | unknownTag tag index =>
    "unknown constant pool tag " ++ Text.ofNat tag.toNat ++ " at index " ++ Text.ofNat index.toNat
  | unresolved cause => cause.message
  | shortBody need offset available =>
    "need " ++ Text.ofNat need ++ " bytes at offset " ++ Text.ofNat offset ++ ", have " ++
      Text.ofNat available
  | within place cause => place.text ++ ": " ++ cause.message

/-- The error when the input does not merely end but breaks off with a fault of its own. -/
def withInputFault (text : Text) : ClassFileError → ClassFileError
  | input _ => input (.broken text)
  | within place cause => within place (cause.withInputFault text)
  | e => e

end ClassFileError

namespace ClassFile

/-- Reads from the remaining bytes of a class file. -/
abbrev Reader (α : Type) := StateT Bytes (Except ClassFileError) α

/-- What is left of the body of an attribute, and how much of it was read. -/
structure Body where
  offset : Nat
  rest : Bytes
deriving DecidableEq, Repr

/-- Reads from the body of an attribute. -/
abbrev BodyReader (α : Type) := StateT Body (Except ClassFileError) α

/-- Says where a failure happened. -/
def locate {σ α : Type} (place : Place) (r : StateT σ (Except ClassFileError) α) :
    StateT σ (Except ClassFileError) α :=
  fun s => (r s).mapError (.within place)

/-- Reads `n` items one after the other; `step` is told the position of each. -/
def readMany {σ α : Type} (step : Nat → StateT σ (Except ClassFileError) α) :
    Nat → Nat → StateT σ (Except ClassFileError) (List α)
  | 0, _ => return []
  | n + 1, i => do
    let a ← step i
    let as ← readMany step n (i + 1)
    return a :: as

/-- The text of a pool entry, as part of reading. -/
def lookupText {σ : Type} (pool : ConstantPool) (place : Place) (index : UInt16) :
    StateT σ (Except ClassFileError) Text :=
  locate place (fun s => ((ConstantPool.utf8 pool index).mapError .unresolved).map (·, s))

/-- Takes `n` bytes. -/
def takeBytes (n : Nat) : Reader Bytes := fun input =>
  let taken := input.take n
  if taken.length = n then .ok (taken, input.drop n)
  else if input.isEmpty then .error (.input .ended)
  else .error (.input .endedInside)

/-- Takes an 8-bit number. -/
def takeU1 : Reader UInt8 := return (bigEndian (← takeBytes 1)).toUInt8

/-- Takes a 16-bit number. -/
def takeU2 : Reader UInt16 := return (bigEndian (← takeBytes 2)).toUInt16

/-- Takes a 32-bit number. -/
def takeU4 : Reader UInt32 := return (bigEndian (← takeBytes 4)).toUInt32

/-- Takes a 64-bit number. -/
def takeU8 : Reader UInt64 := return (bigEndian (← takeBytes 8)).toUInt64

/-- Takes the two indices of a member entry. -/
def takeMember (tag : MemberTag) : Reader Constant :=
  return .member tag (← takeU2) (← takeU2)

/-- Skips the body of an entry of which only the tag is kept. -/
def skipBody (n : Nat) (c : Constant) : Reader Constant := do
  discard (takeBytes n)
  return c

/-- The reader of the body of a pool entry with a given tag; none for an unknown tag. -/
def constantReader? (tag : UInt8) : Option (Reader Constant) :=
  match tag with
  | 1 => some do
    let n ← takeU2
    return .utf8 (← takeBytes n.toNat)
  | 3 => some (return .integer (← takeU4))
  | 4 => some (return .float (← takeU4))
  | 5 => some (return .long (← takeU8))
  | 6 => some (return .double (← takeU8))
  | 7 => some (return .classRef (← takeU2))
  | 8 => some (return .string (← takeU2))
  | 9 => some (takeMember .field)
  | 10 => some (takeMember .method)
  | 11 => some (takeMember .interfaceMethod)
  | 12 => some (return .nameAndType (← takeU2) (← takeU2))
  | 15 => some (skipBody 3 .methodHandle)
  | 16 => some (skipBody 2 .methodType)
  | 17 => some (skipBody 4 .dynamic)
  | 18 => some (skipBody 4 .invokeDynamic)
  | _ => none

/-- Takes the pool entry of slot `i`. -/
def takeConstant (i : UInt16) : Reader Constant := do
  let tag ← locate (.poolTag i) takeU1
  match constantReader? tag with
  | none => throw (.unknownTag tag i)
  | some reader => locate (.poolEntry i tag) reader

/-- Fills the pool from slot `i` on. Slots are counted in 16 bits: a long or double in slot 65534 of
a pool of 65535 wraps the count, and filling starts over at slot 0. Every entry takes at least one
byte, so `fuel` above the length of the input never runs out. -/
def takePool (count : UInt16) : Nat → UInt16 → ConstantPool → Reader ConstantPool
  | 0, _, _ => throw (.input .ended)
  | fuel + 1, i, pool =>
    if i < count then do
      let c ← takeConstant i
      takePool count fuel (if c.isWide then i + 2 else i + 1)
        (pool.setIfInBounds i.toNat (some c))
    else return pool

/-- Takes one attribute; its name is looked up once its body is there. -/
def takeAttribute (pool : ConstantPool) (i : Nat) : Reader Attribute := do
  let (nameIndex, data) ← locate (.attributeBody i) do
    let nameIndex ← takeU2
    let length ← takeU4
    let data ← takeBytes length.toNat
    return (nameIndex, data)
  let name ← lookupText pool (.attributeName i) nameIndex
  return { name, data }

/-- Takes a list of attributes. -/
def takeAttributes (pool : ConstantPool) : Reader (List Attribute) := do
  let count ← locate .attributeCount takeU2
  readMany (takeAttribute pool) count.toNat 0

namespace Body

/-- Takes `n` bytes of a body. -/
def takeBytes (n : Nat) : BodyReader Bytes := fun b =>
  let taken := b.rest.take n
  if taken.length = n then .ok (taken, ⟨b.offset + n, b.rest.drop n⟩)
  else .error (.shortBody n b.offset b.rest.length)

/-- Takes a 16-bit number of a body. -/
def takeU2 : BodyReader UInt16 := return (bigEndian (← takeBytes 2)).toUInt16

/-- Takes a 32-bit number of a body. -/
def takeU4 : BodyReader UInt32 := return (bigEndian (← takeBytes 4)).toUInt32

/-- Reads the body of an attribute from its start. Bytes left over are ignored. -/
def read {α : Type} (reader : BodyReader α) (data : Bytes) : Except ClassFileError α :=
  (reader ⟨0, data⟩).map Prod.fst

end Body

/-- Reads the body of a line number table. -/
def lineTable : BodyReader (List LineRow) := do
  let count ← Body.takeU2
  readMany (fun _ => return ⟨← Body.takeU2, ← Body.takeU2⟩) count.toNat 0

/-- Reads the body of a list of thrown classes. -/
def exceptionList : BodyReader (List UInt16) := do
  let count ← Body.takeU2
  readMany (fun _ => Body.takeU2) count.toNat 0

/-- Takes an attribute of a code body and reads it if it is a line number table. -/
def codeAttribute (pool : ConstantPool) (i : Nat) : BodyReader (List LineRow) := do
  let nameIndex ← Body.takeU2
  let length ← Body.takeU4
  let data ← Body.takeBytes length.toNat
  let name ← lookupText pool (.codeAttributeName i) nameIndex
  if name = ("LineNumberTable" : Text) then
    locate .lineNumbers (liftM (Body.read lineTable data))
  else return []

/-- Reads the body of a code attribute. The rows of all its line number tables are put together. -/
def codeBody (pool : ConstantPool) : BodyReader CodeBody := do
  let maxStack ← Body.takeU2
  let maxLocals ← Body.takeU2
  let length ← Body.takeU4
  let code ← locate (.codeLength length) (Body.takeBytes length.toNat)
  let handlerCount ← locate .handlerCount Body.takeU2
  let handlers ← readMany (fun i => locate (.handler i) do
    return ⟨← Body.takeU2, ← Body.takeU2, ← Body.takeU2, ← Body.takeU2⟩) handlerCount.toNat 0
  let attributeCount ← locate .codeAttributeCount Body.takeU2
  let tables ← readMany (codeAttribute pool) attributeCount.toNat 0
  return { maxStack, maxLocals, code, handlers, lines := tables.flatten }

/-- The flags, name and descriptor that start a field or a method. -/
structure MemberHeader where
  flags : UInt16
  name : Text
  descriptor : Text
deriving DecidableEq, Repr

/-- Takes what starts a field or a method; the places say which of the two and which one. -/
def takeHeader (pool : ConstantPool) (self name descriptor : Place) : Reader MemberHeader := do
  let (flags, nameIndex, descriptorIndex) ← locate self do
    return (← takeU2, ← takeU2, ← takeU2)
  let name ← lookupText pool name nameIndex
  let descriptor ← lookupText pool descriptor descriptorIndex
  return { flags, name, descriptor }

/-- Takes one field. -/
def takeField (pool : ConstantPool) (i : Nat) : Reader FieldEntry := do
  let h ← takeHeader pool (.field i) (.fieldName i) (.fieldDescriptor i)
  let attributes ← locate (.fieldAttributes h.name) (takeAttributes pool)
  return { flags := h.flags, name := h.name, descriptor := h.descriptor, attributes }

/-- Reads the code and the thrown classes of a method off its attributes in order, so that the last
attribute of each kind counts. -/
def readMethodAttributes (pool : ConstantPool) :
    MethodEntry → List Attribute → Except ClassFileError MethodEntry
  | m, [] => .ok m
  | m, a :: as =>
    if a.name = ("Code" : Text) then
      match Body.read (codeBody pool) a.data with
      | .error e => .error (.within (.codeOf m.name m.descriptor) e)
      | .ok code => readMethodAttributes pool { m with code := some code } as
    else if a.name = ("Exceptions" : Text) then
      match Body.read exceptionList a.data with
      | .error e => .error (.within (.exceptionsOf m.name m.descriptor) e)
      | .ok exceptions => readMethodAttributes pool { m with exceptions } as
    else readMethodAttributes pool m as

/-- Takes one method. -/
def takeMethod (pool : ConstantPool) (i : Nat) : Reader MethodEntry := do
  let h ← takeHeader pool (.method i) (.methodName i) (.methodDescriptor i)
  let attributes ← locate (.methodAttributes h.name) (takeAttributes pool)
  liftM (readMethodAttributes pool
    { flags := h.flags, name := h.name, descriptor := h.descriptor, attributes, code := none,
      exceptions := [] } attributes)

/-- Takes the fields or the methods: their count, then each of them. -/
def takeCounted {α : Type} (countPlace : Place) (step : Nat → Reader α) : Reader (List α) := do
  let count ← locate countPlace takeU2
  readMany step count.toNat 0

/-- The number that starts every class file. -/
def magicNumber : UInt32 := 0xCAFEBABE

/-- The flags, this class, superclass and interfaces. -/
structure Header where
  flags : UInt16
  thisClass : UInt16
  superClass : UInt16
  interfaces : List UInt16
deriving DecidableEq, Repr

/-- Takes the class header. -/
def takeClassHeader : Reader Header := do
  let flags ← takeU2
  let thisClass ← takeU2
  let superClass ← takeU2
  let count ← takeU2
  let interfaces ← readMany (fun _ => takeU2) count.toNat 0
  return { flags, thisClass, superClass, interfaces }

/-- Takes the constant pool of a given size. -/
def takeWholePool (count : UInt16) : Reader ConstantPool := do
  let input ← get
  takePool count (input.length + 1) 1 (Array.replicate count.toNat none)

/-- Takes a class file. -/
def take : Reader ClassFile := do
  let magic ← locate .magic takeU4
  if magic ≠ magicNumber then throw (.badMagic magic)
  let (minor, major, count) ← locate .version do
    return (← takeU2, ← takeU2, ← takeU2)
  let pool ← locate .pool (takeWholePool count)
  let header ← locate .header takeClassHeader
  let fields ← locate .fields (takeCounted .fieldCount (takeField pool))
  let methods ← locate .methods (takeCounted .methodCount (takeMethod pool))
  let _ ← locate .classAttributes (takeAttributes pool)
  return {
    minor, major, pool, fields, methods
    flags := header.flags
    thisClass := header.thisClass
    superClass := header.superClass
    interfaces := header.interfaces }

/-- Reads a class file. Bytes after it are ignored. -/
def read (input : Bytes) : Except ClassFileError ClassFile := (take input).map Prod.fst

end ClassFile

end ClassLinker
