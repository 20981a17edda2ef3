import ClassLinker.Cbor.Read
import ClassLinker.Image.Basic
import ClassLinker.Text.Utf8

/-!
The binary form of images. Every record is a map from field numbers to values. Writing leaves out
the optional fields that are empty, and reading gives a field that is missing or null its empty
value. Reading takes a record's fields in any order, passes over fields it does not know and takes
the first of several with one number.
-/

namespace ClassLinker.Image

open Cbor

/-- A field of a record that is always written. -/
def always (key : Nat) (value : Item) : List Item := [.unsigned key, value]

/-- A field of a record that is written unless it is empty. -/
def optional (isEmpty : Bool) (key : Nat) (value : Item) : List Item :=
  if isEmpty then [] else always key value

/-- The item of a list. -/
def listItem {α : Type} (item : α → Item) (xs : List α) : Item := .array (xs.map item)

/-- A list that is written as null when it is empty. -/
def nullable {α : Type} (value : Item) (xs : List α) : Item := if xs.isEmpty then .null else value

/-- The value of an item without its tags. -/
inductive Content where
  | plain (item : Item)
  /-- A large integer, given by its bytes: `n` or `-1 - n`. -/
  | big (isNegative : Bool) (magnitude : Bytes)

/-- Whether a tag may stand before an item. Times are texts or numbers, and large integers are
bytes. -/
def admits (tag : Nat) (item : Item) : Bool :=
  match tag, item with
  | 0, .text _ => true
  | 0, _ => false
  | 1, .unsigned _ => true
  | 1, .negative _ => true
  | 1, .float _ => true
  | 1, _ => false
  | 2, .bytes _ => true
  | 2, _ => false
  | 3, .bytes _ => true
  | 3, _ => false
  | _, _ => true

/-- Takes the tags off an item. -/
def contentOf : Item → Option Content
  | .tagged tag item =>
    if !admits tag item then none
    else
      match tag, item with
      | 2, .bytes magnitude => some (.big false magnitude)
      | 3, .bytes magnitude => some (.big true magnitude)
      | _, _ => contentOf item
  | item => some (.plain item)

/-- Whether a simple value stands for nothing. -/
def isNothing (code : Nat) : Bool := code = 22 || code = 23

/-- Whether a simple value is a truth value. -/
def isTruth (code : Nat) : Bool := code = 20 || code = 21

/-- Reads an item as an integer of any size; simple values without a meaning count as numbers. -/
def integerOf? : Content → Option Int
  | .plain (.unsigned n) => some n
  | .plain (.negative n) => if n < 0x8000000000000000 then some (-1 - (n : Int)) else none
  | .plain (.simple code) => if isTruth code || isNothing code then none else some code
  | .big false magnitude =>
    if bigEndian magnitude < 0x10000000000000000 then some (bigEndian magnitude) else none
  | .big true magnitude =>
    if bigEndian magnitude < 0x8000000000000000 then some (-1 - (bigEndian magnitude : Int))
    else none
  | _ => none

/-- Reads a value, unless there is nothing to read. -/
def orElse {α : Type} (empty : α) (read : Content → Option α) (item : Item) : Option α :=
  match contentOf item with
  | none => none
  | some (.plain (.simple code)) =>
    if isNothing code then some empty else read (.plain (.simple code))
  | some content => read content

/-- Reads a 64-bit integer. -/
def readInt : Item → Option Int :=
  orElse 0 fun content =>
    match integerOf? content with
    | some n => if n < 0x8000000000000000 then some n else none
    | none => none

/-- Reads a byte. -/
def readByte : Item → Option UInt8 :=
  orElse 0 fun content =>
    match integerOf? content with
    | some n => if 0 ≤ n && n < 256 then some n.toNat.toUInt8 else none
    | none => none

/-- Reads a float; an integer counts as the nearest float. -/
def readFloat : Item → Option UInt64 :=
  orElse 0 fun
    | .plain (.float bits) => some bits
    | content => (integerOf? content).map FloatBits.ofInt

/-- Reads a truth value. -/
def readBool : Item → Option Bool :=
  orElse false fun
    | .plain (.simple code) => if isTruth code then some (code = 21) else none
    | _ => none

/-- Reads a text, of which every chunk has to be UTF-8. -/
def readText : Item → Option Text :=
  orElse [] fun
    | .plain (.text chunks) => if chunks.all Text.isUtf8 then some chunks.flatten else none
    | _ => none

/-- Reads the elements of an array. -/
def readList {α : Type} (read : Item → Option α) : Item → Option (List α) :=
  orElse [] fun
    | .plain (.array items) => items.mapM read
    | _ => none

/-- Reads bytes. -/
def readBytes : Item → Option Bytes :=
  orElse [] fun
    | .plain (.bytes data) => some data
    | .plain (.array items) => items.mapM readByte
    | .big _ magnitude => some magnitude
    | _ => none

/-- The key of a field: its number, or a name. -/
inductive Key where
  | number (n : Int)
  | name (text : Text)
deriving DecidableEq, Repr

/-- Reads a key. A negative number has to fit into 64 bits. -/
def readKey : Item → Option Key
  | .unsigned n => some (.number n)
  | .negative n => if n < 0x8000000000000000 then some (.number (-1 - n)) else none
  | .text chunks => if chunks.all Text.isUtf8 then some (.name chunks.flatten) else none
  | _ => none

/-- Whether a key is that of a field; the digits of its number are a field's name. -/
def Key.isField (n : Nat) : Key → Bool
  | number k => k = n
  | name t => t = Text.ofNat n

/-- The fields of a record. -/
abbrev Record := List (Key × Item)

/-- Reads the keys of a map's entries. -/
def readEntries : List Item → Option Record
  | key :: value :: entries => do
    let key ← readKey key
    let rest ← readEntries entries
    return (key, value) :: rest
  | _ => some []

/-- Reads a field of a record. -/
def field {α : Type} (r : Record) (n : Nat) (empty : α) (read : Item → Option α) : Option α :=
  match r.find? fun (key, _) => key.isField n with
  | some (_, item) => read item
  | none => some empty

/-- Reads a record. -/
def readRecord {α : Type} (empty : α) (read : Record → Option α) : Item → Option α :=
  orElse empty fun
    | .plain (.map entries) => (readEntries entries).bind read
    | _ => none

namespace MemberLink

/-- The item of an entry of a member reference table. -/
def item (l : MemberLink) : Item :=
  .map (always 1 (.ofInt l.target) ++ always 2 (.ofInt l.declaring) ++ always 3 (.ofInt l.linkId))

/-- Reads an entry of a member reference table. -/
def read : Item → Option MemberLink :=
  readRecord {} fun r => do
    return {
      target := ← field r 1 0 readInt
      declaring := ← field r 2 0 readInt
      linkId := ← field r 3 0 readInt }

end MemberLink

namespace MethodInfo

/-- The item of a method. -/
def item (m : MethodInfo) : Item :=
  .map (always 1 (.ofInt m.linkId) ++ always 2 (.ofText m.name) ++
    always 3 (.ofText m.descriptor) ++
    always 4 (.ofBool m.isStatic) ++ always 5 (.ofInt m.codeOffset) ++
    always 6 (.ofInt m.codeLength) ++ always 7 (.ofInt m.maxLocals) ++
    always 8 (.ofInt m.argSlots) ++ always 9 (.ofInt m.nativeIndex))

/-- Reads a method. -/
def read : Item → Option MethodInfo :=
  readRecord {} fun r => do
    return {
      linkId := ← field r 1 0 readInt
      name := ← field r 2 [] readText
      descriptor := ← field r 3 [] readText
      isStatic := ← field r 4 false readBool
      codeOffset := ← field r 5 0 readInt
      codeLength := ← field r 6 0 readInt
      maxLocals := ← field r 7 0 readInt
      argSlots := ← field r 8 0 readInt
      nativeIndex := ← field r 9 0 readInt }

end MethodInfo

namespace FieldInfo

/-- The item of a field. -/
def item (f : FieldInfo) : Item :=
  .map (always 1 (.ofInt f.linkId) ++ always 2 (.ofText f.name) ++
    always 3 (.ofText f.descriptor) ++
    always 4 (.ofBool f.isStatic) ++ always 5 (.ofInt f.address) ++ always 6 (.ofInt f.size))

/-- Reads a field. -/
def read : Item → Option FieldInfo :=
  readRecord {} fun r => do
    return {
      linkId := ← field r 1 0 readInt
      name := ← field r 2 [] readText
      descriptor := ← field r 3 [] readText
      isStatic := ← field r 4 false readBool
      address := ← field r 5 0 readInt
      size := ← field r 6 0 readInt }

end FieldInfo

namespace ClassLink

/-- The item of a class reference. -/
def item (l : ClassLink) : Item := .map (always 1 (.ofInt l.slot) ++ always 2 (.ofInt l.target))

/-- Reads a class reference. -/
def read : Item → Option ClassLink :=
  readRecord {} fun r => do
    return { slot := ← field r 1 0 readInt, target := ← field r 2 0 readInt }

end ClassLink

namespace LiteralSlot

/-- The item of a literal. A zero of either sign counts as empty. -/
def item (l : LiteralSlot) : Item :=
  .map (always 1 (.ofInt l.slot) ++ always 2 (.ofText l.kind) ++
    optional (l.int = 0) 3 (.ofInt l.int) ++
    optional (FloatBits.isZero l.float) 4 (.float l.float) ++
    optional l.text.isEmpty 5 (.ofText l.text))

/-- Reads a literal. -/
def read : Item → Option LiteralSlot :=
  readRecord {} fun r => do
    return {
      slot := ← field r 1 0 readInt
      kind := ← field r 2 [] readText
      int := ← field r 3 0 readInt
      float := ← field r 4 0 readFloat
      text := ← field r 5 [] readText }

end LiteralSlot

namespace ClassInfo

/-- The item of a class. -/
def item (c : ClassInfo) : Item :=
  .map (always 1 (.ofInt c.id) ++ always 2 (.ofText c.name) ++ always 3 (.ofText c.kind) ++
    always 4 (.ofInt c.super) ++
    optional c.interfaces.isEmpty 5 (listItem .ofInt c.interfaces) ++
    always 6 (.ofInt c.instanceSize) ++ always 7 (.ofInt c.element) ++
    optional (c.elementType = 0) 8 (.ofInt c.elementType) ++
    optional c.memberRefs.isEmpty 9 (listItem MemberLink.item c.memberRefs) ++
    optional c.methods.isEmpty 10 (listItem MethodInfo.item c.methods) ++
    optional c.fields.isEmpty 11 (listItem FieldInfo.item c.fields) ++
    optional c.classRefs.isEmpty 12 (listItem ClassLink.item c.classRefs) ++
    optional c.literals.isEmpty 13 (listItem LiteralSlot.item c.literals))

/-- Reads a class. -/
def read : Item → Option ClassInfo :=
  readRecord {} fun r => do
    return {
      id := ← field r 1 0 readInt
      name := ← field r 2 [] readText
      kind := ← field r 3 [] readText
      super := ← field r 4 0 readInt
      interfaces := ← field r 5 [] (readList readInt)
      instanceSize := ← field r 6 0 readInt
      element := ← field r 7 0 readInt
      elementType := ← field r 8 0 readInt
      memberRefs := ← field r 9 [] (readList MemberLink.read)
      methods := ← field r 10 [] (readList MethodInfo.read)
      fields := ← field r 11 [] (readList FieldInfo.read)
      classRefs := ← field r 12 [] (readList ClassLink.read)
      literals := ← field r 13 [] (readList LiteralSlot.read) }

end ClassInfo

namespace HandlerInfo

/-- The item of an exception handler. -/
def item (h : HandlerInfo) : Item :=
  .map (always 1 (.ofInt h.classId) ++ always 2 (.ofInt h.start) ++ always 3 (.ofInt h.stop) ++
    always 4 (.ofInt h.target) ++ always 5 (.ofInt h.catchId))

/-- Reads an exception handler. -/
def read : Item → Option HandlerInfo :=
  readRecord {} fun r => do
    return {
      classId := ← field r 1 0 readInt
      start := ← field r 2 0 readInt
      stop := ← field r 3 0 readInt
      target := ← field r 4 0 readInt
      catchId := ← field r 5 0 readInt }

end HandlerInfo

namespace LineInfo

/-- The item of a source line. -/
def item (l : LineInfo) : Item :=
  .map (always 1 (.ofInt l.pc) ++ always 2 (.ofInt l.line) ++ always 3 (.ofText l.method))

/-- Reads a source line. -/
def read : Item → Option LineInfo :=
  readRecord {} fun r => do
    return {
      pc := ← field r 1 0 readInt
      line := ← field r 2 0 readInt
      method := ← field r 3 [] readText }

end LineInfo

namespace BuiltinLink

/-- The item of a catalog entry. -/
def item (l : BuiltinLink) : Item :=
  .map (always 1 (.ofText l.name) ++ always 2 (.ofInt l.classId) ++ always 3 (.ofInt l.linkId))

/-- Reads a catalog entry. -/
def read : Item → Option BuiltinLink :=
  readRecord {} fun r => do
    return {
      name := ← field r 1 [] readText
      classId := ← field r 2 0 readInt
      linkId := ← field r 3 0 readInt }

end BuiltinLink

namespace NativeInfo

/-- The item of a native method. -/
def item (n : NativeInfo) : Item :=
  .map (always 1 (.ofInt n.index) ++ always 2 (.ofInt n.classId) ++ always 3 (.ofInt n.linkId) ++
    always 4 (.ofText n.symbol) ++ always 5 (.ofText n.declaration))

/-- Reads a native method. -/
def read : Item → Option NativeInfo :=
  readRecord {} fun r => do
    return {
      index := ← field r 1 0 readInt
      classId := ← field r 2 0 readInt
      linkId := ← field r 3 0 readInt
      symbol := ← field r 4 [] readText
      declaration := ← field r 5 [] readText }

end NativeInfo

/-- The item of an image. -/
def item (i : Image) : Item :=
  .map (always 1 (.ofText i.buildId) ++ always 2 (.ofText i.entry) ++
    always 3 (.ofInt i.entryOffset) ++ always 4 (.ofInt i.staticSize) ++
    always 5 (nullable (listItem .ofText i.signatures) i.signatures) ++
    always 6 (nullable (listItem ClassInfo.item i.classes) i.classes) ++
    always 7 (nullable (.bytes i.code) i.code) ++
    optional i.handlers.isEmpty 8 (listItem HandlerInfo.item i.handlers) ++
    optional i.lines.isEmpty 9 (listItem LineInfo.item i.lines) ++
    optional i.builtins.isEmpty 10 (listItem BuiltinLink.item i.builtins) ++
    optional i.natives.isEmpty 11 (listItem NativeInfo.item i.natives) ++
    optional i.initOrder.isEmpty 12 (listItem .ofText i.initOrder))

/-- Reads the item of an image. -/
def ofItem? : Item → Option Image :=
  readRecord {} fun r => do
    return {
      buildId := ← field r 1 [] readText
      entry := ← field r 2 [] readText
      entryOffset := ← field r 3 0 readInt
      staticSize := ← field r 4 0 readInt
      signatures := ← field r 5 [] (readList readText)
      classes := ← field r 6 [] (readList ClassInfo.read)
      code := ← field r 7 [] readBytes
      handlers := ← field r 8 [] (readList HandlerInfo.read)
      lines := ← field r 9 [] (readList LineInfo.read)
      builtins := ← field r 10 [] (readList BuiltinLink.read)
      natives := ← field r 11 [] (readList NativeInfo.read)
      initOrder := ← field r 12 [] (readList readText) }

/-- The binary form of an image. -/
def encode (i : Image) : Bytes := i.item.encode

/-- Reads the binary form of an image, of which the lists may be limited in length. -/
def decodeWithin? (limit : Option Nat) (data : Bytes) : Option Image :=
  (Cbor.read limit data).bind ofItem?

/-- Reads the binary form of an image. -/
def decode? (data : Bytes) : Option Image := decodeWithin? (some maxElements) data

end ClassLinker.Image
