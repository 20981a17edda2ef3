import ClassLinker.Text.Basic
import ClassLinker.Instruction.Decode

/-!
The image of a linked program: everything that the runtime needs to execute it. Class ids, link ids
and code offsets are those of the link, and -1 stands for an id or offset that is not there.
-/

namespace ClassLinker

namespace Image

/-- An entry of a class's member reference table. -/
structure MemberLink where
  target : Int := 0
  declaring : Int := 0
  linkId : Int := 0
deriving DecidableEq, Repr

/-- A method of a class. -/
structure MethodInfo where
  linkId : Int := 0
  name : Text := []
  descriptor : Text := []
  isStatic : Bool := false
  codeOffset : Int := 0
  codeLength : Int := 0
  maxLocals : Int := 0
  argSlots : Int := 0
  nativeIndex : Int := 0
deriving DecidableEq, Repr

/-- A field of a class. The address of a static field is an offset into the static area, that of any
other field one into the instance. -/
structure FieldInfo where
  linkId : Int := 0
  name : Text := []
  descriptor : Text := []
  isStatic : Bool := false
  address : Int := 0
  size : Int := 0
deriving DecidableEq, Repr

/-- The class that a pool slot refers to. -/
structure ClassLink where
  slot : Int := 0
  target : Int := 0
deriving DecidableEq, Repr

/-- The literal in a pool slot. Integers of both sizes are in `int` and the bits of floats, widened
to 64, in `float`. -/
structure LiteralSlot where
  slot : Int := 0
  kind : Text := []
  int : Int := 0
  float : UInt64 := 0
  text : Text := []
deriving DecidableEq, Repr

/-- A class. -/
structure ClassInfo where
  id : Int := 0
  name : Text := []
  kind : Text := []
  super : Int := 0
  interfaces : List Int := []
  instanceSize : Int := 0
  /-- The element class of an array of objects. -/
  element : Int := 0
  /-- The type code of an array of primitives. -/
  elementType : Int := 0
  memberRefs : List MemberLink := []
  methods : List MethodInfo := []
  fields : List FieldInfo := []
  classRefs : List ClassLink := []
  literals : List LiteralSlot := []
deriving DecidableEq, Repr

/-- An exception handler with absolute pcs. -/
structure HandlerInfo where
  classId : Int := 0
  start : Int := 0
  stop : Int := 0
  target : Int := 0
  catchId : Int := 0
deriving DecidableEq, Repr

/-- The source line of the code from an absolute pc on. -/
structure LineInfo where
  pc : Int := 0
  line : Int := 0
  method : Text := []
deriving DecidableEq, Repr

/-- Where the runtime finds an entry of the catalog. -/
structure BuiltinLink where
  name : Text := []
  classId : Int := 0
  linkId : Int := 0
deriving DecidableEq, Repr

/-- An entry of the native method table. -/
structure NativeInfo where
  index : Int := 0
  classId : Int := 0
  linkId : Int := 0
  symbol : Text := []
  declaration : Text := []
deriving DecidableEq, Repr

end Image

open Image in
/-- The image of a linked program. -/
structure Image where
  /-- An id made from everything else in the image. -/
  buildId : Text := []
  entry : Text := []
  entryOffset : Int := 0
  staticSize : Int := 0
  signatures : List Text := []
  classes : List ClassInfo := []
  code : Bytes := []
  handlers : List HandlerInfo := []
  lines : List LineInfo := []
  builtins : List BuiltinLink := []
  natives : List NativeInfo := []
  initOrder : List Text := []
deriving DecidableEq, Repr

end ClassLinker
