import ClassLinker.Descriptor.Primitive
import ClassLinker.Text.Quoted

/-!
Field types and their descriptors: a primitive letter, `L` with a class name and `;`, or `[` before
the descriptor of the element type. Reading takes one field type off the front of a text, and the
text it took is exactly what `render` writes for the type read.
-/

namespace ClassLinker

/-- What is wrong with the types in a descriptor. -/
inductive DescriptorFault where
  | noParameterList
  | truncatedType
  | unterminatedClass
  | unknownType (letter : UInt8)
  | unclosedParameters
  | trailingData
deriving DecidableEq, Repr

/-- A descriptor that was refused, and why. -/
structure DescriptorError where
  text : Text
  fault : DescriptorFault
deriving DecidableEq, Repr

namespace DescriptorError

/-- The message of a refused descriptor. -/
def message (e : DescriptorError) : Text :=
  match e.fault with
  | .noParameterList => "malformed method descriptor " ++ Text.quote e.text
  | .truncatedType => "malformed descriptor " ++ Text.quote e.text ++ ": truncated type"
  | .unterminatedClass =>
    "malformed descriptor " ++ Text.quote e.text ++ ": unterminated class type"
  | .unknownType b =>
    "malformed descriptor " ++ Text.quote e.text ++ ": unknown type " ++ Text.quoteByte b
  | .unclosedParameters => "malformed method descriptor " ++ Text.quote e.text ++ ": missing ')'"
  | .trailingData => "malformed method descriptor " ++ Text.quote e.text ++ ": trailing data"

end DescriptorError

/-- The type of a field, a parameter or a result. -/
inductive FieldType where
  | primitive (type : Primitive)
  | object (name : Text)
  | array (element : FieldType)
deriving DecidableEq, Repr

namespace FieldType

/-- The descriptor of a field type. -/
def render : FieldType → Text
  | primitive p => [p.letter]
  | object name => Text.byte 'L' :: (name ++ [Text.byte ';'])
  | array element => Text.byte '[' :: element.render

/-- Takes a class name and its `;` off the front of a text. -/
def readName : Text → Except DescriptorFault (Text × Text)
  | [] => .error .unterminatedClass
  | b :: t =>
    if b = Text.byte ';' then .ok ([], t)
    else
      match readName t with
      | .ok (name, rest) => .ok (b :: name, rest)
      | .error fault => .error fault

/-- Takes one field type off the front of a text. -/
def read : Text → Except DescriptorFault (FieldType × Text)
  | [] => .error .truncatedType
  | b :: t =>
    if b = Text.byte '[' then
      match read t with
      | .ok (element, rest) => .ok (array element, rest)
      | .error fault => .error fault
    else if b = Text.byte 'L' then
      match readName t with
      | .ok (name, rest) => .ok (object name, rest)
      | .error fault => .error fault
    else
      match Primitive.ofLetter? b with
      | some p => .ok (primitive p, t)
      | none => .error (.unknownType b)

/-- Whether a text is the descriptor of one field type and nothing more. -/
def isDescriptor (t : Text) : Bool :=
  match read t with
  | .ok (_, []) => true
  | _ => false

/-- The storage units a value takes: two for a long or a double, one for any other. -/
def size : FieldType → Nat
  | primitive .long => 2
  | primitive .double => 2
  | _ => 1

/-- The storage units of a value whose type is given by its descriptor. A text that is no
descriptor counts one. -/
def sizeOfDescriptor (t : Text) : Nat :=
  if t = [Primitive.long.letter] || t = [Primitive.double.letter] then 2 else 1

end FieldType

end ClassLinker
