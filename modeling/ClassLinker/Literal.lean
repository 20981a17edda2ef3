import ClassLinker.Text.Basic

/-!
Literals: the typed values that instructions load from a constant pool. Floating-point values are
kept as their bits.
-/

namespace ClassLinker

/-- The type of a literal. -/
inductive LiteralKind where
  | int
  | float
  | long
  | double
  | string
deriving DecidableEq, Repr

/-- A literal. -/
inductive Literal where
  | int (value : Int)
  | float (bits : UInt32)
  | long (value : Int)
  | double (bits : UInt64)
  | string (text : Text)
deriving DecidableEq, Repr

namespace LiteralKind

/-- The name of a kind of literal. -/
def text : LiteralKind → Text
  | int => "int"
  | float => "float"
  | long => "long"
  | double => "double"
  | string => "string"

/-- The kind with a given number. -/
def ofCode? (code : Int) : Option LiteralKind :=
  if code = 0 then some int
  else if code = 1 then some float
  else if code = 2 then some long
  else if code = 3 then some double
  else if code = 4 then some string
  else none

/-- The name of a numbered kind, or its number when there is no such kind. -/
def textOfCode (code : Int) : Text :=
  match ofCode? code with
  | some kind => kind.text
  | none => "ConstKind(" ++ Text.ofInt code ++ ")"

end LiteralKind

namespace Literal

/-- The kind of a literal. -/
def kind : Literal → LiteralKind
  | int _ => .int
  | float _ => .float
  | long _ => .long
  | double _ => .double
  | string _ => .string

/-- The name of the storage type of a literal. -/
def typeName : Literal → Text
  | int _ => "int32"
  | float _ => "float32"
  | long _ => "int64"
  | double _ => "float64"
  | string _ => "string"

/-- The storage type of a value that may be missing. -/
def typeNameOf : Option Literal → Text
  | some v => v.typeName
  | none => "<nil>"

end Literal

end ClassLinker
