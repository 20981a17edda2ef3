import ClassLinker.Text.Basic

/-!
The eight primitive types. Each has a letter in descriptors and a code, 4 to 11, that names it
where an array of it is allocated.
-/

namespace ClassLinker

/-- A primitive type. -/
inductive Primitive where
  | boolean
  | char
  | float
  | double
  | byte
  | short
  | int
  | long
deriving DecidableEq, Repr

namespace Primitive

/-- All primitive types, in the order of their codes. -/
def all : List Primitive := [boolean, char, float, double, byte, short, int, long]

/-- The letter of a primitive type in a descriptor. -/
def letter : Primitive → UInt8
  | boolean => Text.byte 'Z'
  | char => Text.byte 'C'
  | float => Text.byte 'F'
  | double => Text.byte 'D'
  | byte => Text.byte 'B'
  | short => Text.byte 'S'
  | int => Text.byte 'I'
  | long => Text.byte 'J'

/-- The number that names a primitive type as the element type of an array. -/
def code : Primitive → Int
  | boolean => 4
  | char => 5
  | float => 6
  | double => 7
  | byte => 8
  | short => 9
  | int => 10
  | long => 11

/-- The primitive type with a given letter. -/
def ofLetter? (b : UInt8) : Option Primitive := all.find? fun p => p.letter = b

/-- The primitive type with a given code. -/
def ofCode? (n : Int) : Option Primitive := all.find? fun p => p.code = n

/-- The name of the array class with a given element type code. A number that is no code gets the
name of an array of the byte 0, which no class has. -/
def arrayName (n : Int) : Text :=
  [Text.byte '[', ((ofCode? n).map letter).getD 0]

theorem ofLetter?_letter (p : Primitive) : ofLetter? p.letter = some p := by
  cases p <;> rfl

theorem ofCode?_code (p : Primitive) : ofCode? p.code = some p := by
  cases p <;> rfl

end Primitive

end ClassLinker
