import ClassLinker.Text.Basic

/-!
The kinds of classes and methods.
-/

namespace ClassLinker

/-- What a class is. Numbers without a meaning are kept as they are. -/
inductive ClassKind where
  | ordinary
  | interface
  | primitiveArray
  | objectArray
  | other (code : Int)
deriving DecidableEq, Repr

namespace ClassKind

/-- The kind with a given number. -/
def ofCode (code : Int) : ClassKind :=
  if code = 0 then ordinary
  else if code = 1 then interface
  else if code = 2 then primitiveArray
  else if code = 3 then objectArray
  else other code

/-- The name of a kind of class. -/
def text : ClassKind → Text
  | ordinary => "class"
  | interface => "interface"
  | primitiveArray => "primitive-array"
  | objectArray => "object-array"
  | other code => "ClassKind(" ++ Text.ofInt code ++ ")"

/-- Whether a class of this kind is an array. -/
def isArray : ClassKind → Bool
  | primitiveArray => true
  | objectArray => true
  | _ => false

end ClassKind

/-- What a method is. -/
inductive MethodKind where
  | concrete
  | constructor
  | initializer
  | abstract
  | native
deriving DecidableEq, Repr

namespace MethodKind

/-- The kind with a given number. -/
def ofCode? (code : Int) : Option MethodKind :=
  if code = 0 then some concrete
  else if code = 1 then some constructor
  else if code = 2 then some initializer
  else if code = 3 then some abstract
  else if code = 4 then some native
  else none

/-- The name of a kind of method. -/
def text : MethodKind → Text
  | concrete => "concrete"
  | constructor => "constructor"
  | initializer => "static-initializer"
  | abstract => "abstract"
  | native => "native"

/-- The name of a numbered kind, or its number when there is no such kind. -/
def textOfCode (code : Int) : Text :=
  match ofCode? code with
  | some kind => kind.text
  | none => "MethodKind(" ++ Text.ofInt code ++ ")"

end MethodKind

end ClassLinker
