import ClassLinker.Text.Basic

/-!
The names of members: a signature is a name and a descriptor, and a member is a signature looked up
in a class.
-/

namespace ClassLinker

/-- A member's name and descriptor. -/
structure Signature where
  name : Text
  descriptor : Text
deriving DecidableEq, Repr, Hashable

namespace Signature

/-- A signature is a method's when its descriptor starts with a parenthesis. -/
def isMethod (s : Signature) : Bool := s.descriptor.head? = some (Text.byte '(')

/-- The name followed by the descriptor. -/
def text (s : Signature) : Text := s.name ++ s.descriptor

/-- The name of every constructor. -/
def constructorName : Text := "<init>"

/-- The name of every static initializer. -/
def initializerName : Text := "<clinit>"

/-- The signature of every static initializer. -/
def initializer : Signature := ⟨initializerName, "()V"⟩

/-- The signature of the method a program starts in unless another is asked for. -/
def defaultEntry : Signature := ⟨"main", "()V"⟩

/-- The signature of the method that runs the static initializers and then the entry method. -/
def startup : Signature := ⟨"<jvminit>", "()V"⟩

end Signature

/-- A member as it is written where it is used: the class it is looked up in and its signature. -/
structure Member where
  className : Text
  sig : Signature
deriving DecidableEq, Repr, Hashable

namespace Member

/-- The class, a dot and the signature. -/
def text (m : Member) : Text := m.className ++ "." ++ m.sig.text

end Member

end ClassLinker
