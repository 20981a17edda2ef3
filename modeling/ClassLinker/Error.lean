import ClassLinker.ClassFile.Read
import ClassLinker.Descriptor.MethodType
import ClassLinker.Literal
import ClassLinker.Member
import ClassLinker.Registry.Kind

/-!
What can go wrong while a program is linked. An error is a cause, possibly wrapped in the places it
passed through; its kind is the first of five kinds found on the way from the outside to the cause,
and its message names everything on that way.
-/

namespace ClassLinker

/-- The operations that a closed registry refuses. -/
inductive RegistryOp where
  | createClass
  | createMethod
  | createField
  | createReference
  | allocSlot
  | keepClass
  | keepMember
  | keepReference
  | link
  | compact
deriving DecidableEq, Repr

namespace RegistryOp

/-- The name of an operation in messages. -/
def text : RegistryOp → Text
  | createClass => "CreateClass"
  | createMethod => "CreateMethod"
  | createField => "CreateField"
  | createReference => "create reference"
  | allocSlot => "AllocSlot"
  | keepClass => "KeepClass"
  | keepMember => "KeepMember"
  | keepReference => "KeepRef"
  | link => "Link"
  | compact => "Optimize"

end RegistryOp

/-- A broken invariant of the registry or of the program built from it. -/
inductive Inconsistency where
  | closed (op : RegistryOp)
  | classTwice (name : Text)
  | secondRoot (name : Text)
  | beforeRoot (name : Text)
  | missingSuper (name super : Text)
  | missingInterface (name interface : Text)
  | declaredTwice (className : Text) (sig : Signature)
  | codeMismatch (className : Text) (sig : Signature) (kind : MethodKind) (size : Nat)
  | slotOutOfRange (className : Text) (slot : Int)
  | slotTwice (className : Text) (slot : Int)
  | literalMismatch (className : Text) (slot : Int) (value : Option Literal) (kind : Int)
  | poolExhausted (className : Text)
  | memberBeforeClass (member : Member)
  | referenceBeforeClass (owner : Nat) (slot : Int)
  | unregisteredLookup (className : Text)
  | rootNotKept
  | unregisteredTarget (owner target : Text)
  | droppedTarget (owner target : Text)
  | unresolvedTarget (owner : Text) (member : Member) (cause : Text)
  | droppedMember (owner : Text) (member : Member)
  | compactBeforeLink
  | unnumberedClass (id : Int)
  | relocateBeforeCompact
  | unrelocatable (method : Member) (cause : Text)
  | noForwarding (owner : Int) (slot : Int)
  | entryNotKept (className : Text)
  | imageOfOpenRegistry
  | codeOffset (method : Member) (offset : Int) (size : Nat)
  | unresolvedCatch (method : Member) (slot : Int)
  | missingElement (className : Text) (id : Nat) (element : Text)
  | missingBuiltinClass (name : Text)
  | missingBuiltinMember (name : Text) (member : Text)
  | note (text : Text)
deriving DecidableEq, Repr

namespace Inconsistency

/-- The message of a broken invariant. -/
def message : Inconsistency → Text
  | closed op => op.text ++ " on closed model"
  | classTwice name => "class " ++ name ++ " registered twice"
  | secondRoot name => "second root class " ++ name
  | beforeRoot name => "class " ++ name ++ " registered before the root"
  | missingSuper name super => name ++ ": superclass " ++ super ++ " not registered"
  | missingInterface name interface => name ++ ": interface " ++ interface ++ " not registered"
  | declaredTwice className sig => className ++ "." ++ sig.text ++ " declared twice"
  | codeMismatch className sig kind size =>
    className ++ "." ++ sig.text ++ ": " ++ kind.text ++ " method with " ++ Text.ofNat size ++
      " bytes of code"
  | slotOutOfRange className slot =>
    className ++ ": pool slot " ++ Text.ofInt slot ++ " out of range"
  | slotTwice className slot =>
    className ++ ": pool slot " ++ Text.ofInt slot ++ " registered twice"
  | literalMismatch className slot value kind =>
    className ++ ": pool slot " ++ Text.ofInt slot ++ ": " ++ Literal.typeNameOf value ++
      " is not a " ++ LiteralKind.textOfCode kind ++ " constant"
  | poolExhausted className => className ++ ": constant pool exhausted"
  | memberBeforeClass member => "keeping " ++ member.text ++ " before its class"
  | referenceBeforeClass owner slot =>
    "keeping reference " ++ Text.ofNat owner ++ ":" ++ Text.ofInt slot ++ " before its class"
  | unregisteredLookup className => "member lookup in unregistered class " ++ className
  | rootNotKept => "root class is not kept"
  | unregisteredTarget owner target => owner ++ ": reference to unregistered class " ++ target
  | droppedTarget owner target => owner ++ ": kept reference to dropped class " ++ target
  | unresolvedTarget owner member cause =>
    owner ++ ": kept reference to " ++ member.text ++ ": " ++ cause
  | droppedMember owner member => owner ++ ": kept reference to dropped member " ++ member.text
  | compactBeforeLink => "Optimize before Link"
  | unnumberedClass id => "class id " ++ Text.ofInt id ++ " has no renumbering"
  | relocateBeforeCompact => "RewriteReferences before Optimize"
  | unrelocatable method cause => "rewriting " ++ method.text ++ ": " ++ cause
  | noForwarding owner slot =>
    "no translation for member reference " ++ Text.ofInt owner ++ ":" ++ Text.ofInt slot
  | entryNotKept className => "entry class " ++ className ++ " is not kept"
  | imageOfOpenRegistry => "emit: model is not optimized"
  | codeOffset method offset size =>
    "emit: " ++ method.text ++ " at offset " ++ Text.ofInt offset ++ ", code array has " ++
      Text.ofNat size ++ " bytes"
  | unresolvedCatch method slot =>
    "emit: " ++ method.text ++ ": handler catches unresolved slot " ++ Text.ofInt slot
  | missingElement className id element =>
    "emit: " ++ className ++ "#" ++ Text.ofNat id ++ ": element class " ++ element ++ " is not kept"
  | missingBuiltinClass name => "emit: builtin " ++ name ++ ": class is not kept"
  | missingBuiltinMember name member =>
    "emit: builtin " ++ name ++ ": " ++ member ++ " is not kept"
  | note text => text

end Inconsistency

/-- An error of a link. -/
inductive Error where
  | loader (className : Text) (cause : Error)
  | unresolved (member : Member)
  | cyclic (className : Text) (cycle : List Text)
  | seed (reference reason : Text)
  | internal (cause : Inconsistency)
  | notFound
  | classFile (cause : ClassFileError)
  | pool (cause : PoolError)
  | descriptor (cause : DescriptorError)
  | code (cause : CodeFault)
  | within (place : Text) (cause : Error)
  | plain (text : Text)
deriving DecidableEq, Repr

/-- The kind of an error, as it is shown to the user. -/
inductive ErrorKind where
  | seed
  | cyclic
  | unresolved
  | loader
  | internal
  | other
deriving DecidableEq, Repr

namespace ErrorKind

/-- The name of a kind of error. -/
def text : ErrorKind → Text
  | seed => "Seed Error"
  | cyclic => "Cyclic Initialization"
  | unresolved => "Unresolved Member"
  | loader => "Loader Error"
  | internal => "Internal Error"
  | other => "Error"

end ErrorKind

namespace Error

/-- The message of an error. -/
def message : Error → Text
  | loader className cause => "loading " ++ className ++ ": " ++ cause.message
  | unresolved m => "unresolved reference: " ++ m.text
  | cyclic className [] => "cyclic static initialization involving " ++ className
  | cyclic className (c :: cycle) =>
    "cyclic static initialization involving " ++ className ++ ": " ++
      Text.join " -> " (c :: cycle)
  | seed reference reason => "malformed seed reference " ++ Text.quote reference ++ ": " ++ reason
  | internal cause => "internal consistency error: " ++ cause.message
  | notFound => "class not found"
  | classFile cause => cause.message
  | pool cause => cause.message
  | descriptor cause => cause.message
  | code cause => cause.message
  | within place cause => place ++ ": " ++ cause.message
  | plain text => text

/-- The error and the causes below it, from the outside in. -/
def chain : Error → List Error
  | loader className cause => loader className cause :: cause.chain
  | within place cause => within place cause :: cause.chain
  | e => [e]

/-- The kind that one link of the chain has by itself. -/
def ownKind : Error → ErrorKind
  | loader _ _ => .loader
  | unresolved _ => .unresolved
  | cyclic _ _ => .cyclic
  | seed _ _ => .seed
  | internal _ => .internal
  | _ => .other

/-- The kind of an error: the first of seed, cyclic, unresolved, loader and internal that occurs
anywhere in its chain. -/
def kind (e : Error) : ErrorKind :=
  (([.seed, .cyclic, .unresolved, .loader, .internal] : List ErrorKind).find? fun k =>
    e.chain.any fun link => link.ownKind = k).getD .other

/-- Whether the error comes down to a class that does not exist. -/
def isNotFound (e : Error) : Bool := e.chain.contains notFound

end Error

/-- How an operation fails: with an error, or without any answer because it met something that has
no meaning, such as an instruction that does not step forward or a catalog entry that does not
exist. -/
inductive Failure where
  | error (cause : Error)
  | fault
deriving DecidableEq, Repr

namespace Failure

/-- The failure of a broken invariant. -/
def internal (cause : Inconsistency) : Failure := .error (.internal cause)

end Failure

end ClassLinker
