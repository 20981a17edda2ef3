import ClassLinker.Error
import ClassLinker.Text.Blank
import ClassLinker.Text.Lines

/-!
Seeds: the members and classes that a program keeps because it is told to. A reference is written as
three words, the class, the member's name and its descriptor; class names may be written with dots.
A file of references has one to a line, with comments from `#` on.
-/

namespace ClassLinker

namespace Member

/-- Reads a reference of three words. -/
def read (t : Text) : Except Error Member :=
  match Text.words t with
  | [className, name, descriptor] =>
    let m : Member :=
      ⟨Text.replaceByte (Text.byte '.') (Text.byte '/') className, ⟨name, descriptor⟩⟩
    if m.sig.isMethod then
      match MethodType.read descriptor with
      | .ok _ => .ok m
      | .error e => .error (.seed t e.message)
    else if FieldType.isDescriptor descriptor then .ok m
    else .error (.seed t ("bad descriptor " ++ Text.quote descriptor))
  | ws => .error (.seed t ("want 3 tokens, got " ++ Text.ofNat ws.length))

/-- A line up to the comment in it. -/
def dropComment (line : Text) : Text := line.takeWhile (· ≠ Text.byte '#')

/-- Reads the references on some lines, skipping the blank ones. -/
def readEach : List Text → Except Error (List Member)
  | [] => .ok []
  | line :: lines =>
    let content := dropComment line
    if Text.trim content = [] then readEach lines
    else do
      let m ← read content
      let ms ← readEach lines
      return m :: ms

/-- Reads a file of references. -/
def readText (t : Text) : Except Error (List Member) := do
  let input := Text.readLines t
  let ms ← readEach input.lines
  if input.tooLong then throw (.within "reading references" (.plain Text.tooLongMessage))
  return ms

/-- Reads a list of references. -/
def readList (ts : List Text) : Except Error (List Member) := ts.mapM read

end Member

/-- What the target runtime needs whatever the program is. -/
structure RuntimeSeeds where
  root : Text
  /-- The class whose static initializer runs first. -/
  bootstrap : Text
  classes : List Text
  members : List Member
  arrays : List Text
deriving DecidableEq, Repr

namespace RuntimeSeeds

/-- The root of the class hierarchy unless another is asked for. -/
def defaultRoot : Text := "java/lang/Object"

/-- The seeds of the standard runtime. -/
def standard : RuntimeSeeds where
  root := defaultRoot
  bootstrap := "java/lang/Class"
  classes := [
    "java/lang/ArrayIndexOutOfBoundsException",
    "java/lang/ArithmeticException",
    "java/lang/Class",
    "java/lang/ClassCastException",
    "java/lang/NegativeArraySizeException",
    "java/lang/NullPointerException",
    "java/lang/OutOfMemoryError",
    "java/lang/String",
    "java/lang/Thread"]
  members := [
    ⟨"java/lang/Class", "aClassId", "I"⟩,
    ⟨"java/lang/ArithmeticException", "<init>", "(Ljava/lang/String;)V"⟩,
    ⟨"java/lang/ArrayIndexOutOfBoundsException", "<init>", "(I)V"⟩,
    ⟨"java/lang/Class", "aAllClasses", "[Ljava/lang/Class;"⟩,
    ⟨"java/lang/ClassCastException", "<init>", "()V"⟩,
    ⟨"java/lang/NullPointerException", "<init>", "()V"⟩,
    ⟨"java/lang/OutOfMemoryError", "<init>", "()V"⟩,
    ⟨"java/lang/OutOfMemoryError", "getInstance", "()Ljava/lang/OutOfMemoryError;"⟩,
    ⟨"java/lang/NegativeArraySizeException", "<init>", "()V"⟩,
    ⟨"java/lang/String", "value", "[C"⟩,
    ⟨"java/lang/Thread", "aAllThreads", "Ljava/lang/Thread;"⟩,
    ⟨"java/lang/Thread", "aContext", "[B"⟩,
    ⟨"java/lang/Thread", "aCurrentThread", "Ljava/lang/Thread;"⟩,
    ⟨"java/lang/Thread", "aNextThread", "Ljava/lang/Thread;"⟩,
    ⟨"java/lang/Thread", "aStack", "[B"⟩,
    ⟨"java/lang/Thread", "aState", "I"⟩,
    ⟨"java/lang/Thread", "runFromNative", "()V"⟩]
  arrays := ["[C", "[B", "[I", "[J", "[Ljava/lang/Object;", "[Ljava/lang/Class;"]

end RuntimeSeeds

end ClassLinker
