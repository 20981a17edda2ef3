import ClassLinker.Instruction.Opcode
import ClassLinker.Numeric

/-!
The catalog of symbols the runtime constructs on its own: the exceptions that instructions may
raise without any construction site in the program. An entry names a class or a method of it;
keeping an entry keeps its further steps and the entries of their classes. Each opcode triggers the
entries its execution may construct.
-/

namespace ClassLinker

/-- One entry of the catalog. A class entry has an empty member name. -/
structure Builtin where
  id : Nat
  name : Text
  className : Text
  member : Text
  descriptor : Text
  /-- The entry of the class that owns the member; a class entry names itself. -/
  classEntry : Nat
  /-- Further entries that are kept together with this one. -/
  steps : List Nat
deriving DecidableEq, Repr

namespace Builtin

/-- An entry names a member when it has a member name. -/
def isMember (e : Builtin) : Bool := !e.member.isEmpty

/-- The class, or the member with its class and descriptor. -/
def text (e : Builtin) : Text :=
  if e.isMember then e.className ++ "." ++ e.member ++ e.descriptor else e.className

/-- The whole catalog; an entry stands at the position of its id. -/
def catalog : List Builtin := [
  ⟨0, "NULL_POINTER_EXCEPTION", "java/lang/NullPointerException", [], [], 0, []⟩,
  ⟨1, "NULL_POINTER_EXCEPTION_INIT", "java/lang/NullPointerException", "<init>", "()V", 0, []⟩,
  ⟨2, "ARRAY_INDEX_OUT_OF_BOUNDS_EXCEPTION", "java/lang/ArrayIndexOutOfBoundsException", [], [],
    2, []⟩,
  ⟨3, "ARRAY_INDEX_OUT_OF_BOUNDS_EXCEPTION_INIT", "java/lang/ArrayIndexOutOfBoundsException",
    "<init>", "(I)V", 2, []⟩,
  ⟨4, "ARITHMETIC_EXCEPTION", "java/lang/ArithmeticException", [], [], 4, []⟩,
  ⟨5, "ARITHMETIC_EXCEPTION_INIT", "java/lang/ArithmeticException", "<init>",
    "(Ljava/lang/String;)V", 4, []⟩,
  ⟨6, "OUT_OF_MEMORY_ERROR", "java/lang/OutOfMemoryError", [], [], 6, []⟩,
  ⟨7, "OUT_OF_MEMORY_ERROR_INIT", "java/lang/OutOfMemoryError", "<init>", "()V", 6, [8]⟩,
  ⟨8, "OUT_OF_MEMORY_ERROR_GET_INSTANCE", "java/lang/OutOfMemoryError", "getInstance",
    "()Ljava/lang/OutOfMemoryError;", 6, []⟩,
  ⟨9, "NEGATIVE_ARRAY_SIZE_EXCEPTION", "java/lang/NegativeArraySizeException", [], [], 9, []⟩,
  ⟨10, "NEGATIVE_ARRAY_SIZE_EXCEPTION_INIT", "java/lang/NegativeArraySizeException", "<init>",
    "()V", 9, []⟩,
  ⟨11, "CLASS_CAST_EXCEPTION", "java/lang/ClassCastException", [], [], 11, []⟩,
  ⟨12, "CLASS_CAST_EXCEPTION_INIT", "java/lang/ClassCastException", "<init>", "()V", 11, []⟩]

/-- The entry with a given id. -/
def lookup? (id : Int) : Option Builtin := if id < 0 then none else catalog[id.toNat]?

/-- The entries still to visit are on `pending`, the visited ones in `seen`, latest first. Every
round either drops a pending id or visits a new entry. -/
def expandFrom : Nat → List Nat → List Nat → List Nat
  | 0, _, seen => seen.reverse
  | _ + 1, [], seen => seen.reverse
  | fuel + 1, id :: pending, seen =>
    if seen.contains id then expandFrom fuel pending seen
    else
      let steps := ((catalog[id]?).map Builtin.steps).getD []
      expandFrom fuel (steps ++ pending) (id :: seen)

/-- An entry followed by its steps and theirs, each once; none for an unknown id. -/
def expand? (id : Int) : Option (List Nat) :=
  (lookup? id).map fun e =>
    expandFrom (1 + catalog.length + total (catalog.map fun e => e.steps.length)) [e.id] []

/-- Inserts an id into an ascending list without repetition. -/
def insertId (id : Nat) : List Nat → List Nat
  | [] => [id]
  | k :: ks => if id < k then id :: k :: ks else if id = k then k :: ks else k :: insertId id ks

/-- The ids kept once `id` is kept too: its expansion and the entries of their classes. An unknown
id cannot be kept. -/
def keep? (kept : List Nat) (id : Int) : Option (List Nat) :=
  (expand? id).map fun ids =>
    ids.foldl (fun kept e =>
      insertId (((catalog[e]?).map Builtin.classEntry).getD e) (insertId e kept)) kept

/-- The entries that executing an opcode may construct. -/
def triggers (op : UInt8) : List Nat :=
  if (0x2E ≤ op && op ≤ 0x35) || (0x4F ≤ op && op ≤ 0x56) then [1, 3]
  else if op = 0xB4 || op = 0xB5 || op = 0xB6 || op = 0xB7 || op = 0xB9 || op = 0xBE || op = 0xBF ||
    op = 0xC2 || op = 0xC3 then [1]
  else if op = 0x6C || op = 0x6D || op = 0x70 || op = 0x71 then [5]
  else if op = 0xBB then [7]
  else if op = 0xBC || op = 0xBD || op = 0xC5 then [10, 7]
  else if op = 0xC0 then [12]
  else []

end Builtin

end ClassLinker
