import ClassLinker.Command.Arguments
import ClassLinker.Files.Tree
import ClassLinker.Text.Markup

/-!
Running commands. A command works on a tree of files and prints to a text; it may read the
environment and its input. When it stops early, what it has written and printed before stays.
-/

namespace ClassLinker

/-- What a command can see besides the files. -/
structure Surroundings where
  /-- The variables of the environment. -/
  environment : List (Text × Text) := []
  input : Text := []
deriving DecidableEq, Repr

namespace Surroundings

/-- The value of a variable, empty if it is not set. -/
def value (s : Surroundings) (name : Text) : Text := (s.environment.lookup name).getD []

end Surroundings

/-- The files and what was printed. -/
structure Desk where
  files : FileTree
  printed : Text := []
deriving DecidableEq, Repr

/-- Why a command stops early. -/
inductive Stop where
  /-- An error of the program, which is still to be printed. -/
  | error (cause : Error)
  /-- The log cannot be written, which is not told on the output. -/
  | noLog
  /-- The command met something that has no meaning. -/
  | fault
deriving DecidableEq, Repr

/-- A command as it runs. -/
abbrev CommandM := EStateM Stop Desk

/-- The look of a message: the style of its tag and that of its text. -/
structure Look where
  tag : Text
  text : Text
deriving DecidableEq, Repr

namespace Look

/-- The look of errors. -/
def error : Look := ⟨"41;37", "31"⟩

/-- The look of what a command has to tell. -/
def info : Look := ⟨"102;30", "92"⟩

/-- A line as it is shown. Its marks are rendered five levels deep. -/
def line (t : Text) : Text := Markup.renderTimes 5 (t ++ "\n")

/-- A message as it is shown: a line that starts with its tag. -/
def message (look : Look) (tag text : Text) : Text :=
  Markup.paint look.tag tag ++ line (Markup.paint look.text (Markup.render (" " ++ text)))

end Look

namespace CommandM

/-- Prints a text. -/
def print (t : Text) : CommandM Unit := modify fun d => { d with printed := d.printed ++ t }

/-- Prints what a command has to tell. -/
def tell (tag text : Text) : CommandM Unit := print (Look.info.message tag text)

/-- Prints an error that does not stop the command. -/
def complain (tag text : Text) : CommandM Unit := print (Look.error.message tag text)

/-- The files. -/
def files : CommandM FileTree := return (← get).files

/-- Stops with an error. -/
def fail {α : Type} (e : Error) : CommandM α := throw (.error e)

/-- Goes on with a result, or stops with its error. -/
def ofExcept {α : Type} : Except Error α → CommandM α
  | .ok a => return a
  | .error e => fail e

/-- Goes on with a result of the linker, or stops with its failure. -/
def ofResult {α : Type} : Except Failure α → CommandM α
  | .ok a => return a
  | .error (.error e) => fail e
  | .error .fault => throw .fault

/-- Carries out a change of the files; a failed one is handed to `failure`. -/
def change (op : FileM Unit) (failure : FileError → Stop) : CommandM Unit := do
  let d ← get
  match op d.files with
  | .ok _ files => set { d with files }
  | .error e files =>
    set { d with files }
    throw (failure e)

end CommandM

/-- How a command ended. -/
structure Outcome where
  exit : Nat
  printed : Text
  files : FileTree
deriving DecidableEq, Repr

namespace Outcome

/-- Runs a command and prints the error that it stops with. -/
def ofCommand (command : CommandM Unit) (files : FileTree) : Outcome :=
  match command { files } with
  | .ok _ d => ⟨0, d.printed, d.files⟩
  | .error (.error e) d => ⟨1, d.printed ++ Look.error.message e.kind.text e.message, d.files⟩
  | .error .noLog d => ⟨1, d.printed, d.files⟩
  | .error .fault d => ⟨2, d.printed, d.files⟩

end Outcome

end ClassLinker
