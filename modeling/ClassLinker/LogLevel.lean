import ClassLinker.Error

/-!
Log levels and the verbosity that each stands for.
-/

namespace ClassLinker

/-- How much is logged. -/
inductive LogLevel where
  | silent
  | error
  | warn
  | info
  | debug
deriving DecidableEq, Repr

namespace LogLevel

/-- The levels from the quietest to the loudest. -/
def all : List LogLevel := [silent, error, warn, info, debug]

/-- The name of a level. -/
def text : LogLevel → Text
  | silent => "silent"
  | error => "error"
  | warn => "warn"
  | info => "info"
  | debug => "debug"

/-- The verbosity of a level. -/
def verbosity : LogLevel → Int
  | silent => -4
  | error => -2
  | warn => -1
  | info => 1
  | debug => 2

/-- The level with a given name. -/
def read (name : Text) : Except Error LogLevel :=
  match all.find? fun level => level.text = name with
  | some level => .ok level
  | none => .error (.plain ("unknown log level " ++ Text.quote name))

end LogLevel

end ClassLinker
