import ClassLinker.Text.Basic

/-!
Arguments of a command line. An option is written `-short=value` or `--long=value`, a flag without
the value or with an empty one; the first other argument names the command, and one more may be the
primary argument of the command. The options of the program are written behind the command too: once
an option or a flag was given, no command is expected any more.
-/

namespace ClassLinker

/-- An option that takes a value. -/
structure OptionSpec where
  name : Text
  short : Text
  /-- The values that the option takes; none for any value. -/
  choices : Option (List Text) := none
deriving DecidableEq, Repr

/-- A flag. -/
structure FlagSpec where
  name : Text
  short : Text
deriving DecidableEq, Repr

/-- The primary argument of a command. -/
structure PrimarySpec where
  name : Text
  isRequired : Bool
deriving DecidableEq, Repr

/-- A command. -/
structure CommandSpec where
  name : Text
  options : List OptionSpec := []
  flags : List FlagSpec := []
  primary : Option PrimarySpec := none
deriving DecidableEq, Repr

/-- A program with its commands. -/
structure ProgramSpec where
  name : Text
  options : List OptionSpec
  commands : List CommandSpec
deriving DecidableEq, Repr

/-- The arguments that a command line gives: the values of options, the flags and the primary
argument, which is empty if there is none. -/
structure Arguments where
  options : List (Text × Text) := []
  flags : List Text := []
  primary : Text := []
deriving DecidableEq, Repr

namespace Arguments

/-- The value of an option, empty if it is not given. -/
def option (a : Arguments) (name : Text) : Text := (a.options.lookup name).getD []

/-- Whether a flag is given. -/
def flag (a : Arguments) (name : Text) : Bool := a.flags.contains name

end Arguments

/-- Why a command line is refused. -/
inductive UsageError where
  | noCommand (program : Text)
  | unknownCommand (name : Text)
  | unexpectedCommand (name : Text)
  | unknownOption (isLong : Bool) (name : Text)
  | unknownFlag (isLong : Bool) (name : Text)
  | optionTwice (name : Text)
  | flagTwice (name : Text)
  | badChoice (value option : Text)
  | primaryTwice (command : Text)
  | noPrimary (command primary : Text)
deriving DecidableEq, Repr

namespace UsageError

/-- A name as it is shown in messages. -/
def ticked (name : Text) : Text := "`" ++ name ++ "`"

/-- How a name was written, if it was not the long one. -/
def byShortName (isLong : Bool) : Text := if isLong then "" else " by short name"

/-- The message of a refused command line. -/
def message : UsageError → Text
  | noCommand program => ticked program ++ " requires a subcommand"
  | unknownCommand name => "unknown subcommand: " ++ ticked name
  | unexpectedCommand name => "unexpected subcommand: " ++ ticked name
  | unknownOption isLong name => "unknown argument" ++ byShortName isLong ++ ": " ++ ticked name
  | unknownFlag isLong name => "unknown flag" ++ byShortName isLong ++ ": " ++ ticked name
  | optionTwice name => "argument " ++ ticked name ++ " set multiple times"
  | flagTwice name => "flag " ++ ticked name ++ " set multiple times"
  | badChoice value option =>
    ticked value ++ " is not a valid value for argument [" ++ option ++ "]"
  | primaryTwice command => "multiple primary arguments specified for command " ++ ticked command
  | noPrimary command primary =>
    "missing required primary argument " ++ ticked command ++ " for subcommand " ++ ticked primary

end UsageError

/-- What was read of a command line: the options of the program, the command with its arguments, and
whether an option or a flag was given. -/
structure Invocation where
  general : Arguments := {}
  command : Option (CommandSpec × Arguments) := none
  isDashed : Bool := false
deriving DecidableEq, Repr

namespace ProgramSpec

/-- An argument with dashes taken apart: whether its name is the long one, the name, and the value,
which is empty for a flag. -/
structure Dashed where
  isLong : Bool
  name : Text
  value : Text
deriving DecidableEq, Repr

/-- Takes an argument with dashes apart at its first equals sign. Two or more dashes are in front of
a long name. -/
def dashed? (arg : Text) : Option Dashed :=
  let (dashes, rest) := arg.span (· = Text.byte '-')
  if dashes = [] then none
  else
    let (name, value) := rest.span (· ≠ Text.byte '=')
    some ⟨1 < dashes.length, name, value.drop 1⟩

/-- Finds the option that an argument names. -/
def findOption? (options : List OptionSpec) (d : Dashed) : Option OptionSpec :=
  options.find? fun o => (if d.isLong then o.name else o.short) = d.name

/-- Gives an option its value. -/
def addOption (a : Arguments) (o : OptionSpec) (value : Text) : Except UsageError Arguments :=
  if (a.options.lookup o.name).isSome then .error (.optionTwice o.name)
  else if o.choices.any fun choices => !choices.contains value then .error (.badChoice value o.name)
  else .ok { a with options := a.options ++ [(o.name, value)] }

/-- Takes an option with its value: one of the command, or else one of the program. -/
def takeOption (p : ProgramSpec) (i : Invocation) (d : Dashed) :
    Except UsageError Invocation :=
  match i.command.bind fun (c, a) => (findOption? c.options d).map fun o => (c, a, o) with
  | some (c, a, o) => do
    return { i with command := some (c, ← addOption a o d.value) }
  | none =>
    match findOption? p.options d with
    | some o => do
      return { i with general := ← addOption i.general o d.value }
    | none => .error (.unknownOption d.isLong d.name)

/-- Takes a flag of the command. -/
def takeFlag (i : Invocation) (d : Dashed) : Except UsageError Invocation :=
  match i.command with
  | none => .error (.unknownFlag d.isLong d.name)
  | some (c, a) =>
    match c.flags.find? fun f => (if d.isLong then f.name else f.short) = d.name with
    | none => .error (.unknownFlag d.isLong d.name)
    | some f =>
      if a.flag f.name then .error (.flagTwice f.name)
      else .ok { i with command := some (c, { a with flags := a.flags ++ [f.name] }) }

/-- Takes an argument without dashes: the command, or its primary argument. -/
def takeBare (p : ProgramSpec) (i : Invocation) (arg : Text) : Except UsageError Invocation :=
  match i.command with
  | none =>
    if i.isDashed then .error (.unexpectedCommand arg)
    else
      match p.commands.find? fun c => c.name = arg with
      | some c => .ok { i with command := some (c, {}) }
      | none => .error (.unknownCommand arg)
  | some (c, a) =>
    if c.primary.isNone then
      .error (if i.isDashed then .unexpectedCommand arg else .unknownCommand arg)
    else if a.primary ≠ [] then .error (.primaryTwice c.name)
    else .ok { i with command := some (c, { a with primary := arg }) }

/-- Takes one argument. -/
def take (p : ProgramSpec) (i : Invocation) (arg : Text) : Except UsageError Invocation :=
  match dashed? arg with
  | none => p.takeBare i arg
  | some d =>
    let i := { i with isDashed := true }
    if d.value = [] then takeFlag i d else p.takeOption i d

/-- Reads the arguments of a command line: gives the options of the program, the command and its
arguments. -/
def read (p : ProgramSpec) (args : List Text) :
    Except UsageError (Arguments × CommandSpec × Arguments) := do
  let i ← args.foldlM p.take {}
  match i.command with
  | none => .error (.noCommand p.name)
  | some (c, a) =>
    match c.primary with
    | some primary =>
      if primary.isRequired && a.primary = [] then .error (.noPrimary c.name primary.name)
      else .ok (i.general, c, a)
    | none => .ok (i.general, c, a)

end ProgramSpec

end ClassLinker
