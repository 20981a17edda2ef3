import ClassLinker.Command.Link
import ClassLinker.Command.Report

/-!
The command line of the program.
-/

namespace ClassLinker.Command

/-- The version of the program. -/
def version : Text := "0.3.0"

/-- The command that prints the version. -/
def versionSpec : CommandSpec where
  name := "version"

/-- The program and its commands. -/
def spec : ProgramSpec where
  name := "jvmlink"
  options := [⟨"loglevel", "ll", some (LogLevel.all.map LogLevel.text)⟩]
  commands := [LinkCommand.spec, RetraceCommand.spec, DumpCommand.spec, versionSpec]

/-- The log level of a command line. -/
def levelOf (general : Arguments) : LogLevel :=
  match LogLevel.read (general.option "loglevel") with
  | .ok level => level
  | .error _ => .warn

/-- Runs a command. -/
def dispatch (s : Surroundings) (general : Arguments) (c : CommandSpec) (a : Arguments) :
    CommandM Unit :=
  if c = LinkCommand.spec then LinkCommand.run s (levelOf general) a
  else if c = RetraceCommand.spec then RetraceCommand.run s a
  else if c = DumpCommand.spec then DumpCommand.run a
  else CommandM.tell "jvmlink Version" version

/-- Runs a command line. -/
def run (s : Surroundings) (files : FileTree) (args : List Text) : Outcome :=
  match spec.read args with
  | .error e => ⟨1, Look.error.message "CLI Usage Error" e.message, files⟩
  | .ok (general, c, a) => Outcome.ofCommand (dispatch s general c a) files

end ClassLinker.Command
