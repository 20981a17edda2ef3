import ClassLinker.ClassPath
import ClassLinker.Command.Basic
import ClassLinker.Config
import ClassLinker.LogLevel

/-!
The command that links a program. Its configuration is read from the file that is named, from the
file with the usual name in the working directory, or made up from defaults; options of the command
line take precedence over it.
-/

namespace ClassLinker.LinkCommand

/-- The command. -/
def spec : CommandSpec where
  name := "link"
  options := [⟨"classpath", "cp", none⟩, ⟨"entry", "e", none⟩, ⟨"output", "o", none⟩]
  flags := [⟨"jdk", "j"⟩]
  primary := some ⟨"config", false⟩

/-- The archive with the base module of a Java installation, from the folder of its modules on. -/
def baseArchive : List Text := ["jmods", "java.base.jmod"]

/-- Where Java installations are. -/
def installations : List Text := ["usr", "lib", "jvm"]

/-- Whether a text occurs in another. -/
def occursIn (part : Text) : Text → Bool
  | [] => part = []
  | b :: t => part.isPrefixOf (b :: t) || occursIn part t

/-- Whether a name is that of a Java installation. -/
def isInstallation (name : Text) : Bool :=
  match Text.dropStart? "java-" name with
  | some rest => occursIn "-openjdk-" rest
  | none => false

/-- The absolute path of some names. -/
def absolutePath (names : List Text) : Text := Path.slash :: Text.join [Path.slash] names

/-- The base archives of the Java installations. -/
def installedArchives (t : FileTree) : List Text :=
  let names := (t.childrenOf installations).filter isInstallation
  let archives := (Text.sort names).map fun name =>
    absolutePath (installations ++ [name] ++ baseArchive)
  archives.filter fun path => (t.find .looking path).isOk

/-- The base archive in the Java installation that the environment names. -/
def homeArchive (s : Surroundings) : Text := Path.join (s.value "JAVA_HOME" :: baseArchive)

/-- The base archive to link with, if there is one: the one that the environment names, the one of
the installation that it names, or that of an installation. -/
def findBaseArchive (s : Surroundings) (t : FileTree) : Option Text :=
  if s.value "JAVA_BASE_JMOD" ≠ [] then some (s.value "JAVA_BASE_JMOD")
  else if s.value "JAVA_HOME" ≠ [] && (t.find .looking (homeArchive s)).isOk then
    some (homeArchive s)
  else (installedArchives t).head?

/-- The configuration file to read, if there is one. -/
def configPath (t : FileTree) (a : Arguments) : Option Text :=
  if a.primary ≠ [] then some a.primary
  else if (t.find .looking Config.fileName).isOk then some Config.fileName
  else none

/-- The configuration without the options of the command line. -/
def readConfig (t : FileTree) (a : Arguments) : Except Error Config :=
  match configPath t a with
  | some path => (Config.load t path).mapError ConfigError.toError
  | none => .ok (Config.standard t.workPath)

/-- The configuration to link with. -/
def config (s : Surroundings) (t : FileTree) (a : Arguments) : Except Error Config := do
  let c ← readConfig t a
  let classpath := a.option "classpath"
  let listed :=
    if classpath = [] then c.link.classpath else Text.splitOn (Text.byte ':') classpath
  let added ←
    if a.flag "jdk" then
      match findBaseArchive s t with
      | some path => pure [path]
      | none =>
        throw (.plain "could not find java.base.jmod; set JAVA_HOME or JAVA_BASE_JMOD")
    else pure []
  return { c with
    link := { c.link with
      classpath := listed ++ added
      entry := Config.orElse c.link.entry (a.option "entry") }
    output := { c.output with image := Config.orElse c.output.image (a.option "output") } }

/-- Opens the log, unless nothing is logged. -/
def openLog (c : Config) (level : LogLevel) : CommandM Unit :=
  if c.log.file ≠ [] && Config.minVerbosity < max level.verbosity c.log.verbosity then
    CommandM.change (FileM.openToAppend c.log.file) fun _ => .noLog
  else pure ()

/-- What is printed of a link. -/
def summary (path : Text) (p : Program) (i : Image) : Text :=
  path ++ ": " ++ Text.ofNat i.classes.length ++ " classes, " ++ Text.ofNat p.stats.methods ++
    " methods, " ++ Text.ofNat p.stats.fields ++ " fields, " ++ Text.ofNat i.code.length ++
    " bytes of code"

/-- Links a program and writes its image. -/
def run (s : Surroundings) (level : LogLevel) (a : Arguments) : CommandM Unit := do
  let c ← CommandM.ofExcept (config s (← CommandM.files) a)
  openLog c level
  if c.problems ≠ [] then
    CommandM.complain "Config Error" (Config.problemText c.problems)
    CommandM.fail (.plain "invalid configuration")
  let t ← CommandM.files
  let options ← CommandM.ofExcept (c.options t)
  let places ← CommandM.ofExcept (c.link.classpath.mapM (ClassPlace.ofEntry t))
  let program ← CommandM.ofResult (Program.link (ClassPlace.source places) options)
  let image ← CommandM.ofResult program.image
  CommandM.change (c.output.write image) fun e => .error e.toError
  CommandM.tell "Linked" (summary c.output.image program image)

end ClassLinker.LinkCommand
