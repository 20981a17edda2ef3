import ClassLinker.Command.Run

/-!
What a command line looks at. A run works on a tree of files that is known beforehand; the demand
says which paths the tree has to cover, as far as the part of it that is known already tells.
Covering the demand and asking again reaches all of it in a few rounds: the configuration names the
class path.
-/

namespace ClassLinker

/-- What a run looks at. -/
structure Demand where
  /-- Paths of files and folders of which the contents or the mere existence count. -/
  single : List Text := []
  /-- Folders of which the names in them count. -/
  listed : List Text := []
  /-- Folders and files that are looked at with everything below them. -/
  whole : List Text := []
  /-- Whether the input is read. -/
  input : Bool := false
deriving DecidableEq, Repr

namespace LinkCommand

/-- What finding the base archive looks at. -/
def archiveDemand (s : Surroundings) (t : FileTree) : Demand where
  single :=
    homeArchive s :: ((t.childrenOf installations).filter isInstallation).map fun name =>
      absolutePath (installations ++ [name] ++ baseArchive)
  listed := [absolutePath installations]

/-- What a link looks at. -/
def demand (s : Surroundings) (t : FileTree) (a : Arguments) : Demand :=
  let base := if a.flag "jdk" then archiveDemand s t else {}
  match config s t a with
  | .error _ => { base with single := Config.fileName :: a.primary :: base.single }
  | .ok c =>
    { base with
      single :=
        [Config.fileName, a.primary, c.link.requiredFile, c.log.file, c.output.image,
          c.output.trace, c.output.header] ++ base.single
      whole := c.link.classpath }

end LinkCommand

namespace Command

/-- What a command line looks at. -/
def demand (s : Surroundings) (t : FileTree) (args : List Text) : Demand :=
  match spec.read args with
  | .error _ => {}
  | .ok (_, c, a) =>
    if c = LinkCommand.spec then LinkCommand.demand s t a
    else { single := [a.primary], input := c = RetraceCommand.spec && a.option "pc" = [] }

/-- The number of rounds in which a demand is covered. -/
def rounds : Nat := 4

/-- The variables of the environment that a command line looks at. -/
def environmentNames : List Text := ["JAVA_BASE_JMOD", "JAVA_HOME"]

end Command

end ClassLinker
