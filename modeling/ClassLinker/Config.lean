import ClassLinker.Image.Files
import ClassLinker.Program
import ClassLinker.Toml.Table

/-!
The configuration of a link, which is read from a TOML document. Names of keys are matched without
regard to case, unknown keys are ignored, and relative paths are taken from the folder of the
document.
-/

namespace ClassLinker

/-- What to link, as it is written in a configuration. -/
structure LinkSection where
  classpath : List Text := []
  entry : Text := []
  entryMethod : Text := []
  entryDescriptor : Text := []
  required : List Text := []
  /-- A file with further required members. -/
  requiredFile : Text := []
deriving DecidableEq, Repr

/-- What the runtime needs, as it is written in a configuration. -/
structure RuntimeSection where
  root : Text := []
  bootstrap : Text := []
  classes : List Text := []
  members : List Text := []
  arrays : List Text := []
deriving DecidableEq, Repr

/-- How much is logged, and to which file. -/
structure LogSection where
  verbosity : Int := 0
  file : Text := []
deriving DecidableEq, Repr

/-- A configuration. -/
structure Config where
  /-- The folder that relative paths are taken from. -/
  folder : Text
  link : LinkSection := {}
  /-- What the runtime needs, unless it is what the standard runtime needs. -/
  runtime : Option RuntimeSection := none
  output : OutputPaths := ⟨[], [], []⟩
  log : LogSection := {}
deriving DecidableEq, Repr

/-- Why a configuration cannot be read. -/
inductive ConfigError where
  | unreadable (path : Text) (cause : FileError)
  | malformed (path : Text)
deriving DecidableEq, Repr

namespace ConfigError

/-- The error of the program. -/
def toError : ConfigError → Error
  | unreadable path cause => .within ("cannot read " ++ path) cause.toError
  | malformed path => .plain ("parse error in " ++ path ++ ":")

end ConfigError

namespace Config

/-- The name of the configuration that is read unless another is asked for. -/
def fileName : Text := "jvmlink.toml"

/-- The image that is written unless another is asked for. -/
def defaultImage : Text := "jvmlink.img"

/-- The small letter of a code point, if it is a form of an ASCII letter. -/
def foldCode (code : Nat) : Option UInt8 :=
  if 65 ≤ code && code ≤ 90 then some (code + 32).toUInt8
  else if code = 0x17F then some (Text.byte 's')
  else if code = 0x212A then some (Text.byte 'k')
  else none

/-- A name with its letters made small. -/
def foldName (name : Text) : Text :=
  (Text.pieces name).flatMap fun piece =>
    match piece.code?.bind foldCode with
    | some letter => [letter]
    | none => piece.bytes

/-- The values of the keys that match a name. -/
def matching (t : TomlTable) (name : Text) : List TomlValue :=
  (t.filter fun entry => foldName entry.1 = name).map Prod.snd

/-- A text value. -/
def textOf? : TomlValue → Option Text
  | .scalar (.string text) => some text
  | _ => none

/-- An integer value. -/
def intOf? : TomlValue → Option Int
  | .scalar (.integer n) => some n
  | _ => none

/-- A list of text values. -/
def textsOf? : TomlValue → Option (List Text)
  | .array items => items.mapM textOf?
  | _ => none

/-- A table value. -/
def tableOf? : TomlValue → Option TomlTable
  | .table entries => some entries
  | _ => none

/-- The value of a key, or `absent` if the table does not have the key. A value of another kind is
refused. -/
def field {α : Type} (t : TomlTable) (name : Text) (absent : α) (read : TomlValue → Option α) :
    Option α := do
  return (← (matching t name).mapM read).getLastD absent

/-- The entries of a section, none if the table does not have the section. -/
def sectionOf? (t : TomlTable) (name : Text) : Option (Option TomlTable) := do
  match ← (matching t name).mapM tableOf? with
  | [] => return none
  | tables => return some tables.flatten

/-- Reads what to link. -/
def readLink (t : TomlTable) : Option LinkSection := do
  return {
    classpath := ← field t "classpath" [] textsOf?
    entry := ← field t "entry" [] textOf?
    entryMethod := ← field t "entry-method" [] textOf?
    entryDescriptor := ← field t "entry-descriptor" [] textOf?
    required := ← field t "required" [] textsOf?
    requiredFile := ← field t "required-file" [] textOf? }

/-- Reads what the runtime needs. -/
def readRuntime (t : TomlTable) : Option RuntimeSection := do
  return {
    root := ← field t "root" [] textOf?
    bootstrap := ← field t "bootstrap" [] textOf?
    classes := ← field t "classes" [] textsOf?
    members := ← field t "members" [] textsOf?
    arrays := ← field t "arrays" [] textsOf? }

/-- Reads where the outputs go. -/
def readOutput (t : TomlTable) : Option OutputPaths := do
  return {
    image := ← field t "image" [] textOf?
    trace := ← field t "trace" [] textOf?
    header := ← field t "header" [] textOf? }

/-- Reads how to log. -/
def readLog (t : TomlTable) : Option LogSection := do
  return {
    verbosity := ← field t "verbosity" 0 intOf?
    file := ← field t "file" [] textOf? }

/-- Reads a configuration as it is written. -/
def ofTable? (folder : Text) (t : TomlTable) : Option Config := do
  return {
    folder
    link := ← readLink ((← sectionOf? t "link").getD [])
    runtime := ← (← sectionOf? t "vm").mapM readRuntime
    output := ← readOutput ((← sectionOf? t "output").getD [])
    log := ← readLog ((← sectionOf? t "log").getD []) }

/-- `value`, or `absent` if it is empty. -/
def orElse (absent value : Text) : Text := if value = [] then absent else value

/-- The configuration with defaults for what it leaves open. -/
def withDefaults (c : Config) : Config :=
  { c with
    link := { c.link with
      entryMethod := orElse Signature.defaultEntry.name c.link.entryMethod
      entryDescriptor := orElse Signature.defaultEntry.descriptor c.link.entryDescriptor }
    output := { c.output with image := orElse defaultImage c.output.image }
    runtime := c.runtime.map fun r => { r with root := orElse RuntimeSeeds.defaultRoot r.root } }

/-- The configuration that is used when none is written. -/
def standard (folder : Text) : Config := withDefaults { folder }

/-- A path taken from the folder of the configuration. Empty and absolute paths stay as they are. -/
def path (c : Config) (p : Text) : Text :=
  if p = [] || Path.isAbsolute p then p else Path.join [c.folder, p]

/-- The configuration with its paths taken from its folder. -/
def withPaths (c : Config) : Config :=
  { c with
    link := { c.link with
      classpath := c.link.classpath.map c.path
      requiredFile := c.path c.link.requiredFile }
    output := ⟨c.path c.output.image, c.path c.output.trace, c.path c.output.header⟩
    log := { c.log with file := c.path c.log.file } }

/-- Reads the configuration at a path. -/
def load (t : FileTree) (path : Text) : Except ConfigError Config :=
  match t.read path with
  | .error e => .error (.unreadable path e)
  | .ok data =>
    match (Toml.read data).bind (ofTable? (Path.absolute t.workPath (Path.folder path))) with
    | some c => .ok c.withDefaults.withPaths
    | none => .error (.malformed path)

/-- The least verbosity. -/
def minVerbosity : Int := -4

/-- The greatest verbosity. -/
def maxVerbosity : Int := 2

/-- What is wrong with references. -/
def referenceProblems (place : Text) (references : List Text) : List Error :=
  references.filterMap fun reference =>
    match Member.read reference with
    | .ok _ => none
    | .error e => some (.within place e)

/-- What is wrong with the names of array classes. -/
def arrayProblems (arrays : List Text) : List Error :=
  let isArrayType (a : Text) : Bool := a.head? = some (Text.byte '[') && FieldType.isDescriptor a
  (arrays.filter fun a => !isArrayType a).map fun a =>
    .within "vm.arrays" (.plain (Text.quote a ++ " is not an array type"))

/-- Everything that is wrong with a configuration. -/
def problems (c : Config) : List Error :=
  (if c.link.entry = [] then [.plain "link.entry is required"] else []) ++
  (if c.link.classpath = [] then [.plain "link.classpath is empty"] else []) ++
  (match MethodType.read c.link.entryDescriptor with
    | .ok _ => []
    | .error e => [.within "link.entry-descriptor" (.descriptor e)]) ++
  referenceProblems "link.required" c.link.required ++
  (match c.runtime with
    | none => []
    | some r => referenceProblems "vm.members" r.members ++ arrayProblems r.arrays) ++
  (if c.log.verbosity < minVerbosity || maxVerbosity < c.log.verbosity then
    [.plain ("log.verbosity " ++ Text.ofInt c.log.verbosity ++ " out of range")]
  else [])

/-- What problems are together reported with. -/
def problemText (es : List Error) : Text := Text.join "; " (es.map Error.message)

/-- Reads the file of required members. -/
def readRequiredFile (t : FileTree) (path : Text) : Except Error (List Member) :=
  match t.read path with
  | .ok data => (Member.readText data).mapError (.within path)
  | .error e =>
    .error
      (match e.op with
      | .reading => .within path (.within "reading references" e.toError)
      | _ => .within ("cannot read " ++ path) e.toError)

/-- The link that a configuration asks for. -/
def options (t : FileTree) (c : Config) : Except Error LinkOptions := do
  let listed ← Member.readList c.link.required
  let more ← if c.link.requiredFile = [] then pure [] else readRequiredFile t c.link.requiredFile
  let runtime ←
    match c.runtime with
    | none => pure RuntimeSeeds.standard
    | some r => do
      let members ← Member.readList r.members
      pure {
        root := r.root, bootstrap := r.bootstrap, classes := r.classes, members
        arrays := r.arrays }
  return {
    entry := Text.replaceByte (Text.byte '.') (Text.byte '/') c.link.entry
    entryMethod := ⟨c.link.entryMethod, c.link.entryDescriptor⟩
    required := listed ++ more
    runtime }

end Config

end ClassLinker
