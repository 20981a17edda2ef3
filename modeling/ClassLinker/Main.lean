import ClassLinker.Command.Demand

/-!
The program. It copies the files that its command line looks at into a tree, runs the command line
on the tree, prints what the run printed, and writes the files that the run changed.
-/

namespace ClassLinker.Main

/-- A path as a string. -/
def pathString (path : Text) : String := path.toString?.getD ""

/-- The names of an absolute path. -/
def namesOf (path : Text) : List Text := (Text.splitOn Path.slash path).filter (· ≠ [])

/-- Copies one file, or the fact that there is a folder. -/
def copyNode (t : FileTree) (names : List Text) : IO FileTree := do
  let place := (← IO.currentDir) / pathString (LinkCommand.absolutePath names)
  if ← place.isDir then return t.put names .folder
  else if ← place.pathExists then
    return t.put names (.file (← IO.FS.readBinFile place).data.toList)
  else return t

/-- Copies what is at a path and at the folders above it. -/
def copyPath (t : FileTree) (names : List Text) : IO FileTree :=
  (List.range (names.length + 1)).foldlM (fun t n => copyNode t (names.take n)) t

/-- Copies the names in a folder, as if each was a folder. -/
def copyNames (t : FileTree) (names : List Text) : IO FileTree := do
  let place := (← IO.currentDir) / pathString (LinkCommand.absolutePath names)
  if ← place.isDir then
    let entries ← place.readDir
    return entries.foldl (fun t entry => t.put (names ++ [Text.ofString entry.fileName]) .folder) t
  else return t

/-- Copies what is at a path and everything below it. -/
partial def copyBelow (t : FileTree) (names : List Text) : IO FileTree := do
  let t ← copyNode t names
  let place := (← IO.currentDir) / pathString (LinkCommand.absolutePath names)
  if ← place.isDir then
    let entries ← place.readDir
    entries.foldlM (fun t entry => copyBelow t (names ++ [Text.ofString entry.fileName])) t
  else return t

/-- Copies what a command line looks at. -/
def cover (s : Surroundings) (args : List Text) (t : FileTree) : IO FileTree := do
  let demand := Command.demand s t args
  let resolve (paths : List Text) : List (List Text) :=
    (paths.filter (· ≠ [])).map fun path => namesOf (Path.absolute t.workPath path)
  let t ← (resolve demand.listed).foldlM copyNames t
  let t ← (resolve demand.single).foldlM copyPath t
  (resolve demand.whole).foldlM copyBelow t

/-- Writes what differs between two trees. -/
def writeBack (before after : FileTree) : IO Unit := do
  for (names, node) in after.nodes.reverse do
    unless before.nodes.contains (names, node) do
      match node with
      | .folder => IO.FS.createDirAll (pathString (LinkCommand.absolutePath names))
      | .file data =>
        IO.FS.writeBinFile (pathString (LinkCommand.absolutePath names)) ⟨data.toArray⟩

/-- The variables that are set. -/
def readEnvironment : IO (List (Text × Text)) :=
  Command.environmentNames.filterMapM fun name => do
    return (← IO.getEnv (pathString name)).map fun value => (name, Text.ofString value)

end ClassLinker.Main

open ClassLinker in
/-- Runs the command line. -/
def main (args : List String) : IO UInt32 := do
  let args := args.map Text.ofString
  let environment ← Main.readEnvironment
  let workDir := Main.namesOf (Text.ofString (← IO.currentDir).toString)
  let mut files : FileTree := { workDir, nodes := [] }
  for _ in List.range Command.rounds do
    files ← Main.cover { environment } args files
  let input ←
    if (Command.demand { environment } files args).input then (← IO.getStdin).readBinToEnd
    else pure .empty
  let outcome := Command.run { environment, input := input.data.toList } files args
  (← IO.getStdout).write ⟨outcome.printed.toArray⟩
  Main.writeBack files outcome.files
  return outcome.exit.toUInt32
