import ClassLinker.Error
import ClassLinker.Files.Path

/-!
A tree of files and folders with a working directory, and what can be done to it. A path is followed
name by name: a name in a folder that does not have it and a name in a file are different faults.
-/

namespace ClassLinker

/-- Why a file operation fails. -/
inductive FileFault where
  | notFound
  | notFolder
  | isFolder
  | taken
  | nameTooLong
  | invalid
deriving DecidableEq, Repr

namespace FileFault

/-- The message of a fault. -/
def message : FileFault → Text
  | notFound => "no such file or directory"
  | notFolder => "not a directory"
  | isFolder => "is a directory"
  | taken => "file exists"
  | nameTooLong => "file name too long"
  | invalid => "invalid argument"

end FileFault

/-- The operations that fail with a fault of their own. -/
inductive FileOp where
  | looking
  | opening
  | reading
  | making
deriving DecidableEq, Repr

namespace FileOp

/-- The name of an operation in messages. -/
def text : FileOp → Text
  | looking => "stat"
  | opening => "open"
  | reading => "read"
  | making => "mkdir"

end FileOp

/-- A failed operation on a path. -/
structure FileError where
  op : FileOp
  path : Text
  fault : FileFault
deriving DecidableEq, Repr

namespace FileError

/-- The message of a failed operation. -/
def message (e : FileError) : Text := e.op.text ++ " " ++ e.path ++ ": " ++ e.fault.message

/-- A failed operation as an error of the program. -/
def toError (e : FileError) : Error := .plain e.message

end FileError

/-- What is at a place in the tree. -/
inductive FileNode where
  | file (data : Bytes)
  | folder
deriving DecidableEq, Repr

/-- The files and folders, each under its names from the root on. The folders above them need not be
listed. -/
structure FileTree where
  /-- The names that lead to the working directory. -/
  workDir : List Text
  nodes : List (List Text × FileNode)
deriving DecidableEq, Repr

/-- Where a path leads: to a node, or to a name that is free in an existing folder. -/
inductive FilePlace where
  | node (names : List Text) (node : FileNode)
  | free (names : List Text)
deriving DecidableEq, Repr

namespace FileTree

/-- The greatest length of a name. -/
def maxName : Nat := 255

/-- The length that a path has to stay below. -/
def maxPath : Nat := 4096

/-- The working directory as a path. -/
def workPath (t : FileTree) : Text := Path.slash :: Text.join [Path.slash] t.workDir

/-- What is under some names. -/
def node? (t : FileTree) (names : List Text) : Option FileNode :=
  match t.nodes.lookup names with
  | some node => some node
  | none =>
    if names.isPrefixOf t.workDir || t.nodes.any fun (other, _) => names.isPrefixOf other then
      some .folder
    else none

/-- Follows names from a node on. Slashes at the end are allowed behind a free name. -/
def follow (t : FileTree) : List Text → List Text → FileNode → Except FileFault FilePlace
  | [], pos, node => .ok (.node pos node)
  | _ :: _, _, .file _ => .error .notFolder
  | name :: names, pos, .folder =>
    if name = [] || name = Path.here then t.follow names pos .folder
    else if name = Path.up then t.follow names pos.dropLast .folder
    else if maxName < name.length then .error .nameTooLong
    else
      match t.node? (pos ++ [name]) with
      | some node => t.follow names (pos ++ [name]) node
      | none => if names.all (· = []) then .ok (.free (pos ++ [name])) else .error .notFound

/-- The place that a path leads to. -/
def place (t : FileTree) (path : Text) : Except FileFault FilePlace :=
  if path = [] then .error .notFound
  else if path.contains 0 then .error .invalid
  else if maxPath ≤ path.length then .error .nameTooLong
  else
    let start := if Path.isAbsolute path then [] else t.workDir
    t.follow (Text.splitOn Path.slash path) start .folder

/-- The node that a path leads to. -/
def find (t : FileTree) (op : FileOp) (path : Text) : Except FileError FileNode :=
  match t.place path with
  | .ok (.node _ node) => .ok node
  | .ok (.free _) => .error ⟨op, path, .notFound⟩
  | .error fault => .error ⟨op, path, fault⟩

/-- The contents of a file. A folder can be opened but not read. -/
def read (t : FileTree) (path : Text) : Except FileError Bytes :=
  match t.find .opening path with
  | .error e => .error e
  | .ok .folder => .error ⟨.reading, path, .isFolder⟩
  | .ok (.file data) => .ok data

/-- The contents of all files. -/
def contents (t : FileTree) : List Bytes :=
  t.nodes.filterMap fun (_, node) =>
    match node with
    | .file data => some data
    | .folder => none

/-- The names in a folder, each once. -/
def childrenOf (t : FileTree) (names : List Text) : List Text :=
  (t.nodes.filterMap fun (other, _) =>
    if names.isPrefixOf other then other[names.length]? else none).eraseDups

/-- Puts a node under some names. -/
def put (t : FileTree) (names : List Text) (node : FileNode) : FileTree :=
  { t with nodes := (names, node) :: t.nodes.filter fun (other, _) => other ≠ names }

/-- A path leads to a file only when the tree lists that file. -/
theorem mem_contents_of_follow {t : FileTree} {names pos pos' : List Text} {node : FileNode}
    {data : Bytes} (h : t.follow names pos node = .ok (.node pos' (.file data)))
    (hnode : ∀ d, node = .file d → d ∈ t.contents) : data ∈ t.contents := by
  fun_induction follow t names pos node with
  | case1 pos node =>
    cases h
    exact hnode data rfl
  | case2 => cases h
  | case3 _ _ _ _ ih => exact ih h (by simp)
  | case4 _ _ _ ih => exact ih h (by simp)
  | case5 => cases h
  | case6 name _ pos _ _ _ next hnext ih =>
    refine ih h fun d hd => ?_
    subst hd
    unfold node? at hnext
    split at hnext
    · rename_i other hother
      cases hnext
      obtain ⟨before, after, heq, _⟩ := List.lookup_eq_some_iff.1 hother
      exact List.mem_filterMap.2 ⟨(pos ++ [name], .file d), by simp [heq], rfl⟩
    · split at hnext <;> cases hnext
  | case7 => cases h
  | case8 => cases h

/-- What is read from a path is among the contents of the tree. -/
theorem mem_contents_of_read {t : FileTree} {path : Text} {data : Bytes}
    (h : t.read path = .ok data) : data ∈ t.contents := by
  unfold read find place at h
  grind [mem_contents_of_follow]

end FileTree

/-- An operation that changes the tree. When it fails, what it had changed before stays changed. -/
abbrev FileM := EStateM FileError FileTree

namespace FileM

/-- A path without the slashes at its end. -/
def dropSlashes (path : Text) : Text := (path.reverse.dropWhile (· = Path.slash)).reverse

/-- Makes a folder in an existing one. -/
def makeFolder (path : Text) : FileM Unit := do
  let bare := if dropSlashes path = [] then path else dropSlashes path
  match (← get).place bare with
  | .ok (.free names) => modify (·.put names .folder)
  | .ok (.node _ _) => throw ⟨.making, path, .taken⟩
  | .error fault => throw ⟨.making, path, fault⟩

/-- Makes a folder and those above it, unless they exist. `fuel` bounds the number of folders. -/
def makeFoldersFrom : Nat → Text → FileM Unit
  | 0, _ => return ()
  | fuel + 1, path => do
    match (← get).find .looking path with
    | .ok .folder => return ()
    | .ok (.file _) => throw ⟨.making, path, .notFolder⟩
    | .error _ =>
      let parent := (Path.dropName (dropSlashes path)).dropLast
      if parent ≠ [] then makeFoldersFrom fuel parent
      match makeFolder path (← get) with
      | .ok _ t => set t
      | .error e t =>
        match t.find .looking path with
        | .ok .folder => return ()
        | _ => throw e

/-- Makes a folder and those above it, unless they exist. -/
def makeFolders (path : Text) : FileM Unit := makeFoldersFrom (path.length + 1) path

/-- Writes a file, over what was in it before. -/
def write (path : Text) (data : Bytes) : FileM Unit := do
  if path.length < FileTree.maxPath && path.getLast? = some Path.slash then
    throw ⟨.opening, path, .isFolder⟩
  match (← get).place path with
  | .ok (.node _ .folder) => throw ⟨.opening, path, .isFolder⟩
  | .ok (.node names (.file _)) => modify (·.put names (.file data))
  | .ok (.free names) => modify (·.put names (.file data))
  | .error fault => throw ⟨.opening, path, fault⟩

/-- Opens a file to write at its end; a file that does not exist is made. -/
def openToAppend (path : Text) : FileM Unit := do
  match (← get).find .opening path with
  | .ok (.file _) => return ()
  | _ => write path []

end FileM

end ClassLinker
