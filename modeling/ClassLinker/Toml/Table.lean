import ClassLinker.Toml.Read
import Std.Data.HashSet

/-!
The table that the statements of a TOML document build up. A table that was only implied, by a
longer key or by the tables in an array, may be given once more; every other second value of a key
is refused. In a key, an array of tables stands for its last element.
-/

namespace ClassLinker

/-- A document that is being built up. -/
structure TomlDoc where
  root : TomlTable := []
  /-- The keys of tables that were implied and not given. -/
  implied : Std.HashSet TomlKey := {}
  /-- The keys whose latest value is an array. -/
  arrays : Std.HashSet TomlKey := {}

namespace TomlTable

/-- The value under a name. -/
def get? (t : TomlTable) (name : Text) : Option TomlValue := List.lookup name t

/-- Puts a value under a name. -/
def set (t : TomlTable) (name : Text) (value : TomlValue) : TomlTable :=
  if t.any fun entry => entry.1 = name then
    t.map fun entry => if entry.1 = name then (name, value) else entry
  else t ++ [(name, value)]

/-- Changes the table that a key leads to. -/
def modify (f : TomlTable → Option TomlTable) : TomlKey → TomlTable → Option TomlTable
  | [], t => f t
  | name :: key, t =>
    match get? t name with
    | some (.table entries) => do
      return set t name (.table (← modify f key entries))
    | some (.tables elements) =>
      match elements.getLast? with
      | some last => do
        return set t name (.tables (elements.dropLast ++ [← modify f key last]))
      | none => none
    | _ => none

/-- The table that a key leads to. -/
def at? : TomlKey → TomlTable → Option TomlTable
  | [], t => some t
  | name :: key, t =>
    match get? t name with
    | some (.table entries) => at? key entries
    | some (.tables elements) => elements.getLast?.bind (at? key)
    | _ => none

end TomlTable

namespace Toml

/-- A step in building a document; it fails when the document is refused. -/
abbrev BuildM := StateT TomlDoc Option

/-- Refuses the document. -/
def refuse {α : Type} : BuildM α := fun _ => none

/-- Marks a key as implied. -/
def imply (key : TomlKey) : BuildM Unit :=
  modify fun d => { d with implied := d.implied.insert key }

/-- Takes the mark of an implied key away. -/
def giveUp (key : TomlKey) : BuildM Unit :=
  modify fun d => { d with implied := d.implied.erase key }

/-- The table that a key leads to. -/
def tableAt (key : TomlKey) : BuildM TomlTable := do
  match TomlTable.at? key (← get).root with
  | some t => return t
  | none => refuse

/-- Puts a value under a name into the table that a key leads to. -/
def put (key : TomlKey) (name : Text) (value : TomlValue) : BuildM Unit := do
  let d ← get
  match TomlTable.modify (fun t => some (TomlTable.set t name value)) key d.root with
  | some root => set { d with root }
  | none => refuse

/-- Gives a name in the table that `context` leads to its value. What was implied before gives way
to an array and stays otherwise. -/
def give (context : TomlKey) (name : Text) (value : TomlValue) : BuildM Unit := do
  let key := context ++ [name]
  let t ← tableAt context
  if (TomlTable.get? t name).isNone then put context name value
  else
    let d ← get
    if !d.implied.contains key then refuse
    giveUp key
    if d.arrays.contains key then put context name value

/-- Notes whether the latest value of a key is an array. The empty name stands for its table. -/
def note (context : TomlKey) (name : Text) (isArray : Bool) : BuildM Unit :=
  let key := if name ≠ [] then context ++ [name] else if context = [] then [[]] else context
  modify fun d =>
    { d with arrays := if isArray then d.arrays.insert key else d.arrays.erase key }

/-- Makes the tables that a key goes through behind `context`, each unless it exists. -/
def makeTablesFrom (context : TomlKey) : TomlKey → BuildM Unit
  | [] => return ()
  | name :: key => do
    let t ← tableAt context
    if (TomlTable.get? t name).isNone then
      imply (context ++ [name])
      put context name (.table [])
    discard (tableAt (context ++ [name]))
    makeTablesFrom (context ++ [name]) key

/-- Makes the tables that a key goes through, unless it leads to one. -/
def makeTables (key : TomlKey) : BuildM Unit := do
  if (TomlTable.at? key (← get).root).isNone then makeTablesFrom [] key

/-- Opens the table of a key. -/
def openTable (key : TomlKey) : BuildM Unit := do
  makeTables key.dropLast
  give key.dropLast (key.getLastD []) (.table [])

/-- Opens a further table of the array of tables of a key. -/
def openElement (key : TomlKey) : BuildM Unit := do
  let name := key.getLastD []
  makeTables key.dropLast
  match TomlTable.get? (← tableAt key.dropLast) name with
  | none => put key.dropLast name (.tables [[]])
  | some (.tables elements) => put key.dropLast name (.tables (elements ++ [[]]))
  | some _ => refuse

/-- Opens the tables that the names of a key other than the last lead through, and gives the key of
the innermost. -/
def openPath (context : TomlKey) : TomlKey → BuildM TomlKey
  | [] => return context
  | name :: names => do
    imply (context ++ [name])
    openTable (context ++ [name])
    openPath (context ++ [name]) names

/-- Puts a value into an inline table under a key. -/
def putInline (t : TomlTable) (value : TomlValue) : TomlKey → Option TomlTable
  | [] => some t
  | [name] => some (TomlTable.set t name value)
  | name :: key =>
    match TomlTable.get? t name with
    | none => do return TomlTable.set t name (.table (← putInline [] value key))
    | some (.table inner) => do return TomlTable.set t name (.table (← putInline inner value key))
    | some _ => none

/-- Whether an expression is an array. -/
def isArray : TomlExpr → Bool
  | .array _ => true
  | _ => false

mutual

/-- The value of an expression that is written for a name in the table of `context`; `inArray` says
whether it stands in an array. The entries of an inline table are given in its place as well. -/
def valueOf (context : TomlKey) (name : Text) (inArray : Bool) : TomlExpr → BuildM TomlValue
  | .scalar value => return .scalar value
  | .array items => do
    note context name true
    return .array (← valuesOf context name items)
  | .inline entries => do
    let key := context ++ [name]
    imply key
    if inArray then openElement key else openTable key
    return .table (← entriesOf key [] entries)

/-- The values of the items of an array. -/
def valuesOf (context : TomlKey) (name : Text) : List TomlExpr → BuildM (List TomlValue)
  | [] => return []
  | item :: items => do
    let value ← valueOf context name true item
    return value :: (← valuesOf context name items)

/-- The table of the entries of an inline table at `context`, added to those before. -/
def entriesOf (context : TomlKey) (before : TomlTable) :
    List (TomlKey × TomlExpr) → BuildM TomlTable
  | [] => return before
  | (key, item) :: entries => do
    let name := key.getLastD []
    let inner ← openPath context key.dropLast
    let value ← valueOf inner name false item
    give inner name value
    note inner name (isArray item)
    match putInline before value key with
    | some before => entriesOf context before entries
    | none => refuse

end

/-- Carries out a statement in the table of `context` and gives the table of the statements that
follow. -/
def carryOut (context : TomlKey) : TomlStatement → BuildM TomlKey
  | .table key => do
    openTable key
    note key [] false
    return key
  | .arrayElement key => do
    openElement key
    note key [] false
    return key
  | .assign key item => do
    let name := key.getLastD []
    let inner ← openPath context key.dropLast
    let value ← valueOf inner name false item
    give inner name value
    note inner name (isArray item)
    return context

/-- Carries out statements. -/
def carryOutAll (context : TomlKey) : List TomlStatement → BuildM Unit
  | [] => return ()
  | statement :: statements => do carryOutAll (← carryOut context statement) statements

/-- Reads the table of a document. -/
def read (data : Text) : Option TomlTable := do
  let statements ← readDocument data
  let (_, d) ← (carryOutAll [] statements).run {}
  return d.root

end Toml

end ClassLinker
