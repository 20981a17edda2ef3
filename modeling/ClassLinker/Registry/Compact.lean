import ClassLinker.Instruction.Relocate
import ClassLinker.Registry.Layout

/-!
Compaction: dropping everything that is not kept. The surviving classes get consecutive ids, each
class gets a table of its distinct member references, and the code of its methods is relocated to
use the positions in that table. A compacted registry is closed.
-/

namespace ClassLinker.Registry

open RegistryM

/-- The new id of a class id. -/
abbrev Renumbering := List (Nat × Nat)

/-- The new id for a resolved id. -/
def renumber (ids : Renumbering) (id : Option Nat) : RegistryM Nat :=
  match id with
  | none => inconsistent (.unnumberedClass (-1))
  | some id =>
    match ids.lookup id with
    | none => inconsistent (.unnumberedClass id)
    | some new => return new

/-- Forgets the names of the classes that are not kept. -/
def dropNames (r : Registry) : Registry :=
  let dropped := r.classes.filterMap fun (_, c) => if c.kept then none else some c.name
  { r with names := r.names.filter fun (name, _) => !dropped.contains name }

/-- Gives a kept reference its new owner and renumbers the classes it was resolved to. An id that
cannot be renumbered is lost. -/
def renumberRef (ids : Renumbering) (owner : Nat) (a : RefAddr) : RegistryM Unit := do
  modify (·.modifyRef a fun ref => { ref with owner })
  let ref ← refAt a
  let setBody (body : RefBody) : RegistryM Unit :=
    modify (·.modifyRef a fun ref => { ref with body })
  match ref.body with
  | .literal _ => return ()
  | .classRef name target =>
    setBody (.classRef name none)
    setBody (.classRef name (some (← renumber ids target)))
  | .memberRef m target declaring linkId index =>
    setBody (.memberRef m none declaring linkId index)
    let target ← renumber ids target
    setBody (.memberRef m (some target) none linkId index)
    let declaring ← renumber ids declaring
    setBody (.memberRef m (some target) (some declaring) linkId index)

/-- Makes a reference known under its slot. -/
def indexRef (a : RefAddr) (r : Registry) : Registry :=
  r.modifyClass a.row fun c =>
    { c with slots := ((c.pool[a.pos]?).map fun ref => (ref.slot, a.pos)).toList ++ c.slots }

/-- Drops what is not kept from the class in a row and renumbers it and its references. -/
def pruneClass (ids : Renumbering) (row : Nat) : RegistryM Unit := do
  let c ← classAt row
  let r ← get
  let id := (ids.lookup c.id).getD c.id
  let isKept (row : Nat) : Bool := ((r.classAt? row).map Class.kept).getD false
  modify (·.modifyClass row fun c =>
    { c with
      id
      methods := c.methods.filter Method.kept
      fields := c.fields.filter Field.kept
      children := c.children.filter isKept })
  let kept := c.references.filterMap fun (pos, ref) =>
    if ref.kept then some (pos, ref.slot) else none
  kept.forM fun (pos, _) => do
    renumberRef ids id ⟨row, pos⟩
    modify (indexRef ⟨row, pos⟩)
  let sorted := (kept.mergeSort fun a b => a.2 ≤ b.2).map Prod.fst
  modify (·.modifyClass row fun c => { c with listed := sorted })

/-- The member tables of a class: the positions of the distinct member references, and for every
member reference its position, its slot and the place of the distinct one it stands for. -/
structure Tables where
  table : List (Nat × Option Nat × Option Nat) := []
  entries : List (Nat × Int × Nat) := []
deriving DecidableEq, Repr

namespace Tables

/-- Adds a member reference; two are the same when they have the same target class and link id. -/
def add (t : Tables) (pos : Nat) (ref : Reference) : Tables :=
  match ref.body with
  | .memberRef _ target _ linkId _ =>
    match t.table.findIdx? fun (_, key) => key = (target, linkId) with
    | some index => { t with entries := t.entries ++ [(pos, ref.slot, index)] }
    | none =>
      { table := t.table ++ [(pos, target, linkId)]
        entries := t.entries ++ [(pos, ref.slot, t.table.length)] }
  | _ => t

end Tables

/-- Writes the compacted slot into a member reference. -/
def setIndex (index : Nat) (ref : Reference) : Reference :=
  match ref.body with
  | .memberRef m target declaring linkId _ =>
    { ref with body := .memberRef m target declaring linkId (some index) }
  | _ => ref

/-- Builds the member table of a class. -/
def buildTable (c : Class) : Class :=
  let t := c.references.foldl (fun t (pos, ref) => t.add pos ref) ({} : Tables)
  let table := t.table.map Prod.fst
  { c with
    table
    forwarding := (t.entries.map fun (_, slot, index) => (slot, table.getD index 0)).reverse
    pool := t.entries.foldl (fun pool (pos, _, index) => pool.modify pos (setIndex index)) c.pool }

/-- Builds the member tables of the live classes; no other class has one. -/
def buildTables (r : Registry) : Registry :=
  let cleared := r.rows.map fun c => { c with table := [], forwarding := [] }
  r.live.foldl (fun r row => r.modifyClass row buildTable)
    { r with rows := cleared, compacted := true }

/-- The distinct member reference that a slot of a class id stands for. -/
def forward (r : Registry) (owner : Int) (slot : Int) : Except Inconsistency RefAddr :=
  match r.rows.toList.zipIdx.findSome? fun (c, row) =>
    if (c.id : Int) = owner then (c.forwarding.lookup slot).map (RefAddr.mk row) else none with
  | some a => .ok a
  | none => .error (.noForwarding owner slot)

/-- The compacted slot of a slot of a class id. -/
def compactSlot (r : Registry) (owner : Nat) (slot : Nat) : Except Inconsistency Nat := do
  let a ← r.forward owner slot
  match (r.refAt? a).map Reference.body with
  | some (.memberRef _ _ _ _ (some index)) => return index
  | _ => throw (.noForwarding owner slot)

/-- Relocates the code of one method. -/
def relocateMethod (row : Nat) (c : Class) (m : Method) : RegistryM Unit := do
  let r ← get
  match Code.relocate (r.compactSlot c.id) m.rawCode with
  | .ok code => modify (·.modifyMethod row m.sig fun m => { m with relocated := some code })
  | .error (.stuck _) => throw .fault
  | .error (.undecodable cause) => inconsistent (.unrelocatable (c.member m.sig) cause.message)
  | .error (.unmapped i cause) =>
    inconsistent (.unrelocatable (c.member m.sig)
      (i.name ++ " at pc " ++ Text.ofNat i.pc ++ ": " ++ (Error.internal cause).message))

/-- Relocates the code of every method of the live classes. It starts from the declared code, so
doing it again changes nothing. -/
def relocate : RegistryM Unit := do
  if !(← get).compacted then inconsistent .relocateBeforeCompact
  (← get).live.forM fun row => do
    let c ← classAt row
    c.methods.forM fun m => do
      if m.hasCode then relocateMethod row c m

/-- Drops everything that is not kept and closes the registry. -/
def compact : RegistryM Unit := do
  checkOpen .compact
  if !(← get).linked then inconsistent .compactBeforeLink
  let kept := (← get).keptClasses
  modify dropNames
  let ids : Renumbering := (kept.zipIdx.map fun ((_, c), new) => (c.id, new)).reverse
  if (kept.head?.map fun (_, c) => c.id) ≠ some 0 || ids.lookup 0 ≠ some 0 then
    inconsistent .rootNotKept
  let rows := kept.map Prod.fst
  modify fun r => { r with rows := r.rows.map fun c => { c with slots := [] } }
  rows.forM (pruneClass ids)
  modify fun r => buildTables { r with live := rows }
  relocate
  modify fun r => { r with closed := true }

end ClassLinker.Registry
