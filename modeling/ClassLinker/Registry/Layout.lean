import ClassLinker.Numeric
import ClassLinker.Registry.Lookup

/-!
Layout: giving everything kept its place. Code offsets and native indices run through the methods of
the kept classes in order, static fields share one area, the instance fields of a class come after
those of its superclass, and signatures get link ids in the order in which they first appear. Then
the targets of kept references are resolved. Storage sizes are added in 64-bit arithmetic.
-/

namespace ClassLinker

/-- The sum of two 64-bit integers, wrapped around into their range. -/
def wordAdd (a b : Int) : Int := Int.bmod (a + b) 0x10000000000000000

namespace Layout

/-- Gives the kept methods with code their offsets from `offset` on and the kept native ones their
indices from `native` on. -/
def placeCode : Nat → Nat → List Method → List Method × Nat × Nat
  | offset, native, [] => ([], offset, native)
  | offset, native, m :: ms =>
    let bare := { m with codeOffset := none, nativeIndex := none }
    if m.kept then
      let isNative := m.kind = .native
      let placed := { bare with
        nativeIndex := if isNative then some native else none
        codeOffset := if m.hasCode then some offset else none }
      let (rest, offset, native) :=
        placeCode (offset + m.rawCode.length) (if isNative then native + 1 else native) ms
      (placed :: rest, offset, native)
    else
      let (rest, offset, native) := placeCode offset native ms
      (bare :: rest, offset, native)

/-- Gives the kept fields that are static, or not, their addresses from `address` on. -/
def placeFields (isStatic : Bool) : Int → List Field → List Field × Int
  | address, [] => ([], address)
  | address, f :: fs =>
    if f.kept && f.isStatic = isStatic then
      let (rest, stop) := placeFields isStatic (wordAdd address f.size) fs
      ({ f with address } :: rest, stop)
    else
      let (rest, stop) := placeFields isStatic address fs
      (f :: rest, stop)

/-- Gives the kept fields of an instance their addresses: after the inherited storage `base`, and
`own` into the class's own storage. -/
def placeInstance (base : Int) : Int → List Field → List Field × Int
  | own, [] => ([], own)
  | own, f :: fs =>
    if f.kept && !f.isStatic then
      let (rest, stop) := placeInstance base (wordAdd own f.size) fs
      ({ f with address := wordAdd base own } :: rest, stop)
    else
      let (rest, stop) := placeInstance base own fs
      (f :: rest, stop)

/-- The link id of a signature, which is added when it is new. -/
def intern (sigs : List Signature) (sig : Signature) : Nat × List Signature :=
  match sigs.idxOf? sig with
  | some id => (id, sigs)
  | none => (sigs.length, sigs ++ [sig])

/-- Gives the kept methods their link ids. -/
def numberMethods : List Signature → List Method → List Method × List Signature
  | sigs, [] => ([], sigs)
  | sigs, m :: ms =>
    if m.kept then
      let (id, sigs) := intern sigs m.sig
      let (rest, sigs) := numberMethods sigs ms
      ({ m with linkId := some id } :: rest, sigs)
    else
      let (rest, sigs) := numberMethods sigs ms
      (m :: rest, sigs)

/-- Gives the kept fields their link ids. -/
def numberFields : List Signature → List Field → List Field × List Signature
  | sigs, [] => ([], sigs)
  | sigs, f :: fs =>
    if f.kept then
      let (id, sigs) := intern sigs f.sig
      let (rest, sigs) := numberFields sigs fs
      ({ f with linkId := some id } :: rest, sigs)
    else
      let (rest, sigs) := numberFields sigs fs
      (f :: rest, sigs)

end Layout

namespace Registry

open RegistryM Layout

/-- Places the code and the native methods of the classes in the given rows. -/
def layCode : Nat → Nat → List Nat → Registry → Registry
  | _, _, [], r => r
  | offset, native, row :: rows, r =>
    match r.classAt? row with
    | none => layCode offset native rows r
    | some c =>
      let (methods, offset, native) := placeCode offset native c.methods
      layCode offset native rows (r.modifyClass row fun c => { c with methods })

/-- Places the static fields of the classes in the given rows after those already placed. -/
def layStatics : List Nat → Registry → Registry
  | [], r => r
  | row :: rows, r =>
    match r.classAt? row with
    | none => layStatics rows r
    | some c =>
      let (fields, size) := placeFields true r.staticSize c.fields
      layStatics rows { r.modifyClass row (fun c => { c with fields }) with staticSize := size }

/-- Places the instance fields of the classes in the given rows, superclasses first. -/
def layInstances : List Nat → Registry → Registry
  | [], r => r
  | row :: rows, r =>
    match r.classAt? row with
    | none => layInstances rows r
    | some c =>
      let base := (((r.superOf? c).bind r.classAt?).map Class.totalSize).getD 0
      let (fields, own) := placeInstance base 0 c.fields
      layInstances rows (r.modifyClass row fun c =>
        { c with fields, ownSize := own, totalSize := wordAdd base own })

/-- Gives the kept members of the classes in the given rows their link ids. -/
def numberMembers : List Nat → Registry → Registry
  | [], r => r
  | row :: rows, r =>
    match r.classAt? row with
    | none => numberMembers rows r
    | some c =>
      let (methods, sigs) := numberMethods r.signatures c.methods
      let (fields, sigs) := numberFields sigs c.fields
      numberMembers rows
        { r.modifyClass row (fun c => { c with methods, fields }) with signatures := sigs }

/-- The kept class that a kept reference names. -/
def keptTarget (owner : Class) (name : Text) : RegistryM Class := do
  let r ← get
  match (r.find? name).bind r.classAt? with
  | none => inconsistent (.unregisteredTarget owner.name name)
  | some target =>
    if target.kept then return target
    else inconsistent (.droppedTarget owner.name name)

/-- Resolves one kept reference of a class. -/
def resolveRef (owner : Class) (a : RefAddr) (ref : Reference) : RegistryM Unit := do
  match ref.body with
  | .literal _ => return ()
  | .classRef name _ =>
    let target ← keptTarget owner name
    modify (·.modifyRef a fun ref => { ref with body := .classRef name (some target.id) })
  | .memberRef m _ _ _ index =>
    let target ← keptTarget owner m.className
    let r ← get
    match r.findMember m with
    | .error e => inconsistent (.unresolvedTarget owner.name m e.message)
    | .ok (row, d) =>
      let declaring ← classAt row
      if !d.kept then inconsistent (.droppedMember owner.name (declaring.member d.sig))
      let (id, sigs) := intern r.signatures m.sig
      set { r with signatures := sigs }
      modify (·.modifyRef a fun ref =>
        { ref with body := .memberRef m (some target.id) (some declaring.id) (some id) index })

/-- Resolves the kept references of a class in order. -/
def resolveRefs (row : Nat) : RegistryM Unit := do
  let c ← classAt row
  c.references.forM fun (pos, ref) => do
    if ref.kept then resolveRef c ⟨row, pos⟩ ref

/-- Lays the kept program out and resolves its references. -/
def link : RegistryM Unit := do
  checkOpen .link
  let kept := (← get).keptClasses
  if (kept.head?.map fun (_, c) => c.id) ≠ some 0 then inconsistent .rootNotKept
  let rows := kept.map Prod.fst
  modify fun r =>
    let r := layCode 0 0 rows r
    let r := layStatics rows { r with staticSize := 0 }
    let r := layInstances r.live r
    numberMembers rows { r with signatures := [] }
  rows.forM resolveRefs
  modify fun r => { r with linked := true }

end Registry

end ClassLinker
