import ClassLinker.Image.BuildId
import ClassLinker.Native
import ClassLinker.Program

/-!
Building the image of a closed registry. The code of all methods is put together in the order of the
classes and their methods, and lines and handlers are moved to where their method's code starts.
-/

namespace ClassLinker

namespace Image

/-- An id, or -1 when there is none. -/
def idOr (id : Option Nat) : Int :=
  match id with
  | some n => n
  | none => -1

/-- What an image is built from. -/
structure Plan where
  registry : Registry
  entryOffset : Int
  main : Member
  initOrder : List Text
  builtins : List Int
deriving DecidableEq, Repr

/-- The member links of a class in the order of their compacted slots. -/
def memberLinks (c : Class) : List MemberLink :=
  c.table.filterMap fun pos =>
    match (c.pool[pos]?).map Reference.body with
    | some (.memberRef _ target declaring linkId _) =>
      some ⟨idOr target, idOr declaring, idOr linkId⟩
    | _ => none

/-- A method as the image describes it. -/
def methodInfo (m : Method) : MethodInfo where
  linkId := idOr m.linkId
  name := m.sig.name
  descriptor := m.sig.descriptor
  isStatic := m.isStatic
  codeOffset := idOr m.codeOffset
  codeLength := m.code.length
  maxLocals := m.maxLocals
  argSlots := m.argSlots
  nativeIndex := idOr m.nativeIndex

/-- A field as the image describes it. -/
def fieldInfo (f : Field) : FieldInfo where
  linkId := idOr f.linkId
  name := f.sig.name
  descriptor := f.sig.descriptor
  isStatic := f.isStatic
  address := f.address
  size := f.size

/-- The class references of a class. -/
def classLinks (c : Class) : List ClassLink :=
  c.references.filterMap fun (_, ref) =>
    match ref.body with
    | .classRef _ target => some ⟨ref.slot, idOr target⟩
    | _ => none

/-- The literal in a slot. -/
def literalSlot (slot : Int) (v : Literal) : LiteralSlot :=
  let bare : LiteralSlot := { slot, kind := v.kind.text }
  match v with
  | .int n => { bare with int := n }
  | .long n => { bare with int := n }
  | .float bits => { bare with float := FloatBits.widen .single bits.toNat }
  | .double bits => { bare with float := bits }
  | .string text => { bare with text }

/-- The literals of a class. -/
def literalSlots (c : Class) : List LiteralSlot :=
  c.references.filterMap fun (_, ref) =>
    match ref.body with
    | .literal v => some (literalSlot ref.slot v)
    | _ => none

/-- The id of the class registered under a name. -/
def classId? (r : Registry) (name : Text) : Option Nat :=
  ((r.find? name).bind r.classAt?).map Class.id

/-- The element class of an array of objects, and -1 for every other class. -/
def elementId (r : Registry) (c : Class) : Except Failure Int :=
  if c.kind = .objectArray then
    match classId? r c.element with
    | some id => .ok id
    | none => .error (.internal (.missingElement c.name c.id c.element))
  else .ok (-1)

/-- A class as the image describes it. Interfaces that are not kept are left out, and methods are
sorted by link id. -/
def classInfo (r : Registry) (c : Class) : Except Failure ClassInfo := do
  let element ← elementId r c
  return {
    id := c.id
    name := c.name
    kind := c.kind.text
    super := idOr (((r.superOf? c).bind r.classAt?).map Class.id)
    interfaces := c.interfaces.filterMap fun name => (classId? r name).map Int.ofNat
    instanceSize := c.totalSize
    element
    elementType := c.elementType
    memberRefs := memberLinks c
    methods := (c.methods.map methodInfo).mergeSort fun a b => a.linkId ≤ b.linkId
    fields := c.fields.map fieldInfo
    classRefs := classLinks c
    literals := literalSlots c }

/-- The native method table entry of a method, if it is native. -/
def nativeInfo (c : Class) (m : Method) : Except Failure (List NativeInfo) :=
  if m.kind = .native then
    let b : NativeBinding :=
      ⟨idOr m.nativeIndex, c.name, m.sig.name, m.sig.descriptor, m.isStatic⟩
    match b.declaration with
    | .error e => .error (.error e)
    | .ok declaration => .ok [⟨b.index, c.id, idOr m.linkId, b.symbol, declaration⟩]
  else .ok []

/-- The class that a handler catches. -/
def catchId (r : Registry) (c : Class) (m : Method) (h : Handler) : Except Failure Int :=
  if h.catchSlot = 0 then .ok (-1)
  else
    match ((r.refAddr? c.id h.catchSlot).bind r.refAt?).map Reference.body with
    | some (.classRef _ target) => .ok (idOr target)
    | _ => .error (.internal (.unresolvedCatch (c.member m.sig) h.catchSlot))

/-- Adds a method to the image: its native table entry, its code, and its lines and handlers. -/
def addMethod (r : Registry) (c : Class) (image : Image) (m : Method) : Except Failure Image := do
  let natives ← nativeInfo c m
  let image := { image with natives := image.natives ++ natives }
  if !m.hasCode then return image
  let base : Int := idOr m.codeOffset
  if base ≠ image.code.length then
    throw (.internal (.codeOffset (c.member m.sig) base image.code.length))
  let handlers ← m.handlers.mapM fun h => do
    return HandlerInfo.mk c.id (wordAdd base h.start) (wordAdd base h.stop) (wordAdd base h.target)
      (← catchId r c m h)
  let name := (c.member m.sig).text
  return { image with
    code := image.code ++ m.code
    lines := image.lines ++ m.lines.map fun l => ⟨wordAdd base l.pc, l.line, name⟩
    handlers := image.handlers ++ handlers }

/-- Adds a class and its methods to the image. -/
def addClass (r : Registry) (image : Image) (c : Class) : Except Failure Image := do
  let info ← classInfo r c
  let image ← c.methods.foldlM (addMethod r c) image
  return { image with classes := image.classes ++ [info] }

/-- Where the runtime finds a catalog entry. -/
def builtinLink (r : Registry) (e : Builtin) : Except Failure BuiltinLink :=
  match (r.find? e.className).bind r.classAt? with
  | none => .error (.internal (.missingBuiltinClass e.name))
  | some c =>
    if e.isMember then
      match c.declared? ⟨e.member, e.descriptor⟩ with
      | none => .error (.internal (.missingBuiltinMember e.name e.text))
      | some d => .ok ⟨e.name, c.id, idOr d.linkId⟩
    else .ok ⟨e.name, c.id, -1⟩

/-- Builds the image of a plan. Lines are sorted by pc, and those of one pc keep their order. -/
def build (plan : Plan) : Except Failure Image := do
  let r := plan.registry
  if !r.closed then throw (.internal .imageOfOpenRegistry)
  let bare : Image :=
    { entry := plan.main.text
      entryOffset := plan.entryOffset
      staticSize := r.staticSize
      signatures := r.signatures.map Signature.text
      initOrder := plan.initOrder }
  let image ← (r.classes.map Prod.snd).foldlM (addClass r) bare
  let builtins ← plan.builtins.mapM fun id =>
    match Builtin.lookup? id with
    | none => throw .fault
    | some e => builtinLink r e
  return withId { image with
    lines := image.lines.mergeSort fun a b => a.pc ≤ b.pc
    natives := image.natives.mergeSort fun a b => a.index ≤ b.index
    builtins }

end Image

namespace Program

/-- What the image of a linked program is built from. -/
def plan (p : Program) : Image.Plan where
  registry := p.registry
  entryOffset := Image.idOr p.entryOffset
  main := p.main
  initOrder := p.initOrder
  builtins := p.builtins.map Int.ofNat

/-- The image of a linked program. -/
def image (p : Program) : Except Failure Image := Image.build p.plan

end Program

end ClassLinker
