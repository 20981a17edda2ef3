import ClassLinker.Closure.Scan

/-!
Loading classes. A class is registered after its supertypes, which are loaded first when they are
missing; a registered class is kept, and its static initializer has to be required. Array classes
are not loaded but made, together with the arrays they are built from.
-/

namespace ClassLinker.Closure

open LinkM

/-- The supertypes of a class in the order in which they are loaded. -/
def supertypes (d : ClassDecl) : List Text :=
  (if d.super = [] then [] else [d.super]) ++ d.interfaces

/-- Registers one entry of the constant pool of a class. -/
def registerSlot (d : ClassDecl) (row : Nat) (p : PoolSlot) : LinkM Unit := do
  match p.item with
  | .classRef name => discard (onRegistry (Registry.createClassRef row p.slot name))
  | .member className name descriptor _ =>
    discard (onRegistry (Registry.createMemberRef row p.slot ⟨className, name, descriptor⟩))
  | .constant kind value =>
    match PoolItem.literalKind? kind with
    | none =>
      fail (.loader d.name (.plain (slotText p.slot ++ ": unsupported " ++
        PoolItem.textOfCode kind ++ " entry")))
    | some _ => discard (onRegistry (Registry.createLiteral row p.slot (kind - 3) value))

/-- Registers a field of a class. -/
def registerField (row : Nat) (f : FieldDecl) : LinkM Unit :=
  onRegistry (Registry.createField row
    { sig := ⟨f.name, f.descriptor⟩, isStatic := f.isStatic, size := f.size })

/-- The method to register for a declaration. The root's constructor without parameters does
nothing, whatever its declaration says. -/
def methodSpec (root : Text) (d : ClassDecl) (m : MethodDecl) : MethodSpec :=
  let isRootConstructor :=
    d.name = root && m.name = Signature.constructorName && m.descriptor = Text.ofString "()V"
  { sig := ⟨m.name, m.descriptor⟩
    isStatic := m.isStatic
    isNative := m.isNative
    isAbstract := m.isAbstract
    code := if isRootConstructor then [Opcode.ret] else m.code
    argSlots := m.argSlots
    maxLocals := m.maxLocals
    lines := if isRootConstructor then [] else m.lines
    handlers := if isRootConstructor then [] else m.handlers }

/-- Registers a method of a class and scans its code. -/
def registerMethod (d : ClassDecl) (row : Nat) (m : MethodDecl) : LinkM Unit := do
  let spec := methodSpec (← get).root d m
  onRegistry (Registry.createMethod row spec)
  mapError (fun e => .loader d.name (.within (m.name ++ m.descriptor) e))
    (scan row spec.sig spec.code spec.handlers m.throws)

/-- Registers a declared class whose supertypes are registered: its pool, its fields and its
methods. It is kept, and its static initializer will be required. -/
def register (d : ClassDecl) : LinkM Unit := do
  if d.super = [] && d.name ≠ (← get).root then fail (.loader d.name (.plain "no superclass"))
  let row ← onRegistry (Registry.createClass
    { name := d.name, super := d.super, kind := if d.isInterface then .interface else .ordinary
      interfaces := d.interfaces, element := [], elementType := 0, poolSize := d.poolSize })
  discard (onRegistry (Registry.keepClass row))
  d.pool.forM (registerSlot d row)
  d.fields.forM (registerField row)
  d.methods.forM (registerMethod d row)
  let c ← onRegistry (RegistryM.classAt row)
  if (c.declared? Signature.initializer).isSome then push (c.member Signature.initializer)

/-- Loads a class and its missing supertypes. `path` holds the classes whose loading is under way;
they are distinct names that the source serves, so `depth` above the number of its declarations
never runs out. -/
def loadTree (source : Source) : Nat → List Text → Text → LinkM Unit
  | 0, _, _ => giveUp
  | depth + 1, path, name => do
    if path.contains name then fail (.loader name (.plain "cyclic inheritance"))
    match ← ask source name with
    | .error e => fail (.loader name e)
    | .ok d =>
      (supertypes d).forM fun dep => do
        if (← registered? dep).isNone then loadTree source depth (name :: path) dep
      register d

/-- The array class and the arrays it is built from, outermost first, up to one that is
registered. -/
def arrayChain (isRegistered : Text → Bool) : Text → List Text
  | [] => []
  | b :: elem =>
    if isRegistered (b :: elem) then []
    else if b = Text.byte '[' && elem.head? = some (Text.byte '[') then
      (b :: elem) :: arrayChain isRegistered elem
    else [b :: elem]

/-- The class name inside the descriptor of an object type. -/
def objectName? (t : Text) : Option Text :=
  match Text.dropStart? "L" t with
  | none => none
  | some rest =>
    match Text.dropEnd? ";" rest with
    | some [] => none
    | other => other

/-- Makes one array class whose element array, if its elements are arrays, is registered.
`loadElement` loads the class of its elements. -/
def registerArray {α : Type} (loadElement : Text → LinkM α) (name : Text) : LinkM Unit := do
  let elem := name.drop 1
  let create (kind : ClassKind) (element : Text) (elementType : Int) : LinkM Unit := do
    let row ← onRegistry (Registry.createClass
      { name, super := (← get).root, kind, interfaces := [], element, elementType, poolSize := 0 })
    discard (onRegistry (Registry.keepClass row))
  match elem with
  | [letter] =>
    match Primitive.ofLetter? letter with
    | none =>
      fail (.loader name (.plain ("unknown primitive element type " ++ Text.quote elem)))
    | some p => create .primitiveArray [] p.code
  | _ =>
    match objectName? elem with
    | some element =>
      discard (loadElement element)
      create .objectArray element 0
    | none =>
      if elem.head? = some (Text.byte '[') then create .objectArray elem 0
      else fail (.loader name (.plain "malformed array class name"))

/-- The row of a class, which is loaded or, for an array, made first when it is missing. The name of
an element class is shorter than that of its array, so `fuel` above the length of the name never
runs out. -/
def loadFrom (source : Source) : Nat → Text → LinkM Nat
  | 0, _ => giveUp
  | fuel + 1, name => do
    match ← registered? name with
    | some row => return row
    | none =>
      if name.head? = some (Text.byte '[') then
        discard (loadFrom source fuel (← get).root)
        let r := (← get).registry
        let chain := arrayChain (fun t => (r.find? t).isSome) name
        chain.reverse.forM (registerArray (loadFrom source fuel))
      else
        loadTree source (source.decls.length + 1) [] name
      match ← registered? name with
      | some row => return row
      | none => throw .fault

/-- The row of a class, which is loaded first when it is missing. -/
def loadClass (source : Source) (name : Text) : LinkM Nat := loadFrom source (name.length + 1) name

end ClassLinker.Closure
