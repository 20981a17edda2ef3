import ClassLinker.Closure.Scan
import ClassLinker.Proofs.Registry.Weight

/-! What a method uses. It is read off its code, its exception handlers and its throws clause alone:
the references at the slots it names, the arrays it allocates, and the catalog entries that its
instructions may trigger. The recorded dependencies of a method are compared with its uses here. -/

namespace ClassLinker

/-- Something that a method uses: what a slot of its class holds, the array class whose elements are
of the class at a slot, the arrays of a primitive type, or a catalog entry. -/
inductive Use where
  | member (slot : Int)
  | classAt (slot : Int)
  | constant (slot : Int)
  | arrayAt (slot : Int)
  | primitives (code : Int)
  | builtin (id : Int)
deriving DecidableEq

namespace Use

/-- Whether a use is one of a member. -/
def isMember : Use → Bool
  | member _ => true
  | _ => false

/-- The catalog entries that an opcode may trigger. -/
def ofOpcode (op : UInt8) : List Use := (Builtin.triggers op).map fun id : Nat => builtin id

/-- What one instruction uses. -/
def ofInstruction (i : Instruction) : List Use :=
  ofOpcode i.op ++
  match Opcode.operand i.op with
  | .none => []
  | .memberSlot => [member (i.slot?.getD 0)]
  | .classSlot =>
    classAt (i.slot?.getD 0) ::
      if i.op = Opcode.anewarray then [arrayAt (i.slot?.getD 0)] else []
  | .constantSlot => [constant (i.slot?.getD 0)]
  | .arrayType => [primitives (i.arrayType?.getD 0).toNat]
  -- A method with a dynamic call site is refused.
  | .dynamicSlot => []

/-- What the handlers of a method use: the classes they catch. -/
def ofHandlers (handlers : List Handler) : List Use :=
  handlers.flatMap fun h => if h.catchSlot ≠ 0 then [classAt h.catchSlot] else []

/-- What a method uses. -/
def ofMethod (code : Bytes) (handlers : List Handler) (throws : List Int) : List Use :=
  (Code.decode code).instrs.flatMap ofInstruction ++ ofHandlers handlers ++ throws.map classAt

end Use

namespace Class

/-- The reference known at a slot, with its position. -/
def known? (c : Class) (slot : Int) : Option (Nat × Reference) := do
  let pos ← c.slots.lookup slot
  let ref ← c.pool[pos]?
  return (pos, ref)

theorem known?_eq_some {c : Class} {slot : Int} {pos : Nat} {ref : Reference} :
    c.known? slot = some (pos, ref) ↔ c.slots.lookup slot = some pos ∧ c.pool[pos]? = some ref := by
  simp [known?, Option.bind_eq_some_iff]

/-- `c'` has the references of `c`, known at the same slots, and possibly more of them. -/
structure PoolExtends (c c' : Class) : Prop where
  id_eq : c'.id = c.id
  slots : ∀ {slot pos}, c.slots.lookup slot = some pos → c'.slots.lookup slot = some pos
  pool : ∀ {pos : Nat} {ref}, c.pool[pos]? = some ref →
    ∃ ref', c'.pool[pos]? = some ref' ∧ ref'.body = ref.body ∧ ref'.slot = ref.slot

namespace PoolExtends

variable {c c' c'' : Class}

theorem refl (c : Class) : c.PoolExtends c :=
  ⟨rfl, fun h => h, fun {_ ref} href => ⟨ref, href, rfl, rfl⟩⟩

theorem trans (h : c.PoolExtends c') (h' : c'.PoolExtends c'') : c.PoolExtends c'' := by
  refine ⟨h'.id_eq.trans h.id_eq, fun hs => h'.slots (h.slots hs), ?_⟩
  intro pos ref href
  obtain ⟨ref', href', hbody, hslot⟩ := h.pool href
  obtain ⟨ref'', href'', hbody', hslot'⟩ := h'.pool href'
  exact ⟨ref'', href'', hbody'.trans hbody, hslot'.trans hslot⟩

theorem of_grows (h : c.Grows c') : c.PoolExtends c' := by
  refine ⟨h.id_eq, fun hs => by rw [h.slots_eq]; exact hs, ?_⟩
  intro pos ref href
  obtain ⟨ref', href', hgrow⟩ := h.pool href
  exact ⟨ref', href', hgrow.body_eq, hgrow.slot_eq⟩

theorem addRef (c : Class) {slot : Int} (hfree : c.slots.lookup slot = none) (body : RefBody) :
    c.PoolExtends (c.addRef slot body) := by
  refine ⟨rfl, ?_, ?_⟩
  · intro s pos hs
    have hne : s ≠ slot := by
      rintro rfl
      rw [hfree] at hs
      cases hs
    simp only [Class.addRef, List.lookup_cons, beq_false_of_ne hne]
    exact hs
  · intro pos ref href
    obtain ⟨hlt, -⟩ := Array.getElem?_eq_some_iff.mp href
    exact ⟨ref, by simp only [Class.addRef]; grind, rfl, rfl⟩

theorem known? (h : c.PoolExtends c') {slot : Int} {pos : Nat} {ref : Reference}
    (hknown : c.known? slot = some (pos, ref)) :
    ∃ ref', c'.known? slot = some (pos, ref') ∧ ref'.body = ref.body ∧ ref'.slot = ref.slot := by
  obtain ⟨hslot, hpool⟩ := known?_eq_some.mp hknown
  obtain ⟨ref', href', hbody, hs⟩ := h.pool hpool
  exact ⟨ref', known?_eq_some.mpr ⟨h.slots hslot, href'⟩, hbody, hs⟩

end PoolExtends

/-- What a pool is like, whatever is kept of it: the positions that its slots stand for, the slots
and the contents of its references, and its highest slot. -/
def poolShape (c : Class) : List (Int × Nat) × List (Int × RefBody) × Int :=
  (c.slots, c.pool.toList.map fun ref => (ref.slot, ref.body), c.maxSlot)

theorem Grows.poolShape_eq {c c' : Class} (h : c.Grows c') : c'.poolShape = c.poolShape := by
  have hpool : (c'.pool.toList.map fun ref => (ref.slot, ref.body)) =
      c.pool.toList.map fun ref => (ref.slot, ref.body) := by
    apply List.ext_getElem?
    intro pos
    rw [List.getElem?_map, List.getElem?_map, Array.getElem?_toList, Array.getElem?_toList]
    cases href : c.pool[pos]? with
    | none =>
        rw [getElem?_eq_none_of_size_eq h.pool_size href]
    | some ref =>
        obtain ⟨ref', href', hgrow⟩ := h.pool href
        rw [href', Option.map_some, Option.map_some, hgrow.slot_eq, hgrow.body_eq]
  have hmax : c'.maxSlot = c.maxSlot := by rw [h.frame]
  rw [poolShape, poolShape, hpool, h.slots_eq, hmax]

end Class

/-- The references to array classes that were added to the pool of a class id. -/
def Linker.arraysOf (l : Linker) (id : Nat) (name : Text) : Option RefAddr :=
  l.arrayRefs.lookup (id, name)

namespace Use

variable {c c' : Class} {row : Nat} {arrays arrays' : Text → Option RefAddr}

/-- The references that a use stands for, given the class in its row and the references to array
classes that were added to it. -/
def Names (c : Class) (row : Nat) (arrays : Text → Option RefAddr) : Use → RefAddr → Prop
  | member slot, a => a.row = row ∧ c.slots.lookup slot = some a.pos
  | classAt slot, a => a.row = row ∧ c.slots.lookup slot = some a.pos
  | constant slot, a => a.row = row ∧ c.slots.lookup slot = some a.pos
  | arrayAt slot, a => ∃ pos ref target id, c.known? slot = some (pos, ref) ∧
      ref.body = .classRef target id ∧ arrays (arrayOf target) = some a
  | primitives _, _ => False
  | builtin _, _ => False

/-- A slot in use holds a reference of the kind that the use needs. -/
def Fits (c : Class) (arrays : Text → Option RefAddr) : Use → Prop
  | member slot => ∃ pos ref m target declaring link index, c.known? slot = some (pos, ref) ∧
      ref.body = .memberRef m target declaring link index
  | classAt slot => ∃ pos ref target id, c.known? slot = some (pos, ref) ∧
      ref.body = .classRef target id
  | constant slot => ∃ pos ref, c.known? slot = some (pos, ref) ∧
      ((∃ v, ref.body = .literal v) ∨ ∃ target id, ref.body = .classRef target id)
  | arrayAt slot => ∃ pos ref target id a, c.known? slot = some (pos, ref) ∧
      ref.body = .classRef target id ∧ arrays (arrayOf target) = some a
  | primitives code => ∃ p, Primitive.ofCode? code = some p
  | builtin _ => True

theorem Fits.mono (hc : c.PoolExtends c')
    (harrays : ∀ {name a}, arrays name = some a → arrays' name = some a) {u : Use}
    (h : u.Fits c arrays) : u.Fits c' arrays' := by
  cases u with
  | member slot =>
      obtain ⟨pos, ref, m, t, d, k, i, hknown, hbody⟩ := h
      obtain ⟨ref', hknown', hbody', -⟩ := hc.known? hknown
      exact ⟨pos, ref', m, t, d, k, i, hknown', hbody'.trans hbody⟩
  | classAt slot =>
      obtain ⟨pos, ref, t, id, hknown, hbody⟩ := h
      obtain ⟨ref', hknown', hbody', -⟩ := hc.known? hknown
      exact ⟨pos, ref', t, id, hknown', hbody'.trans hbody⟩
  | constant slot =>
      obtain ⟨pos, ref, hknown, hbody⟩ := h
      obtain ⟨ref', hknown', hbody', -⟩ := hc.known? hknown
      exact ⟨pos, ref', hknown', by rw [hbody']; exact hbody⟩
  | arrayAt slot =>
      obtain ⟨pos, ref, t, id, a, hknown, hbody, harray⟩ := h
      obtain ⟨ref', hknown', hbody', -⟩ := hc.known? hknown
      exact ⟨pos, ref', t, id, a, hknown', hbody'.trans hbody, harrays harray⟩
  | primitives code => exact h
  | builtin id => trivial

/-- A use that fits stands for the same references when the pool is extended. -/
theorem Names.iff_of_fits (hc : c.PoolExtends c')
    (harrays : ∀ {name a}, arrays name = some a → arrays' name = some a) {u : Use}
    (h : u.Fits c arrays) (a : RefAddr) : u.Names c' row arrays' a ↔ u.Names c row arrays a := by
  have hslot : ∀ {slot pos ref}, c.known? slot = some (pos, ref) →
      (a.row = row ∧ c'.slots.lookup slot = some a.pos ↔
        a.row = row ∧ c.slots.lookup slot = some a.pos) := by
    intro slot pos ref hknown
    obtain ⟨hs, -⟩ := Class.known?_eq_some.mp hknown
    rw [hs, hc.slots hs]
  cases u with
  | member slot =>
      obtain ⟨pos, ref, m, t, d, k, i, hknown, hbody⟩ := h
      exact hslot hknown
  | classAt slot =>
      obtain ⟨pos, ref, t, id, hknown, hbody⟩ := h
      exact hslot hknown
  | constant slot =>
      obtain ⟨pos, ref, hknown, hbody⟩ := h
      exact hslot hknown
  | arrayAt slot =>
      obtain ⟨pos, ref, t, id, b, hknown, hbody, harray⟩ := h
      obtain ⟨ref', hknown', hbody', -⟩ := hc.known? hknown
      rw [hbody] at hbody'
      constructor
      · rintro ⟨pos₁, ref₁, t₁, id₁, hknown₁, hbody₁, harray₁⟩
        cases hknown'.symm.trans hknown₁
        cases hbody'.symm.trans hbody₁
        cases (harrays harray).symm.trans harray₁
        exact ⟨pos, ref, t, id, hknown, hbody, harray⟩
      · rintro ⟨pos₁, ref₁, t₁, id₁, hknown₁, hbody₁, harray₁⟩
        cases hknown.symm.trans hknown₁
        cases hbody.symm.trans hbody₁
        exact ⟨pos, ref', t, id, hknown', hbody', harrays harray₁⟩
  | primitives code => exact Iff.rfl
  | builtin id => exact Iff.rfl

end Use

namespace Method

/-- The references that a method was found to depend on. -/
def DependsOn (m : Method) (a : RefAddr) : Prop :=
  a ∈ m.classDeps ∨ a ∈ m.literalDeps ∨ a ∈ m.memberDeps

/-- `m` is the declared method `bare` with dependencies of its own. -/
def SameButDeps (bare m : Method) : Prop :=
  m = { bare with
    classDeps := m.classDeps, memberDeps := m.memberDeps, literalDeps := m.literalDeps
    arrayDeps := m.arrayDeps, builtins := m.builtins }

theorem SameButDeps.trans {bare m m' : Method} (h : bare.SameButDeps m) (h' : m.SameButDeps m') :
    bare.SameButDeps m' := by
  rw [SameButDeps] at h h' ⊢
  rw [h', h]

theorem SameButDeps.sig_eq {bare m : Method} (h : bare.SameButDeps m) : m.sig = bare.sig := by rw [h]

/-- The dependencies of a method are those of a list of uses, each in the list for its kind, and no
use of a member adds more than one. -/
structure Records (c : Class) (row : Nat) (arrays : Text → Option RefAddr) (uses : List Use)
    (m : Method) : Prop where
  refs : ∀ a, m.DependsOn a ↔ ∃ u ∈ uses, u.Names c row arrays a
  fits : ∀ u ∈ uses, u.Fits c arrays
  classes : ∀ a ∈ m.classDeps, a.row = row ∧
    ∃ ref target id, c.pool[a.pos]? = some ref ∧ ref.body = .classRef target id
  literals : ∀ a ∈ m.literalDeps, a.row = row ∧
    ∃ ref v, c.pool[a.pos]? = some ref ∧ ref.body = .literal v
  members : ∀ a ∈ m.memberDeps, a.row = row ∧ ∃ ref target t d k i, c.pool[a.pos]? = some ref ∧
    ref.body = .memberRef target t d k i
  arrays : ∀ code, code ∈ m.arrayDeps ↔ .primitives code ∈ uses
  builtins : ∀ id, id ∈ m.builtins ↔ .builtin id ∈ uses
  members_length : m.memberDeps.length ≤ uses.countP Use.isMember

namespace Records

variable {c c' : Class} {row : Nat} {arrays arrays' : Text → Option RefAddr} {uses : List Use}
  {m m' : Method}

theorem mono (h : Records c row arrays uses m) (hc : c.PoolExtends c')
    (harrays : ∀ {name a}, arrays name = some a → arrays' name = some a) :
    Records c' row arrays' uses m := by
  have hpool : ∀ {pos : Nat} {P : RefBody → Prop},
      (∃ ref, c.pool[pos]? = some ref ∧ P ref.body) →
      ∃ ref, c'.pool[pos]? = some ref ∧ P ref.body := by
    rintro pos P ⟨ref, href, hP⟩
    obtain ⟨ref', href', hbody, -⟩ := hc.pool href
    exact ⟨ref', href', hbody ▸ hP⟩
  refine ⟨?_, fun u hu => (h.fits u hu).mono hc harrays, ?_, ?_, ?_, h.arrays, h.builtins,
    h.members_length⟩
  · intro a
    rw [h.refs a]
    constructor
    · rintro ⟨u, hu, hnames⟩
      exact ⟨u, hu, (Use.Names.iff_of_fits hc harrays (h.fits u hu) a).mpr hnames⟩
    · rintro ⟨u, hu, hnames⟩
      exact ⟨u, hu, (Use.Names.iff_of_fits hc harrays (h.fits u hu) a).mp hnames⟩
  · intro a ha
    obtain ⟨hrow, ref, t, id, href, hbody⟩ := h.classes a ha
    obtain ⟨ref', href', t', id', hbody'⟩ :=
      hpool (P := fun body => ∃ t id, body = .classRef t id) ⟨ref, href, t, id, hbody⟩
    exact ⟨hrow, ref', t', id', href', hbody'⟩
  · intro a ha
    obtain ⟨hrow, ref, v, href, hbody⟩ := h.literals a ha
    obtain ⟨ref', href', v', hbody'⟩ :=
      hpool (P := fun body => ∃ v, body = .literal v) ⟨ref, href, v, hbody⟩
    exact ⟨hrow, ref', v', href', hbody'⟩
  · intro a ha
    obtain ⟨hrow, ref, x, t, d, k, i, href, hbody⟩ := h.members a ha
    obtain ⟨ref', href', x', t', d', k', i', hbody'⟩ :=
      hpool (P := fun body => ∃ x t d k i, body = .memberRef x t d k i)
        ⟨ref, href, x, t, d, k, i, hbody⟩
    exact ⟨hrow, ref', x', t', d', k', i', href', hbody'⟩

/-- Nothing is recorded of a method that uses nothing yet. -/
theorem nil (c : Class) (row : Nat) (arrays : Text → Option RefAddr) (spec : MethodSpec) :
    Records c row arrays [] spec.toMethod := by
  constructor <;> simp [MethodSpec.toMethod, DependsOn]

/-- One more use, whose references and codes are the only ones that are added. -/
theorem extend (h : Records c row arrays uses m) {u : Use} (hfits : u.Fits c arrays)
    (hrefs : ∀ a, m'.DependsOn a ↔ m.DependsOn a ∨ u.Names c row arrays a)
    (hclasses : ∀ a ∈ m'.classDeps, a ∈ m.classDeps ∨ a.row = row ∧
      ∃ ref target id, c.pool[a.pos]? = some ref ∧ ref.body = .classRef target id)
    (hliterals : ∀ a ∈ m'.literalDeps, a ∈ m.literalDeps ∨ a.row = row ∧
      ∃ ref v, c.pool[a.pos]? = some ref ∧ ref.body = .literal v)
    (hmembers : ∀ a ∈ m'.memberDeps, a ∈ m.memberDeps ∨ a.row = row ∧
      ∃ ref target t d k i, c.pool[a.pos]? = some ref ∧ ref.body = .memberRef target t d k i)
    (hcodes : ∀ code, code ∈ m'.arrayDeps ↔ code ∈ m.arrayDeps ∨ .primitives code = u)
    (hbuiltins : ∀ id, id ∈ m'.builtins ↔ id ∈ m.builtins ∨ .builtin id = u)
    (hlength : m'.memberDeps.length ≤ m.memberDeps.length + [u].countP Use.isMember) :
    Records c row arrays (uses ++ [u]) m' := by
  refine ⟨?_, ?_, ?_, ?_, ?_, ?_, ?_, ?_⟩
  · intro a
    rw [hrefs a, h.refs a]
    constructor
    · rintro (⟨v, hv, hnames⟩ | hnames)
      · exact ⟨v, List.mem_append_left _ hv, hnames⟩
      · exact ⟨u, List.mem_append_right _ (List.mem_singleton.mpr rfl), hnames⟩
    · rintro ⟨v, hv, hnames⟩
      rcases List.mem_append.mp hv with hv | hv
      · exact Or.inl ⟨v, hv, hnames⟩
      · rw [List.mem_singleton.mp hv] at hnames
        exact Or.inr hnames
  · intro v hv
    rcases List.mem_append.mp hv with hv | hv
    · exact h.fits v hv
    · rw [List.mem_singleton.mp hv]
      exact hfits
  · intro a ha
    exact (hclasses a ha).elim (h.classes a) id
  · intro a ha
    exact (hliterals a ha).elim (h.literals a) id
  · intro a ha
    exact (hmembers a ha).elim (h.members a) id
  · intro code
    rw [hcodes code, h.arrays code, List.mem_append, List.mem_singleton]
  · intro id
    rw [hbuiltins id, h.builtins id, List.mem_append, List.mem_singleton]
  · rw [List.countP_append]
    exact Nat.le_trans hlength (Nat.add_le_add_right h.members_length _)

end Records

/-- Adds an entry to a list of dependencies unless it is there. -/
def note {α : Type} [BEq α] (deps : List α) (dep : α) : List α :=
  if deps.contains dep then deps else deps ++ [dep]

theorem mem_note {α : Type} [BEq α] [LawfulBEq α] {deps : List α} {dep x : α} :
    x ∈ note deps dep ↔ x ∈ deps ∨ x = dep := by
  unfold note
  split
  · rename_i hin
    rw [List.contains_iff_mem] at hin
    constructor
    · exact Or.inl
    · rintro (hx | rfl)
      · exact hx
      · exact hin
  · rw [List.mem_append, List.mem_singleton]

theorem length_note_le {α : Type} [BEq α] (deps : List α) (dep : α) :
    (note deps dep).length ≤ deps.length + 1 := by
  unfold note
  split
  · exact Nat.le_succ _
  · exact Nat.le_of_eq List.length_append

end Method

namespace Registry

theorem addClassDep_eq (row : Nat) (sig : Signature) (a : RefAddr) (r : Registry) :
    addClassDep row sig a r =
      r.modifyMethod row sig fun m => { m with classDeps := Method.note m.classDeps a } := by
  unfold addClassDep Method.note
  congr 1
  funext m
  split <;> rfl

theorem addMemberDep_eq (row : Nat) (sig : Signature) (a : RefAddr) (r : Registry) :
    addMemberDep row sig a r =
      r.modifyMethod row sig fun m => { m with memberDeps := Method.note m.memberDeps a } := by
  unfold addMemberDep Method.note
  congr 1
  funext m
  split <;> rfl

theorem addLiteralDep_eq (row : Nat) (sig : Signature) (a : RefAddr) (r : Registry) :
    addLiteralDep row sig a r =
      r.modifyMethod row sig fun m => { m with literalDeps := Method.note m.literalDeps a } := by
  unfold addLiteralDep Method.note
  congr 1
  funext m
  split <;> rfl

theorem addArrayDep_eq (row : Nat) (sig : Signature) (code : Int) (r : Registry) :
    addArrayDep row sig code r =
      r.modifyMethod row sig fun m => { m with arrayDeps := Method.note m.arrayDeps code } := by
  unfold addArrayDep Method.note
  congr 1
  funext m
  split <;> rfl

theorem addBuiltin_eq (row : Nat) (sig : Signature) (id : Int) (r : Registry) :
    addBuiltin row sig id r =
      r.modifyMethod row sig fun m => { m with builtins := Method.note m.builtins id } := by
  unfold addBuiltin Method.note
  congr 1
  funext m
  split <;> rfl

end Registry

namespace Class

/-- The pool of a class holds the declared slots and the references to array classes that were added
to it, and nothing else. -/
structure Filled (declared : List Int) (row : Nat) (arrays : Text → Option RefAddr) (c : Class) :
    Prop where
  listed_all : ∀ {pos}, pos < c.pool.size → pos ∈ c.listed
  known : ∀ slot ∈ declared, ∃ pos, c.slots.lookup slot = some pos
  origin : ∀ {pos : Nat} {ref}, c.pool[pos]? = some ref → ref.slot ∈ declared ∨
    ∃ target id, ref.body = .classRef target id ∧ arrays target = some ⟨row, pos⟩
  added : ∀ {target a}, arrays target = some a → a.row = row ∧ ∃ ref id, c.pool[a.pos]? = some ref ∧
    ref.body = .classRef target id ∧ ref.slot ∉ declared

end Class

end ClassLinker
