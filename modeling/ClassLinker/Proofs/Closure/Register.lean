import ClassLinker.Closure.Load
import ClassLinker.Proofs.Closure.Scan

/-! Registering a declared class. The registered class is described by its declaration: the same
supertypes, fields and methods, a pool of the declared slots and of the references to array classes
that its code allocates, and for every method the dependencies on exactly what it uses. -/

namespace ClassLinker

open Closure

/-- The specification of the class that a declaration is registered as. -/
def ClassDecl.spec (d : ClassDecl) : ClassSpec :=
  { name := d.name, super := d.super, kind := if d.isInterface then .interface else .ordinary
    interfaces := d.interfaces, element := [], elementType := 0, poolSize := d.poolSize }

/-- The field to register for a declaration. -/
def FieldDecl.spec (f : FieldDecl) : FieldSpec :=
  { sig := ⟨f.name, f.descriptor⟩, isStatic := f.isStatic, size := f.size }

/-- `f` is the field that was registered for a declaration, kept or not. -/
def Field.Describes (decl : FieldDecl) (f : Field) : Prop :=
  f = { decl.spec.toField with kept := f.kept }

/-- `m` is the method that was registered and scanned for a declaration, kept or not. -/
structure Method.Describes (root : Text) (d : ClassDecl) (row : Nat)
    (arrays : Text → Option RefAddr) (c : Class) (decl : MethodDecl) (m : Method) : Prop where
  frame : m = { (methodSpec root d decl).toMethod with
    kept := m.kept, classDeps := m.classDeps, memberDeps := m.memberDeps
    literalDeps := m.literalDeps, arrayDeps := m.arrayDeps, builtins := m.builtins }
  coded : m.kind = .native ∨ m.kind = .abstract ↔ m.rawCode = []
  complete : (Code.decode m.rawCode).ending = .complete
  records : m.Records c row arrays (Use.ofMethod m.rawCode m.handlers decl.throws)

/-- A declaration could be registered for a class whose pool was then like that of `c`. -/
def ClassDecl.Registers (root : Text) (d : ClassDecl) (c : Class) : Prop :=
  ∃ l l' c₀, l.registry.Tidy ∧ (∀ name, l.arraysOf l.registry.rows.size name = none) ∧
    l.root = root ∧ register d l = .ok () l' ∧
    l'.registry.classAt? l.registry.rows.size = some c₀ ∧ c₀.poolShape = c.poolShape

/-- What a pool item is registered as; none for a constant without a value of its kind. -/
def PoolItem.body? : PoolItem → Option RefBody
  | classRef name => some (.classRef name none)
  | member className name descriptor _ =>
    some (.memberRef ⟨className, name, descriptor⟩ none none none none)
  | constant kind (some v) => if literalKind? kind = some v.kind then some (.literal v) else none
  | constant _ none => none

/-- A class knows at a pool slot what was declared there. -/
def Class.Holds (c : Class) (p : PoolSlot) : Prop :=
  ∃ pos ref, c.known? p.slot = some (pos, ref) ∧ p.item.body? = some ref.body

theorem Class.Holds.extends {c c' : Class} {p : PoolSlot} (h : c.Holds p)
    (hext : c.PoolExtends c') : c'.Holds p := by
  obtain ⟨pos, ref, hknown, hbody⟩ := h
  obtain ⟨ref', hknown', hbody', -⟩ := hext.known? hknown
  exact ⟨pos, ref', hknown', hbody'.symm ▸ hbody⟩

/-- `c` is the class that was registered for a declaration. -/
structure Class.Describes (root : Text) (d : ClassDecl) (row : Nat)
    (arrays : Text → Option RefAddr) (c : Class) : Prop where
  name_eq : c.name = d.name
  super_eq : c.super = d.super
  kind_eq : c.kind = if d.isInterface then .interface else .ordinary
  interfaces_eq : c.interfaces = d.interfaces
  fields : List.Forall₂ Field.Describes d.fields c.fields
  methods : List.Forall₂ (Method.Describes root d row arrays c) d.methods c.methods
  filled : c.Filled (d.pool.map PoolSlot.slot) row arrays
  holds : ∀ p ∈ d.pool, c.Holds p
  registers : d.Registers root c

/-- The class with a method added. -/
def Class.addMethod (spec : MethodSpec) (c : Class) : Class :=
  { c with methods := c.methods ++ [spec.toMethod] }

section Growth

variable {root : Text} {d : ClassDecl} {row : Nat} {arrays arrays' : Text → Option RefAddr}
  {c c' : Class}

theorem Method.Records.congr {uses : List Use} {m m' : Method} (h : m.Records c row arrays uses)
    (hm : m.Grows m') : m'.Records c row arrays uses := by
  obtain ⟨hframe, -⟩ := hm
  rw [hframe]
  exact ⟨h.refs, h.fits, h.classes, h.literals, h.members, h.arrays, h.builtins, h.members_length⟩

theorem Method.Describes.mono {decl : MethodDecl} {m m' : Method}
    (h : m.Describes root d row arrays c decl) (hm : m.Grows m') (hc : c.PoolExtends c')
    (harrays : ∀ {name a}, arrays name = some a → arrays' name = some a) :
    m'.Describes root d row arrays' c' decl := by
  have hrecords := (h.records.mono hc harrays).congr hm
  obtain ⟨hframe, -⟩ := hm
  refine ⟨?_, ?_, ?_, ?_⟩
  · rw [hframe, h.frame]
  · rw [hframe]
    exact h.coded
  · rw [hframe]
    exact h.complete
  · rw [hframe] at hrecords ⊢
    exact hrecords

/-- A grown class is described by the same declaration. -/
theorem Class.Describes.grows (h : c.Describes root d row arrays) (hc : c.Grows c') :
    c'.Describes root d row arrays where
  name_eq := hc.name_eq.trans h.name_eq
  super_eq := hc.super_eq.trans h.super_eq
  kind_eq := by rw [hc.frame]; exact h.kind_eq
  interfaces_eq := hc.interfaces_eq.trans h.interfaces_eq
  fields := forall₂_trans (fun _ f f' hf hgrow => by
    rw [Field.Describes, hgrow.frame, hf]) h.fields hc.fields
  methods := forall₂_trans (fun _ m m' hm hgrow => hm.mono hgrow (.of_grows hc) fun ha => ha)
    h.methods hc.methods
  filled := by
    have hext := PoolExtends.of_grows hc
    refine ⟨?_, ?_, ?_, ?_⟩
    · intro pos hpos
      rw [hc.pool_size] at hpos
      rw [hc.frame]
      exact h.filled.listed_all hpos
    · intro slot hslot
      obtain ⟨pos, hpos⟩ := h.filled.known slot hslot
      exact ⟨pos, hext.slots hpos⟩
    · intro pos ref' href'
      obtain ⟨ref, href, hgrow⟩ := hc.pool_old href'
      rw [hgrow.slot_eq, hgrow.body_eq]
      exact h.filled.origin href
    · intro target a ha
      obtain ⟨hrow, ref, id, href, hbody, hslot⟩ := h.filled.added ha
      obtain ⟨ref', href', hbody', hslot'⟩ := hext.pool href
      exact ⟨hrow, ref', id, href', hbody'.trans hbody, hslot' ▸ hslot⟩
  holds p hp := (h.holds p hp).extends (.of_grows hc)
  registers := by
    obtain ⟨l, l', c₀, htidy, hfresh, hroot, hok, hc₀, hshape⟩ := h.registers
    exact ⟨l, l', c₀, htidy, hfresh, hroot, hok, hc₀, hshape.trans hc.poolShape_eq.symm⟩

end Growth

namespace Closure

open LinkM RegistryM Step Registry

/-- A declared slot is added to a pool that has no references to array classes yet. -/
theorem Filled.declare {declared : List Int} {row : Nat} {arrays : Text → Option RefAddr}
    {c : Class} {slot : Int} (h : c.Filled declared row arrays) (hfree : c.slots.lookup slot = none)
    (harrays : ∀ t, arrays t = none) (body : RefBody) :
    (c.addRef slot body).Filled (declared ++ [slot]) row arrays := by
  have hext := Class.PoolExtends.addRef c hfree body
  refine ⟨Filled.listed_addRef h _ _, ?_, ?_, ?_⟩
  · intro s hs
    rcases List.mem_append.mp hs with hs | hs
    · obtain ⟨pos, hpos⟩ := h.known s hs
      exact ⟨pos, hext.slots hpos⟩
    · rw [List.mem_singleton.mp hs]
      exact ⟨c.pool.size, List.lookup_cons_self ..⟩
  · intro pos ref href
    simp only [Class.addRef, Array.getElem?_push] at href
    split at href
    · cases href
      exact Or.inl (List.mem_append_right _ (List.mem_singleton.mpr rfl))
    · rcases h.origin href with hmem | ⟨t, id, -, ha⟩
      · exact Or.inl (List.mem_append_left _ hmem)
      · rw [harrays t] at ha
        cases ha
  · intro t a ha
    rw [harrays t] at ha
    cases ha

/-- The state while the class in a row is filled from its declaration: the given slots, fields and
methods have been registered since the state `start`. -/
structure Filling (root : Text) (d : ClassDecl) (row : Nat) (start : Linker)
    (slots : List PoolSlot) (fields : List FieldDecl) (methods : List MethodDecl) (l : Linker) :
    Prop where
  builds : Builds row start l
  tidy : l.registry.Tidy
  root_eq : l.root = root
  noArrays : methods = [] → ∀ t, l.arraysOf row t = none
  filled : ∃ c, l.registry.classAt? row = some c ∧
    List.Forall₂ (fun decl f => f = decl.spec.toField) fields c.fields ∧
    List.Forall₂ (fun decl m => Method.Describes root d row (l.arraysOf row) c decl m ∧
      m.kept = false) methods c.methods ∧
    c.Filled (slots.map PoolSlot.slot) row (l.arraysOf row) ∧ ∀ p ∈ slots, c.Holds p

namespace Filling

variable {root : Text} {d : ClassDecl} {row : Nat} {start l l' : Linker} {slots : List PoolSlot}
  {fields : List FieldDecl} {methods : List MethodDecl}

/-- One more slot of the pool. -/
theorem createRef (h : Filling root d row start slots fields [] l) {p : PoolSlot} {body : RefBody}
    (hbody : p.item.body? = some body) {a : RefAddr} {r : Registry}
    (hok : Registry.createRef row p.slot body l.registry = .ok a r) :
    Filling root d row start (slots ++ [p]) fields [] { l with registry := r } := by
  have htidy := createRef_tidy h.tidy hok
  obtain ⟨c, hc, hfields, hmethods, hfilled, hholds⟩ := h.filled
  obtain ⟨-, c', hc', -, -, hfree, rfl, -⟩ := createRef_ok.mp hok
  cases hc.symm.trans hc'
  have hnone : c.slots.lookup p.slot = none := refAddr?_eq_none.mp hfree row c hc rfl
  have hext := Class.PoolExtends.addRef c hnone body
  refine ⟨h.builds.trans (Builds.modifyClass l row ?_), htidy, h.root_eq, h.noArrays,
    c.addRef p.slot body, ?_, hfields, ?_, ?_, ?_⟩
  · intro c' hc'
    cases hc.symm.trans hc'
    refine ⟨rfl, hext, fun {pos ref} href => ?_⟩
    simp only [Class.addRef, Array.getElem?_push] at href
    split at href
    · cases href
      exact Or.inr rfl
    · exact Or.inl href
  · rw [classAt?_modifyClass, if_pos rfl, hc, Option.map_some]
  · exact hmethods.imp fun decl m hm => ⟨hm.1.mono (.refl m) hext fun ha => ha, hm.2⟩
  · rw [List.map_append]
    exact Filled.declare hfilled hnone (h.noArrays rfl) body
  · rw [List.forall_mem_append, List.forall_mem_singleton]
    refine ⟨fun q hq => (hholds q hq).extends hext, c.pool.size,
      { owner := c.id, slot := p.slot, kept := false, body }, ?_, hbody⟩
    refine Class.known?_eq_some.mpr ⟨List.lookup_cons_self .., ?_⟩
    simp only [Class.addRef]
    exact Array.getElem?_push_size

theorem registerSlot (h : Filling root d row start slots fields [] l) {p : PoolSlot}
    (hok : Closure.registerSlot d row p l = .ok () l') :
    Filling root d row start (slots ++ [p]) fields [] l' := by
  unfold Closure.registerSlot at hok
  cases hitem : p.item with
  | classRef name =>
      simp only [hitem, discard_ok, onRegistry_ok] at hok
      obtain ⟨a, r, hcreate, rfl⟩ := hok
      exact h.createRef (by rw [hitem]; rfl) hcreate
  | member className name descriptor isField =>
      simp only [hitem, discard_ok, onRegistry_ok] at hok
      obtain ⟨a, r, hcreate, rfl⟩ := hok
      exact h.createRef (by rw [hitem]; rfl) hcreate
  | constant kind value =>
      cases hkind : PoolItem.literalKind? kind with
      | none => simp [hitem, hkind] at hok
      | some k =>
          simp only [hitem, hkind, discard_ok, onRegistry_ok] at hok
          obtain ⟨a, r, hcreate, rfl⟩ := hok
          obtain ⟨v, rfl, hsame, hcreate⟩ := createLiteral_ok.mp hcreate
          exact h.createRef (by rw [hitem]; exact if_pos hsame) hcreate

theorem registerField (h : Filling root d row start slots fields [] l) {decl : FieldDecl}
    (hok : Closure.registerField row decl l = .ok () l') :
    Filling root d row start slots (fields ++ [decl]) [] l' := by
  simp only [Closure.registerField, onRegistry_ok] at hok
  obtain ⟨r, hcreate, rfl⟩ := hok
  have hwf := createField_wellFormed h.tidy.wellFormed row decl.spec
  rw [show Registry.createField row decl.spec l.registry = _ from hcreate] at hwf
  obtain ⟨c, hc, hfields, hmethods, hfilled, hholds⟩ := h.filled
  obtain ⟨-, c', hc', -, rfl⟩ := createField_ok.mp hcreate
  cases hc.symm.trans hc'
  have hext : ∀ c' : Class, c'.PoolExtends { c' with fields := c'.fields ++ [decl.spec.toField] } :=
    fun _ => ⟨rfl, fun hs => hs, fun {_ ref} href => ⟨ref, href, rfl, rfl⟩⟩
  refine ⟨h.builds.trans (Builds.modifyClass l row fun c' _ => ⟨rfl, hext c', fun href =>
    Or.inl href⟩), h.tidy.modifyClass hwf fun c => ⟨rfl, rfl, rfl, rfl⟩, h.root_eq, h.noArrays,
    { c with fields := c.fields ++ [decl.spec.toField] }, ?_, ?_, ?_, ?_,
    fun p hp => (hholds p hp).extends (hext c)⟩
  · show (l.registry.modifyClass row _).classAt? row = _
    rw [classAt?_modifyClass, if_pos rfl, hc, Option.map_some]
    rfl
  · exact List.rel_append hfields (.cons rfl .nil)
  · exact hmethods.imp fun decl m hm => ⟨hm.1.mono (.refl m) (hext c) fun ha => ha, hm.2⟩
  · exact ⟨hfilled.listed_all, hfilled.known, hfilled.origin, hfilled.added⟩

/-- One more method. Its scan may add references to array classes to the pool, which changes nothing
for the methods before it. -/
theorem registerMethod (h : Filling root d row start slots fields methods l) {decl : MethodDecl}
    (hok : Closure.registerMethod d row decl l = .ok () l') :
    Filling root d row start slots fields (methods ++ [decl]) l' := by
  simp only [Closure.registerMethod, bind_ok, get_ok, onRegistry_ok, mapError_ok, and_assoc] at hok
  obtain ⟨_, _, rfl, rfl, _, l₁, ⟨r₁, hcreate, hl₁⟩, hscan⟩ := hok
  obtain rfl := h.root_eq
  obtain ⟨c, hc, hfields, hmethods, hfilled, hholds⟩ := h.filled
  generalize hspec : methodSpec l.root d decl = spec at hcreate hscan
  have hwf := createMethod_wellFormed h.tidy.wellFormed row spec
  rw [hcreate] at hwf
  obtain ⟨-, c', hc', hnew, hcoded, rfl⟩ := createMethod_ok.mp hcreate
  cases hc.symm.trans hc'
  have hext : ∀ c : Class, c.PoolExtends (c.addMethod spec) := fun _ =>
    ⟨rfl, fun hs => hs, fun {_ ref} href => ⟨ref, href, rfl, rfl⟩⟩
  have hbuilds : Builds row l l₁ := hl₁ ▸ Builds.modifyClass l row (f := Class.addMethod spec)
    fun c _ => ⟨rfl, hext c, fun href => Or.inl href⟩
  have htidy : l₁.registry.Tidy := hl₁ ▸ h.tidy.modifyClass (f := Class.addMethod spec) hwf
    fun c => ⟨rfl, rfl, rfl, rfl⟩
  have hclass : l₁.registry.classAt? row = some (c.addMethod spec) := by
    rw [← hl₁]
    show (l.registry.modifyClass row (Class.addMethod spec)).classAt? row = _
    rw [classAt?_modifyClass, if_pos rfl, hc, Option.map_some]
  have harrays : l₁.arraysOf row = l.arraysOf row := by rw [← hl₁]; rfl
  have hscanning : Scanning (slots.map PoolSlot.slot) row l₁ c.methods c.fields spec.toMethod []
      l₁ := by
    refine ⟨.refl row l₁, htidy, ?_, _, _, hclass, rfl, rfl, rfl, ?_, .nil ..⟩
    · intro m hm hsig
      refine Class.declared?_eq_none.mp hnew ?_
      exact List.mem_append_left _ (List.mem_map.mpr ⟨m, hm, hsig⟩)
    · rw [harrays]
      exact ⟨hfilled.listed_all, hfilled.known, hfilled.origin, hfilled.added⟩
  obtain ⟨hcomplete, hscanned⟩ := scan_scanning hscanning hscan
  obtain ⟨c₂, m, hc₂, hmethods₂, hfields₂, hsame, hfilled₂, hrecords⟩ := hscanned.scanned
  obtain ⟨c₂', hc₂', -, hext₂, -⟩ := hscanned.builds.this hclass
  cases hc₂.symm.trans hc₂'
  have hall := h.builds.trans (hbuilds.trans hscanned.builds)
  have hroot : l'.root = l.root := by rw [hall.frame, h.builds.frame]
  refine ⟨hall, hscanned.tidy, hroot, by simp, c₂, hc₂, ?_, ?_, hfilled₂,
    fun p hp => (hholds p hp).extends ((hext c).trans hext₂)⟩
  · rw [hfields₂]
    exact hfields
  · rw [hmethods₂]
    refine List.rel_append ?_ (.cons ⟨⟨?_, ?_, ?_, ?_⟩, ?_⟩ .nil)
    · exact hmethods.imp fun decl m hm => ⟨hm.1.mono (.refl m) ((hext c).trans hext₂) fun ha =>
        (hbuilds.trans hscanned.builds).arrays ha, hm.2⟩
    · rw [hspec]
      rw [Method.SameButDeps] at hsame
      rw [hsame]
    · rw [hsame]
      exact hcoded
    · rw [hsame]
      exact hcomplete
    · have hcode : m.rawCode = spec.code := by rw [hsame]; rfl
      have hhandlers : m.handlers = spec.handlers := by rw [hsame]; rfl
      rw [hcode, hhandlers]
      exact hrecords
    · rw [hsame]
      rfl

end Filling

/-! ### Loading one class -/

/-- `r'` is `r` with a new kept class, which declares nothing yet. -/
structure Created (spec : ClassSpec) (r r' : Registry) : Prop where
  fresh : r.find? spec.name = none
  root_iff : spec.super = [] ↔ r.live = []
  super_found : spec.super ≠ [] → ∃ p, r.find? spec.super = some p
  interfaces_found : ∀ i ∈ spec.interfaces, ∃ p, r.find? i = some p
  tidy : r'.Tidy
  size_eq : r'.rows.size = r.rows.size + 1
  find?_eq : ∀ name, r'.find? name = if name = spec.name then some r.rows.size else r.find? name
  this : ∃ children, r'.classAt? r.rows.size =
    some { spec.toClass r.rows.size with kept := true, children := children }
  other : ∀ {row c}, r.classAt? row = some c →
    ∃ children, r'.classAt? row = some { c with children := children }

/-- A class is an old one up to its children, or the new one. -/
theorem Created.class_cases {spec : ClassSpec} {r r' : Registry} (h : Created spec r r') {row : Nat}
    {c' : Class} (hc' : r'.classAt? row = some c') :
    (∃ c children, r.classAt? row = some c ∧ c' = { c with children := children }) ∨
      ∃ children, c' = { spec.toClass r.rows.size with kept := true, children := children } := by
  have hlt : row < r.rows.size + 1 := h.size_eq ▸ classAt?_lt hc'
  rcases Nat.lt_or_eq_of_le (Nat.le_of_lt_succ hlt) with hlt | rfl
  · obtain ⟨c, hc⟩ := exists_classAt? hlt
    obtain ⟨children, hsame⟩ := h.other hc
    exact .inl ⟨c, children, hc, Option.some.inj (hc'.symm.trans hsame)⟩
  · obtain ⟨children, hthis⟩ := h.this
    exact .inr ⟨children, Option.some.inj (hc'.symm.trans hthis)⟩

section Enlisted

variable {spec : ClassSpec} {r r' : Registry} (hnew : r.find? spec.name = none)
  (hsame : SameButChildren ((r.store (spec.toClass r.rows.size)).enlist r.rows.size spec.name) r')

include hnew hsame

theorem find?_enlisted {name : Text} {p : Nat} (hp : r.find? name = some p) :
    r'.find? name = some p := by
  rw [hsame.find?_eq, find?_enlist, if_neg]
  · exact hp
  · rintro rfl
    rw [hnew] at hp
    cases hp

/-- A name that was registered stands for the row it stood for. -/
theorem find?_of_enlisted {name : Text} {p q : Nat} (hq : r.find? name = some q)
    (hp : r'.find? name = some p) : r.find? name = some p :=
  hq.trans ((find?_enlisted hnew hsame hq).symm.trans hp)

section Supertypes

variable {c c' : Class} {p : Nat} (hsuper : c'.super = c.super)
  (hinterfaces : c'.interfaces = c.interfaces)

include hsuper hinterfaces

theorem supertype_enlisted (h : r.Supertype c p) : r'.Supertype c' p := by
  rcases h with hp | ⟨i, hi, hp⟩
  · simp only [superOf?, Option.ite_none_left_eq_some] at hp
    refine .inl ?_
    rw [superOf?, hsuper, if_neg hp.1]
    exact find?_enlisted hnew hsame hp.2
  · exact .inr ⟨i, hinterfaces ▸ hi, find?_enlisted hnew hsame hp⟩

theorem supertype_of_enlisted (hsuperFound : c.super ≠ [] → ∃ q, r.find? c.super = some q)
    (hinterfacesFound : ∀ i ∈ c.interfaces, ∃ q, r.find? i = some q) (h : r'.Supertype c' p) :
    r.Supertype c p := by
  rcases h with hp | ⟨i, hi, hp⟩
  · simp only [superOf?, hsuper, Option.ite_none_left_eq_some] at hp
    obtain ⟨q, hq⟩ := hsuperFound hp.1
    refine .inl ?_
    rw [superOf?, if_neg hp.1]
    exact find?_of_enlisted hnew hsame hq hp.2
  · rw [hinterfaces] at hi
    obtain ⟨q, hq⟩ := hinterfacesFound i hi
    exact .inr ⟨i, hi, find?_of_enlisted hnew hsame hq hp⟩

end Supertypes

end Enlisted

/-- The classes of a registry with a new class are children of their supertypes as before, and the
new one is a child of its own. -/
theorem parented_created {spec : ClassSpec} {r r' : Registry} (h : r.Tidy)
    (hnew : r.find? spec.name = none) (hsuper : spec.super ≠ [] → ∃ p, r.find? spec.super = some p)
    (hinterfaces : ∀ i ∈ spec.interfaces, ∃ p, r.find? i = some p)
    (hsame : SameButChildren
      ((r.store (spec.toClass r.rows.size)).enlist r.rows.size spec.name) r')
    (hchild : ∀ {id p c'}, r.Supertype (spec.toClass id) p → r'.classAt? p = some c' →
      r.rows.size ∈ c'.children)
    (honly : ∀ {p k c'}, r'.classAt? p = some c' → k ∈ c'.children → ∀ id,
      (∃ c, r.classAt? p = some c ∧ k ∈ c.children) ∨
        k = r.rows.size ∧ r.Supertype (spec.toClass id) p) : r'.Parented := by
  have hrows : ∀ row, ((r.store (spec.toClass r.rows.size)).enlist r.rows.size spec.name).classAt?
      row = if row = r.rows.size then some (spec.toClass r.rows.size) else r.classAt? row :=
    fun row => classAt?_store r _ row
  refine ⟨fun {row c' p parent'} hc' hp hparent' => ?_, fun {row p parent'} hparent' hrow => ?_⟩
  case refine_2 =>
    rcases honly hparent' hrow r.rows.size with ⟨parent, hparent, hrow⟩ | ⟨rfl, hsuper⟩
    · obtain ⟨c, hc, hsuper⟩ := h.parented.supertype hparent hrow
      obtain ⟨children, hc'⟩ := hsame.classes
        ((hrows row).trans (if_neg (Nat.ne_of_lt (classAt?_lt hc))) |>.trans hc)
      exact ⟨_, hc', supertype_enlisted hnew hsame rfl rfl hsuper⟩
    · obtain ⟨children, hc'⟩ := hsame.classes ((hrows _).trans (if_pos rfl))
      exact ⟨_, hc', supertype_enlisted hnew hsame rfl rfl hsuper⟩
  obtain ⟨c, hc, heq⟩ := hsame.exists_old hc'
  have hold := supertype_of_enlisted (p := p) hnew hsame (show c'.super = c.super by rw [heq])
    (show c'.interfaces = c.interfaces by rw [heq])
  rw [hrows] at hc
  split at hc
  · rename_i hrow
    cases hc
    rw [hrow]
    exact hchild (hold hsuper hinterfaces hp) hparent'
  · have hlive := h.live_of_class hc
    have hp := hold (fun hne => (h.hierarchy.super_lt hlive hc hne).imp fun _ hq => hq.1)
      (fun i hi => (h.hierarchy.interface_lt hlive hc hi).imp fun _ hq => hq.1) hp
    -- A supertype of a class that was there was there.
    obtain ⟨name, hname⟩ : ∃ name, r.find? name = some p := by
      rcases hp with hp | ⟨i, -, hp⟩
      · exact ⟨c.super, (Option.ite_none_left_eq_some.mp hp).2⟩
      · exact ⟨i, hp⟩
    obtain ⟨parent, hparent, -⟩ := h.exists_class hname
    have hstored := (hrows p).trans (if_neg (Nat.ne_of_lt (classAt?_lt hparent)))
    exact hsame.children (hstored.trans hparent) hparent' (h.parented.mem_children hc hp hparent)

theorem created {spec : ClassSpec} {r r₁ r₂ : Registry} {row : Nat} {fresh : Bool} (h : r.Tidy)
    (hcreate : createClass spec r = .ok row r₁) (hkeep : keepClass row r₁ = .ok fresh r₂) :
    row = r.rows.size ∧ Created spec r r₂ := by
  have hwf₁ : r₁.WellFormed := by
    simpa [hcreate] using createClass_wellFormed h.wellFormed spec
  have hwf₂ : r₂.WellFormed := by
    simpa [hkeep] using keepClass_wellFormed hwf₁ row
  have hh₁ := h.hierarchy.createClass h.wellFormed hcreate
  obtain ⟨hopen, hnew, hroot, hsuper, hinterfaces, rfl, hsame, hchild⟩ := createClass_ok hcreate
  have hlive : r.live.length = r.rows.size := by rw [h.live_eq, List.length_range]
  rw [hlive] at hsame
  have hclass : ∃ children, r₁.classAt? r.rows.size =
      some { spec.toClass r.rows.size with children := children } := by
    apply hsame.classes
    show (r.store (spec.toClass r.rows.size)).classAt? r.rows.size = _
    rw [classAt?_store, if_pos rfl]
  obtain ⟨children, hclass⟩ := hclass
  obtain ⟨-, c, hc, ⟨hkept, -, -⟩ | ⟨-, -, rfl⟩⟩ := keepClass_ok.mp hkeep
  · cases hclass.symm.trans hc
    cases hkept
  · have hsize : r₁.rows.size = r.rows.size + 1 := by
      rw [hsame.size_eq]
      exact Array.size_push ..
    refine ⟨rfl, hnew, hroot, hsuper, hinterfaces, ⟨hwf₂, ?_, ?_, ?_, ?_⟩, ?_, ?_, ?_, ?_⟩
    · exact hh₁.modifyClass fun c => ⟨rfl, rfl, rfl⟩
    · exact (parented_created h hnew hsuper hinterfaces hsame hchild
        (children_createClass hcreate)).modifyClass
        fun c => ⟨rfl, rfl, rfl⟩
    · rw [live_modifyClass, size_modifyClass, hsize, hsame.live_eq, List.range_succ, ← h.live_eq]
      rfl
    · rw [closed_modifyClass, hsame.frame]
      exact hopen
    · rw [size_modifyClass, hsize]
    · intro name
      rw [find?_modifyClass, hsame.find?_eq, find?_enlist]
      rfl
    · refine ⟨children, ?_⟩
      rw [classAt?_modifyClass, if_pos rfl, hclass, Option.map_some]
    · intro p c hp
      have hne : r.rows.size ≠ p := Nat.ne_of_gt (classAt?_lt hp)
      rw [classAt?_modifyClass, if_neg hne]
      apply hsame.classes
      show (r.store (spec.toClass r.rows.size)).classAt? p = _
      rw [classAt?_store, if_neg hne.symm, hp]

/-- Loading: `l'` has more classes than `l`, whose static initializers are pending, and keeps the
same members and references. -/
structure Loads (l l' : Linker) : Prop where
  grows : l.registry.Grows l'.registry
  root_eq : l'.root = l.root
  builtins_eq : l'.builtins = l.builtins
  arrays : ∀ {id name a}, l.arraysOf id name = some a → l'.arraysOf id name = some a
  arrays_old : ∀ {id name a}, l'.arraysOf id name = some a →
    l.arraysOf id name = some a ∨ l.registry.rows.size ≤ id
  members : ∀ {row sig}, l'.registry.KeepsMember row sig → l.registry.KeepsMember row sig
  refs : ∀ {a}, l'.registry.KeepsRef a → l.registry.KeepsRef a
  pending : ∀ {m}, m ∈ l.pending → m ∈ l'.pending
  pending_new : ∀ {m}, m ∈ l'.pending → m ∈ l.pending ∨ ∃ row c d, l.registry.rows.size ≤ row ∧
    l'.registry.classAt? row = some c ∧ c.declared? Signature.initializer = some d ∧
    m = c.member Signature.initializer
  initializers : ∀ {row c d}, l.registry.rows.size ≤ row → l'.registry.classAt? row = some c →
    c.declared? Signature.initializer = some d → c.member Signature.initializer ∈ l'.pending
  expansions_eq : l'.expansions = l.expansions
  /-- No more becomes pending than there are new initializers. -/
  pending_length : l'.pending.length + l.registry.sumOf Class.initializerCount ≤
    l.pending.length + l'.registry.sumOf Class.initializerCount

theorem Builds.find?_eq {row : Nat} {l l' : Linker} (h : Builds row l l') (name : Text) :
    l'.registry.find? name = l.registry.find? name := by rw [h.frame]; rfl

theorem Builds.live_eq {row : Nat} {l l' : Linker} (h : Builds row l l') :
    l'.registry.live = l.registry.live := by rw [h.frame]

namespace Loads

variable {l l' l'' : Linker}

theorem refl (l : Linker) : Loads l l where
  grows := .refl _
  root_eq := rfl
  builtins_eq := rfl
  arrays ha := ha
  arrays_old ha := Or.inl ha
  members hk := hk
  refs hk := hk
  pending hm := hm
  pending_new hm := Or.inl hm
  initializers hle hc := absurd (classAt?_lt hc) (Nat.not_lt.mpr hle)
  expansions_eq := rfl
  pending_length := Nat.le_refl _

theorem trans (h : Loads l l') (h' : Loads l' l'') : Loads l l'' where
  grows := h.grows.trans h'.grows
  root_eq := h'.root_eq.trans h.root_eq
  builtins_eq := h'.builtins_eq.trans h.builtins_eq
  arrays ha := h'.arrays (h.arrays ha)
  arrays_old {id name a} ha := by
    have hsize := h.grows.size_le
    rcases h'.arrays_old ha with ha | hle
    · exact h.arrays_old ha
    · exact Or.inr (Nat.le_trans hsize hle)
  members hk := h.members (h'.members hk)
  refs hk := h.refs (h'.refs hk)
  pending hm := h'.pending (h.pending hm)
  pending_new {m} hm := by
    have hsize := h.grows.size_le
    rcases h'.pending_new hm with hm | ⟨row, c, d, hle, hc, hd, rfl⟩
    · rcases h.pending_new hm with hm | ⟨row, c, d, hle, hc, hd, rfl⟩
      · exact Or.inl hm
      · obtain ⟨c', hc', hgrow⟩ := h'.grows.classes hc
        obtain ⟨d', hd', -⟩ := hgrow.declared?_some hd
        exact Or.inr ⟨row, c', d', hle, hc', hd', (hgrow.member_eq _).symm⟩
    · exact Or.inr ⟨row, c, d, Nat.le_trans hsize hle, hc, hd, rfl⟩
  initializers {row c d} hle hc hd := by
    by_cases hlt : row < l'.registry.rows.size
    · obtain ⟨c₁, d₁, hc₁, hd₁, hmember⟩ := h'.grows.declared_old hc hd hlt
      rw [hmember]
      exact h'.pending (h.initializers hle hc₁ hd₁)
    · exact h'.initializers (Nat.le_of_not_lt hlt) hc hd
  expansions_eq := h'.expansions_eq.trans h.expansions_eq
  pending_length := by
    have hfirst := h.pending_length
    have hsecond := h'.pending_length
    omega

/-- The classes that were there get no more references to array classes. -/
theorem arraysOf_eq (h : Loads l l') {id : Nat} (hlt : id < l.registry.rows.size) :
    l'.arraysOf id = l.arraysOf id := by
  funext name
  cases ha : l'.arraysOf id name with
  | some a =>
      rcases h.arrays_old ha with ha | hle
      · exact ha.symm
      · omega
  | none =>
      cases hold : l.arraysOf id name with
      | none => rfl
      | some a =>
          rw [h.arrays hold] at ha
          cases ha

end Loads

theorem Created.grows {spec : ClassSpec} {r r' : Registry} (h : Created spec r r') (hr : r.Tidy) :
    r.Grows r' := by
  refine ⟨?_, ?_, ?_⟩
  · intro name row hrow
    have hne : name ≠ spec.name := by
      rintro rfl
      rw [h.fresh] at hrow
      cases hrow
    rw [h.find?_eq, if_neg hne]
    exact hrow
  · rw [h.tidy.live_eq, hr.live_eq, h.size_eq, List.range_succ]
    exact List.prefix_append ..
  · intro row c hc
    obtain ⟨children, hc'⟩ := h.other hc
    exact ⟨_, hc', { Class.Grows.refl c with frame := rfl }⟩

/-! ### A new class that is worked on -/

section Worked

variable {spec : ClassSpec} {l l₁ l₂ : Linker} {c : Class}
  (hcreated : Created spec l.registry l₁.registry) (hbuilds : Builds l.registry.rows.size l₁ l₂)

include hcreated hbuilds

theorem Created.other_of_builds {row : Nat} {c : Class} (hc : l.registry.classAt? row = some c) :
    ∃ children, l₂.registry.classAt? row = some { c with children := children } := by
  obtain ⟨children, hc₁⟩ := hcreated.other hc
  exact ⟨children, by rw [hbuilds.other (Nat.ne_of_lt (classAt?_lt hc))]; exact hc₁⟩

theorem Created.grows_of_builds (htidy : l.registry.Tidy) : l.registry.Grows l₂.registry := by
  refine ⟨?_, ?_, ?_⟩
  · intro name row hrow
    rw [hbuilds.find?_eq]
    exact (hcreated.grows htidy).find hrow
  · rw [hbuilds.live_eq]
    exact (hcreated.grows htidy).live
  · intro row c hc
    obtain ⟨children, hc'⟩ := hcreated.other_of_builds hbuilds hc
    exact ⟨_, hc', { Class.Grows.refl c with frame := rfl }⟩

/-- A row is an old one, whose class is as before, or the new one. -/
theorem Created.row_cases (hc : l₂.registry.classAt? l.registry.rows.size = some c) {row : Nat}
    {c' : Class} (hc' : l₂.registry.classAt? row = some c') :
    (∃ c, l.registry.classAt? row = some c ∧ c' = { c with children := c'.children }) ∨
      row = l.registry.rows.size ∧ c' = c := by
  have hlt := classAt?_lt hc'
  rw [hbuilds.size_eq, hcreated.size_eq] at hlt
  by_cases hrow : row = l.registry.rows.size
  · subst hrow
    cases hc.symm.trans hc'
    exact Or.inr ⟨rfl, rfl⟩
  · have hold : row < l.registry.rows.size := by omega
    obtain ⟨c₀, hc₀⟩ := exists_classAt? hold
    obtain ⟨children, hc₂⟩ := hcreated.other_of_builds hbuilds hc₀
    cases hc'.symm.trans hc₂
    exact Or.inl ⟨c₀, hc₀, rfl⟩

theorem Created.keepsMember_old (hc : l₂.registry.classAt? l.registry.rows.size = some c)
    (hunkept : ∀ {sig d}, c.declared? sig = some d → d.kept = false) {row : Nat} {sig : Signature}
    (hkept : l₂.registry.KeepsMember row sig) : l.registry.KeepsMember row sig := by
  obtain ⟨c', d, hc', hd, hk⟩ := hkept
  rcases hcreated.row_cases hbuilds hc hc' with ⟨c₀, hc₀, heq⟩ | ⟨rfl, rfl⟩
  · rw [heq] at hd
    exact ⟨c₀, d, hc₀, hd, hk⟩
  · rw [hunkept hd] at hk
    cases hk

theorem Created.keepsRef_old (hc : l₂.registry.classAt? l.registry.rows.size = some c)
    {a : RefAddr} (hkept : l₂.registry.KeepsRef a) : l.registry.KeepsRef a := by
  obtain ⟨ref, href, hk⟩ := hkept
  obtain ⟨c', hc', href⟩ := refAt?_eq_some.mp href
  rcases hcreated.row_cases hbuilds hc hc' with ⟨c₀, hc₀, heq⟩ | ⟨-, rfl⟩
  · rw [heq] at href
    exact ⟨ref, refAt?_eq_some.mpr ⟨c₀, hc₀, href⟩, hk⟩
  · obtain ⟨children, hc₁⟩ := hcreated.this
    obtain ⟨c', hc', -, -, hnew⟩ := hbuilds.this hc₁
    cases hc.symm.trans hc'
    rcases hnew href with href | hunkept
    · simp [ClassSpec.toClass] at href
    · rw [hunkept] at hk
      cases hk

theorem Created.initializerCount_le (hc : l₂.registry.classAt? l.registry.rows.size = some c) :
    l.registry.sumOf Class.initializerCount + c.initializerCount ≤
      l₂.registry.sumOf Class.initializerCount := by
  refine sumOf_add_le (fun {row c} hc => ?_) hc
  obtain ⟨children, hc₂⟩ := hcreated.other_of_builds hbuilds hc
  exact ⟨_, hc₂, Nat.le_refl _⟩

end Worked

/-- Creating a class and then working on it alone, keeping nothing of it, loads it. -/
theorem loads_of_created {spec : ClassSpec} {l l₁ l₂ l' : Linker} {c : Class}
    (htidy : l.registry.Tidy) (hcreated : Created spec l.registry l₁.registry)
    (hl₁ : l₁ = { l with registry := l₁.registry }) (hbuilds : Builds l.registry.rows.size l₁ l₂)
    (hl' : l' = { l₂ with pending := l'.pending })
    (hc : l₂.registry.classAt? l.registry.rows.size = some c)
    (hunkept : ∀ {sig d}, c.declared? sig = some d → d.kept = false)
    (hpending : l'.pending = (if (c.declared? Signature.initializer).isSome then
      [c.member Signature.initializer] else []) ++ l.pending) : Loads l l' := by
  have hreg : l'.registry = l₂.registry := by rw [hl']
  have hroot : l₁.root = l.root := by rw [hl₁]
  have hbuiltins : l₁.builtins = l.builtins := by rw [hl₁]
  have hexpansions : l₁.expansions = l.expansions := by rw [hl₁]
  constructor
  case grows => exact hreg ▸ hcreated.grows_of_builds hbuilds htidy
  case root_eq => rw [hl', hbuilds.frame, ← hroot]
  case builtins_eq => rw [hl', hbuilds.frame, ← hbuiltins]
  case expansions_eq => rw [hl', hbuilds.frame, ← hexpansions]
  case arrays =>
    intro id name a ha
    rw [hl']
    exact hbuilds.arrays (by rw [hl₁]; exact ha)
  case arrays_old =>
    intro id name a ha
    rw [hl'] at ha
    rcases hbuilds.arrays_old ha with ha | hrow
    · rw [hl₁] at ha
      exact Or.inl ha
    · exact Or.inr (Nat.le_of_eq hrow.symm)
  case members => exact fun hkept => hcreated.keepsMember_old hbuilds hc hunkept (hreg ▸ hkept)
  case refs => exact fun hkept => hcreated.keepsRef_old hbuilds hc (hreg ▸ hkept)
  case pending =>
    intro m hm
    rw [hpending]
    exact List.mem_append_right _ hm
  case pending_new =>
    intro m hm
    rw [hpending] at hm
    rcases List.mem_append.mp hm with hm | hm
    · split at hm
      · rename_i hsome
        obtain ⟨d, hd⟩ := Option.isSome_iff_exists.mp hsome
        rw [List.mem_singleton.mp hm, hreg]
        exact Or.inr ⟨_, c, d, Nat.le_refl _, hc, hd, rfl⟩
      · cases hm
    · exact Or.inl hm
  case initializers =>
    intro row c' d hle hc' hd
    rw [hreg] at hc'
    rcases hcreated.row_cases hbuilds hc hc' with ⟨c₀, hc₀, -⟩ | ⟨rfl, rfl⟩
    · exact absurd (classAt?_lt hc₀) (Nat.not_lt.mpr hle)
    · rw [hpending, if_pos (by rw [hd]; rfl)]
      exact List.mem_append_left _ (List.mem_singleton.mpr rfl)
  case pending_length =>
    have hmore := hcreated.initializerCount_le hbuilds hc
    have hlength : l'.pending.length = c.initializerCount + l.pending.length := by
      rw [hpending, List.length_append, Class.initializerCount]
      simp only [Option.isSome_iff_exists, Class.exists_declared?]
      split <;> rfl
    rw [hreg]
    omega

namespace Filling

variable {d : ClassDecl} {l l₁ l₂ l₃ l₄ : Linker}

/-- A new class has nothing of its declaration yet. -/
theorem start (hcreated : Created d.spec l.registry l₁.registry)
    (hl₁ : l₁ = { l with registry := l₁.registry })
    (hfresh : ∀ name, l.arraysOf l.registry.rows.size name = none) :
    Filling l.root d l.registry.rows.size l₁ [] [] [] l₁ := by
  have hnone : ∀ t, l₁.arraysOf l.registry.rows.size t = none := by
    intro t
    rw [hl₁]
    exact hfresh t
  obtain ⟨children, hclass⟩ := hcreated.this
  refine ⟨.refl _ _, hcreated.tidy, by rw [hl₁], fun _ => hnone, _, hclass, .nil, .nil, ?_, by simp⟩
  refine ⟨?_, by simp, ?_, ?_⟩
  · intro pos hpos
    exact absurd hpos (Nat.not_lt_zero _)
  · intro pos ref href
    simp [ClassDecl.spec, ClassSpec.toClass] at href
  · intro t a ha
    rw [hnone t] at ha
    cases ha

/-- Registering the pool, the fields and the methods of a declaration. -/
theorem declared {root : Text} {row : Nat} (h : Filling root d row l₁ [] [] [] l₁)
    (hpool : d.pool.forM (Closure.registerSlot d row) l₁ = .ok () l₂)
    (hfields : d.fields.forM (Closure.registerField row) l₂ = .ok () l₃)
    (hmethods : d.methods.forM (Closure.registerMethod d row) l₃ = .ok () l₄) :
    Filling root d row l₁ d.pool d.fields d.methods l₄ := by
  have h₂ : Filling root d row l₁ d.pool [] [] l₂ :=
    forM_accumulates (P := fun done => Filling root d row l₁ done [] [])
      (fun done p s t hs ht => hs.registerSlot ht) h hpool
  have h₃ : Filling root d row l₁ d.pool d.fields [] l₃ :=
    forM_accumulates (P := fun done => Filling root d row l₁ d.pool done [])
      (fun done f s t hs ht => hs.registerField ht) h₂ hfields
  exact forM_accumulates (P := Filling root d row l₁ d.pool d.fields)
    (fun done m s t hs ht => hs.registerMethod ht) h₃ hmethods

/-- Nothing of a class is kept when it is registered. -/
theorem unkept {root : Text} {row : Nat} {slots : List PoolSlot} {fields : List FieldDecl}
    {methods : List MethodDecl} {c : Class} (h : Filling root d row l₁ slots fields methods l₂)
    (hc : l₂.registry.classAt? row = some c) {sig : Signature} {decl : Declaration}
    (hdecl : c.declared? sig = some decl) : decl.kept = false := by
  obtain ⟨c', hc', hfs, hms, -, -⟩ := h.filled
  cases hc.symm.trans hc'
  obtain ⟨m, hm, rfl, -⟩ | ⟨f, hf, rfl, -⟩ := Class.mem_of_declared? hdecl
  · obtain ⟨md, -, hmd⟩ := forall₂_mem_right hms hm
    exact hmd.2
  · obtain ⟨fd, -, rfl⟩ := forall₂_mem_right hfs hf
    rfl

end Filling

/-- Registering a declared class. -/
theorem register_loads {d : ClassDecl} {l l' : Linker} (htidy : l.registry.Tidy)
    (hfresh : ∀ name, l.arraysOf l.registry.rows.size name = none)
    (hok : register d l = .ok () l') :
    Loads l l' ∧ l'.registry.Tidy ∧ l'.registry.rows.size = l.registry.rows.size + 1 ∧
      (∀ name, l'.registry.find? name =
        if name = d.name then some l.registry.rows.size else l.registry.find? name) ∧
      (∃ c, l'.registry.classAt? l.registry.rows.size = some c ∧ c.kept = true ∧
        c.Describes l.root d l.registry.rows.size (l'.arraysOf l.registry.rows.size)) ∧
      ∀ {id name a}, l'.arraysOf id name = some a → l.arraysOf id name = some a ∨
        id = l.registry.rows.size := by
  have hregister := hok
  simp only [register, bind_ok, get_ok, ite_ok, fail_ok, false_and, exists_false, and_false,
    false_or, readClass_ok, discard_ok, push_ok, pure_ok, and_assoc] at hok
  obtain ⟨_, _, rfl, rfl, -, row, _, hstored, _, l₁, ⟨fresh, hmarked⟩, _, l₂, hpool, _, l₃, hfields,
    _, l₄, hmethods, c, _, hc, rfl, hpush⟩ := hok
  obtain ⟨r₀, hcreate, rfl⟩ := onRegistry_ok.mp hstored
  obtain ⟨r₁, hkeep, hl₁⟩ := onRegistry_ok.mp hmarked
  obtain ⟨rfl, hcreated⟩ := created htidy hcreate hkeep
  have hreg₁ : l₁.registry = r₁ := by rw [← hl₁]
  have hl₁' : l₁ = { l with registry := l₁.registry } := by rw [← hl₁]
  rw [← hreg₁] at hcreated
  obtain ⟨children, hclass⟩ := hcreated.this
  have h₄ := (Filling.start hcreated hl₁' hfresh).declared hpool hfields hmethods
  obtain ⟨c', hc', hfs, hms, hfilled, hholds⟩ := h₄.filled
  cases hc.symm.trans hc'
  obtain ⟨c', hc', hframe, -, -⟩ := h₄.builds.this hclass
  cases hc.symm.trans hc'
  have hlast : l'.pending = (if (c.declared? Signature.initializer).isSome then
      [c.member Signature.initializer] else []) ++ l.pending ∧
      l' = { l₄ with pending := l'.pending } := by
    have hpending : l₄.pending = l.pending := by rw [h₄.builds.frame, hl₁']
    rcases hpush with ⟨hsome, rfl⟩ | ⟨hnone, -, rfl⟩
    · rw [if_pos hsome]
      exact ⟨congrArg _ hpending, rfl⟩
    · rw [if_neg hnone]
      exact ⟨hpending, rfl⟩
  obtain ⟨hpending, hl'⟩ := hlast
  have hreg : l'.registry = l₄.registry := by rw [hl']
  have harrays : ∀ id, l'.arraysOf id = l₄.arraysOf id := fun id => by rw [hl']; rfl
  refine ⟨loads_of_created htidy hcreated hl₁' h₄.builds hl' hc (h₄.unkept hc) hpending, ?_, ?_, ?_, ?_, ?_⟩
  · rw [hreg]
    exact h₄.tidy
  · rw [hreg, h₄.builds.size_eq, hcreated.size_eq]
  · intro name
    rw [hreg, h₄.builds.find?_eq, hcreated.find?_eq]
  · refine ⟨c, by rw [hreg]; exact hc, by rw [hframe], ?_⟩
    rw [harrays]
    refine ⟨by rw [hframe]; rfl, by rw [hframe]; rfl, by rw [hframe]; rfl, by rw [hframe]; rfl, ?_,
      ?_, hfilled, hholds, l, l', c, htidy, hfresh, rfl, hregister, by rw [hreg]; exact hc, rfl⟩
    · exact hfs.imp fun decl f hf => by rw [Field.Describes, hf]
    · exact hms.imp fun decl m hm => hm.1
  · intro id name a ha
    rw [harrays] at ha
    rcases h₄.builds.arrays_old ha with ha | hrow
    · rw [hl₁'] at ha
      exact Or.inl ha
    · exact Or.inr hrow

end Closure

end ClassLinker
