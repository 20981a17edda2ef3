import ClassLinker.Closure.Require
import ClassLinker.Proofs.Closure.Load

/-! Reachability. The rules say what a class, a member, a reference or a catalog entry brings; what
is reached from some seeds is the least set closed under them. The steps of a link add nothing that
what they were asked for does not bring, and they lose nothing that was there. -/

namespace ClassLinker

open Closure Registry

/-- Something that a link may need: a class, a member to be looked up in a class, a member of the
class that declares it, a reference at a slot of a class, or a catalog entry. -/
inductive Item where
  | cls (name : Text)
  | lookup (m : Member)
  | member (owner : Text) (sig : Signature)
  | ref (owner : Text) (slot : Int)
  | builtin (id : Nat)

/-- What a declared method uses, as it is registered. -/
def MethodDecl.uses (root : Text) (d : ClassDecl) (m : MethodDecl) : List Use :=
  Use.ofMethod (methodSpec root d m).code (methodSpec root d m).handlers m.throws

/-- The signature of a declared method. -/
def MethodDecl.sig (m : MethodDecl) : Signature := ⟨m.name, m.descriptor⟩

/-- The signatures that a class declares. -/
def ClassDecl.signatures (d : ClassDecl) : List Signature :=
  d.methods.map MethodDecl.sig ++ d.fields.map fun f => ⟨f.name, f.descriptor⟩

section Describes

variable {root : Text} {d : ClassDecl} {row : Nat} {arrays : Text → Option RefAddr} {c : Class}
  {decl : MethodDecl} {m : Method}

theorem Method.Describes.sig_eq (h : m.Describes root d row arrays c decl) : m.sig = decl.sig := by
  rw [h.frame]
  rfl

/-- What was recorded for a registered method is what its declaration uses. -/
theorem Method.Describes.recorded (h : m.Describes root d row arrays c decl) :
    m.Records c row arrays (decl.uses root d) := by
  have hrecords := h.records
  have huses : Use.ofMethod m.rawCode m.handlers decl.throws = decl.uses root d := by
    rw [h.frame]
    rfl
  rwa [huses] at hrecords

end Describes

/-- The slot of a use. -/
def Use.slot? : Use → Option Int
  | member slot => some slot
  | classAt slot => some slot
  | constant slot => some slot
  | _ => none

/-- The member that a catalog entry names. -/
def Builtin.target (e : Builtin) : Member := ⟨e.className, e.member, e.descriptor⟩

/-- The reference known at a slot of a registered class. -/
def Registry.reference? (r : Registry) (owner : Text) (slot : Int) : Option Reference := do
  let row ← r.find? owner
  let c ← r.classAt? row
  let (_, ref) ← c.known? slot
  return ref

/-- What one item brings, with the lookups and the references of a registry. -/
inductive Brings (s : Source) (root : Text) (r : Registry) : Item → Item → Prop
  | supertype {name t d} : s.load name = .ok d → t ∈ supertypes d →
      Brings s root r (.cls name) (.cls t)
  | arrayRoot {name} : name.head? = some (Text.byte '[') → Brings s root r (.cls name) (.cls root)
  | arrayElement {name e} : name.head? = some (Text.byte '[') → elementName? name = some e →
      Brings s root r (.cls name) (.cls e)
  | initializer {name d} : s.load name = .ok d → Signature.initializer ∈ d.signatures →
      Brings s root r (.cls name) (.member name Signature.initializer)
  | lookupClass {m} : Brings s root r (.lookup m) (.cls m.className)
  | lookupMember {m row c d} : r.findMember m = .ok (row, d) → r.classAt? row = some c →
      Brings s root r (.lookup m) (.member c.name m.sig)
  | reference {name d m u slot} : s.load name = .ok d → m ∈ d.methods → u ∈ m.uses root d →
      u.slot? = some slot → Brings s root r (.member name m.sig) (.ref name slot)
  | arrayClass {name d m slot ref target id} : s.load name = .ok d → m ∈ d.methods →
      .arrayAt slot ∈ m.uses root d → r.reference? name slot = some ref →
      ref.body = .classRef target id → Brings s root r (.member name m.sig) (.cls (arrayOf target))
  /-- The reference to that array class is one that the declaration does not have. -/
  | arrayReference {name d m slot ref target id slot' ref' id'} : s.load name = .ok d →
      m ∈ d.methods → .arrayAt slot ∈ m.uses root d → r.reference? name slot = some ref →
      ref.body = .classRef target id → slot' ∉ d.pool.map PoolSlot.slot →
      r.reference? name slot' = some ref' → ref'.body = .classRef (arrayOf target) id' →
      Brings s root r (.member name m.sig) (.ref name slot')
  | primitives {name d m code} : s.load name = .ok d → m ∈ d.methods →
      .primitives code ∈ m.uses root d →
      Brings s root r (.member name m.sig) (.cls (Primitive.arrayName code))
  | triggered {name d m} {id : Nat} : s.load name = .ok d → m ∈ d.methods →
      .builtin id ∈ m.uses root d → Brings s root r (.member name m.sig) (.builtin id)
  | refClass {name slot ref target id} : r.reference? name slot = some ref →
      ref.body = .classRef target id → Brings s root r (.ref name slot) (.cls target)
  | refMember {name slot ref m t d k i} : r.reference? name slot = some ref →
      ref.body = .memberRef m t d k i → Brings s root r (.ref name slot) (.lookup m)
  | refString {name slot ref text} : r.reference? name slot = some ref →
      ref.body = .literal (.string text) → Brings s root r (.ref name slot) (.cls stringClass)
  | builtinClass {e id} : Builtin.catalog[id]? = some e →
      Brings s root r (.builtin id) (.cls e.className)
  | builtinMember {e id} : Builtin.catalog[id]? = some e → e.isMember = true →
      Brings s root r (.builtin id) (.lookup e.target)
  | classEntry {e id} : Builtin.catalog[id]? = some e →
      Brings s root r (.builtin id) (.builtin e.classEntry)
  | step {e id next} : Builtin.catalog[id]? = some e → next ∈ e.steps →
      Brings s root r (.builtin id) (.builtin next)

/-- What is reached from some seeds. -/
inductive Reached (s : Source) (root : Text) (r : Registry) (seeds : List Item) : Item → Prop
  | seed {x} : x ∈ seeds → Reached s root r seeds x
  | brought {x y} : Reached s root r seeds x → Brings s root r x y → Reached s root r seeds y

/-- A set of items that is closed under the rules. -/
def ClosedUnder (s : Source) (root : Text) (r : Registry) (Q : Item → Prop) : Prop :=
  ∀ {x y}, Q x → Brings s root r x y → Q y

/-- A member is wanted when its class and the member that a lookup finds are in the set, because the
lookup is or because the class itself has the member. -/
def Wanted (r : Registry) (Q : Item → Prop) (m : Member) : Prop :=
  Q (.cls m.className) ∧
    (∀ {row c d}, r.findMember m = .ok (row, d) → r.classAt? row = some c →
      Q (.member c.name m.sig)) ∧
    (Q (.lookup m) ∨ Q (.member m.className m.sig))

/-- Everything that a link has registered, kept or still to require is in a set of items. -/
structure Linker.Within (r : Registry) (Q : Item → Prop) (l : Linker) : Prop where
  classes : ∀ {row c}, l.registry.classAt? row = some c → Q (.cls c.name)
  members : ∀ {row c sig}, l.registry.classAt? row = some c → l.registry.KeepsMember row sig →
    Q (.member c.name sig)
  refs : ∀ {row c} {pos : Nat} {ref : Reference}, l.registry.classAt? row = some c →
    c.pool[pos]? = some ref → ref.kept = true → Q (.ref c.name ref.slot)
  builtins : ∀ {id}, id ∈ l.builtins → Q (.builtin id)
  pending : ∀ {m}, m ∈ l.pending → Wanted r Q m

/-- Nothing is registered yet, so any set of items will do. -/
theorem Linker.within_empty (r : Registry) (Q : Item → Prop) (root : Text) :
    Linker.Within r Q { root := root } := by
  have hnone : ∀ {row : Nat} {c : Class}, ({} : Registry).classAt? row ≠ some c := by
    intro row c hc
    simp [classAt?] at hc
  exact ⟨fun hc => absurd hc hnone, fun hc => absurd hc hnone, fun hc => absurd hc hnone,
    fun hid => absurd hid List.not_mem_nil, fun hm => absurd hm List.not_mem_nil⟩

/-- What a link counts is right: the kept catalog entries are in order, and one expansion was counted
for each kept method. -/
structure Linker.Counted (l : Linker) : Prop where
  sorted : l.builtins.Pairwise (· < ·)
  expansions_eq : l.expansions = l.registry.sumOf Class.keptCount

/-- A step that keeps nothing more counts nothing more. -/
theorem Linker.Counted.grows {l l' : Linker} (h : l.Counted) (hr : l.registry.Tidy)
    (hr' : l'.registry.Tidy) (hgrows : l.registry.Grows l'.registry)
    (hmembers : ∀ {row sig}, l'.registry.KeepsMember row sig → l.registry.KeepsMember row sig)
    (hbuiltins : l'.builtins = l.builtins) (hexpansions : l'.expansions = l.expansions) :
    l'.Counted := by
  refine ⟨by rw [hbuiltins]; exact h.sorted, ?_⟩
  rw [hexpansions, h.expansions_eq]
  exact (hgrows.sumOf_keptWeight_eq hr.wellFormed hr'.wellFormed (fun _ => rfl) hmembers).symm

namespace Closure

open LinkM RegistryM Step

/-- A step of a link that was asked for an item: it loses nothing, it keeps no further member, and
it adds nothing that the item does not bring. -/
structure Follows (s : Source) (x : Item) (l l' : Linker) : Prop where
  wired : l'.Wired s
  grows : l.registry.Grows l'.registry
  root_eq : l'.root = l.root
  arrays : ∀ {id}, id < l.registry.rows.size → l'.arraysOf id = l.arraysOf id
  members : ∀ {row sig}, l'.registry.KeepsMember row sig → l.registry.KeepsMember row sig
  builtins : ∀ {id}, id ∈ l.builtins → id ∈ l'.builtins
  pending : ∀ {m}, m ∈ l.pending → m ∈ l'.pending
  initializers : ∀ {row c d}, l.registry.rows.size ≤ row → l'.registry.classAt? row = some c →
    c.declared? Signature.initializer = some d → c.member Signature.initializer ∈ l'.pending
  within : ∀ {r : Registry} {Q : Item → Prop}, ClosedUnder s l.root r Q →
    l'.registry.Grows r → Q x → l.Within r Q → l'.Within r Q
  counted : l.Counted → l'.Counted

namespace Follows

variable {s : Source} {x y : Item} {l l' l'' : Linker}

theorem refl (hw : l.Wired s) (x : Item) : Follows s x l l where
  wired := hw
  grows := .refl _
  root_eq := rfl
  arrays _ := rfl
  members hk := hk
  builtins hid := hid
  pending hm := hm
  initializers hle hc := absurd (classAt?_lt hc) (Nat.not_lt.mpr hle)
  within _ _ _ hin := hin
  counted hl := hl

theorem trans (h : Follows s x l l') (h' : Follows s x l' l'') : Follows s x l l'' where
  wired := h'.wired
  grows := h.grows.trans h'.grows
  root_eq := h'.root_eq.trans h.root_eq
  arrays hlt := (h'.arrays (Nat.lt_of_lt_of_le hlt h.grows.size_le)).trans (h.arrays hlt)
  members hk := h.members (h'.members hk)
  builtins hid := h'.builtins (h.builtins hid)
  pending hm := h'.pending (h.pending hm)
  initializers {row c d} hle hc hd := by
    by_cases hlt : row < l'.registry.rows.size
    · obtain ⟨c₁, d₁, hc₁, hd₁, hmember⟩ := h'.grows.declared_old hc hd hlt
      rw [hmember]
      exact h'.pending (h.initializers hle hc₁ hd₁)
    · exact h'.initializers (Nat.le_of_not_lt hlt) hc hd
  within {r Q} hclosed hr hx hin :=
    h'.within (h.root_eq ▸ hclosed) hr hx (h.within hclosed (h'.grows.trans hr) hx hin)
  counted hl := h'.counted (h.counted hl)

/-- What an item brings, everything that brings the item brings. -/
theorem of_brought (h : Follows s y l l')
    (hbrought : ∀ {r Q}, ClosedUnder s l.root r Q → l'.registry.Grows r → Q x → Q y) :
    Follows s x l l' where
  wired := h.wired
  grows := h.grows
  root_eq := h.root_eq
  arrays := h.arrays
  members := h.members
  builtins := h.builtins
  pending := h.pending
  initializers := h.initializers
  within hclosed hr hx hin := h.within hclosed hr (hbrought hclosed hr hx) hin
  counted := h.counted

end Follows

variable {s : Source} {l l' : Linker}

/-- Marking things in the registry of a link. -/
theorem wired_of_grows {r : Registry} (hw : l.Wired s) (htidy : r.Tidy)
    (hgrows : l.registry.Grows r) (hsize : r.rows.size = l.registry.rows.size) :
    ({ l with registry := r } : Linker).Wired s :=
  hw.step htidy hgrows rfl (fun _ => rfl)
    (fun hle hc => absurd (hsize ▸ classAt?_lt hc) (Nat.not_lt.mpr hle))
    fun ha => hsize ▸ hw.arrays_lt ha

theorem keepRef_tidy {r r' : Registry} (h : r.Tidy) {a : RefAddr} {fresh : Bool}
    (hok : keepRef a r = .ok fresh r') : r'.Tidy ∧ r'.rows.size = r.rows.size := by
  have hwf := keepRef_wellFormed h.wellFormed a
  rw [hok] at hwf
  obtain ⟨-, ref, -, -, ⟨-, -, rfl⟩ | ⟨-, -, rfl⟩⟩ := keepRef_ok.mp hok
  · exact ⟨h, rfl⟩
  · exact ⟨h.modifyClass hwf fun c => ⟨rfl, rfl, rfl, rfl⟩, size_modifyClass ..⟩

theorem keepMember_tidy {r r' : Registry} (h : r.Tidy) {row : Nat} {sig : Signature} {fresh : Bool}
    (hok : keepMember row sig r = .ok fresh r') : r'.Tidy ∧ r'.rows.size = r.rows.size := by
  have hwf := keepMember_wellFormed h.wellFormed row sig
  rw [hok] at hwf
  obtain ⟨-, c, -, -, ⟨-, -, rfl⟩ | ⟨-, -, rfl⟩⟩ := keepMember_ok.mp hok
  · exact ⟨h, rfl⟩
  · refine ⟨h.modifyClass hwf fun c => ?_, size_modifyClass ..⟩
    have hgrow := Class.Grows.markMember c sig
    refine ⟨hgrow.name_eq, hgrow.super_eq, hgrow.interfaces_eq, ?_⟩
    unfold markMember
    split <;> rfl

/-- Keeping a reference. -/
theorem keepRef_follows {a : RefAddr} {fresh : Bool} {c : Class} {ref : Reference}
    (hw : l.Wired s) (hc : l.registry.classAt? a.row = some c) (href : c.pool[a.pos]? = some ref)
    (hok : onRegistry (keepRef a) l = .ok fresh l') :
    Follows s (.ref c.name ref.slot) l l' ∧ l'.registry.KeepsRef a ∧
      (∀ {b}, l'.registry.KeepsRef b → l.registry.KeepsRef b ∨ b = a) := by
  obtain ⟨r, hkeep, rfl⟩ := onRegistry_ok.mp hok
  obtain ⟨htidy, hsize⟩ := keepRef_tidy hw.tidy hkeep
  have hgrows := keepRef_grows hkeep
  refine ⟨?_, keepRef_keeps hkeep, keepsRef_of_keepRef hkeep⟩
  refine ⟨wired_of_grows hw htidy hgrows hsize, hgrows, rfl, fun _ => rfl,
    keepsMember_of_keepRef hkeep, fun hid => hid, fun hm => hm, ?_, ?_, fun hl =>
    hl.grows hw.tidy htidy hgrows (keepsMember_of_keepRef hkeep) rfl rfl⟩
  · intro row c' d hle hc'
    exact absurd (hsize ▸ classAt?_lt hc') (Nat.not_lt.mpr hle)
  · intro r' Q _ _ hx hin
    refine ⟨?_, ?_, ?_, hin.builtins, hin.pending⟩
    · intro row c' hc'
      obtain ⟨c₀, hc₀, hgrow⟩ := hgrows.exists_old hc' (hsize ▸ classAt?_lt hc')
      rw [hgrow.name_eq]
      exact hin.classes hc₀
    · intro row c' sig hc' hkept
      obtain ⟨c₀, hc₀, hgrow⟩ := hgrows.exists_old hc' (hsize ▸ classAt?_lt hc')
      rw [hgrow.name_eq]
      exact hin.members hc₀ (keepsMember_of_keepRef hkeep hkept)
    · intro row c' pos ref' hc' href' hkept
      obtain ⟨c₀, hc₀, hgrow⟩ := hgrows.exists_old hc' (hsize ▸ classAt?_lt hc')
      obtain ⟨ref₀, href₀, hrefgrow⟩ := hgrow.pool_old href'
      rw [hgrow.name_eq, hrefgrow.slot_eq]
      rcases keepsRef_of_keepRef (b := ⟨row, pos⟩) hkeep
        ⟨ref', refAt?_eq_some.mpr ⟨c', hc', href'⟩, hkept⟩ with ⟨ref₁, href₁, hkept₁⟩ | rfl
      · obtain ⟨c₁, hc₁, hpool₁⟩ := refAt?_eq_some.mp href₁
        cases hc₀.symm.trans hc₁
        cases href₀.symm.trans hpool₁
        exact hin.refs hc₀ href₀ hkept₁
      · cases hc.symm.trans hc₀
        cases href.symm.trans href₀
        exact hx

/-- Putting a member in front of those to require. -/
theorem push_follows {m : Member} (hw : l.Wired s) :
    Follows s (.lookup m) l { l with pending := m :: l.pending } where
  wired := ⟨hw.tidy, hw.kept, hw.origin, hw.arrays_lt⟩
  grows := .refl _
  root_eq := rfl
  arrays _ := rfl
  members hk := hk
  builtins hid := hid
  pending hm := List.mem_cons_of_mem _ hm
  initializers hle hc := absurd (classAt?_lt hc) (Nat.not_lt.mpr hle)
  within {r Q} hclosed hr hx hin := by
    refine ⟨hin.classes, hin.members, hin.refs, hin.builtins, ?_⟩
    intro m' hm'
    rcases List.mem_cons.mp hm' with rfl | hm'
    · refine ⟨hclosed hx .lookupClass, ?_, .inl hx⟩
      intro row c d hfind hc
      exact hclosed hx (.lookupMember hfind hc)
    · exact hin.pending hm'
  counted hl := ⟨hl.sorted, hl.expansions_eq⟩

theorem signatures_of_describes {root : Text} {d : ClassDecl} {row : Nat}
    {arrays : Text → Option RefAddr} {c : Class} (h : c.Describes root d row arrays) :
    c.signatures = d.signatures := by
  have hm : c.methods.map Method.sig = d.methods.map MethodDecl.sig :=
    map_eq_of_forall₂ (fun hm => hm.sig_eq) h.methods
  have hf : c.fields.map Field.sig = d.fields.map fun f => ⟨f.name, f.descriptor⟩ := by
    refine map_eq_of_forall₂ (fun {decl f} hf => ?_) h.fields
    rw [hf]
    rfl
  rw [Class.signatures, ClassDecl.signatures, hm, hf]

/-- The initializer that a registered class declares is one that it brings. -/
theorem brings_initializer {r : Registry} {row : Nat} {c : Class} {d : Declaration}
    (hw : l.Wired s) (hc : l.registry.classAt? row = some c)
    (hd : c.declared? Signature.initializer = some d) :
    Brings s l.root r (.cls c.name) (.member c.name Signature.initializer) := by
  have hsig : Signature.initializer ∈ c.signatures := Class.exists_declared?.mp ⟨d, hd⟩
  rcases hw.origin hc with ⟨decl, hload, hdesc⟩ | harray
  · rw [signatures_of_describes hdesc] at hsig
    exact .initializer hload hsig
  · rw [Class.signatures, harray.methods_eq, harray.fields_eq] at hsig
    cases hsig

/-- The initializer of a registered class is found in the class itself, so it is wanted. -/
theorem wanted_initializer {r : Registry} {Q : Item → Prop} {row : Nat} {c : Class}
    {d : Declaration} (hw : l.Wired s) (hclosed : ClosedUnder s l.root r Q)
    (hr : l.registry.Grows r) (hx : Q (.cls c.name)) (hc : l.registry.classAt? row = some c)
    (hd : c.declared? Signature.initializer = some d) :
    Wanted r Q (c.member Signature.initializer) := by
  have hmember := hclosed hx (brings_initializer hw hc hd)
  refine ⟨hx, ?_, .inr hmember⟩
  intro row' c' d' hfind hc'
  obtain ⟨cr, hcr, hgrow⟩ := hr.classes hc
  obtain ⟨dr, hdr, -⟩ := hgrow.declared?_some hd
  have hown := findMember_of_declared (m := c.member Signature.initializer)
    (hr.find (hw.tidy.find_self hc)) hcr hdr
  rw [hown] at hfind
  cases hfind
  cases hcr.symm.trans hc'
  rw [hgrow.name_eq]
  exact hmember

/-- A closed set of items that has a name has everything that loading the name registers. -/
theorem LoadsFor.within {name : Text} (h : LoadsFor s name l l') (hw : l.Wired s) {r : Registry}
    {Q : Item → Prop} (hclosed : ClosedUnder s l.root r Q) (hr : l'.registry.Grows r)
    (hx : Q (.cls name)) (hin : l.Within r Q) : l'.Within r Q := by
  obtain ⟨hwired, hloads, honly⟩ := h
  have hP : s.Closed l.root fun n => Q (.cls n) :=
    ⟨fun hn hload ht => hclosed hn (.supertype hload ht),
      fun hn hbracket => hclosed hn (.arrayRoot hbracket),
      fun hn hbracket helement => hclosed hn (.arrayElement hbracket helement)⟩
  have hclasses : ∀ {row c}, l'.registry.classAt? row = some c → Q (.cls c.name) := by
    intro row c hc
    rcases honly hP hx (hwired.tidy.find_self hc) with ⟨row', hrow'⟩ | hQ
    · obtain ⟨c', hc', hname⟩ := hw.tidy.exists_class hrow'
      rw [← hname]
      exact hin.classes hc'
    · exact hQ
  refine ⟨hclasses, ?_, ?_, ?_, ?_⟩
  · intro row c sig hc hkept
    obtain ⟨c₀, d₀, hc₀, hd₀, hk₀⟩ := hloads.members hkept
    obtain ⟨c', hc', hgrow⟩ := hloads.grows.classes hc₀
    cases hc.symm.trans hc'
    rw [hgrow.name_eq]
    exact hin.members hc₀ ⟨c₀, d₀, hc₀, hd₀, hk₀⟩
  · intro row c pos ref hc href hkept
    obtain ⟨ref₀, href₀, hk₀⟩ := hloads.refs (a := ⟨row, pos⟩)
      ⟨ref, refAt?_eq_some.mpr ⟨c, hc, href⟩, hkept⟩
    obtain ⟨c₀, hc₀, hpool₀⟩ := refAt?_eq_some.mp href₀
    obtain ⟨c', hc', hgrow⟩ := hloads.grows.classes hc₀
    cases hc.symm.trans hc'
    obtain ⟨ref', href', hrefgrow⟩ := hgrow.pool hpool₀
    cases href.symm.trans href'
    rw [hgrow.name_eq, hrefgrow.slot_eq]
    exact hin.refs hc₀ hpool₀ hk₀
  · intro id hid
    rw [hloads.builtins_eq] at hid
    exact hin.builtins hid
  · intro m hm
    rcases hloads.pending_new hm with hm | ⟨p, c, d, -, hc, hd, rfl⟩
    · exact hin.pending hm
    · exact wanted_initializer hwired (hloads.root_eq ▸ hclosed) hr (hclasses hc) hc hd

/-- Loading what a name brings. -/
theorem LoadsFor.follows {name : Text} (h : LoadsFor s name l l') (hw : l.Wired s) :
    Follows s (.cls name) l l' where
  wired := h.wired
  grows := h.loads.grows
  root_eq := h.loads.root_eq
  arrays := h.loads.arraysOf_eq
  members := h.loads.members
  builtins hid := h.loads.builtins_eq ▸ hid
  pending := h.loads.pending
  initializers := h.loads.initializers
  within hclosed hr hx hin := h.within hw hclosed hr hx hin
  counted hl := hl.grows hw.tidy h.wired.tidy h.loads.grows h.loads.members h.loads.builtins_eq
    h.loads.expansions_eq

/-- Loading a class. -/
theorem loadClass_follows {name : Text} {row : Nat} (hw : l.Wired s)
    (hok : loadClass s name l = .ok row l') :
    Follows s (.cls name) l l' ∧ l'.registry.find? name = some row ∧
      (∀ {a}, l'.registry.KeepsRef a → l.registry.KeepsRef a) ∧ l'.builtins = l.builtins := by
  obtain ⟨hloads, hrow⟩ := loadClass_loads hw hok
  exact ⟨hloads.follows hw, hrow, hloads.loads.refs, hloads.loads.builtins_eq⟩

end Closure

end ClassLinker
