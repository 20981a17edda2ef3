import ClassLinker.Proofs.Registry.Reachable
import ClassLinker.Proofs.Registry.Survivors

/-! Superclass chains of reachable registries. A class is registered after its supertypes, so as long
as no compaction fails halfway a superclass stands before its subclasses, and every chain of
superclasses ends at the root. -/

namespace ClassLinker

/-- What a class was registered with, the size of its pool apart. -/
def Class.spec (c : Class) : ClassSpec where
  name := c.name
  super := c.super
  kind := c.kind
  interfaces := c.interfaces
  element := c.element
  elementType := c.elementType
  poolSize := 0

theorem Class.Grows.spec_eq {c c' : Class} (h : c.Grows c') : c'.spec = c.spec := by
  rw [h.frame]
  rfl

namespace Registry

open Step RegistryM

/-! ### What an operation changes -/

theorem Edit.spec_eq {r : Registry} {op : Operation} {row : Nat} {f : Class → Class}
    (h : Edit r op row f) (c : Class) : (f c).spec = c.spec := by
  cases h with
  | keepMember => exact (Class.Grows.markMember c _).spec_eq
  | _ => rfl

namespace Operation

/-- `r'` is `r` but for the class in a row, which stays what it was registered as. -/
def ChangesAt (row : Nat) (r r' : Registry) : Prop :=
  r' = r ∨ ∃ f, r' = r.modifyClass row f ∧ ∀ c, (f c).spec = c.spec

theorem changesAt_modifyMethod (r : Registry) (row : Nat) (sig : Signature) (f : Method → Method) :
    ChangesAt row r (r.modifyMethod row sig f) :=
  .inr ⟨_, rfl, fun _ => rfl⟩

theorem changesAt_createRef (r : Registry) (row : Nat) (slot : Int) (body : RefBody) :
    ChangesAt row r (final (createRef row slot body r)) := by
  refine final_of_unchanged (P := ChangesAt row r) (.inl rfl) createRef_error fun hok => ?_
  obtain ⟨-, c, -, -, -, -, rfl, -⟩ := createRef_ok.mp hok
  exact .inr ⟨_, rfl, fun _ => rfl⟩

/-- An operation on a class leaves the other classes alone. -/
theorem apply_changesAt (r : Registry) {op : Operation} {row : Nat} (hrow : op.row? = some row) :
    ChangesAt row r (op.apply r) := by
  rcases edited_apply r hrow with heq | ⟨f, hedit, heq⟩
  · exact .inl heq
  · exact .inr ⟨f, heq, hedit.spec_eq⟩

end Operation

/-- `r'` has the names and the rows of `r`, and each class is what it was registered as. -/
structure SameSpecs (r r' : Registry) : Prop where
  size_eq : r'.rows.size = r.rows.size
  find?_eq : ∀ name, r'.find? name = r.find? name
  classes : ∀ {row c}, r.classAt? row = some c →
    ∃ c', r'.classAt? row = some c' ∧ c'.spec = c.spec

namespace SameSpecs

variable {r r' r'' : Registry}

theorem refl (r : Registry) : SameSpecs r r := ⟨rfl, fun _ => rfl, fun hc => ⟨_, hc, rfl⟩⟩

theorem trans (h : SameSpecs r r') (h' : SameSpecs r' r'') : SameSpecs r r'' where
  size_eq := h'.size_eq.trans h.size_eq
  find?_eq name := (h'.find?_eq name).trans (h.find?_eq name)
  classes hc := by
    obtain ⟨c', hc', hspec⟩ := h.classes hc
    obtain ⟨c'', hc'', hspec'⟩ := h'.classes hc'
    exact ⟨c'', hc'', hspec'.trans hspec⟩

theorem of_changesAt {row : Nat} (h : Operation.ChangesAt row r r') : SameSpecs r r' := by
  rcases h with rfl | ⟨f, rfl, hf⟩
  · exact .refl _
  · refine ⟨size_modifyClass .., fun _ => rfl, fun {p c} hc => ?_⟩
    rw [classAt?_modifyClass, hc]
    split
    · exact ⟨f c, rfl, hf c⟩
    · exact ⟨c, rfl, rfl⟩

/-- A class is what it was registered as before. -/
theorem exists_class (h : SameSpecs r r') {row : Nat} {c' : Class} (hc' : r'.classAt? row = some c') :
    ∃ c, r.classAt? row = some c ∧ c'.spec = c.spec := by
  obtain ⟨c, hc⟩ := exists_classAt? (h.size_eq ▸ classAt?_lt hc')
  obtain ⟨c'', hc'', hspec⟩ := h.classes hc
  cases hc'.symm.trans hc''
  exact ⟨c, hc, hspec⟩

end SameSpecs

/-! ### The hierarchy of a reachable registry -/

namespace Hierarchy

variable {r r' : Registry}

theorem changesAt (h : r.Hierarchy) {row : Nat} (hchanges : Operation.ChangesAt row r r') :
    r'.Hierarchy := by
  rcases hchanges with rfl | ⟨f, rfl, hf⟩
  · exact h
  · exact h.modifyClass fun c => ⟨congrArg ClassSpec.name (hf c), congrArg ClassSpec.super (hf c),
      congrArg ClassSpec.interfaces (hf c)⟩

/-- A class that is stored and not listed has no part in the hierarchy. -/
theorem store (h : r.Hierarchy) (hr : r.WellFormed) (c : Class) : (r.store c).Hierarchy := by
  have hold : ∀ {row c'}, row ∈ r.live → (r.store c).classAt? row = some c' →
      r.classAt? row = some c' := by
    intro row c' hrow hc'
    rwa [classAt?_store, if_neg (Nat.ne_of_lt (hr.live_lt hrow))] at hc'
  constructor
  · exact fun hrow hc' => h.find_self hrow (hold hrow hc')
  · exact fun hrow hc' => h.super_lt hrow (hold hrow hc')
  · exact fun hrow hc' => h.interface_lt hrow (hold hrow hc')
  · exact fun hrow hc' => h.root_iff hrow (hold hrow hc')

theorem laid (h : r.Hierarchy) (hlaid : r.Laid r') : r'.Hierarchy := by
  have hfind : ∀ name, r'.find? name = r.find? name := by
    intro name
    rw [find?, find?, hlaid.names_eq]
  have hold : ∀ {row c'}, r'.classAt? row = some c' → ∃ c, r.classAt? row = some c ∧
      c'.name = c.name ∧ c'.super = c.super ∧ c'.interfaces = c.interfaces := by
    intro row c' hc'
    obtain ⟨c, hc, hl⟩ := hlaid.exists_old hc'
    exact ⟨c, hc, by rw [hl.frame], by rw [hl.frame], by rw [hl.frame]⟩
  constructor
  · intro row c' hrow hc'
    obtain ⟨c, hc, hname, -, -⟩ := hold hc'
    rw [hfind, hname]
    exact h.find_self (hlaid.live_eq ▸ hrow) hc
  · intro row c' hrow hc' hne
    obtain ⟨c, hc, -, hsuper, -⟩ := hold hc'
    rw [hsuper] at hne ⊢
    rw [hfind]
    exact h.super_lt (hlaid.live_eq ▸ hrow) hc hne
  · intro row c' name hrow hc' hname
    obtain ⟨c, hc, -, -, hinterfaces⟩ := hold hc'
    rw [hinterfaces] at hname
    rw [hfind]
    exact h.interface_lt (hlaid.live_eq ▸ hrow) hc hname
  · intro row c' hrow hc'
    obtain ⟨c, hc, -, hsuper, -⟩ := hold hc'
    rw [hsuper, hlaid.live_eq]
    exact h.root_iff (hlaid.live_eq ▸ hrow) hc

/-- Operations other than compaction keep the hierarchy. -/
theorem apply (h : r.Hierarchy) (hr : r.WellFormed) {op : Operation} (hop : op ≠ .compact) :
    (op.apply r).Hierarchy := by
  refine apply_induction h op (fun hedit => h.changesAt (.inr ⟨_, rfl, hedit.spec_eq⟩))
    (fun {spec} _ => ?_) (fun _ => h.laid (link_laid r)) (fun heq => absurd heq hop)
    fun _ => final_relocate h fun hu => hu.changesAt (Operation.changesAt_modifyMethod _ _ _ _)
  cases hcreate : Registry.createClass spec r with
  | ok row r' => exact h.createClass hr hcreate
  | error e r' =>
      rcases createClass_error hcreate with rfl | hsame
      · exact h
      · exact (h.store hr _).sameButChildren hsame

end Hierarchy

/-- A superclass stands before its subclasses. This holds in an open registry, where every supertype
is registered, and in a compacted one, where the classes that were dropped have no name. -/
structure Descending (r : Registry) : Prop where
  find_class : ∀ {name row}, r.find? name = some row →
    row ∈ r.live ∧ ∃ c, r.classAt? row = some c ∧ c.name = name
  find_self : ∀ {row c}, row ∈ r.live → r.classAt? row = some c → r.find? c.name = some row
  super_lt : ∀ {row c p}, row ∈ r.live → r.classAt? row = some c → c.super ≠ [] →
    r.find? c.super = some p → p < row

namespace Descending

variable {r r' : Registry}

theorem of_hierarchy (h : r.Hierarchy) (hr : r.WellFormed) : r.Descending where
  find_class hfind := by
    obtain ⟨c, hc⟩ := hr.exists_class (hr.find_live hfind)
    exact ⟨hr.find_live hfind, c, hc, hr.find_name hfind hc⟩
  find_self := h.find_self
  super_lt hrow hc hne hfind := by
    obtain ⟨p, hp, hlt⟩ := h.super_lt hrow hc hne
    cases hp.symm.trans hfind
    exact hlt

theorem compactedTo (h : r.Descending) (hcompacted : r.CompactedTo r') : r'.Descending := by
  have hold : ∀ {row c'}, row ∈ r'.live → r'.classAt? row = some c' → ∃ c, row ∈ r.keptRows ∧
      row ∈ r.live ∧ r.classAt? row = some c ∧ c'.name = c.name ∧ c'.super = c.super := by
    intro row c' hrow hc'
    obtain ⟨c, hkept, hc, hcompact⟩ := hcompacted.exists_old hrow hc'
    exact ⟨c, hkept, (mem_keptRows.mp hkept).1, hc, by rw [hcompact.frame], by rw [hcompact.frame]⟩
  constructor
  · intro name row hfind
    obtain ⟨hfind, hkept⟩ := hcompacted.find?_iff.mp hfind
    obtain ⟨-, c, hc, hname⟩ := h.find_class hfind
    obtain ⟨c', hc', hcompact⟩ := hcompacted.classes hkept hc
    exact ⟨hcompacted.live_eq ▸ hkept, c', hc', by rw [hcompact.frame]; exact hname⟩
  · intro row c' hrow hc'
    obtain ⟨c, hkept, hlive, hc, hname, -⟩ := hold hrow hc'
    exact hcompacted.find?_iff.mpr ⟨hname ▸ h.find_self hlive hc, hkept⟩
  · intro row c' p hrow hc' hne hfind
    obtain ⟨c, -, hlive, hc, -, hsuper⟩ := hold hrow hc'
    rw [hsuper] at hne hfind
    exact h.super_lt hlive hc hne (hcompacted.find?_iff.mp hfind).1

theorem modifyMethod (h : r.Descending) {row : Nat} {sig : Signature} {f : Method → Method} :
    (r.modifyMethod row sig f).Descending := by
  have hold : ∀ {p c'}, (r.modifyMethod row sig f).classAt? p = some c' →
      ∃ c, r.classAt? p = some c ∧ c'.name = c.name ∧ c'.super = c.super := by
    intro p c' hc'
    obtain ⟨c, hc, ⟨-, rfl⟩ | ⟨-, rfl⟩⟩ := classAt?_of_modifyClass hc'
    · exact ⟨c, hc, rfl, rfl⟩
    · exact ⟨c', hc, rfl, rfl⟩
  constructor
  · intro name p hfind
    obtain ⟨hlive, c, hc, hname⟩ := h.find_class hfind
    refine ⟨hlive, ?_⟩
    rw [Registry.modifyMethod, classAt?_modifyClass, hc]
    split
    · exact ⟨_, rfl, hname⟩
    · exact ⟨c, rfl, hname⟩
  · intro p c' hp hc'
    obtain ⟨c, hc, hname, -⟩ := hold hc'
    rw [hname]
    exact h.find_self hp hc
  · intro p c' q hp hc' hne hfind
    obtain ⟨c, hc, -, hsuper⟩ := hold hc'
    rw [hsuper] at hne hfind
    exact h.super_lt hp hc hne hfind

end Descending

/-- A reachable registry is closed, or sound with a hierarchy. -/
theorem Reachable.open_or_closed {r : Registry} (h : r.Reachable) :
    r.closed = true ∧ r.Descending ∨ r.Sound ∧ r.Hierarchy := by
  induction h with
  | empty => exact .inr ⟨⟨.empty, fun hrow => absurd hrow List.not_mem_nil⟩, .empty⟩
  | @step r op _ hwhole ih =>
      rcases ih with ⟨hclosed, hdesc⟩ | ⟨hsound, hh⟩
      · exact .inl ⟨closed_apply hclosed op,
          apply_of_closed hclosed hdesc (fun _ hu => hu.modifyMethod) op⟩
      · by_cases hop : op = .compact
        · subst hop
          rw [Operation.apply, Operation.run]
          cases hrun : Registry.compact r with
          | ok u r' =>
              have hcompacted := compact_spec hsound.wellFormed hsound.selfNamed hrun
              exact .inl ⟨hcompacted.closed,
                (Descending.of_hierarchy hh hsound.wellFormed).compactedTo hcompacted⟩
          | error e r' =>
              rw [final_error, hwhole rfl e r' hrun]
              exact .inr ⟨hsound, hh⟩
        · exact .inr ⟨hsound.apply hop, hh.apply hsound.wellFormed hop⟩

theorem Reachable.descending {r : Registry} (h : r.Reachable) : r.Descending := by
  rcases h.open_or_closed with ⟨-, hdesc⟩ | ⟨hsound, hh⟩
  · exact hdesc
  · exact .of_hierarchy hh hsound.wellFormed

/-! ### Chains -/

/-- A class, its superclass, and so on up to the root, each with its row. -/
inductive IsChain (r : Registry) : Nat → List (Nat × Class) → Prop where
  | root {row : Nat} {c : Class} (hc : r.classAt? row = some c) (hroot : c.super = []) :
      IsChain r row [(row, c)]
  | super {row parent : Nat} {c : Class} {rest : List (Nat × Class)}
      (hc : r.classAt? row = some c) (hsuper : c.super ≠ [])
      (hparent : r.find? c.super = some parent) (hrest : IsChain r parent rest) :
      IsChain r row ((row, c) :: rest)

/-- Every supertype that a registered class names is registered. -/
structure SupertypesKnown (r : Registry) : Prop where
  super : ∀ {row c}, row ∈ r.live → r.classAt? row = some c → c.super ≠ [] →
    ∃ p, r.find? c.super = some p
  interface : ∀ {row c name}, row ∈ r.live → r.classAt? row = some c → name ∈ c.interfaces →
    ∃ p, r.find? name = some p

theorem Hierarchy.supertypesKnown {r : Registry} (h : r.Hierarchy) : r.SupertypesKnown where
  super hrow hc hne := (h.super_lt hrow hc hne).imp fun _ hp => hp.1
  interface hrow hc hname := (h.interface_lt hrow hc hname).imp fun _ hp => hp.1

/-- The supertypes of the classes of an open registry are registered. -/
theorem Reachable.supertypesKnown {r : Registry} (h : r.Reachable) (hopen : r.closed = false) :
    r.SupertypesKnown := by
  rcases h.open_or_closed with ⟨hclosed, -⟩ | ⟨-, hh⟩
  · rw [hopen] at hclosed
    cases hclosed
  · exact hh.supertypesKnown

namespace IsChain

variable {r : Registry} {row : Nat} {chain chain' : List (Nat × Class)}

theorem unique (h : r.IsChain row chain) (h' : r.IsChain row chain') : chain = chain' := by
  induction h generalizing chain' with
  | root hc hroot =>
      cases h' with
      | root hc' => cases hc.symm.trans hc'; rfl
      | super hc' hsuper => cases hc.symm.trans hc'; exact absurd hroot hsuper
  | super hc hsuper hparent _ ih =>
      cases h' with
      | root hc' hroot => cases hc.symm.trans hc'; exact absurd hroot hsuper
      | super hc' _ hparent' hrest' =>
          cases hc.symm.trans hc'
          cases hparent.symm.trans hparent'
          rw [ih hrest']

/-- The classes of a chain are registered. -/
theorem mem_live (h : r.IsChain row chain) (hr : r.Descending) (hrow : row ∈ r.live) :
    ∀ q ∈ chain, q.1 ∈ r.live ∧ r.classAt? q.1 = some q.2 := by
  induction h with
  | root hc _ => exact List.forall_mem_singleton.mpr ⟨hrow, hc⟩
  | super hc _ hparent _ ih =>
      exact List.forall_mem_cons.mpr ⟨⟨hrow, hc⟩, ih (hr.find_class hparent).1⟩

end IsChain

/-- A list of superclasses that ends at a root is a chain. -/
theorem isChain_of_getLast? {r : Registry} {fuel row : Nat} {q : Nat × Class}
    (hlast : (r.chainFrom fuel row).getLast? = some q) (hroot : q.2.super = []) :
    r.IsChain row (r.chainFrom fuel row) := by
  induction fuel generalizing row with
  | zero => cases hlast
  | succ fuel ih =>
      rw [chainFrom] at hlast ⊢
      cases hc : r.classAt? row with
      | none =>
          simp only [hc] at hlast
          cases hlast
      | some c =>
          simp only [hc] at hlast ⊢
          cases hsuper : r.superOf? c with
          | none =>
              simp only [hsuper] at hlast ⊢
              cases hlast
              exact .root hc hroot
          | some parent =>
              simp only [hsuper] at hlast ⊢
              have hne : c.super ≠ [] := by
                intro heq
                rw [superOf?, if_pos heq] at hsuper
                cases hsuper
              rw [superOf?, if_neg hne] at hsuper
              refine .super hc hne hsuper (ih ?_)
              cases hrest : r.chainFrom fuel parent with
              | nil =>
                  rw [hrest] at hlast
                  cases hlast
                  exact absurd hroot hne
              | cons first rest =>
                  rw [hrest, List.getLast?_cons_cons] at hlast
                  exact hlast

/-- Every registered class has a chain, with no more classes than stand up to its row. -/
theorem exists_chain {r : Registry} (h : r.Descending) (hknown : r.SupertypesKnown) {row : Nat}
    {c : Class} (hrow : row ∈ r.live) (hc : r.classAt? row = some c) :
    ∃ chain, r.IsChain row chain ∧ chain.length ≤ row + 1 := by
  induction row using Nat.strongRecOn generalizing c with
  | ind row ih =>
      by_cases hsuper : c.super = []
      · exact ⟨_, .root hc hsuper, by simp⟩
      · obtain ⟨p, hp⟩ := hknown.super hrow hc hsuper
        have hlt := h.super_lt hrow hc hsuper hp
        obtain ⟨hlive, parent, hparent, -⟩ := h.find_class hp
        obtain ⟨chain, hchain, hlength⟩ := ih p hlt hlive hparent
        exact ⟨_, .super hc hsuper hp hchain, by rw [List.length_cons]; omega⟩

end Registry

end ClassLinker
