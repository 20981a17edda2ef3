import ClassLinker.Proofs.Closure.Agree
import ClassLinker.Proofs.Closure.Steady

/-! The representation invariant of a link. Whatever is asked of it, and whether or not it was
granted, what the link shows about its classes is consistent: ids and names, the hierarchy and its
inverse, the declared members, the references with their slots, and what was kept of all that. -/

namespace ClassLinker

/-- Everything that a class declares. -/
def Class.declarations (c : Class) : List Declaration :=
  c.methods.map .method ++ c.fields.map .field

/-- A class names another one as its superclass, or among its interfaces. The empty name stands for
no superclass. -/
def Class.Extends (c parent : Class) : Prop :=
  c.super ≠ [] ∧ c.super = parent.name ∨ parent.name ∈ c.interfaces

namespace Linker

/-- What a link shows is consistent. -/
structure Consistent (l : Linker) : Prop where
  /-- The class at a position has that position as its id. -/
  id_eq : ∀ {i row : Nat} {c : Class}, l.registry.classes[i]? = some (row, c) → c.id = i
  names_nodup : (l.registry.classes.map fun p => p.2.name).Nodup
  /-- The names that are found are those of the registered classes. -/
  find_iff : ∀ {name row}, l.registry.find? name = some row ↔
    ∃ c, (row, c) ∈ l.registry.classes ∧ c.name = name
  /-- The first class is the only one without a superclass. -/
  root_iff : ∀ {row c}, (row, c) ∈ l.registry.classes → (c.super = [] ↔ c.id = 0)
  super_lt : ∀ {row c}, (row, c) ∈ l.registry.classes → c.super ≠ [] →
    ∃ p ∈ l.registry.classes, p.2.name = c.super ∧ p.2.id < c.id
  interface_lt : ∀ {row c name}, (row, c) ∈ l.registry.classes → name ∈ c.interfaces →
    ∃ p ∈ l.registry.classes, p.2.name = name ∧ p.2.id < c.id
  /-- The subclasses of a class are the classes that name it. -/
  subclasses_iff : ∀ {row c p}, (row, c) ∈ l.registry.classes →
    (p ∈ l.registry.subclasses c ↔ p ∈ l.registry.classes ∧ p.2.Extends c)
  /-- No two members of a class share a signature. -/
  signatures_nodup : ∀ {row c}, (row, c) ∈ l.registry.classes →
    (c.declarations.map Declaration.sig).Nodup
  /-- The members that are found are those that are declared. -/
  declared_iff : ∀ {row c sig d}, (row, c) ∈ l.registry.classes →
    (c.declared? sig = some d ↔ d ∈ c.declarations ∧ d.sig = sig)
  /-- A reference stands under the id of its class and its slot. -/
  reference : ∀ {row c pos ref}, (row, c) ∈ l.registry.classes → (pos, ref) ∈ c.references →
    ref.owner = c.id ∧ 1 ≤ ref.slot ∧ ref.slot ≤ min Registry.lastSlot c.maxSlot ∧
      l.registry.refAddr? ref.owner ref.slot = some ⟨row, pos⟩
  /-- What stands under an id and a slot is a reference of that class. -/
  reference_found : ∀ {owner slot a}, l.registry.refAddr? owner slot = some a →
    ∃ c ref, (a.row, c) ∈ l.registry.classes ∧ (a.pos, ref) ∈ c.references ∧
      (ref.owner : Int) = owner ∧ ref.slot = slot
  slots_nodup : ∀ {row c}, (row, c) ∈ l.registry.classes →
    (c.references.map fun p => p.2.slot).Nodup
  kept : ∀ {row c}, (row, c) ∈ l.registry.classes → c.kept = true
  /-- A kept member belongs to a kept class. -/
  member_kept : ∀ {row sig}, l.registry.KeepsMember row sig →
    ∃ c, (row, c) ∈ l.registry.classes ∧ c.kept = true
  /-- A kept reference belongs to a kept class. -/
  ref_kept : ∀ {a}, l.registry.KeepsRef a →
    ∃ c, (a.row, c) ∈ l.registry.classes ∧ c.kept = true
  /-- One expansion was counted for each kept method. -/
  expansions_eq : l.expansions =
    total (l.registry.classes.map fun p => p.2.methods.countP Method.kept)

end Linker

namespace Class

variable {c : Class}

theorem map_sig_declarations (c : Class) : c.declarations.map Declaration.sig = c.signatures := by
  simp only [declarations, signatures, List.map_append, List.map_map]
  rfl

theorem declared?_iff (hnodup : c.signatures.Nodup) {sig : Signature} {d : Declaration} :
    c.declared? sig = some d ↔ d ∈ c.declarations ∧ d.sig = sig := by
  constructor
  · intro hd
    refine ⟨?_, sig_of_declared? hd⟩
    obtain ⟨m, hm, rfl, -⟩ | ⟨f, hf, rfl, -⟩ := mem_of_declared? hd
    · exact List.mem_append_left _ (List.mem_map_of_mem hm)
    · exact List.mem_append_right _ (List.mem_map_of_mem hf)
  · rintro ⟨hd, rfl⟩
    rcases List.mem_append.mp hd with hd | hd
    · obtain ⟨m, hm, rfl⟩ := List.mem_map.mp hd
      exact declared?_method hnodup hm
    · obtain ⟨f, hf, rfl⟩ := List.mem_map.mp hd
      exact declared?_field hnodup hf

theorem Indexed.slots_nodup (h : c.Indexed) : (c.references.map fun p => p.2.slot).Nodup := by
  refine List.Nodup.map_on ?_ ((Registry.references_nodup h.listed_nodup).of_map Prod.fst)
  rintro ⟨p, ref⟩ hp ⟨q, ref'⟩ hq hslot
  obtain ⟨hlisted, href⟩ := mem_references.mp hp
  obtain ⟨hlisted', href'⟩ := mem_references.mp hq
  have h₁ := h.lookup_iff.mpr ⟨hlisted, ref, href, hslot⟩
  have h₂ := h.lookup_iff.mpr ⟨hlisted', ref', href', rfl⟩
  cases h₁.symm.trans h₂
  cases href.symm.trans href'
  rfl

end Class

namespace Registry.Tidy

variable {r : Registry}

theorem mem_classes (h : r.Tidy) {row : Nat} {c : Class} :
    (row, c) ∈ r.classes ↔ r.classAt? row = some c := by
  rw [Registry.mem_classes]
  exact ⟨fun hc => hc.2, fun hc => ⟨h.live_of_class hc, hc⟩⟩

/-- The supertypes of a class are the classes that it names. -/
theorem supertype_iff (h : r.Tidy) {c parent : Class} {p : Nat} (hp : r.classAt? p = some parent) :
    r.Supertype c p ↔ c.Extends parent := by
  have hname : ∀ {name}, r.find? name = some p ↔ name = parent.name := by
    intro name
    constructor
    · intro hrow
      exact (h.wellFormed.find_name hrow hp).symm
    · rintro rfl
      exact h.find_self hp
  unfold Supertype Class.Extends superOf?
  simp only [Option.ite_none_left_eq_some, hname, exists_eq_right]

theorem classes_id_eq (h : r.Tidy) {i row : Nat} {c : Class} (hi : r.classes[i]? = some (row, c)) :
    c.id = i := by
  rw [getElem?_classes fun row hrow => h.wellFormed.exists_class hrow] at hi
  obtain ⟨row', hlive, hrow⟩ := Option.bind_eq_some_iff.mp hi
  obtain ⟨c', hc, heq⟩ := Option.map_eq_some_iff.mp hrow
  cases heq
  exact h.wellFormed.id_eq hlive hc

theorem classes_names_nodup (h : r.Tidy) : (r.classes.map fun p => p.2.name).Nodup := by
  have hmap : (r.classes.map fun p => p.2.name) = (r.classes.map Prod.snd).map Class.name := by
    rw [List.map_map]
    rfl
  rw [hmap, h.map_classes]
  exact h.names_nodup

theorem find?_iff (h : r.Tidy) {name : Text} {row : Nat} :
    r.find? name = some row ↔ ∃ c, (row, c) ∈ r.classes ∧ c.name = name := by
  constructor
  · intro hrow
    obtain ⟨c, hc, hname⟩ := h.exists_class hrow
    exact ⟨c, h.mem_classes.mpr hc, hname⟩
  · rintro ⟨c, hc, rfl⟩
    exact h.find_self (h.mem_classes.mp hc)

theorem super_nil_iff (h : r.Tidy) {row : Nat} {c : Class} (hc : (row, c) ∈ r.classes) :
    c.super = [] ↔ c.id = 0 := by
  have hrow := h.mem_classes.mp hc
  rw [h.hierarchy.root_iff (h.live_of_class hrow) hrow, h.live_eq, h.id_eq hrow, List.head?_range]
  have hlt := classAt?_lt hrow
  split <;> simp <;> omega

/-- A class that stands before another one has the smaller id. -/
theorem exists_earlier (h : r.Tidy) {row p : Nat} {c : Class} {name : Text}
    (hc : (row, c) ∈ r.classes) (hp : r.find? name = some p) (hlt : p < row) :
    ∃ q ∈ r.classes, q.2.name = name ∧ q.2.id < c.id := by
  obtain ⟨parent, hparent, hname⟩ := h.exists_class hp
  refine ⟨(p, parent), h.mem_classes.mpr hparent, hname, ?_⟩
  rw [h.id_eq hparent, h.id_eq (h.mem_classes.mp hc)]
  exact hlt

theorem mem_subclasses_iff (h : r.Tidy) {row : Nat} {c : Class} (hc : (row, c) ∈ r.classes)
    {p : Nat × Class} : p ∈ r.subclasses c ↔ p ∈ r.classes ∧ p.2.Extends c := by
  obtain ⟨sub, sc⟩ := p
  have hrow := h.mem_classes.mp hc
  rw [mem_subclasses, h.mem_classes, and_comm]
  refine and_congr_right fun hsub => ?_
  rw [← h.supertype_iff hrow]
  constructor
  · intro hchild
    obtain ⟨sc', hsub', hsuper⟩ := h.parented.supertype hrow hchild
    cases hsub.symm.trans hsub'
    exact hsuper
  · intro hsuper
    exact h.parented.mem_children hsub hsuper hrow

/-- A reference stands where its class and its slot say. -/
theorem refAddr?_of_mem (h : r.Tidy) {row pos : Nat} {c : Class} {ref : Reference}
    (hc : (row, c) ∈ r.classes) (href : (pos, ref) ∈ c.references) :
    ref.owner = c.id ∧ 1 ≤ ref.slot ∧ ref.slot ≤ min lastSlot c.maxSlot ∧
      r.refAddr? ref.owner ref.slot = some ⟨row, pos⟩ := by
  have hrow := h.mem_classes.mp hc
  have hindexed := h.indexed hrow
  obtain ⟨hlisted, hpool⟩ := Class.mem_references.mp href
  obtain ⟨hpos, hlast, hmax⟩ := hindexed.slot_range hlisted hpool
  have howner := hindexed.owner_eq hlisted hpool
  refine ⟨howner, hpos, le_min hlast hmax, ?_⟩
  rw [howner, h.refAddr?_eq hrow, hindexed.lookup_iff.mpr ⟨hlisted, ref, hpool, rfl⟩]
  rfl

theorem exists_mem_of_refAddr? (h : r.Tidy) {owner slot : Int} {a : RefAddr}
    (ha : r.refAddr? owner slot = some a) :
    ∃ c ref, (a.row, c) ∈ r.classes ∧ (a.pos, ref) ∈ c.references ∧
      (ref.owner : Int) = owner ∧ ref.slot = slot := by
  obtain ⟨c, hc, howner, hpos⟩ := exists_of_refAddr? ha
  have hindexed := h.indexed hc
  obtain ⟨hlisted, ref, hpool, hslot⟩ := hindexed.lookup_iff.mp hpos
  refine ⟨c, ref, h.mem_classes.mpr hc, Class.mem_references.mpr ⟨hlisted, hpool⟩, ?_, hslot⟩
  rw [hindexed.owner_eq hlisted hpool]
  exact howner

/-- The kept methods, counted class by class. -/
theorem total_keptCount (h : r.Tidy) :
    total (r.classes.map fun p => p.2.methods.countP Method.kept) = r.sumOf Class.keptCount := by
  have hmap : (r.classes.map fun p => p.2.methods.countP Method.kept) =
      (r.classes.map Prod.snd).map Class.keptCount := by
    rw [List.map_map]
    exact List.map_congr_left fun p _ => (Class.keptCount_eq p.2).symm
  rw [hmap, h.map_classes]
  rfl

end Registry.Tidy

namespace Closure

open Registry

variable {l : Linker}

theorem consistent_of_orderly (h : l.Orderly) : l.Consistent := by
  have htidy : l.registry.Tidy := h.tidy
  constructor
  case id_eq => exact htidy.classes_id_eq
  case names_nodup => exact htidy.classes_names_nodup
  case find_iff => exact htidy.find?_iff
  case root_iff => exact htidy.super_nil_iff
  case super_lt =>
    intro row c hc hne
    have hrow := htidy.mem_classes.mp hc
    obtain ⟨p, hp, hlt⟩ := htidy.hierarchy.super_lt (htidy.live_of_class hrow) hrow hne
    exact htidy.exists_earlier hc hp hlt
  case interface_lt =>
    intro row c name hc hname
    have hrow := htidy.mem_classes.mp hc
    obtain ⟨p, hp, hlt⟩ := htidy.hierarchy.interface_lt (htidy.live_of_class hrow) hrow hname
    exact htidy.exists_earlier hc hp hlt
  case subclasses_iff => exact fun hc => htidy.mem_subclasses_iff hc
  case signatures_nodup =>
    intro row c hc
    rw [Class.map_sig_declarations]
    exact htidy.wellFormed.signatures_nodup (htidy.mem_classes.mp hc)
  case declared_iff =>
    intro row c sig d hc
    exact Class.declared?_iff (htidy.wellFormed.signatures_nodup (htidy.mem_classes.mp hc))
  case reference => exact htidy.refAddr?_of_mem
  case reference_found => exact htidy.exists_mem_of_refAddr?
  case slots_nodup =>
    intro row c hc
    exact (htidy.indexed (htidy.mem_classes.mp hc)).slots_nodup
  case kept => exact fun hc => h.kept (htidy.mem_classes.mp hc)
  case member_kept =>
    rintro row sig ⟨c, d, hc, -, -⟩
    exact ⟨c, htidy.mem_classes.mpr hc, h.kept hc⟩
  case ref_kept =>
    rintro a ⟨ref, href, -⟩
    obtain ⟨c, hc, -⟩ := refAt?_eq_some.mp href
    exact ⟨c, htidy.mem_classes.mpr hc, h.kept hc⟩
  case expansions_eq => exact h.count_eq.symm.trans htidy.total_keptCount.symm

/-! ### Requests -/

/-- What a link can be asked for: a class, a member, or the overrides of what it keeps. -/
inductive Request where
  | load (name : Text)
  | require (m : Member)
  | overrides
deriving DecidableEq

namespace Request

/-- What a request leaves, whether or not it is granted. -/
def apply (s : Source) (l : Linker) : Request → Linker
  | load name => Step.final (Closure.load s name l)
  | require m => Step.final (Closure.require s m l)
  | overrides => Step.final (requireOverrides s l)

theorem apply_lasting {R : Linker → Linker → Prop} [Lasting R] (s : Source) [Invariant s R]
    (request : Request) (hl : l.Orderly) : R l (request.apply s l) := by
  cases request with
  | load name => exact (load_steady s name).proceeds hl
  | require m => exact (require_steady s m).proceeds hl
  | overrides => exact (requireOverrides_steady s).proceeds hl

/-- What each change of a registry establishes, any requests establish. -/
theorem foldl_lasting {R : Linker → Linker → Prop} [Lasting R] (s : Source) [Invariant s R]
    (requests : List Request) (hl : l.Orderly) : R l (requests.foldl (apply s) l) := by
  induction requests generalizing l with
  | nil => exact Lasting.refl hl
  | cons request requests ih =>
      have hfirst := request.apply_lasting (R := R) s hl
      exact Lasting.trans hfirst (ih (Lasting.orderly hfirst))

theorem foldl_proceeds (s : Source) (requests : List Request) (hl : l.Orderly) :
    Proceeds l (requests.foldl (apply s) l) := foldl_lasting s requests hl

end Request

/-- After any requests, granted or not, a link is consistent, and whatever else it is asked for, it
keeps what it has kept. -/
theorem requests_consistent (s : Source) (root : Text) (requests more : List Request) :
    let l := requests.foldl (Request.apply s) { root := root }
    l.Consistent ∧ l.registry.Retains (more.foldl (Request.apply s) l).registry := by
  have hempty : Linker.Orderly { root := root } := orderly_empty
  have hl := (Request.foldl_proceeds s requests hempty).orderly
  exact ⟨consistent_of_orderly hl, (Request.foldl_proceeds s more hl).retains⟩

end Closure

end ClassLinker
