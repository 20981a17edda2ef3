import ClassLinker.Proofs.Registry.Storage

/-! What linking writes over. A link gives everything kept its place, its link id and the ids of what
it names, whatever an earlier link had given it. So registries that agree but for what earlier links
wrote are linked to the same registry. -/

namespace ClassLinker

/-- What is left out of account in a class: the places of its code, of its static fields and of its
instance fields, the link ids of its kept members, and the ids that were found for its kept
references. -/
structure Stale where
  code : Bool
  statics : Bool
  instances : Bool
  links : Bool
  targets : Bool

namespace Stale

/-- Nothing is left out of account. -/
def nothing : Stale := ⟨false, false, false, false, false⟩

/-- What linking writes in every class. -/
def storage : Stale := { nothing with instances := true }

/-- What is found for the references of a class. -/
def found : Stale := { nothing with targets := true }

/-- What linking writes in a kept class. -/
def everything : Stale := ⟨true, true, true, true, true⟩

/-- The places of the code are taken into account. -/
def withoutCode (w : Stale) : Stale := { w with code := false }

/-- The places of the static fields are taken into account. -/
def withoutStatics (w : Stale) : Stale := { w with statics := false }

/-- The storage of an instance is taken into account. -/
def withoutInstances (w : Stale) : Stale := { w with instances := false }

/-- The link ids are taken into account. -/
def withoutLinks (w : Stale) : Stale := { w with links := false }

/-- `w'` leaves out what `w` does. -/
structure Within (w w' : Stale) : Prop where
  code : w.code = true → w'.code = true
  statics : w.statics = true → w'.statics = true
  instances : w.instances = true → w'.instances = true
  links : w.links = true → w'.links = true
  targets : w.targets = true → w'.targets = true

theorem Within.refl (w : Stale) : w.Within w := ⟨id, id, id, id, id⟩

theorem nothing_within (w : Stale) : nothing.Within w :=
  have hnot {p : Prop} (h : false = true) : p := absurd h Bool.false_ne_true
  ⟨hnot, hnot, hnot, hnot, hnot⟩

theorem within_everything (w : Stale) : w.Within everything :=
  ⟨fun _ => rfl, fun _ => rfl, fun _ => rfl, fun _ => rfl, fun _ => rfl⟩

end Stale

/-- A method without what is left out of account. -/
def Method.forget (w : Stale) (m : Method) : Method :=
  { m with
    codeOffset := if w.code then none else m.codeOffset
    nativeIndex := if w.code then none else m.nativeIndex
    linkId := if w.links && m.kept then none else m.linkId }

/-- A field without what is left out of account. -/
def Field.forget (w : Stale) (f : Field) : Field :=
  { f with
    address := if (if f.isStatic then w.statics else w.instances) && f.kept then -1 else f.address
    linkId := if w.links && f.kept then none else f.linkId }

/-- A kept reference without the ids that were found for it. -/
def Reference.forget (ref : Reference) : Reference :=
  if ref.kept then { ref with body := ref.body.bare } else ref

/-- A class without what is left out of account. -/
def Class.forget (w : Stale) (c : Class) : Class :=
  { c with
    ownSize := if w.instances then 0 else c.ownSize
    totalSize := if w.instances then 0 else c.totalSize
    methods := c.methods.map (Method.forget w)
    fields := c.fields.map (Field.forget w)
    pool := c.pool.mapIdx fun pos ref =>
      if w.targets && c.listed.contains pos then ref.forget else ref }

theorem Method.forget_forget {w w' : Stale} (h : w.Within w') (m : Method) :
    (m.forget w).forget w' = m.forget w' := by
  have hcode := h.code
  have hlinks := h.links
  simp only [Method.forget, Method.mk.injEq, true_and]
  grind

theorem Field.forget_forget {w w' : Stale} (h : w.Within w') (f : Field) :
    (f.forget w).forget w' = f.forget w' := by
  have hstatics := h.statics
  have hinstances := h.instances
  have hlinks := h.links
  simp only [Field.forget, Field.mk.injEq, true_and]
  grind

theorem Method.laid_forget (w : Stale) (m : Method) : m.Laid (m.forget w) := rfl

theorem Field.laid_forget (w : Stale) (f : Field) : f.Laid (f.forget w) := rfl

theorem RefBody.bare_bare (body : RefBody) : body.bare.bare = body.bare := by
  cases body <;> rfl

@[simp]
theorem Reference.kept_forget (ref : Reference) : ref.forget.kept = ref.kept := by
  unfold Reference.forget
  split <;> rfl

theorem Reference.forget_forget (ref : Reference) : ref.forget.forget = ref.forget := by
  cases hkept : ref.kept <;> simp [Reference.forget, hkept, RefBody.bare_bare]

theorem Reference.eq_of_forget {ref ref' : Reference} (h : ref'.forget = ref.forget)
    (hbody : ref.kept = true → ref'.body = ref.body) : ref' = ref := by
  have hkept : ref'.kept = ref.kept := by rw [← ref'.kept_forget, h, ref.kept_forget]
  rw [Reference.forget, Reference.forget, hkept] at h
  split at h
  · rename_i hk
    have hbody := hbody hk
    cases ref
    cases ref'
    simp_all
  · exact h

theorem Reference.laid_forget (ref : Reference) : ref.Laid ref.forget := by
  unfold Reference.forget
  split
  · exact ⟨rfl, RefBody.bare_bare _⟩
  · exact .refl ref

namespace Class

theorem getElem?_pool_forget (w : Stale) (c : Class) (pos : Nat) :
    (c.forget w).pool[pos]? = c.pool[pos]?.map fun ref =>
      if w.targets && c.listed.contains pos then ref.forget else ref := by
  simp only [Class.forget, Array.getElem?_mapIdx]

theorem forget_forget {w w' : Stale} (h : w.Within w') (c : Class) :
    (c.forget w).forget w' = c.forget w' := by
  have hinstances := h.instances
  have hmethods : (c.methods.map (Method.forget w)).map (Method.forget w') =
      c.methods.map (Method.forget w') := by
    rw [List.map_map]
    exact List.map_congr_left fun m _ => m.forget_forget h
  have hfields : (c.fields.map (Field.forget w)).map (Field.forget w') =
      c.fields.map (Field.forget w') := by
    rw [List.map_map]
    exact List.map_congr_left fun f _ => f.forget_forget h
  have hpool : ((c.forget w).forget w').pool = (c.forget w').pool := by
    refine Array.ext_getElem? fun pos => ?_
    rw [getElem?_pool_forget, getElem?_pool_forget, getElem?_pool_forget, Option.map_map]
    congr 1
    funext ref
    have htargets := h.targets
    have hlisted : (c.forget w).listed = c.listed := rfl
    simp only [Function.comp, hlisted]
    have := ref.forget_forget
    grind
  simp only [Class.forget, Class.mk.injEq, true_and, and_true] at hpool ⊢
  refine ⟨?_, ?_, hmethods, hfields, hpool⟩
  all_goals grind

/-- Only the references of a class carry what was found for them. -/
theorem forget_found (c : Class) : ({ c.forget .found with pool := c.pool } : Class) = c := by
  have hmethods : c.methods.map (Method.forget .found) = c.methods :=
    List.map_id'' (fun m => by simp [Method.forget, Stale.found, Stale.nothing]) _
  have hfields : c.fields.map (Field.forget .found) = c.fields :=
    List.map_id'' (fun f => by simp [Field.forget, Stale.found, Stale.nothing]) _
  show ({ c with
    ownSize := c.ownSize, totalSize := c.totalSize, methods := c.methods.map (Method.forget .found)
    fields := c.fields.map (Field.forget .found) } : Class) = c
  rw [hmethods, hfields]

theorem forget_nothing (c : Class) : c.forget .nothing = c := by
  have hpool : (c.forget .nothing).pool = c.pool :=
    Array.ext_getElem? fun pos => by simp [getElem?_pool_forget, Stale.nothing]
  calc c.forget .nothing
      = { c.forget .found with pool := (c.forget .nothing).pool } := rfl
    _ = c := by rw [hpool, c.forget_found]

theorem laid_forget (w : Stale) (c : Class) : c.Laid (c.forget w) where
  frame := rfl
  methods := forall₂_map_self (Method.laid_forget w) _
  fields := forall₂_map_self (Field.laid_forget w) _
  pool_size := by simp [Class.forget]
  pool {pos ref} href := by
    rw [getElem?_pool_forget, href]
    refine ⟨_, rfl, ?_⟩
    split
    · exact ref.laid_forget
    · exact .refl ref

end Class

/-! ### Registries that agree -/

namespace Registry

/-- `s` is `r` but for what is left out of account in each row, the link ids and the size of the
static storage. -/
structure AgreeBut (stale : Nat → Stale) (r s : Registry) : Prop where
  names_eq : s.names = r.names
  live_eq : s.live = r.live
  compacted_eq : s.compacted = r.compacted
  closed_eq : s.closed = r.closed
  classes : ∀ row, (s.classAt? row).map (Class.forget (stale row)) =
    (r.classAt? row).map (Class.forget (stale row))

namespace AgreeBut

variable {stale stale' : Nat → Stale} {r s t : Registry}

theorem refl (stale : Nat → Stale) (r : Registry) : AgreeBut stale r r :=
  ⟨rfl, rfl, rfl, rfl, fun _ => rfl⟩

theorem symm (h : AgreeBut stale r s) : AgreeBut stale s r :=
  ⟨h.names_eq.symm, h.live_eq.symm, h.compacted_eq.symm, h.closed_eq.symm,
    fun row => (h.classes row).symm⟩

theorem trans (h : AgreeBut stale r s) (h' : AgreeBut stale s t) : AgreeBut stale r t :=
  ⟨h'.names_eq.trans h.names_eq, h'.live_eq.trans h.live_eq,
    h'.compacted_eq.trans h.compacted_eq, h'.closed_eq.trans h.closed_eq,
    fun row => (h'.classes row).trans (h.classes row)⟩

theorem exists_class (h : AgreeBut stale r s) {row : Nat} {c : Class}
    (hc : r.classAt? row = some c) :
    ∃ d, s.classAt? row = some d ∧ d.forget (stale row) = c.forget (stale row) := by
  have heq := h.classes row
  rw [hc] at heq
  exact Option.map_eq_some_iff.mp heq

theorem classAt?_none (h : AgreeBut stale r s) {row : Nat} (hc : r.classAt? row = none) :
    s.classAt? row = none := by
  have heq := h.classes row
  rw [hc] at heq
  exact Option.map_eq_none_iff.mp heq

/-- Agreement of each class is enough. -/
theorem of_class (h : AgreeBut stale r s)
    (hclass : ∀ {row c d}, r.classAt? row = some c → s.classAt? row = some d →
      d.forget (stale row) = c.forget (stale row) → d.forget (stale' row) = c.forget (stale' row)) :
    AgreeBut stale' r s := by
  refine ⟨h.names_eq, h.live_eq, h.compacted_eq, h.closed_eq, fun row => ?_⟩
  cases hc : r.classAt? row with
  | none => rw [h.classAt?_none hc]
  | some c =>
      obtain ⟨d, hd, heq⟩ := h.exists_class hc
      rw [hd, Option.map_some, Option.map_some, hclass hc hd heq]

theorem mono (h : AgreeBut stale r s) (hle : ∀ row, (stale row).Within (stale' row)) :
    AgreeBut stale' r s := by
  refine h.of_class fun {row c d} _ _ heq => ?_
  rw [← d.forget_forget (hle row), heq, c.forget_forget (hle row)]

theorem withStaticSize (h : AgreeBut stale r s) (n n' : Int) :
    AgreeBut stale { r with staticSize := n } { s with staticSize := n' } :=
  ⟨h.names_eq, h.live_eq, h.compacted_eq, h.closed_eq, h.classes⟩

theorem withSignatures (h : AgreeBut stale r s) (sigs sigs' : List Signature) :
    AgreeBut stale { r with signatures := sigs } { s with signatures := sigs' } :=
  ⟨h.names_eq, h.live_eq, h.compacted_eq, h.closed_eq, h.classes⟩

theorem size_le (h : AgreeBut stale r s) : r.rows.size ≤ s.rows.size := by
  refine Nat.le_of_not_lt fun hlt => ?_
  obtain ⟨c, hc⟩ := exists_classAt? hlt
  obtain ⟨d, hd, -⟩ := h.exists_class hc
  exact absurd (classAt?_lt hd) (Nat.lt_irrefl _)

theorem laid (h : AgreeBut stale r s) : r.Laid s where
  names_eq := h.names_eq
  live_eq := h.live_eq
  closed_eq := h.closed_eq
  size_eq := Nat.le_antisymm h.symm.size_le h.size_le
  classes {row c} hc := by
    obtain ⟨d, hd, heq⟩ := h.exists_class hc
    refine ⟨d, hd, (c.laid_forget (stale row)).trans ?_⟩
    rw [← heq]
    exact (d.laid_forget (stale row)).symm

/-- Changing a class in both registries so that the changed classes agree. -/
theorem modifyClass (h : AgreeBut stale r s) {row : Nat} {f g : Class → Class}
    (hrest : ∀ p, p ≠ row → stale' p = stale p)
    (hclass : ∀ {c d}, r.classAt? row = some c → s.classAt? row = some d →
      d.forget (stale row) = c.forget (stale row) →
      (g d).forget (stale' row) = (f c).forget (stale' row)) :
    AgreeBut stale' (r.modifyClass row f) (s.modifyClass row g) := by
  refine ⟨h.names_eq, h.live_eq, h.compacted_eq, h.closed_eq, fun p => ?_⟩
  rw [classAt?_modifyClass, classAt?_modifyClass]
  split
  · rename_i heq
    subst heq
    cases hc : r.classAt? row with
    | none => rw [h.classAt?_none hc]; rfl
    | some c =>
        obtain ⟨d, hd, heq⟩ := h.exists_class hc
        rw [hd, Option.map_some, Option.map_some, Option.map_some, Option.map_some,
          hclass hc hd heq]
  · rename_i hne
    rw [hrest p (Ne.symm hne)]
    exact h.classes p

end AgreeBut

end Registry

/-! ### Places and link ids -/

namespace Layout

variable {w : Stale}

/-- Placing code writes over earlier places. -/
theorem placeCode_forget (w : Stale) (offset native : Nat) (ms : List Method) :
    placeCode offset native (ms.map (Method.forget w)) =
      ((placeCode offset native ms).1.map (Method.forget w.withoutCode),
        (placeCode offset native ms).2) := by
  induction ms generalizing offset native with
  | nil => rfl
  | cons m ms ih =>
      rw [List.map_cons, placeCode, placeCode]
      cases hkept : m.kept <;> simp [Method.forget, Stale.withoutCode, hkept, ih, Method.hasCode]

theorem forget_placeCode (hw : w.code = true) (offset native : Nat) (ms : List Method) :
    (placeCode offset native ms).1.map (Method.forget w) = ms.map (Method.forget w) := by
  induction ms generalizing offset native with
  | nil => rfl
  | cons m ms ih =>
      rw [placeCode]
      cases hkept : m.kept <;> simp [Method.forget, hkept, ih, hw]

theorem placeFields_forget (w : Stale) (address : Int) (fs : List Field) :
    placeFields true address (fs.map (Field.forget w)) =
      ((placeFields true address fs).1.map (Field.forget w.withoutStatics),
        (placeFields true address fs).2) := by
  induction fs generalizing address with
  | nil => rfl
  | cons f fs ih =>
      rw [List.map_cons, placeFields, placeFields]
      cases hkept : f.kept <;> cases hstatic : f.isStatic <;>
        simp [Field.forget, Stale.withoutStatics, hkept, hstatic, ih]

theorem forget_placeFields (hw : w.statics = true) (address : Int) (fs : List Field) :
    (placeFields true address fs).1.map (Field.forget w) = fs.map (Field.forget w) := by
  induction fs generalizing address with
  | nil => rfl
  | cons f fs ih =>
      rw [placeFields]
      cases hkept : f.kept <;> cases hstatic : f.isStatic <;>
        simp [Field.forget, hkept, hstatic, ih, hw]

theorem placeInstance_forget (w : Stale) (base own : Int) (fs : List Field) :
    placeInstance base own (fs.map (Field.forget w)) =
      ((placeInstance base own fs).1.map (Field.forget w.withoutInstances),
        (placeInstance base own fs).2) := by
  induction fs generalizing own with
  | nil => rfl
  | cons f fs ih =>
      rw [List.map_cons, placeInstance, placeInstance]
      cases hkept : f.kept <;> cases hstatic : f.isStatic <;>
        simp [Field.forget, Stale.withoutInstances, hkept, hstatic, ih]

theorem forget_placeInstance (hw : w.instances = true) (base own : Int) (fs : List Field) :
    (placeInstance base own fs).1.map (Field.forget w) = fs.map (Field.forget w) := by
  induction fs generalizing own with
  | nil => rfl
  | cons f fs ih =>
      rw [placeInstance]
      cases hkept : f.kept <;> cases hstatic : f.isStatic <;>
        simp [Field.forget, hkept, hstatic, ih, hw]

theorem numberMethods_forget (w : Stale) (sigs : List Signature) (ms : List Method) :
    numberMethods sigs (ms.map (Method.forget w)) =
      ((numberMethods sigs ms).1.map (Method.forget w.withoutLinks),
        (numberMethods sigs ms).2) := by
  induction ms generalizing sigs with
  | nil => rfl
  | cons m ms ih =>
      rw [List.map_cons, numberMethods, numberMethods]
      cases hkept : m.kept <;> simp [Method.forget, Stale.withoutLinks, hkept, ih]

theorem forget_numberMethods (hw : w.links = true) (sigs : List Signature) (ms : List Method) :
    (numberMethods sigs ms).1.map (Method.forget w) = ms.map (Method.forget w) := by
  induction ms generalizing sigs with
  | nil => rfl
  | cons m ms ih =>
      rw [numberMethods]
      cases hkept : m.kept <;> simp [Method.forget, hkept, ih, hw]

theorem numberFields_forget (w : Stale) (sigs : List Signature) (fs : List Field) :
    numberFields sigs (fs.map (Field.forget w)) =
      ((numberFields sigs fs).1.map (Field.forget w.withoutLinks),
        (numberFields sigs fs).2) := by
  induction fs generalizing sigs with
  | nil => rfl
  | cons f fs ih =>
      rw [List.map_cons, numberFields, numberFields]
      cases hkept : f.kept <;> simp [Field.forget, Stale.withoutLinks, hkept, ih]

theorem forget_numberFields (hw : w.links = true) (sigs : List Signature) (fs : List Field) :
    (numberFields sigs fs).1.map (Field.forget w) = fs.map (Field.forget w) := by
  induction fs generalizing sigs with
  | nil => rfl
  | cons f fs ih =>
      rw [numberFields]
      cases hkept : f.kept <;> simp [Field.forget, hkept, ih, hw]

end Layout

namespace Class

variable {w : Stale} {c d : Class}

theorem forget_methods (h : d.forget w = c.forget w) :
    d.methods.map (Method.forget w) = c.methods.map (Method.forget w) :=
  congrArg Class.methods h

theorem forget_fields (h : d.forget w = c.forget w) :
    d.fields.map (Field.forget w) = c.fields.map (Field.forget w) :=
  congrArg Class.fields h

theorem forget_eq {ms : List Method} {fs : List Field}
    (hms : ms.map (Method.forget w) = c.methods.map (Method.forget w))
    (hfs : fs.map (Field.forget w) = c.fields.map (Field.forget w)) :
    ({ c with methods := ms, fields := fs } : Class).forget w = c.forget w := by
  show ({ c.forget w with methods := ms.map (Method.forget w), fields := fs.map (Field.forget w) } :
    Class) = c.forget w
  rw [hms, hfs]
  rfl

theorem forget_eq_of_storage (hw : w.instances = true) {fs : List Field}
    (hfs : fs.map (Field.forget w) = c.fields.map (Field.forget w)) (own total : Int) :
    ({ c with fields := fs, ownSize := own, totalSize := total } : Class).forget w =
      c.forget w := by
  simp [Class.forget, hw, hfs]

theorem forget_withMethods (h : d.forget w = c.forget w) {ms ms' : List Method}
    (hms : ms'.map (Method.forget w.withoutCode) = ms.map (Method.forget w.withoutCode)) :
    ({ d with methods := ms' } : Class).forget w.withoutCode =
      ({ c with methods := ms } : Class).forget w.withoutCode := by
  show ({ d.forget w with methods := ms'.map (Method.forget w.withoutCode) } : Class) =
    { c.forget w with methods := ms.map (Method.forget w.withoutCode) }
  rw [h, hms]

theorem forget_withFields (h : d.forget w = c.forget w) {fs fs' : List Field}
    (hfs : fs'.map (Field.forget w.withoutStatics) = fs.map (Field.forget w.withoutStatics)) :
    ({ d with fields := fs' } : Class).forget w.withoutStatics =
      ({ c with fields := fs } : Class).forget w.withoutStatics := by
  show ({ d.forget w with fields := fs'.map (Field.forget w.withoutStatics) } : Class) =
    { c.forget w with fields := fs.map (Field.forget w.withoutStatics) }
  rw [h, hfs]

theorem forget_withStorage (h : d.forget w = c.forget w) {fs fs' : List Field}
    (hfs : fs'.map (Field.forget w.withoutInstances) = fs.map (Field.forget w.withoutInstances))
    (own total : Int) :
    ({ d with fields := fs', ownSize := own, totalSize := total } : Class).forget
        w.withoutInstances =
      ({ c with fields := fs, ownSize := own, totalSize := total } : Class).forget
        w.withoutInstances := by
  show ({ d.forget w with
      fields := fs'.map (Field.forget w.withoutInstances), ownSize := own
      totalSize := total } : Class) =
    { c.forget w with
      fields := fs.map (Field.forget w.withoutInstances), ownSize := own, totalSize := total }
  rw [h, hfs]

theorem forget_withMembers (h : d.forget w = c.forget w) {ms ms' : List Method}
    {fs fs' : List Field}
    (hms : ms'.map (Method.forget w.withoutLinks) = ms.map (Method.forget w.withoutLinks))
    (hfs : fs'.map (Field.forget w.withoutLinks) = fs.map (Field.forget w.withoutLinks)) :
    ({ d with methods := ms', fields := fs' } : Class).forget w.withoutLinks =
      ({ c with methods := ms, fields := fs } : Class).forget w.withoutLinks := by
  show ({ d.forget w with
      methods := ms'.map (Method.forget w.withoutLinks)
      fields := fs'.map (Field.forget w.withoutLinks) } : Class) =
    { c.forget w with
      methods := ms.map (Method.forget w.withoutLinks)
      fields := fs.map (Field.forget w.withoutLinks) }
  rw [h, hms, hfs]

end Class

namespace Registry

open Layout

/-- What is left out of account in some rows, changed. -/
def settle (f : Stale → Stale) (rows : List Nat) (stale : Nat → Stale) : Nat → Stale :=
  fun row => if row ∈ rows then f (stale row) else stale row

theorem settle_nil (f : Stale → Stale) (stale : Nat → Stale) : settle f [] stale = stale := by
  funext row
  simp [settle]

theorem settle_cons (f : Stale → Stale) (hf : ∀ w, f (f w) = f w) (row : Nat) (rows : List Nat)
    (stale : Nat → Stale) :
    settle f (row :: rows) stale = settle f rows (settle f [row] stale) := by
  funext p
  simp only [settle, List.mem_cons, List.not_mem_nil, or_false]
  grind

theorem instances_settle (f : Stale → Stale) (hf : ∀ w, (f w).instances = w.instances)
    (rows : List Nat) (stale : Nat → Stale) (row : Nat) :
    (settle f rows stale row).instances = (stale row).instances := by
  unfold settle
  split
  · exact hf _
  · rfl

/-- In some rows every superclass stands before its subclasses. -/
def SupersBefore (r : Registry) (rows : List Nat) : Prop :=
  ∀ row ∈ rows, ∀ {c p}, r.classAt? row = some c → r.superOf? c = some p → p < row

theorem SupersBefore.laid {r s : Registry} {rows : List Nat} (h : SupersBefore r rows)
    (hlaid : r.Laid s) :
    SupersBefore s rows := by
  intro row hrow d p hd hp
  obtain ⟨c, hc, hl⟩ := hlaid.exists_old hd
  refine h row hrow hc ?_
  rwa [superOf?, ← hl.super_eq, ← hlaid.find?_eq]

theorem Hierarchy.supersBefore {r : Registry} (h : r.Hierarchy) : r.SupersBefore r.live := by
  intro row hrow c p hc hp
  rw [superOf?] at hp
  split at hp
  · cases hp
  · rename_i hne
    obtain ⟨q, hq, hlt⟩ := h.super_lt hrow hc hne
    cases hq.symm.trans hp
    exact hlt

namespace AgreeBut

variable {stale : Nat → Stale} {r s : Registry} {row : Nat}

theorem settle_of_none (h : AgreeBut stale r s) (hc : r.classAt? row = none) (f : Stale → Stale) :
    AgreeBut (settle f [row] stale) r s := by
  refine h.of_class fun {p c d} hcp _ heq => ?_
  have hne : p ≠ row := by
    rintro rfl
    cases hc.symm.trans hcp
  simpa [settle, hne] using heq

/-- A class that is given what agrees in both registries. -/
theorem settle_modifyClass (h : AgreeBut stale r s) {c d : Class} (hc : r.classAt? row = some c)
    (hd : s.classAt? row = some d) {f : Stale → Stale} {g g' : Class → Class}
    (hclass : (g' d).forget (f (stale row)) = (g c).forget (f (stale row))) :
    AgreeBut (settle f [row] stale) (r.modifyClass row g) (s.modifyClass row g') := by
  refine h.modifyClass (fun p hne => by simp [settle, hne]) fun {c' d'} hc' hd' _ => ?_
  cases hc.symm.trans hc'
  cases hd.symm.trans hd'
  simpa [settle] using hclass

theorem layCode (h : AgreeBut stale r s) (offset native : Nat) (rows : List Nat) :
    AgreeBut (settle Stale.withoutCode rows stale) (layCode offset native rows r)
      (layCode offset native rows s) := by
  induction rows generalizing offset native stale r s with
  | nil => rwa [settle_nil]
  | cons row rows ih =>
      rw [settle_cons Stale.withoutCode fun _ => rfl, Registry.layCode, Registry.layCode]
      cases hc : r.classAt? row with
      | none =>
          rw [h.classAt?_none hc]
          exact ih (h.settle_of_none hc _) _ _
      | some c =>
          obtain ⟨d, hd, heq⟩ := h.exists_class hc
          have hplace := placeCode_forget (stale row) offset native d.methods
          rw [Class.forget_methods heq, placeCode_forget, Prod.mk.injEq] at hplace
          simp only [hd, hplace.2]
          refine ih (h.settle_modifyClass hc hd ?_) _ _
          exact Class.forget_withMethods heq hplace.1.symm

theorem layStatics (h : AgreeBut stale r s) (hsize : s.staticSize = r.staticSize)
    (rows : List Nat) :
    AgreeBut (settle Stale.withoutStatics rows stale) (layStatics rows r) (layStatics rows s) ∧
      (Registry.layStatics rows s).staticSize = (Registry.layStatics rows r).staticSize := by
  induction rows generalizing stale r s with
  | nil => exact ⟨by rwa [settle_nil], hsize⟩
  | cons row rows ih =>
      rw [settle_cons Stale.withoutStatics fun _ => rfl, Registry.layStatics,
        Registry.layStatics]
      cases hc : r.classAt? row with
      | none =>
          rw [h.classAt?_none hc]
          exact ih (h.settle_of_none hc _) hsize
      | some c =>
          obtain ⟨d, hd, heq⟩ := h.exists_class hc
          have hplace := placeFields_forget (stale row) r.staticSize d.fields
          rw [Class.forget_fields heq, placeFields_forget, Prod.mk.injEq] at hplace
          simp only [hd, hsize, hplace.2]
          exact ih ((h.settle_modifyClass hc hd
            (by exact Class.forget_withFields heq hplace.1.symm)).withStaticSize _ _) rfl

/-- Classes that agree inherit the same storage, when that of the superclass is taken into account. -/
theorem inherited_eq (h : AgreeBut stale r s) {c d : Class}
    (heq : d.forget (stale row) = c.forget (stale row))
    (hsuper : ∀ p, r.superOf? c = some p → (stale p).instances = false) :
    s.inherited d = r.inherited c := by
  have hname : (d.forget (stale row)).super = (c.forget (stale row)).super := by rw [heq]
  change d.super = c.super at hname
  have hparent : s.superOf? d = r.superOf? c := by
    rw [superOf?, superOf?, find?, find?, h.names_eq, hname]
  rw [inherited, inherited, hparent]
  cases hp : r.superOf? c with
  | none => rfl
  | some p =>
      have hsettled := hsuper p hp
      have htotal : ∀ e : Class, (e.forget (stale p)).totalSize = e.totalSize := fun e => by
        simp [Class.forget, hsettled]
      have hmap := congrArg (Option.map Class.totalSize) (h.classes p)
      simp only [Option.map_map, Function.comp_def, htotal] at hmap
      rw [Option.bind_some, Option.bind_some, hmap]

/-- Superclasses come first, so what a class inherits was laid out before it. -/
theorem layInstances (h : AgreeBut stale r s) {rows : List Nat} (hsorted : rows.Pairwise (· < ·))
    (hsupers : SupersBefore r rows) (hstale : ∀ p, (stale p).instances = true → p ∈ rows) :
    AgreeBut (settle Stale.withoutInstances rows stale) (layInstances rows r)
      (layInstances rows s) := by
  induction rows generalizing stale r s with
  | nil => rwa [settle_nil]
  | cons row rows ih =>
      obtain ⟨hbefore, hsorted⟩ := List.pairwise_cons.mp hsorted
      have hlater : ∀ p, (settle Stale.withoutInstances [row] stale p).instances = true →
          p ∈ rows := by
        intro p hp
        by_cases hne : p = row
        · simp [settle, hne, Stale.withoutInstances] at hp
        · rw [settle, if_neg (by simpa using hne)] at hp
          exact (List.mem_cons.mp (hstale p hp)).resolve_left hne
      rw [settle_cons Stale.withoutInstances fun _ => rfl, Registry.layInstances,
        Registry.layInstances]
      cases hc : r.classAt? row with
      | none =>
          rw [h.classAt?_none hc]
          exact ih (h.settle_of_none hc _) hsorted
            (fun p hp => hsupers p (List.mem_cons_of_mem _ hp)) hlater
      | some c =>
          obtain ⟨d, hd, heq⟩ := h.exists_class hc
          have hsettled : ∀ p, r.superOf? c = some p → (stale p).instances = false := by
            intro p hp
            have hlt := hsupers row List.mem_cons_self hc hp
            refine Bool.eq_false_iff.mpr fun htrue => ?_
            rcases List.mem_cons.mp (hstale p htrue) with rfl | hmem
            · exact Nat.lt_irrefl _ hlt
            · exact Nat.lt_asymm hlt (hbefore p hmem)
          have hbase := h.inherited_eq heq hsettled
          have hplace := placeInstance_forget (stale row) (r.inherited c) 0 d.fields
          rw [Class.forget_fields heq, placeInstance_forget, Prod.mk.injEq] at hplace
          rw [inherited, inherited] at hbase
          rw [inherited] at hplace
          simp only [hd, hbase, hplace.2]
          refine ih (h.settle_modifyClass hc hd ?_) hsorted ?_ hlater
          · exact Class.forget_withStorage heq hplace.1.symm _ _
          · refine SupersBefore.laid (fun p hp => hsupers p (List.mem_cons_of_mem _ hp))
              (Laid.modifyClass r fun hc' => ?_)
            cases hc.symm.trans hc'
            exact { Class.Laid.refl c with frame := rfl, fields := placeInstance_laid _ _ _ }

theorem numberMembers (h : AgreeBut stale r s) (hsigs : s.signatures = r.signatures)
    (rows : List Nat) :
    AgreeBut (settle Stale.withoutLinks rows stale) (numberMembers rows r)
        (numberMembers rows s) ∧
      (Registry.numberMembers rows s).signatures = (Registry.numberMembers rows r).signatures := by
  induction rows generalizing stale r s with
  | nil => exact ⟨by rwa [settle_nil], hsigs⟩
  | cons row rows ih =>
      rw [settle_cons Stale.withoutLinks fun _ => rfl, Registry.numberMembers,
        Registry.numberMembers]
      cases hc : r.classAt? row with
      | none =>
          rw [h.classAt?_none hc]
          exact ih (h.settle_of_none hc _) hsigs
      | some c =>
          obtain ⟨d, hd, heq⟩ := h.exists_class hc
          have hmethods := numberMethods_forget (stale row) r.signatures d.methods
          rw [Class.forget_methods heq, numberMethods_forget, Prod.mk.injEq] at hmethods
          have hfields := numberFields_forget (stale row)
            (numberMethods r.signatures c.methods).2 d.fields
          rw [Class.forget_fields heq, numberFields_forget, Prod.mk.injEq] at hfields
          simp only [hd, hsigs, ← hmethods.2, hfields.2]
          exact ih ((h.settle_modifyClass hc hd
            (by exact Class.forget_withMembers heq hmethods.1.symm hfields.1.symm)).withSignatures
              _ _) rfl

/-! Linking changes nothing but what it writes. -/

theorem modify_stale (h : AgreeBut stale r s) {g : Class → Class}
    (hg : ∀ {d}, s.classAt? row = some d → (g d).forget (stale row) = d.forget (stale row)) :
    AgreeBut stale r (s.modifyClass row g) := by
  refine ⟨h.names_eq, h.live_eq, h.compacted_eq, h.closed_eq, fun p => ?_⟩
  rw [classAt?_modifyClass, ← h.classes p]
  split
  · rename_i heq
    subst heq
    cases hd : s.classAt? row with
    | none => rfl
    | some d => exact congrArg some (hg hd)
  · rfl

theorem layCode_stale (h : AgreeBut stale r s) {rows : List Nat}
    (hrows : ∀ row ∈ rows, (stale row).code = true) (offset native : Nat) :
    AgreeBut stale r (Registry.layCode offset native rows s) := by
  induction rows generalizing offset native s with
  | nil => exact h
  | cons row rows ih =>
      obtain ⟨hcode, hrest⟩ := List.forall_mem_cons.mp hrows
      rw [Registry.layCode]
      cases hd : s.classAt? row with
      | none => exact ih h hrest _ _
      | some d =>
          refine ih (h.modify_stale fun {d'} hd' => ?_) hrest _ _
          cases hd.symm.trans hd'
          exact Class.forget_eq (forget_placeCode hcode _ _ _) rfl

theorem layStatics_stale (h : AgreeBut stale r s) {rows : List Nat}
    (hrows : ∀ row ∈ rows, (stale row).statics = true) :
    AgreeBut stale r (Registry.layStatics rows s) := by
  induction rows generalizing s with
  | nil => exact h
  | cons row rows ih =>
      obtain ⟨hstatics, hrest⟩ := List.forall_mem_cons.mp hrows
      rw [Registry.layStatics]
      cases hd : s.classAt? row with
      | none => exact ih h hrest
      | some d =>
          refine ih (withStaticSize (h.modify_stale fun {d'} hd' => ?_) _ _) hrest
          cases hd.symm.trans hd'
          exact Class.forget_eq rfl (forget_placeFields hstatics _ _)

theorem layInstances_stale (h : AgreeBut stale r s) {rows : List Nat}
    (hrows : ∀ row ∈ rows, (stale row).instances = true) :
    AgreeBut stale r (Registry.layInstances rows s) := by
  induction rows generalizing s with
  | nil => exact h
  | cons row rows ih =>
      obtain ⟨hinstances, hrest⟩ := List.forall_mem_cons.mp hrows
      rw [Registry.layInstances]
      cases hd : s.classAt? row with
      | none => exact ih h hrest
      | some d =>
          refine ih (h.modify_stale fun {d'} hd' => ?_) hrest
          cases hd.symm.trans hd'
          exact Class.forget_eq_of_storage hinstances (forget_placeInstance hinstances _ _ _) _ _

theorem numberMembers_stale (h : AgreeBut stale r s) {rows : List Nat}
    (hrows : ∀ row ∈ rows, (stale row).links = true) :
    AgreeBut stale r (Registry.numberMembers rows s) := by
  induction rows generalizing s with
  | nil => exact h
  | cons row rows ih =>
      obtain ⟨hlinks, hrest⟩ := List.forall_mem_cons.mp hrows
      rw [Registry.numberMembers]
      cases hd : s.classAt? row with
      | none => exact ih h hrest
      | some d =>
          refine ih (withSignatures (h.modify_stale fun {d'} hd' => ?_) _ _) hrest
          cases hd.symm.trans hd'
          exact Class.forget_eq (forget_numberMethods hlinks _ _) (forget_numberFields hlinks _ _)

end AgreeBut

/-! ### Laying out -/

/-- What a link writes in each class. -/
def written (r : Registry) (row : Nat) : Stale :=
  if row ∈ r.keptRows then .everything else if row ∈ r.live then .storage else .nothing

/-- What is still to be written once the registry is laid out: the ids of what the kept references of
kept classes name. -/
def unresolved (r : Registry) (row : Nat) : Stale :=
  if row ∈ r.keptRows then .found else .nothing

theorem written_of_kept {r : Registry} {row : Nat} (hrow : row ∈ r.keptRows) :
    r.written row = .everything := if_pos hrow

theorem written_instances {r : Registry} {row : Nat} :
    (r.written row).instances = true ↔ row ∈ r.live := by
  have hlive : row ∈ r.keptRows → row ∈ r.live := fun hrow => (mem_keptRows.mp hrow).1
  unfold written
  split
  · exact ⟨fun _ => hlive ‹_›, fun _ => rfl⟩
  · split <;> simp [Stale.storage, Stale.nothing, *]

theorem layOut_written (r : Registry) : AgreeBut r.written r r.layOut := by
  have hkept : ∀ row ∈ r.keptRows, r.written row = .everything := fun row => written_of_kept
  have hcode : AgreeBut r.written r (layCode 0 0 r.keptRows r) :=
    (AgreeBut.refl _ r).layCode_stale (fun row hrow => by rw [hkept row hrow]; rfl) 0 0
  have hstatics : AgreeBut r.written r
      (layStatics r.keptRows { layCode 0 0 r.keptRows r with staticSize := 0 }) :=
    (hcode.withStaticSize r.staticSize 0).layStatics_stale fun row hrow => by
      rw [hkept row hrow]; rfl
  have hplaced : AgreeBut r.written r r.placed :=
    hstatics.layInstances_stale fun row hrow => written_instances.mpr (hstatics.live_eq ▸ hrow)
  exact (hplaced.withSignatures r.signatures []).numberMembers_stale fun row hrow => by
    rw [hkept row hrow]; rfl

theorem settle_written (r : Registry) :
    settle Stale.withoutLinks r.keptRows (settle Stale.withoutInstances r.live
      (settle Stale.withoutStatics r.keptRows (settle Stale.withoutCode r.keptRows r.written))) =
      r.unresolved := by
  funext row
  have hlive : row ∈ r.keptRows → row ∈ r.live := fun hrow => (mem_keptRows.mp hrow).1
  by_cases hkept : row ∈ r.keptRows
  · simp [settle, written, unresolved, hkept, hlive hkept, Stale.withoutLinks,
      Stale.withoutInstances, Stale.withoutStatics, Stale.withoutCode, Stale.everything,
      Stale.found, Stale.nothing]
  · by_cases hrow : row ∈ r.live <;>
      simp [settle, written, unresolved, hkept, hrow, Stale.withoutInstances, Stale.storage,
        Stale.nothing]

/-- Registries that agree but for what a link writes are laid out alike. -/
theorem AgreeBut.layOut {r s : Registry} (h : AgreeBut r.written r s) (hr : r.WellFormed)
    (hh : r.Hierarchy) :
    AgreeBut r.unresolved r.layOut s.layOut ∧ s.layOut.signatures = r.layOut.signatures ∧
      s.placed.staticSize = r.placed.staticSize := by
  have hrows : s.keptRows = r.keptRows := h.laid.keptRows_eq
  obtain ⟨hstatics, hsize⟩ :=
    ((h.layCode 0 0 r.keptRows).withStaticSize 0 0).layStatics rfl r.keptRows
  have hlaid : r.Laid (Registry.layStatics r.keptRows
      { Registry.layCode 0 0 r.keptRows r with staticSize := 0 }) :=
    ((layCode_laid 0 0 r.keptRows r).withStaticSize 0).trans (layStatics_laid r.keptRows _)
  have hplaced := hstatics.layInstances hr.live_sorted (hh.supersBefore.laid hlaid) ?_
  · obtain ⟨hnumbered, hsigs⟩ := (hplaced.withSignatures [] []).numberMembers rfl r.keptRows
    rw [settle_written] at hnumbered
    refine ⟨?_, ?_, ?_⟩
    · rw [Registry.layOut, Registry.layOut, placed, placed, hrows, hlaid.live_eq,
        (hlaid.trans hstatics.laid).live_eq]
      exact hnumbered
    · rw [Registry.layOut, Registry.layOut, placed, placed, hrows, hlaid.live_eq,
        (hlaid.trans hstatics.laid).live_eq]
      exact hsigs
    · rw [placed, placed, (layInstances_statics _ _).1, (layInstances_statics _ _).1, hrows]
      exact hsize
  · intro p hp
    rw [instances_settle Stale.withoutStatics fun _ => rfl,
      instances_settle Stale.withoutCode fun _ => rfl] at hp
    exact written_instances.mp hp

end Registry

end ClassLinker
