import ClassLinker.Proofs.Registry.Ancestry
import ClassLinker.Proofs.Registry.Placement

/-! Where linking puts fields. The kept static fields fill one area without gaps, and the kept fields
of an instance fill another one, those of the superclass before those of the class. Addresses are
64-bit integers, so this holds as long as the sizes do not add up to more than these can express. -/

namespace ClassLinker

/-! ### Spans -/

/-- A range of addresses. -/
structure Span where
  start : Int
  size : Int
deriving DecidableEq

/-- An address is in a span. -/
def Span.Holds (s : Span) (x : Int) : Prop := s.start ≤ x ∧ x < s.start + s.size

/-- The addresses of a field. -/
def Field.span (f : Field) : Span := ⟨f.address, f.size⟩

namespace Layout

/-- The sum of the sizes of some spans. -/
def extent (spans : List Span) : Int := (spans.map Span.size).sum

/-- No two of the spans have an address in common, and together they have those from `start` up to
`stop`. -/
structure Tiles (start stop : Int) (spans : List Span) : Prop where
  disjoint : spans.Pairwise fun s t => ∀ x, ¬ (s.Holds x ∧ t.Holds x)
  covers : ∀ x, (∃ s ∈ spans, s.Holds x) ↔ start ≤ x ∧ x < stop

theorem Tiles.nil (start : Int) : Tiles start start [] :=
  ⟨.nil, fun x => ⟨fun ⟨_, hs, _⟩ => absurd hs List.not_mem_nil, fun h => by omega⟩⟩

theorem Tiles.append {start middle stop : Int} {spans spans' : List Span}
    (h : Tiles start middle spans) (h' : Tiles middle stop spans') (hle : start ≤ middle)
    (hle' : middle ≤ stop) : Tiles start stop (spans ++ spans') := by
  refine ⟨List.pairwise_append.mpr ⟨h.disjoint, h'.disjoint, ?_⟩, fun x => ?_⟩
  · intro s hs t ht x ⟨hsx, htx⟩
    have hlt := ((h.covers x).mp ⟨s, hs, hsx⟩).2
    have hge := ((h'.covers x).mp ⟨t, ht, htx⟩).1
    omega
  · simp only [List.mem_append, or_and_right, exists_or, h.covers, h'.covers]
    omega

theorem Tiles.cons {start stop : Int} {s : Span} {spans : List Span} (hstart : s.start = start)
    (hsize : 0 ≤ s.size) (h : Tiles (start + s.size) stop spans) (hle : start + s.size ≤ stop) :
    Tiles start stop (s :: spans) := by
  have hone : Tiles start (start + s.size) [s] :=
    ⟨List.pairwise_singleton _ _, fun x => by simp [Span.Holds, hstart]⟩
  exact hone.append h (by omega) hle

/-- The order in which spans are listed does not matter. -/
theorem Tiles.swap {start middle stop : Int} {spans spans' : List Span}
    (h : Tiles start middle spans) (h' : Tiles middle stop spans') (hle : start ≤ middle)
    (hle' : middle ≤ stop) : Tiles start stop (spans' ++ spans) := by
  have hall := h.append h' hle hle'
  refine ⟨?_, fun x => ?_⟩
  · refine (List.perm_append_comm.pairwise_iff fun {s t} hst x hx => ?_).mp hall.disjoint
    exact hst x hx.symm
  · rw [← hall.covers x]
    simp only [List.mem_append, or_comm]

@[simp] theorem extent_nil : extent [] = 0 := rfl

@[simp] theorem extent_cons (s : Span) (spans : List Span) :
    extent (s :: spans) = s.size + extent spans := by
  simp [extent]

@[simp] theorem extent_append (spans spans' : List Span) :
    extent (spans ++ spans') = extent spans + extent spans' := by
  simp [extent]

theorem extent_nonneg {spans : List Span} (h : ∀ s ∈ spans, 1 ≤ s.size) : 0 ≤ extent spans := by
  induction spans with
  | nil => exact Int.le_refl 0
  | cons s spans ih =>
      obtain ⟨hs, hspans⟩ := List.forall_mem_cons.mp h
      have hrest := ih hspans
      rw [extent_cons]
      omega

theorem extent_congr {spans spans' : List Span} (h : spans'.map Span.size = spans.map Span.size) :
    extent spans' = extent spans := by
  rw [extent, extent, h]

theorem wordAdd_eq {a b : Int} (h : 0 ≤ a + b) (h' : a + b < 2 ^ 63) : wordAdd a b = a + b := by
  rw [wordAdd, Int.bmod_eq_of_le] <;> omega

/-! ### Placing fields -/

/-- The spans of the kept static fields. -/
def staticSpans (fs : List Field) : List Span :=
  (fs.filter fun f => f.kept && f.isStatic).map Field.span

/-- The spans of the kept fields of an instance. -/
def instanceSpans (fs : List Field) : List Span :=
  (fs.filter fun f => f.kept && !f.isStatic).map Field.span

theorem size_of_mem_staticSpans {fs : List Field} (h : ∀ f ∈ fs, 1 ≤ f.size) :
    ∀ s ∈ staticSpans fs, 1 ≤ s.size := by
  intro s hs
  obtain ⟨f, hf, rfl⟩ := List.mem_map.mp hs
  exact h f (List.mem_of_mem_filter hf)

theorem size_of_mem_instanceSpans {fs : List Field} (h : ∀ f ∈ fs, 1 ≤ f.size) :
    ∀ s ∈ instanceSpans fs, 1 ≤ s.size := by
  intro s hs
  obtain ⟨f, hf, rfl⟩ := List.mem_map.mp hs
  exact h f (List.mem_of_mem_filter hf)

theorem staticSpans_cons (f : Field) (fs : List Field) : staticSpans (f :: fs) =
    if f.kept && f.isStatic then f.span :: staticSpans fs else staticSpans fs := by
  rw [staticSpans, List.filter_cons]
  split <;> rfl

theorem instanceSpans_cons (f : Field) (fs : List Field) : instanceSpans (f :: fs) =
    if f.kept && !f.isStatic then f.span :: instanceSpans fs else instanceSpans fs := by
  rw [instanceSpans, List.filter_cons]
  split <;> rfl

/-- The kept static fields are placed one after the other. -/
theorem placeFields_tiles {address : Int} {fs : List Field} (haddress : 0 ≤ address)
    (hsizes : ∀ f ∈ fs, 1 ≤ f.size) (hroom : address + extent (staticSpans fs) < 2 ^ 63) :
    (placeFields true address fs).2 = address + extent (staticSpans fs) ∧
      Tiles address (address + extent (staticSpans fs))
        (staticSpans (placeFields true address fs).1) := by
  induction fs generalizing address with
  | nil => exact ⟨(Int.add_zero _).symm, by simpa [staticSpans, placeFields] using Tiles.nil address⟩
  | cons f fs ih =>
      obtain ⟨hf, hsizes⟩ := List.forall_mem_cons.mp hsizes
      have hrest := extent_nonneg (size_of_mem_staticSpans hsizes)
      rw [staticSpans_cons] at hroom ⊢
      unfold placeFields
      by_cases hkept : (f.kept && f.isStatic) = true
      · have hkept' : (f.kept && decide (f.isStatic = true)) = true := by simpa using hkept
        rw [if_pos hkept, extent_cons] at hroom ⊢
        rw [if_pos hkept']
        have hsize : f.span.size = f.size := rfl
        have hnext : wordAdd address f.size = address + f.size := wordAdd_eq (by omega) (by omega)
        obtain ⟨hstop, htiles⟩ := ih (show 0 ≤ address + f.size by omega) hsizes (by omega)
        simp only [hnext]
        refine ⟨by rw [hstop]; omega, ?_⟩
        rw [staticSpans_cons, if_pos hkept]
        refine Tiles.cons rfl (show 0 ≤ f.size by omega) ?_ (show address + f.size ≤ _ by omega)
        rwa [← Int.add_assoc]
      · have hkept' : ¬ (f.kept && decide (f.isStatic = true)) = true := by simpa using hkept
        rw [if_neg hkept] at hroom ⊢
        rw [if_neg hkept']
        obtain ⟨hstop, htiles⟩ := ih haddress hsizes hroom
        refine ⟨hstop, ?_⟩
        rwa [staticSpans_cons, if_neg hkept]

/-- The kept fields of an instance are placed one after the other, behind the inherited storage. -/
theorem placeInstance_tiles {base own : Int} {fs : List Field} (hbase : 0 ≤ base) (hown : 0 ≤ own)
    (hsizes : ∀ f ∈ fs, 1 ≤ f.size) (hroom : base + own + extent (instanceSpans fs) < 2 ^ 63) :
    (placeInstance base own fs).2 = own + extent (instanceSpans fs) ∧
      Tiles (base + own) (base + own + extent (instanceSpans fs))
        (instanceSpans (placeInstance base own fs).1) := by
  induction fs generalizing own with
  | nil => exact ⟨(Int.add_zero _).symm, by simpa [instanceSpans, placeInstance] using Tiles.nil (base + own)⟩
  | cons f fs ih =>
      obtain ⟨hf, hsizes⟩ := List.forall_mem_cons.mp hsizes
      have hrest := extent_nonneg (size_of_mem_instanceSpans hsizes)
      rw [instanceSpans_cons] at hroom ⊢
      unfold placeInstance
      by_cases hkept : (f.kept && !f.isStatic) = true
      · rw [if_pos hkept, extent_cons] at hroom
        rw [if_pos hkept, if_pos hkept, extent_cons]
        have hsize : f.span.size = f.size := rfl
        have hnext : wordAdd own f.size = own + f.size := wordAdd_eq (by omega) (by omega)
        have hstart : wordAdd base own = base + own := wordAdd_eq (by omega) (by omega)
        obtain ⟨hstop, htiles⟩ := ih (show 0 ≤ own + f.size by omega) hsizes (by omega)
        simp only [hnext]
        refine ⟨by rw [hstop]; omega, ?_⟩
        rw [instanceSpans_cons, if_pos hkept]
        refine Tiles.cons hstart (show 0 ≤ f.size by omega) ?_
          (show base + own + f.size ≤ _ by omega)
        rw [← Int.add_assoc base own] at htiles
        show Tiles (base + own + f.size) (base + own + (f.size + extent (instanceSpans fs))) _
        rwa [← Int.add_assoc (base + own)]
      · rw [if_neg hkept] at hroom
        rw [if_neg hkept, if_neg hkept]
        obtain ⟨hstop, htiles⟩ := ih hown hsizes hroom
        refine ⟨hstop, ?_⟩
        rwa [instanceSpans_cons, if_neg hkept]

/-- Fields keep their sizes wherever they are placed. -/
theorem sizes_of_laid {fs fs' : List Field} (h : List.Forall₂ Field.Laid fs fs') :
    (staticSpans fs').map Span.size = (staticSpans fs).map Span.size ∧
      (instanceSpans fs').map Span.size = (instanceSpans fs).map Span.size := by
  induction h with
  | nil => exact ⟨rfl, rfl⟩
  | @cons f f' fs fs' hf _ ih =>
      obtain ⟨hstatic, hinstance⟩ := ih
      have hkept : f'.kept = f.kept := by rw [hf]
      have hkind : f'.isStatic = f.isStatic := by rw [hf]
      have hsize : f'.span.size = f.span.size := by rw [hf]; rfl
      rw [staticSpans_cons, staticSpans_cons, instanceSpans_cons, instanceSpans_cons, hkept, hkind]
      constructor
      · split
        · rw [List.map_cons, List.map_cons, hstatic, hsize]
        · exact hstatic
      · split
        · rw [List.map_cons, List.map_cons, hinstance, hsize]
        · exact hinstance

/-- The fields of instances do not touch the static ones. -/
theorem staticSpans_placeInstance (base own : Int) (fs : List Field) :
    staticSpans (placeInstance base own fs).1 = staticSpans fs := by
  induction fs generalizing own with
  | nil => rfl
  | cons f fs ih =>
      unfold placeInstance
      rw [staticSpans_cons]
      split
      case isTrue hkept =>
          have hstatic : ¬ (f.kept && f.isStatic) = true := by simp_all
          rw [staticSpans_cons, if_neg hstatic, if_neg hstatic, ih]
      case isFalse => rw [staticSpans_cons, ih]

theorem spans_numberFields (sigs : List Signature) (fs : List Field) :
    staticSpans (numberFields sigs fs).1 = staticSpans fs ∧
      instanceSpans (numberFields sigs fs).1 = instanceSpans fs := by
  induction fs generalizing sigs with
  | nil => exact ⟨rfl, rfl⟩
  | cons f fs ih =>
      unfold numberFields
      split
      · obtain ⟨hstatic, hinstance⟩ := ih (intern sigs f.sig).2
        constructor
        · rw [staticSpans_cons, staticSpans_cons, hstatic]
          rfl
        · rw [instanceSpans_cons, instanceSpans_cons, hinstance]
          rfl
      · obtain ⟨hstatic, hinstance⟩ := ih sigs
        constructor
        · rw [staticSpans_cons, staticSpans_cons, hstatic]
        · rw [instanceSpans_cons, instanceSpans_cons, hinstance]

end Layout

open Layout

/-! ### The storage of a registry -/

namespace Class

/-- The spans of the kept static fields of a class. -/
def staticSpans (c : Class) : List Span := Layout.staticSpans c.fields

/-- The spans of the kept instance fields that a class declares. -/
def instanceSpans (c : Class) : List Span := Layout.instanceSpans c.fields

/-- What linking gives a class for its fields. -/
def storage (c : Class) : List Span × List Span × Int :=
  (c.staticSpans, c.instanceSpans, c.totalSize)

/-- The instance fields of a class are placed behind `base`, the storage of its superclass. -/
def PlacedBehind (base : Int) (c : Class) : Prop :=
  ∃ fs, (∀ f ∈ fs, 1 ≤ f.size) ∧
    c.instanceSpans = Layout.instanceSpans (placeInstance base 0 fs).1 ∧
    c.totalSize = wordAdd base (placeInstance base 0 fs).2

theorem PlacedBehind.extent_nonneg {base : Int} {c : Class} (h : c.PlacedBehind base) :
    0 ≤ extent c.instanceSpans := by
  obtain ⟨fs, hsizes, hspans, -⟩ := h
  rw [hspans, extent_congr (sizes_of_laid (placeInstance_laid base 0 fs)).2]
  exact Layout.extent_nonneg (size_of_mem_instanceSpans hsizes)

theorem PlacedBehind.tiles {base : Int} {c : Class} (h : c.PlacedBehind base) (hbase : 0 ≤ base)
    (hroom : base + extent c.instanceSpans < 2 ^ 63) :
    c.totalSize = base + extent c.instanceSpans ∧ Tiles base c.totalSize c.instanceSpans := by
  have hpos := h.extent_nonneg
  obtain ⟨fs, hsizes, hspans, htotal⟩ := h
  have hextent : extent c.instanceSpans = extent (Layout.instanceSpans fs) := by
    rw [hspans, extent_congr (sizes_of_laid (placeInstance_laid base 0 fs)).2]
  rw [hextent] at hroom hpos ⊢
  obtain ⟨hstop, htiles⟩ :=
    placeInstance_tiles hbase (Int.le_refl 0) hsizes (by omega)
  have htotal : c.totalSize = base + extent (Layout.instanceSpans fs) := by
    rw [htotal, hstop, wordAdd_eq] <;> omega
  rw [Int.add_zero] at htiles
  exact ⟨htotal, by rw [htotal, hspans]; exact htiles⟩

end Class

namespace Registry

open Step RegistryM

/-- The storage that a class inherits: that of its superclass. -/
def inherited (r : Registry) (c : Class) : Int :=
  (((r.superOf? c).bind r.classAt?).map Class.totalSize).getD 0

/-- The spans of the kept static fields of the class in a row. -/
def staticsAt (r : Registry) (row : Nat) : List Span :=
  ((r.classAt? row).map Class.staticSpans).getD []

/-- The spans of the kept static fields of all kept classes. -/
def staticSpans (r : Registry) : List Span := r.keptClasses.flatMap fun q => q.2.staticSpans

theorem staticSpans_eq (r : Registry) : r.staticSpans = r.keptRows.flatMap r.staticsAt := by
  rw [staticSpans, keptRows, List.flatMap_map]
  refine List.flatMap_congr fun q hq => ?_
  obtain ⟨-, hc, -⟩ := (mem_keptClasses (r := r)).mp hq
  rw [staticsAt, hc]
  rfl

theorem staticsAt_eq {r : Registry} {row : Nat} {c : Class} (hc : r.classAt? row = some c) :
    r.staticsAt row = c.staticSpans := by
  rw [staticsAt, hc]
  rfl

/-- The fields of `r'` are those of `r` in the same places. -/
def SameStorage (r r' : Registry) : Prop :=
  r'.staticSize = r.staticSize ∧
    ∀ row, (r'.classAt? row).map Class.storage = (r.classAt? row).map Class.storage

namespace SameStorage

variable {r r' r'' : Registry}

theorem refl (r : Registry) : r.SameStorage r := ⟨rfl, fun _ => rfl⟩

theorem trans (h : r.SameStorage r') (h' : r'.SameStorage r'') : r.SameStorage r'' :=
  ⟨h'.1.trans h.1, fun row => (h'.2 row).trans (h.2 row)⟩

theorem modifyClass {row : Nat} {f : Class → Class}
    (hf : ∀ {c}, r.classAt? row = some c → (f c).storage = c.storage) :
    r.SameStorage (r.modifyClass row f) :=
  ⟨rfl, map_classAt?_modifyClass hf⟩

theorem exists_old (h : r.SameStorage r') {row : Nat} {c' : Class}
    (hc' : r'.classAt? row = some c') :
    ∃ c, r.classAt? row = some c ∧ c'.storage = c.storage := by
  have heq := h.2 row
  rw [hc', Option.map_some] at heq
  obtain ⟨c, hc, hsame⟩ := Option.map_eq_some_iff.mp heq.symm
  exact ⟨c, hc, hsame.symm⟩

theorem map_eq (h : r.SameStorage r') {β : Type} (f : List Span × List Span × Int → β)
    (row : Nat) : (r'.classAt? row).map (fun c => f c.storage) =
      (r.classAt? row).map fun c => f c.storage := by
  have heq := congrArg (Option.map f) (h.2 row)
  rwa [Option.map_map, Option.map_map] at heq

end SameStorage

theorem numberMembers_sameStorage (rows : List Nat) (r : Registry) :
    r.SameStorage (numberMembers rows r) := by
  induction rows generalizing r with
  | nil => exact .refl r
  | cons row rows ih =>
      unfold numberMembers
      cases hc : r.classAt? row with
      | none => exact ih r
      | some c =>
          refine (SameStorage.modifyClass (r := r) fun hc' => ?_).trans (ih _)
          cases hc.symm.trans hc'
          obtain ⟨hstatic, hinstance⟩ :=
            spans_numberFields (numberMethods r.signatures c.methods).2 c.fields
          exact Prod.ext hstatic (Prod.ext hinstance rfl)

/-- Resolving a reference changes nothing but the reference. -/
theorem resolveRef_sameStorage {owner : Class} {a : RefAddr} {ref : Reference} {r r' : Registry}
    (hok : resolveRef owner a ref r = .ok () r') : r.SameStorage r' := by
  cases hbody : ref.body with
  | literal v =>
      rw [resolveRef, hbody] at hok
      cases hok
      exact .refl r
  | classRef name id =>
      obtain ⟨_, _, -, -, -, rfl⟩ := (resolveRef_class hbody).mp hok
      exact .modifyClass fun _ => rfl
  | memberRef m t d k i =>
      obtain ⟨_, _, _, _, _, -, -, -, -, -, -, rfl⟩ := (resolveRef_member hbody).mp hok
      exact SameStorage.modifyClass (r := { r with signatures := _ }) fun _ => rfl

theorem resolveRefs_sameStorage {row : Nat} {r r' : Registry}
    (hok : resolveRefs row r = .ok () r') : r.SameStorage r' := by
  simp only [resolveRefs, bind_ok, classAt_ok] at hok
  obtain ⟨c, _, ⟨-, rfl⟩, hloop⟩ := hok
  refine forM_preserves (P := r.SameStorage) ?_ (.refl r) hloop
  intro p _ u v hu hstep
  rw [ite_ok] at hstep
  rcases hstep with ⟨-, hstep⟩ | ⟨-, hstep⟩
  · exact hu.trans (resolveRef_sameStorage hstep)
  · cases hstep
    exact hu

/-- What is in the places of the fields once they have them stays until linking ends. -/
theorem link_sameStorage {r r' : Registry} (hok : link r = .ok () r') :
    r.placed.SameStorage r' := by
  obtain ⟨-, -, l, hrun, rfl⟩ := link_ok.mp hok
  have hlayout : r.placed.SameStorage r.layOut :=
    numberMembers_sameStorage r.keptRows { r.placed with signatures := [] }
  have hresolved : r.layOut.SameStorage l := by
    refine forM_preserves (P := r.layOut.SameStorage) ?_ (.refl _) hrun
    exact fun row _ u v hu hstep => hu.trans (resolveRefs_sameStorage hstep)
  exact hlayout.trans hresolved

section

variable {rows : List Nat} {r : Registry}

theorem classAt?_layStatics_of_not_mem {row : Nat} (hrow : row ∉ rows) :
    (layStatics rows r).classAt? row = r.classAt? row := by
  induction rows generalizing r with
  | nil => rfl
  | cons p rows ih =>
      have hne := List.ne_of_not_mem_cons hrow
      have hrow := List.not_mem_of_not_mem_cons hrow
      unfold layStatics
      cases hp : r.classAt? p with
      | none => exact ih hrow
      | some c =>
          refine (ih hrow).trans ?_
          exact (classAt?_modifyClass r p row _).trans (if_neg (Ne.symm hne))

theorem classAt?_layInstances_of_not_mem {row : Nat} (hrow : row ∉ rows) :
    (layInstances rows r).classAt? row = r.classAt? row := by
  induction rows generalizing r with
  | nil => rfl
  | cons p rows ih =>
      have hne := List.ne_of_not_mem_cons hrow
      have hrow := List.not_mem_of_not_mem_cons hrow
      unfold layInstances
      cases hp : r.classAt? p with
      | none => exact ih hrow
      | some c =>
          refine (ih hrow).trans ?_
          rw [classAt?_modifyClass, if_neg (Ne.symm hne)]

/-- The static fields of the classes are placed behind those already placed. -/
theorem layStatics_tiles (hnodup : rows.Nodup) (hstart : 0 ≤ r.staticSize)
    (hrows : ∀ row ∈ rows, ∃ c, r.classAt? row = some c ∧ ∀ f ∈ c.fields, 1 ≤ f.size)
    (hroom : r.staticSize + extent (rows.flatMap r.staticsAt) < 2 ^ 63) :
    (layStatics rows r).staticSize = r.staticSize + extent (rows.flatMap r.staticsAt) ∧
      Tiles r.staticSize (layStatics rows r).staticSize
        (rows.flatMap (layStatics rows r).staticsAt) := by
  induction rows generalizing r with
  | nil => exact ⟨(Int.add_zero _).symm, .nil _⟩
  | cons row rows ih =>
      obtain ⟨hnew, hnodup⟩ := List.nodup_cons.mp hnodup
      obtain ⟨⟨c, hc, hsizes⟩, hrest⟩ := List.forall_mem_cons.mp hrows
      have hown : 0 ≤ extent c.staticSpans := extent_nonneg (size_of_mem_staticSpans hsizes)
      have hlater : 0 ≤ extent (rows.flatMap r.staticsAt) := by
        refine extent_nonneg fun s hs => ?_
        obtain ⟨p, hp, hs⟩ := List.mem_flatMap.mp hs
        obtain ⟨d, hd, hsizes⟩ := hrest p hp
        rw [staticsAt_eq hd] at hs
        exact size_of_mem_staticSpans hsizes s hs
      rw [List.flatMap_cons, staticsAt_eq hc, extent_append] at hroom ⊢
      obtain ⟨hstop, htiles⟩ := placeFields_tiles hstart hsizes (show
        r.staticSize + extent c.staticSpans < 2 ^ 63 by omega)
      change _ = r.staticSize + extent c.staticSpans at hstop
      change Tiles _ (r.staticSize + extent c.staticSpans) _ at htiles
      unfold layStatics
      simp only [hc]
      generalize hu : ({ r.modifyClass row (fun c' => { c' with
        fields := (placeFields true r.staticSize c.fields).1 }) with
        staticSize := (placeFields true r.staticSize c.fields).2 } : Registry) = u
      have hsize : u.staticSize = r.staticSize + extent c.staticSpans := by
        rw [← hu]
        exact hstop
      have hclass : u.classAt? row =
          some { c with fields := (placeFields true r.staticSize c.fields).1 } := by
        rw [← hu]
        exact (classAt?_modifyClass r row row _).trans (by rw [if_pos rfl, hc, Option.map_some])
      have hothers : ∀ p ∈ rows, u.classAt? p = r.classAt? p := by
        intro p hp
        have hne : row ≠ p := fun heq => hnew (heq ▸ hp)
        rw [← hu]
        exact (classAt?_modifyClass r row p _).trans (if_neg hne)
      have hspans : rows.flatMap u.staticsAt = rows.flatMap r.staticsAt :=
        List.flatMap_congr fun p hp => by rw [staticsAt, staticsAt, hothers p hp]
      obtain ⟨htotal, hcovered⟩ := ih (r := u) hnodup (by omega)
        (fun p hp => by rw [hothers p hp]; exact hrest p hp) (by rw [hsize, hspans]; omega)
      have hkept : (layStatics rows u).staticsAt row =
          Layout.staticSpans (placeFields true r.staticSize c.fields).1 :=
        staticsAt_eq ((classAt?_layStatics_of_not_mem hnew).trans hclass)
      rw [hspans, hsize] at htotal
      rw [hsize] at hcovered
      refine ⟨by rw [htotal, Int.add_assoc], ?_⟩
      rw [List.flatMap_cons, hkept]
      exact htiles.append hcovered (by omega) (by omega)

/-- Superclasses come first, so every class is placed behind what its superclass has in the end. -/
theorem layInstances_placedBehind (hsorted : rows.Pairwise (· < ·))
    (hrows : ∀ row ∈ rows, ∃ c, r.classAt? row = some c ∧ (∀ f ∈ c.fields, 1 ≤ f.size) ∧
      ∀ p, r.superOf? c = some p → p < row) :
    ∀ row ∈ rows, ∀ {c}, (layInstances rows r).classAt? row = some c →
      c.PlacedBehind ((layInstances rows r).inherited c) := by
  induction rows generalizing r with
  | nil => exact fun row hrow => absurd hrow List.not_mem_nil
  | cons row rows ih =>
      obtain ⟨hbefore, hsorted⟩ := List.pairwise_cons.mp hsorted
      obtain ⟨⟨c, hc, hsizes, hsuper⟩, hrest⟩ := List.forall_mem_cons.mp hrows
      have hnew : row ∉ rows := fun hmem => Nat.lt_irrefl row (hbefore row hmem)
      unfold layInstances
      simp only [hc]
      generalize hbase : (((r.superOf? c).bind r.classAt?).map Class.totalSize).getD 0 = base
      generalize hu : r.modifyClass row (fun c' => { c' with
        fields := (placeInstance base 0 c.fields).1, ownSize := (placeInstance base 0 c.fields).2
        totalSize := wordAdd base (placeInstance base 0 c.fields).2 }) = u
      have hclass : u.classAt? row = some { c with
          fields := (placeInstance base 0 c.fields).1, ownSize := (placeInstance base 0 c.fields).2
          totalSize := wordAdd base (placeInstance base 0 c.fields).2 } := by
        rw [← hu, classAt?_modifyClass, if_pos rfl, hc, Option.map_some]
      have hothers : ∀ p, p ≠ row → u.classAt? p = r.classAt? p := by
        intro p hp
        rw [← hu, classAt?_modifyClass, if_neg (Ne.symm hp)]
      have hfind : ∀ name, u.find? name = r.find? name := fun name => by
        rw [← hu, find?_modifyClass]
      have hsuperOf : ∀ d, u.superOf? d = r.superOf? d := fun d => by
        rw [superOf?, superOf?, hfind]
      refine List.forall_mem_cons.mpr ⟨fun {c'} hc' => ?_, ih hsorted fun p hp => ?_⟩
      · rw [classAt?_layInstances_of_not_mem hnew, hclass] at hc'
        cases hc'
        have hinherited : ∀ {d : Class}, d.super = c.super →
            (layInstances rows u).inherited d = base := by
          intro d hd
          have hsame : (layInstances rows u).superOf? d = r.superOf? c := by
            rw [← hsuperOf c, superOf?, superOf?, find?, find?, (layInstances_laid rows u).names_eq,
              hd]
          rw [inherited, hsame, ← hbase]
          cases hparent : r.superOf? c with
          | none => rfl
          | some p =>
              have hlt := hsuper p hparent
              have hnot : p ∉ rows := fun hmem => Nat.lt_asymm hlt (hbefore p hmem)
              rw [Option.bind_some, Option.bind_some, classAt?_layInstances_of_not_mem hnot,
                hothers p (Nat.ne_of_lt hlt)]
        rw [hinherited]
        · exact ⟨c.fields, hsizes, rfl, rfl⟩
        · rfl
      · have hne : p ≠ row := fun heq => hnew (heq ▸ hp)
        obtain ⟨d, hd, hd'⟩ := hrest p hp
        refine ⟨d, (hothers p hne).trans hd, hd'.1, fun q hq => hd'.2 q ?_⟩
        rw [← hsuperOf]
        exact hq

end

/-- The spans of the kept instance fields of the classes of a chain. -/
def chainSpans (chain : List (Nat × Class)) : List Span := chain.flatMap fun q => q.2.instanceSpans

theorem chainSpans_cons (row : Nat) (c : Class) (rest : List (Nat × Class)) :
    chainSpans ((row, c) :: rest) = c.instanceSpans ++ chainSpans rest := List.flatMap_cons

/-- In a chain whose classes are placed behind their superclasses, the fields of all of them tile the
storage of the class. -/
theorem IsChain.tiles {r : Registry} {row : Nat} {chain : List (Nat × Class)}
    (h : r.IsChain row chain) (hplaced : ∀ q ∈ chain, q.2.PlacedBehind (r.inherited q.2))
    (hroom : extent (chainSpans chain) < 2 ^ 63) :
    ∃ c, r.classAt? row = some c ∧ 0 ≤ c.totalSize ∧ c.totalSize = extent (chainSpans chain) ∧
      Tiles 0 c.totalSize (chainSpans chain) ∧
      Tiles (r.inherited c) c.totalSize c.instanceSpans := by
  induction h with
  | @root row c hc hroot =>
      have hc' : c.PlacedBehind (r.inherited c) := hplaced _ (List.mem_singleton_self _)
      have hbase : r.inherited c = 0 := by
        rw [inherited, superOf?, if_pos hroot]
        rfl
      have hspans : chainSpans [(row, c)] = c.instanceSpans := List.flatMap_singleton ..
      rw [hspans] at hroom ⊢
      rw [hbase] at hc'
      obtain ⟨htotal, htiles⟩ := hc'.tiles (Int.le_refl 0) (by omega)
      have hpos := hc'.extent_nonneg
      exact ⟨c, hc, by omega, by omega, htiles, hbase ▸ htiles⟩
  | @super row parent c rest hc hsuper hparent _ ih =>
      obtain ⟨hc', hrest⟩ := List.forall_mem_cons.mp hplaced
      change c.PlacedBehind (r.inherited c) at hc'
      rw [chainSpans_cons, extent_append] at hroom ⊢
      have hpos := hc'.extent_nonneg
      obtain ⟨d, hd, hnonneg, hextent, hall, -⟩ := ih hrest (by omega)
      have hbase : r.inherited c = d.totalSize := by
        rw [inherited, superOf?, if_neg hsuper, hparent, Option.bind_some, hd]
        rfl
      rw [hbase] at hc'
      obtain ⟨htotal, htiles⟩ := hc'.tiles hnonneg (by omega)
      exact ⟨c, hc, by omega, by omega, hall.swap htiles hnonneg (by omega), hbase ▸ htiles⟩

/-! ### What linking does -/

theorem layInstances_statics (rows : List Nat) (r : Registry) :
    (layInstances rows r).staticSize = r.staticSize ∧
      ∀ row, (layInstances rows r).staticsAt row = r.staticsAt row := by
  induction rows generalizing r with
  | nil => exact ⟨rfl, fun _ => rfl⟩
  | cons row rows ih =>
      unfold layInstances
      cases hc : r.classAt? row with
      | none => exact ih r
      | some c =>
          refine ⟨(ih _).1, fun p => ((ih _).2 p).trans ?_⟩
          rw [staticsAt, staticsAt, classAt?_modifyClass]
          split
          case isFalse => rfl
          case isTrue hp =>
              subst hp
              rw [hc, Option.map_some, Option.map_some, Option.map_some]
              exact congrArg (fun spans => (some spans).getD []) (staticSpans_placeInstance _ 0 c.fields)

theorem Laid.extent_staticsAt {r r' : Registry} (h : r.Laid r') (rows : List Nat) :
    extent (rows.flatMap r'.staticsAt) = extent (rows.flatMap r.staticsAt) := by
  have hrow : ∀ row, extent (r'.staticsAt row) = extent (r.staticsAt row) := by
    intro row
    cases hc : r.classAt? row with
    | none =>
        rw [staticsAt, staticsAt, hc, classAt?_eq_none_of_size_eq h.size_eq hc]
    | some c =>
        obtain ⟨c', hc', hlaid⟩ := h.classes hc
        rw [staticsAt_eq hc, staticsAt_eq hc']
        exact extent_congr (sizes_of_laid hlaid.fields).1
  induction rows with
  | nil => rfl
  | cons row rows ih => rw [List.flatMap_cons, List.flatMap_cons, extent_append, extent_append, hrow, ih]

/-- The fields of `r` have positive sizes. -/
def Sized (r : Registry) : Prop :=
  ∀ row ∈ r.live, ∀ c, r.classAt? row = some c → ∀ f ∈ c.fields, 1 ≤ f.size

theorem Sized.laid {r r' : Registry} (h : r.Sized) (hlaid : r.Laid r') : r'.Sized := by
  intro row hrow c' hc' f' hf'
  obtain ⟨c, hc, hl⟩ := hlaid.exists_old hc'
  obtain ⟨f, hf, hfield⟩ := forall₂_mem_right hl.fields hf'
  rw [hfield]
  exact h row (hlaid.live_eq ▸ hrow) c hc f hf

theorem placed_statics {r : Registry} (hr : r.WellFormed) (hsizes : r.Sized)
    (hroom : extent (r.keptRows.flatMap r.placed.staticsAt) < 2 ^ 63) :
    Tiles 0 r.placed.staticSize (r.keptRows.flatMap r.placed.staticsAt) := by
  have hcode : r.Laid { layCode 0 0 r.keptRows r with staticSize := 0 } :=
    (layCode_laid 0 0 r.keptRows r).withStaticSize 0
  obtain ⟨hsize, hstatics⟩ := layInstances_statics
    (layStatics r.keptRows { layCode 0 0 r.keptRows r with staticSize := 0 }).live
    (layStatics r.keptRows { layCode 0 0 r.keptRows r with staticSize := 0 })
  rw [(placed_laid r).extent_staticsAt, ← hcode.extent_staticsAt] at hroom
  have hspans : r.keptRows.flatMap r.placed.staticsAt = r.keptRows.flatMap
      (layStatics r.keptRows { layCode 0 0 r.keptRows r with staticSize := 0 }).staticsAt :=
    List.flatMap_congr fun row _ => hstatics row
  rw [hspans, placed, hsize]
  refine (layStatics_tiles (r := { layCode 0 0 r.keptRows r with staticSize := 0 })
    hr.keptRows_nodup (Int.le_refl 0) (fun row hrow => ?_) ?_).2
  · obtain ⟨hlive, c, hc, -⟩ := mem_keptRows.mp hrow
    obtain ⟨c', hc', -⟩ := hcode.classes hc
    exact ⟨c', hc', hsizes.laid hcode row (hcode.live_eq ▸ hlive) c' hc'⟩
  · exact (Int.zero_add _).symm ▸ hroom

theorem placed_placedBehind {r : Registry} (hr : r.WellFormed) (hh : r.Hierarchy)
    (hsizes : r.Sized) {row : Nat} {c : Class} (hrow : row ∈ r.live)
    (hc : r.placed.classAt? row = some c) : c.PlacedBehind (r.placed.inherited c) := by
  have hlaid : r.Laid (layStatics r.keptRows { layCode 0 0 r.keptRows r with staticSize := 0 }) :=
    ((layCode_laid 0 0 r.keptRows r).withStaticSize 0).trans (layStatics_laid r.keptRows _)
  have hh' := hh.laid hlaid
  refine layInstances_placedBehind (hlaid.live_eq ▸ hr.live_sorted) (fun p hp => ?_) row
    (hlaid.live_eq ▸ hrow) hc
  obtain ⟨d, hd⟩ := hr.exists_class (hlaid.live_eq ▸ hp)
  obtain ⟨d', hd', -⟩ := hlaid.classes hd
  refine ⟨d', hd', hsizes.laid hlaid p hp d' hd', fun q hq => ?_⟩
  rw [superOf?] at hq
  split at hq
  case isTrue => cases hq
  case isFalse hne =>
      obtain ⟨q', hq', hlt⟩ := hh'.super_lt hp hd' hne
      cases hq'.symm.trans hq
      exact hlt

/-- What linking gives a class for its fields stays until linking ends. -/
theorem link_placedBehind {r r' : Registry} (hr : r.WellFormed) (hh : r.Hierarchy)
    (hsizes : r.Sized) (hlink : link r = .ok () r') {row : Nat} {c : Class} (hrow : row ∈ r.live)
    (hc : r'.classAt? row = some c) : c.PlacedBehind (r'.inherited c) := by
  have hlaid := (link_spec hlink).laid
  have hsame := link_sameStorage hlink
  obtain ⟨c₁, hc₁, hstorage⟩ := hsame.exists_old hc
  simp only [Class.storage, Prod.mk.injEq] at hstorage
  obtain ⟨-, hspans, htotal⟩ := hstorage
  have hsuper : c.super = c₁.super := by
    obtain ⟨c₀, hc₀, hl⟩ := hlaid.exists_old hc
    obtain ⟨c₀', hc₀', hl'⟩ := (placed_laid r).exists_old hc₁
    cases hc₀.symm.trans hc₀'
    rw [hl.frame, hl'.frame]
  have hparent : r'.superOf? c = r.placed.superOf? c₁ := by
    rw [superOf?, superOf?, find?, find?, hlaid.names_eq, (placed_laid r).names_eq, hsuper]
  have hinherited : r'.inherited c = r.placed.inherited c₁ := by
    rw [inherited, inherited, hparent]
    cases r.placed.superOf? c₁ with
    | none => rfl
    | some p => exact congrArg (Option.getD · 0) (hsame.map_eq (fun s => s.2.2) p)
  obtain ⟨fs, hpositive, hspans₁, htotal₁⟩ := placed_placedBehind hr hh hsizes hrow hc₁
  exact ⟨fs, hpositive, by rw [hinherited, hspans, hspans₁], by rw [hinherited, htotal, htotal₁]⟩

theorem link_staticSpans {r r' : Registry} (hlink : link r = .ok () r') :
    r'.staticSpans = r.keptRows.flatMap r.placed.staticsAt := by
  rw [staticSpans_eq, (link_spec hlink).laid.keptRows_eq]
  refine List.flatMap_congr fun row _ => ?_
  exact congrArg (Option.getD · []) ((link_sameStorage hlink).map_eq (fun s => s.1) row)

/-- Linking lays fields out without overlap. The static fields of the kept classes tile the static
area, and the instance fields of a class and its superclasses tile the storage of the class, those of
the class itself the part behind the storage of its superclass, as long as their sizes do not add up
to more than an address can express. -/
theorem link_tiles (r r' : Registry) (h : r.Reachable) (hlink : link r = .ok () r')
    (hsizes : r.Sized) :
    (extent r'.staticSpans < 2 ^ 63 → Tiles 0 r'.staticSize r'.staticSpans) ∧
      ∀ row ∈ r'.live, ∀ c, r'.classAt? row = some c → ∃ chain, r'.IsChain row chain ∧
        (extent (chainSpans chain) < 2 ^ 63 → Tiles 0 c.totalSize (chainSpans chain) ∧
          Tiles (r'.inherited c) c.totalSize c.instanceSpans) := by
  have hlaid := (link_spec hlink).laid
  rcases h.open_or_closed with ⟨hclosed, -⟩ | ⟨⟨hr, -⟩, hh⟩
  · rw [(link_spec hlink).isOpen] at hclosed
    cases hclosed
  refine ⟨fun hroom => ?_, fun row hrow c hc => ?_⟩
  · rw [link_staticSpans hlink] at hroom ⊢
    rw [(link_sameStorage hlink).1]
    exact placed_statics hr hsizes hroom
  · have hdesc : r'.Descending := .of_hierarchy (hh.laid hlaid) (hlaid.wellFormed hr)
    obtain ⟨chain, hchain, -⟩ :=
      exists_chain hdesc (hh.laid hlaid).supertypesKnown hrow hc
    refine ⟨chain, hchain, fun hroom => ?_⟩
    obtain ⟨c', hc', -, -, hall, hown⟩ := hchain.tiles (fun q hq => by
      obtain ⟨hq, hcq⟩ := hchain.mem_live hdesc hrow q hq
      exact link_placedBehind hr hh hsizes hlink (hlaid.live_eq ▸ hq) hcq) hroom
    cases hc.symm.trans hc'
    exact ⟨hall, hown⟩

/-- Declares a field. -/
def Operation.bareField (row : Nat) (name : Text) (isStatic : Bool) (size : Int) : Operation :=
  .createField row { sig := ⟨name, "I"⟩, isStatic, size }

/-- A class below another one, both with a static field and with fields of one and of two units. -/
def fieldOps : List Operation := [
  .bareClass "R" [], .bareClass "C" "R", .bareField 0 "a" false 2, .bareField 0 "b" false 1,
  .bareField 0 "s" true 1, .bareField 1 "c" false 1, .bareField 1 "t" true 2, .bareField 1 "d" false 2,
  .keepClass 0, .keepClass 1, .keepMember 0 ⟨"a", "I"⟩, .keepMember 0 ⟨"s", "I"⟩,
  .keepMember 1 ⟨"c", "I"⟩, .keepMember 1 ⟨"t", "I"⟩, .keepMember 1 ⟨"d", "I"⟩]

/-- Whether the fields of the registered classes have positive sizes. -/
def isSized (r : Registry) : Bool :=
  r.live.all fun row => (r.classAt? row).all fun c => c.fields.all fun f => 1 ≤ f.size

theorem sized_of_isSized {r : Registry} (h : r.isSized = true) : r.Sized := by
  intro row hrow c hc f hf
  have hclass := List.all_eq_true.mp h row hrow
  rw [hc] at hclass
  exact of_decide_eq_true (List.all_eq_true.mp hclass f hf)

/-- Whether linking succeeds with a result that passes a check. -/
def linksTo (r : Registry) (check : Registry → Bool) : Bool :=
  match link r with
  | .ok _ r' => check r'
  | .error _ _ => false

theorem exists_of_linksTo {r : Registry} {check : Registry → Bool}
    (h : r.linksTo check = true) : ∃ r', link r = .ok () r' ∧ check r' = true := by
  unfold linksTo at h
  split at h
  · exact ⟨_, ‹_›, h⟩
  · cases h

theorem link_tiles_fields : ∃ r r' c, r = fieldOps.foldl Operation.apply {} ∧ r.Reachable ∧
    r.Sized ∧ link r = .ok () r' ∧ 1 ∈ r'.live ∧ r'.classAt? 1 = some c ∧
    r'.staticSpans = [⟨0, 1⟩, ⟨1, 2⟩] ∧ Tiles 0 r'.staticSize r'.staticSpans ∧
    c.instanceSpans = [⟨2, 1⟩, ⟨3, 2⟩] ∧ c.totalSize = 5 ∧
    ∃ chain, r'.IsChain 1 chain ∧ (extent (chainSpans chain) < 2 ^ 63 →
      Tiles 0 c.totalSize (chainSpans chain) ∧
        Tiles (r'.inherited c) c.totalSize c.instanceSpans) := by
  have hcheck : (fieldOps.foldl Operation.apply {}).linksTo (fun r' => 1 ∈ r'.live ∧
      r'.staticSpans = [⟨0, 1⟩, ⟨1, 2⟩] ∧ (r'.classAt? 1).any fun c =>
        c.instanceSpans = [⟨2, 1⟩, ⟨3, 2⟩] ∧ c.totalSize = 5) = true := by decide +kernel
  obtain ⟨r', hlink, hcheck⟩ := exists_of_linksTo hcheck
  obtain ⟨hrow, hstatics, hclass⟩ := of_decide_eq_true hcheck
  rw [Option.any_eq_true] at hclass
  obtain ⟨c, hc, hclass⟩ := hclass
  obtain ⟨hspans, htotal⟩ := of_decide_eq_true hclass
  have hreach : (fieldOps.foldl Operation.apply {}).Reachable :=
    Reachable.empty.foldl fieldOps (by decide +kernel)
  have hsizes : (fieldOps.foldl Operation.apply {}).Sized :=
    sized_of_isSized (by decide +kernel)
  obtain ⟨hstatic, hinstance⟩ := link_tiles _ r' hreach hlink hsizes
  exact ⟨_, r', c, rfl, hreach, hsizes, hlink, hrow, hc, hstatics,
    hstatic (by rw [hstatics]; decide), hspans, htotal, hinstance 1 hrow c hc⟩

/-! ### Where fields overlap -/

/-- A class with two static fields whose sizes add up to more than an address can express. -/
def oversizedOps : List Operation := [
  .bareClass "R" [], .bareField 0 "f" true (2 ^ 63 - 1), .bareField 0 "g" true (2 ^ 63 - 1),
  .keepClass 0, .keepMember 0 ⟨"f", "I"⟩, .keepMember 0 ⟨"g", "I"⟩]

/-- A compaction fails and forgets the name of the superclass of `E`, which is then given to a class
that comes after `E`. -/
def overlappingOps : List Operation := [
  .bareClass "R" [], .bareClass "D" "R", .bareClass "E" "D", .bareField 0 "f" false 1,
  .bareField 2 "g" false 1, .createClassRef 2 1 "R", .keepClass 0, .keepClass 2,
  .keepMember 0 ⟨"f", "I"⟩, .keepMember 2 ⟨"g", "I"⟩, .link, .keepRef ⟨2, 0⟩, .compact,
  .bareClass "D" "R"]

/-- Fields do not tile their area when their sizes add up to too much, nor when a superclass comes
after a class, which a compaction that failed may lead to. -/
theorem fields_overlap :
    (∃ r r', r = oversizedOps.foldl Operation.apply {} ∧ r.Sized ∧ link r = .ok () r' ∧
      ¬ Tiles 0 r'.staticSize r'.staticSpans) ∧
    ∃ r r' c chain, r = overlappingOps.foldl Operation.apply {} ∧ r.Sized ∧ link r = .ok () r' ∧
      2 ∈ r'.live ∧ r'.classAt? 2 = some c ∧ r'.IsChain 2 chain ∧
      ¬ Tiles 0 c.totalSize (chainSpans chain) := by
  constructor
  · have hcheck : (oversizedOps.foldl Operation.apply {}).linksTo (fun r' => r'.staticSize = -2 ∧
        r'.staticSpans = [⟨0, 2 ^ 63 - 1⟩, ⟨2 ^ 63 - 1, 2 ^ 63 - 1⟩]) = true := by decide +kernel
    obtain ⟨r', hlink, hcheck⟩ := exists_of_linksTo hcheck
    obtain ⟨hsize, hspans⟩ := of_decide_eq_true hcheck
    refine ⟨_, r', rfl, sized_of_isSized (by decide +kernel), hlink, fun htiles => ?_⟩
    have hzero := (htiles.covers 0).mp ⟨⟨0, 2 ^ 63 - 1⟩, by simp [hspans], by
      simp [Span.Holds]⟩
    rw [hsize] at hzero
    omega
  · have hcheck : (overlappingOps.foldl Operation.apply {}).linksTo (fun r' => 2 ∈ r'.live ∧
        (r'.classAt? 2).isSome ∧ (r'.chain 2).getLast?.any (fun q => q.2.super = []) ∧
        chainSpans (r'.chain 2) = [⟨0, 1⟩, ⟨0, 1⟩]) = true := by decide +kernel
    obtain ⟨r', hlink, hcheck⟩ := exists_of_linksTo hcheck
    obtain ⟨hrow, hsome, hlast, hspans⟩ := of_decide_eq_true hcheck
    obtain ⟨c, hc⟩ := Option.isSome_iff_exists.mp hsome
    rw [Option.any_eq_true] at hlast
    obtain ⟨q, hq, hroot⟩ := hlast
    refine ⟨_, r', c, r'.chain 2, rfl, sized_of_isSized (by decide +kernel), hlink, hrow, hc,
      isChain_of_getLast? hq (of_decide_eq_true hroot), fun htiles => ?_⟩
    have hdisjoint := htiles.disjoint
    rw [hspans, List.pairwise_cons] at hdisjoint
    refine hdisjoint.1 ⟨0, 1⟩ List.mem_cons_self 0 ⟨?_, ?_⟩ <;> simp [Span.Holds]

end Registry

end ClassLinker
