import ClassLinker.Proofs.Closure.Consistent
import ClassLinker.Proofs.Closure.Loadable

/-! Where the classes of a link come from. Whatever is asked of a link, and whether or not it was
granted, a class that it has was declared by the source or made as an array. So the names of arrays say
what their classes are, and the first class is the root. -/

namespace ClassLinker

open Closure Registry

/-- What a class is registered with that the source declares. -/
structure ClassSpec.IsDeclared (s : Source) (root : Text) (spec : ClassSpec) : Prop where
  served : ∃ d, s.load spec.name = .ok d
  root_of_super : spec.super = [] → spec.name = root

/-- Every class of a link is declared or an array, and references to arrays belong to classes. -/
structure Linker.Accounted (s : Source) (l : Linker) : Prop where
  origin : ∀ {row c}, l.registry.classAt? row = some c →
    c.spec.IsDeclared s l.root ∨ c.spec.IsArray l.root l.registry row
  unreferenced : l.registry.rows.size = 0 → l.arrayRefs = []

theorem ClassSpec.IsArray.mono {root : Text} {r r' : Registry} {row : Nat} {spec : ClassSpec}
    (h : spec.IsArray root r row)
    (hfind : ∀ {name p}, r.find? name = some p → r'.find? name = some p) :
    spec.IsArray root r' row where
  bracket := h.bracket
  super_eq := h.super_eq
  shape := h.shape.imp_right fun ⟨hkind, hname, p, hp, hlt⟩ => ⟨hkind, hname, p, hfind hp, hlt⟩

namespace Linker.Accounted

variable {s : Source} {l l' : Linker}

theorem empty (s : Source) (root : Text) : Accounted s { root := root } :=
  ⟨fun hc => by simp [classAt?] at hc, fun _ => rfl⟩

theorem aside (h : l.Accounted s) (haside : Aside l l') : l'.Accounted s := by
  constructor
  · intro row c hc
    rw [haside.registry_eq] at hc ⊢
    rw [haside.root_eq]
    exact h.origin hc
  · rw [haside.registry_eq, haside.arrayRefs_eq]
    exact h.unreferenced

/-- A change that leaves the classes what they were registered as. -/
theorem same (h : l.Accounted s) (hroot : l'.root = l.root)
    (hsame : SameSpecs l.registry l'.registry)
    (harrays : l'.registry.rows.size = 0 → l'.arrayRefs = []) : l'.Accounted s := by
  refine ⟨fun {row c'} hc' => ?_, harrays⟩
  obtain ⟨c, hc, hspec⟩ := hsame.exists_class hc'
  rw [hspec, hroot]
  exact (h.origin hc).imp_right fun harray => harray.mono fun hp => (hsame.find?_eq _).trans hp

theorem created (h : l.Accounted s) (hl : l.Orderly) {spec : ClassSpec} {r : Registry}
    (hcreated : Created spec l.registry r)
    (hspec : ({ spec with poolSize := 0 } : ClassSpec).IsDeclared s l.root ∨
      ({ spec with poolSize := 0 } : ClassSpec).IsArray l.root l.registry l.registry.rows.size) :
    Accounted s { l with registry := r } := by
  have hmono : ∀ {spec row}, ClassSpec.IsArray l.root l.registry row spec →
      ClassSpec.IsArray l.root r row spec :=
    fun harray => harray.mono (Proceeds.of_created hl hcreated).retains.names
  refine ⟨fun {row c'} hc' => ?_, fun hsize => ?_⟩
  · have hlt : row < l.registry.rows.size + 1 := hcreated.size_eq ▸ classAt?_lt hc'
    rcases Nat.lt_or_eq_of_le (Nat.le_of_lt_succ hlt) with hold | rfl
    · obtain ⟨c, hc⟩ := exists_classAt? hold
      obtain ⟨children, hother⟩ := hcreated.other hc
      cases hc'.symm.trans hother
      exact (h.origin hc).imp_right hmono
    · obtain ⟨children, hthis⟩ := hcreated.this
      cases hc'.symm.trans hthis
      exact hspec.imp_right hmono
  · have hsize' := hcreated.size_eq
    change r.rows.size = 0 at hsize
    omega

/-- A class stands first only if it is the root, so a link that lacks the root has no classes. -/
theorem size_eq_zero (h : l.Accounted s) (hl : l.Orderly) (hroot : l.root ≠ [])
    (hnew : l.registry.find? l.root = none) : l.registry.rows.size = 0 := by
  by_contra hsize
  obtain ⟨c, hc⟩ := exists_classAt? (Nat.pos_of_ne_zero hsize)
  have hsuper : c.super = [] := by
    rw [hl.tidy.hierarchy.root_iff (hl.tidy.live_of_class hc) hc, hl.tidy.live_eq, List.head?_range,
      if_neg hsize]
  rcases h.origin hc with hdeclared | harray
  · have hfound := hl.tidy.find_self hc
    rw [show c.name = l.root from hdeclared.root_of_super hsuper, hnew] at hfound
    cases hfound
  · exact hroot (harray.super_eq.symm.trans hsuper)

/-- The class with the name of an array, where the source serves no arrays. -/
theorem exists_array (h : l.Accounted s) (hl : l.Orderly) (hnames : s.NoArrays) {name : Text}
    {row : Nat} (hbracket : name.head? = some (Text.byte '['))
    (hrow : l.registry.find? name = some row) :
    ∃ c, l.registry.classAt? row = some c ∧ c.name = name ∧
      c.spec.IsArray l.root l.registry row := by
  obtain ⟨c, hc, rfl⟩ := hl.tidy.exists_class hrow
  rcases h.origin hc with hdeclared | harray
  · obtain ⟨d, hload⟩ := hdeclared.served
    exact absurd hbracket (hnames hload)
  · exact ⟨c, hc, rfl, harray⟩

/-- Where an array is registered, the root is. -/
theorem has_root (h : l.Accounted s) (hl : l.Orderly) (hnames : s.NoArrays) (hroot : l.root ≠ [])
    {name : Text} (hbracket : name.head? = some (Text.byte '[')) (hhas : l.Has name) :
    l.Has l.root := by
  obtain ⟨row, hrow⟩ := hhas
  obtain ⟨c, hc, -, harray⟩ := h.exists_array hl hnames hbracket hrow
  have hsuper : c.super = l.root := harray.super_eq
  obtain ⟨p, hp, -⟩ :=
    hl.tidy.hierarchy.super_lt (hl.tidy.live_of_class hc) hc (hsuper ▸ hroot)
  exact ⟨p, hsuper ▸ hp⟩

/-- A link without classes has all that other links of its source can rely on. -/
theorem wired (h : l.Accounted s) (hl : l.Orderly) (hsize : l.registry.rows.size = 0) :
    l.Wired s where
  tidy := hl.tidy
  kept := hl.kept
  origin hc := absurd (hsize ▸ classAt?_lt hc) (Nat.not_lt_zero _)
  arrays_lt ha := by simp [Linker.arraysOf, h.unreferenced hsize] at ha

end Linker.Accounted

namespace Closure

open LinkM RegistryM Step Registry

variable {s : Source} {l l' : Linker}

/-- Where all classes of `l` are accounted for, those of `l'` are. -/
structure Accounts (s : Source) (l l' : Linker) : Prop where
  proceeds : Proceeds l l'
  root_eq : l'.root = l.root
  accounted : l.Accounted s → l'.Accounted s

instance (s : Source) : Lasting (Accounts s) where
  proceeds := Accounts.proceeds
  trans h h' := ⟨h.proceeds.trans h'.proceeds, h'.root_eq.trans h.root_eq, h'.accounted ∘ h.accounted⟩
  aside hl h := ⟨Lasting.aside hl h, h.root_eq, fun haccounted => haccounted.aside h⟩

/-- Marks leave the classes what they were registered as. -/
theorem Accounts.of_changesAt {r : Registry} {row expansions : Nat}
    (hproceeds : Proceeds l { l with registry := r, expansions := expansions })
    (h : Operation.ChangesAt row l.registry r) :
    Accounts s l { l with registry := r, expansions := expansions } where
  proceeds := hproceeds
  root_eq := rfl
  accounted haccounted := haccounted.same rfl (.of_changesAt h) fun hsize =>
    haccounted.unreferenced ((SameSpecs.of_changesAt h).size_eq.symm.trans hsize)

instance (s : Source) : Invariant s (Accounts s) where
  declare {l l' r d} hl hload hsuper hcreated hfilled := by
    obtain ⟨hroot, hsame⟩ := hfilled fills_sameSpecs
    refine ⟨.of_filled hl hcreated hfilled, hroot, fun haccounted => ?_⟩
    refine (haccounted.created hl hcreated (.inl ⟨⟨d, hload⟩, hsuper⟩)).same hroot hsame ?_
    have hsize := hcreated.size_eq
    have hsize' : l'.registry.rows.size = r.rows.size := hsame.size_eq
    omega
  make hl hspec hcreated := ⟨.of_created hl hcreated, rfl, fun haccounted =>
    haccounted.created hl hcreated (.inr ⟨hspec.bracket, hspec.super_eq, hspec.shape⟩)⟩
  keepRef {l} a hl := by
    have hchanges := Operation.apply_changesAt l.registry
      (show (Operation.keepRef a).row? = some a.row from rfl)
    rw [Operation.apply, Operation.run, final_discard] at hchanges
    exact .of_changesAt (Invariant.keepRef s a hl) hchanges
  keepMember {l row sig c d fresh r} hl hc hd hok := by
    have hchanges := Operation.apply_changesAt l.registry
      (show (Operation.keepMember row sig).row? = some row from rfl)
    rw [Operation.apply, Operation.run, final_discard, hok] at hchanges
    exact .of_changesAt (Invariant.keepMember s hl hc hd hok) hchanges

end Closure

end ClassLinker
