import ClassLinker.Proofs.Closure.Accounted
import ClassLinker.Proofs.Closure.Parallel
import ClassLinker.Proofs.Closure.Supertypes
import ClassLinker.Proofs.Closure.Termination

/-! Array classes. The name of an array is a base with brackets in front of it. It is peeled to the
longest name that is registered, and the arrays are made from there on outwards, so all that can fail is
loading the root and, where nothing is registered, what the base stands for. -/

namespace ClassLinker

open Closure

/-- A base with `k` brackets in front of it: the name of an array of `k` dimensions. -/
def brackets (k : Nat) (base : Text) : Text := List.replicate k (Text.byte '[') ++ base

/-- A class is the array of `k` dimensions over a base, where one dimension less is the class of its
elements. -/
structure Class.IsArrayOf (root : Text) (r : Registry) (k : Nat) (base : Text) (c : Class) :
    Prop where
  kept : c.kept = true
  super_eq : c.super = root
  kind_eq : c.kind = .primitiveArray ∨ c.kind = .objectArray
  primitive_iff : c.kind = .primitiveArray ↔ k = 1 ∧ ∃ p : Primitive, base = [p.letter]
  code : ∀ p : Primitive, k = 1 → base = [p.letter] → c.elementType = p.code
  flat : c.kind = .objectArray → k = 1 → base = objectBase c.element
  nested : c.kind = .objectArray → 1 < k → c.element = brackets (k - 1) base
  element : c.kind = .objectArray → ∃ p e, r.find? c.element = some p ∧ r.classAt? p = some e ∧
    e.id < c.id

/-! ### Names of arrays -/

theorem brackets_succ (k : Nat) (base : Text) :
    brackets (k + 1) base = Text.byte '[' :: brackets k base := rfl

theorem head?_brackets_succ (k : Nat) (base : Text) :
    (brackets (k + 1) base).head? = some (Text.byte '[') := rfl

namespace Closure

open LinkM RegistryM Step Registry

variable {s : Source} {l l' u u' : Linker} {name base : Text} {k fuel : Nat}

/-- The elements of an array of one dimension are objects if its base says so. -/
theorem elementName?_flat (hbase : base.head? ≠ some (Text.byte '[')) {e : Text} :
    elementName? (brackets 1 base) = some e ↔ e ≠ [] ∧ base = objectBase e := by
  by_cases hletter : ∃ letter, base = [letter]
  · obtain ⟨letter, rfl⟩ := hletter
    constructor
    · intro h
      cases h
    · rintro ⟨-, h⟩
      exact absurd h.symm (objectBase_ne_singleton e letter)
  · rw [← objectName?_eq_some]
    change elementName? (Text.byte '[' :: base) = some e ↔ _
    rw [elementName?_of_long _ hletter]
    cases hobject : objectName? base with
    | some element => rfl
    | none => simp [hbase]

/-- An array of more dimensions holds arrays of one dimension less, unless its base is empty. -/
theorem elementName?_nested {e : Text} : elementName? (brackets (k + 2) base) = some e ↔
    brackets k base ≠ [] ∧ e = brackets (k + 1) base := by
  by_cases hempty : brackets k base = []
  · have hnone : elementName? (brackets (k + 2) base) = none := by
      rw [brackets_succ, brackets_succ, hempty]
      rfl
    simp [hnone, hempty]
  · rw [brackets_succ, elementName?_of_bracket _ (head?_brackets_succ k base)]
    · simp [hempty, eq_comm]
    · intro h
      exact hempty (List.cons.inj h).2

theorem brackets_eq_letter {p : Primitive} :
    brackets k base = [p.letter] ↔ k = 0 ∧ base = [p.letter] := by
  cases k with
  | zero => simp [brackets]
  | succ k =>
      rw [brackets_succ]
      simp [p.letter_ne_bracket.symm]

/-! ### Registered arrays -/

/-- The class that an array was registered as is the array that its name says. -/
theorem isArrayOf_of_spec (hl : l.Orderly) (hbase : base.head? ≠ some (Text.byte '[')) {row : Nat}
    {c : Class} (hc : l.registry.classAt? row = some c) (hname : c.name = brackets (k + 1) base)
    (harray : c.spec.IsArray l.root l.registry row) :
    c.IsArrayOf l.root l.registry (k + 1) base := by
  rcases harray.shape with ⟨p, hkind, hprimitive, hcode⟩ | ⟨hkind, helement, q, hq, hlt⟩
  · change c.kind = .primitiveArray at hkind
    have hbrackets : brackets (k + 1) base = [Text.byte '[', p.letter] :=
      hname.symm.trans (Eq.trans hprimitive p.arrayName_code)
    obtain ⟨rfl, rfl⟩ := brackets_eq_letter.mp (List.cons.inj hbrackets).2
    have hobject : c.kind ≠ .objectArray := by simp [hkind]
    refine ⟨hl.kept hc, harray.super_eq, .inl hkind, ?_, ?_, ?_, ?_, ?_⟩
    · simp [hkind]
    · intro p' _ hletter
      have hsame := Primitive.ofLetter?_letter p
      rw [(List.cons.inj hletter).1, Primitive.ofLetter?_letter] at hsame
      cases hsame
      exact hcode
    · exact fun h => absurd h hobject
    · exact fun h => absurd h hobject
    · exact fun h => absurd h hobject
  · change c.kind = .objectArray at hkind
    change elementName? c.name = some c.element at helement
    rw [hname] at helement
    obtain ⟨e, he, -⟩ := hl.tidy.exists_class hq
    have hbefore : e.id < c.id := by rwa [hl.tidy.id_eq he, hl.tidy.id_eq hc]
    have hprimitive : c.kind ≠ .primitiveArray := by simp [hkind]
    cases k with
    | zero =>
        obtain ⟨-, hobject⟩ := (elementName?_flat hbase).mp helement
        refine ⟨hl.kept hc, harray.super_eq, .inr hkind, ⟨fun h => absurd h hprimitive, ?_⟩, ?_,
          fun _ _ => hobject, fun _ h => absurd h (Nat.lt_irrefl 1), fun _ => ⟨q, e, hq, he, hbefore⟩⟩
        · rintro ⟨-, p, hletter⟩
          exact absurd (hobject.symm.trans hletter) (objectBase_ne_singleton _ _)
        · intro p _ hletter
          exact absurd (hobject.symm.trans hletter) (objectBase_ne_singleton _ _)
    | succ k =>
        obtain ⟨-, hnested⟩ := elementName?_nested.mp helement
        exact ⟨hl.kept hc, harray.super_eq, .inr hkind,
          ⟨fun h => absurd h hprimitive, fun h => absurd h.1 (by omega)⟩,
          fun _ h => absurd h (by omega), fun _ h => absurd h (by omega), fun _ _ => hnested,
          fun _ => ⟨q, e, hq, he, hbefore⟩⟩

/-- Where an array is registered, so are the arrays that it is built from. -/
theorem exists_isArrayOf (h : l.Accounted s) (hl : l.Orderly) (hnames : s.NoArrays)
    (hbase : base.head? ≠ some (Text.byte '[')) (hhas : l.Has (brackets k base)) {j : Nat}
    (hpos : 1 ≤ j) (hle : j ≤ k) : ∃ row c, l.registry.find? (brackets j base) = some row ∧
      l.registry.classAt? row = some c ∧ c.IsArrayOf l.root l.registry j base := by
  induction k with
  | zero => omega
  | succ k ih =>
      obtain ⟨row, hrow⟩ := hhas
      obtain ⟨c, hc, hname, harray⟩ := h.exists_array hl hnames (head?_brackets_succ k base) hrow
      have hthis := isArrayOf_of_spec hl hbase hc hname harray
      rcases Nat.lt_or_eq_of_le hle with hlt | rfl
      · have hobject : c.kind = .objectArray := by
          refine hthis.kind_eq.resolve_left fun hkind => ?_
          have hone := (hthis.primitive_iff.mp hkind).1
          omega
        obtain ⟨p, e, hp, -⟩ := hthis.element hobject
        rw [hthis.nested hobject (by omega), Nat.add_sub_cancel] at hp
        exact ih ⟨p, hp⟩ (by omega)
      · exact ⟨row, c, hrow, hc, hthis⟩

/-- No array is called by brackets alone. -/
theorem brackets_ne_nil_of_has (h : l.Accounted s) (hl : l.Orderly) (hnames : s.NoArrays)
    (hbase : base.head? ≠ some (Text.byte '[')) (hhas : l.Has (brackets (k + 1) base)) :
    brackets k base ≠ [] := by
  obtain ⟨row, c, -, -, harray⟩ := exists_isArrayOf h hl hnames hbase hhas (Nat.le_refl 1)
    (Nat.le_add_left 1 k)
  intro hempty
  obtain ⟨-, rfl⟩ := List.append_eq_nil_iff.mp hempty
  rcases harray.kind_eq with hkind | hkind
  · obtain ⟨-, p, hletter⟩ := harray.primitive_iff.mp hkind
    cases hletter
  · cases harray.flat hkind rfl

/-- An array does not come before the class of its elements, so it is not among what was registered
when that was. -/
theorem fresh_of_latest {element : Text} (h : u.Accounted s) (hu : u.Orderly) (hnames : s.NoArrays)
    (hbracket : name.head? = some (Text.byte '[')) (helement : elementName? name = some element)
    (hlatest : u = l ∨ u.Latest element) (hnew : l.registry.find? name = none) :
    u.registry.find? name = none := by
  rcases hlatest with rfl | ⟨p, hp, hsize⟩
  · exact hnew
  · by_contra hne
    obtain ⟨row, hrow⟩ := Option.ne_none_iff_exists'.mp hne
    obtain ⟨c, hc, rfl, harray⟩ := h.exists_array hu hnames hbracket hrow
    rcases harray.shape with ⟨q, -, hprimitive, -⟩ | ⟨-, hobject, q, hq, hlt⟩
    · change c.name = _ at hprimitive
      rw [hprimitive, q.arrayName_code] at helement
      cases helement
    · cases helement.symm.trans hobject
      cases hp.symm.trans hq
      have hrow := classAt?_lt hc
      omega

/-! ### Making arrays -/

theorem registeredRow_ok {row : Nat} : (do
    match ← registered? name with
    | some row => return row
    | none => throw .fault : LinkM Nat) l = .ok row l' ↔
      l.registry.find? name = some row ∧ l = l' := by
  rw [bind_ok]
  constructor
  · rintro ⟨found, t, hlookup, hok⟩
    obtain ⟨hfound, rfl⟩ := registered?_ok.mp hlookup
    cases found with
    | none => cases hok
    | some p =>
        cases hok
        exact ⟨hfound, rfl⟩
  · rintro ⟨hrow, rfl⟩
    exact ⟨some row, l, registered?_ok.mpr ⟨hrow, rfl⟩, rfl⟩

/-- A link that has the root, and whose classes are accounted for. -/
structure Rooted (s : Source) (l : Linker) : Prop where
  orderly : l.Orderly
  accounted : l.Accounted s
  root_ne : l.root ≠ []
  has_root : l.Has l.root

theorem Rooted.step (h : Rooted s l) (hstep : Accounts s l l') : Rooted s l' where
  orderly := hstep.proceeds.orderly
  accounted := hstep.accounted h.accounted
  root_ne := by
    rw [hstep.root_eq]
    exact h.root_ne
  has_root := by
    rw [hstep.root_eq]
    exact h.has_root.imp fun _ hrow => hstep.proceeds.retains.names hrow

theorem Rooted.createArray (h : Rooted s l) (hnew : l.registry.find? name = none) (kind : ClassKind)
    (element : Text) (elementType : Int) :
    ∃ l', createArray name kind element elementType l = .ok () l' :=
  createArray_succeeds h.orderly.tidy h.root_ne h.has_root hnew

/-- Loading a class when the root is registered changes nothing, or registers the class last. -/
theorem loadFrom_latest (h : Rooted s l) {row : Nat} (hok : loadFrom s fuel name l = .ok row l') :
    l' = l ∨ l'.Latest name := by
  cases fuel with
  | zero => cases hok
  | succ fuel =>
      cases hrow : l.registry.find? name with
      | some p =>
          rw [loadFrom_of_registered hrow] at hok
          cases hok
          exact .inl rfl
      | none =>
          unfold loadFrom at hok
          rw [bind_of_ok (registered?_ok.mpr ⟨hrow, rfl⟩)] at hok
          dsimp only at hok
          split at hok
          · rename_i hbracket
            rw [bind_of_ok (get_ok.mpr ⟨rfl, rfl⟩)] at hok
            obtain ⟨_, t, hroot, hok⟩ := bind_ok.mp hok
            obtain ⟨q, hroot⟩ := discard_ok.mp hroot
            cases fuel with
            | zero => cases hroot
            | succ fuel =>
                obtain ⟨p, hp⟩ := h.has_root
                rw [loadFrom_of_registered hp] at hroot
                cases hroot
                rw [bind_of_ok (get_ok.mpr ⟨rfl, rfl⟩)] at hok
                obtain ⟨_, t, hchain, hok⟩ := bind_ok.mp hok
                obtain ⟨-, rfl⟩ := registeredRow_ok.mp hok
                exact ((arrayChain_ends (R := Proceeds) s (loadFrom_ends s _) h.orderly
                  hbracket).success hchain).2
          · obtain ⟨_, t, htree, hok⟩ := bind_ok.mp hok
            obtain ⟨-, rfl⟩ := registeredRow_ok.mp hok
            exact .inr ((loadTree_ends (R := Proceeds) s h.orderly).success htree)

/-- A base stands for a primitive type, or for a class that can be loaded. -/
def Buildable (load : Text → LinkM Nat) (base : Text) (l : Linker) : Prop :=
  (∃ p : Primitive, base = [p.letter]) ∨
    ∃ x, x ≠ [] ∧ base = objectBase x ∧ ∃ row l', load x l = .ok row l'

/-- Making an array of one dimension. -/
theorem registerArray_base_iff (hnames : s.NoArrays) (h : Rooted s l)
    (hbase : base.head? ≠ some (Text.byte '['))
    (hnew : l.registry.find? (brackets 1 base) = none) :
    (∃ l', registerArray (loadFrom s fuel) (brackets 1 base) l = .ok () l') ↔
      Buildable (loadFrom s fuel) base l := by
  change (∃ l', registerArray _ (Text.byte '[' :: base) l = _) ↔ _
  unfold registerArray
  simp only [List.drop_succ_cons, List.drop_zero]
  split
  · rename_i letter
    have hobject : ∀ x, [letter] ≠ objectBase x := fun x hx => objectBase_ne_singleton x letter hx.symm
    cases hp : Primitive.ofLetter? letter with
    | none =>
        refine iff_of_false (fun ⟨_, hok⟩ => by cases hok) ?_
        rintro (⟨p, hletter⟩ | ⟨x, -, hx, -⟩)
        · rw [(List.cons.inj hletter).1, Primitive.ofLetter?_letter] at hp
          cases hp
        · exact hobject x hx
    | some p =>
        have hletter := (arrayName_of_ofLetter? hp).trans p.arrayName_code
        exact iff_of_true (h.createArray hnew _ _ _) (.inl ⟨p, (List.cons.inj hletter).2⟩)
  · rename_i hlong
    have hletter : ¬∃ p : Primitive, base = [p.letter] := fun ⟨p, hp⟩ => hlong _ hp
    cases hobject : objectName? base with
    | some x =>
        obtain ⟨hne, hx⟩ := objectName?_eq_some.mp hobject
        constructor
        · rintro ⟨l', hok⟩
          obtain ⟨_, t, hload, -⟩ := bind_ok.mp hok
          obtain ⟨row, hload⟩ := discard_ok.mp hload
          exact .inr ⟨x, hne, hx, row, t, hload⟩
        · rintro (hprimitive | ⟨x', hne', hx', row, t, hload⟩)
          · exact absurd hprimitive hletter
          · cases hobject.symm.trans (objectName?_eq_some.mpr ⟨hne', hx'⟩)
            have ht := h.step ((loadFrom_ends s fuel h.orderly).ok hload)
            have hfresh := fresh_of_latest ht.accounted ht.orderly hnames (head?_brackets_succ 0 base)
              ((elementName?_flat hbase).mpr ⟨hne, hx⟩) (loadFrom_latest h hload) hnew
            obtain ⟨l', hcreate⟩ := ht.createArray hfresh .objectArray x 0
            exact ⟨l', bind_ok.mpr ⟨.unit, t, discard_ok.mpr ⟨row, hload⟩, hcreate⟩⟩
    | none =>
        dsimp only
        rw [if_neg hbase]
        refine iff_of_false (fun ⟨_, hok⟩ => by cases hok) ?_
        rintro (hprimitive | ⟨x, hne, hx, -⟩)
        · exact hletter hprimitive
        · cases hobject.symm.trans (objectName?_eq_some.mpr ⟨hne, hx⟩)

/-- Making an array of an array that is registered. -/
theorem registerArray_nested {load : Text → LinkM Nat} (h : Rooted s l)
    (hlong : brackets k base ≠ []) (hnew : l.registry.find? (brackets (k + 2) base) = none) :
    ∃ l', registerArray load (brackets (k + 2) base) l = .ok () l' := by
  obtain ⟨b, rest, hrest⟩ := List.exists_cons_of_ne_nil hlong
  rw [brackets_succ, brackets_succ, hrest] at hnew ⊢
  unfold registerArray
  simp only [List.drop_succ_cons, List.drop_zero, objectName?_bracket]
  have hbracket : (Text.byte '[' :: b :: rest).head? = some (Text.byte '[') := rfl
  rw [if_pos hbracket]
  exact h.createArray hnew _ _ _

theorem arrayChain_registered {isRegistered : Text → Bool}
    (h : isRegistered (brackets (k + 1) base) = true) :
    arrayChain isRegistered (brackets (k + 1) base) = [] := by
  rw [brackets_succ] at h ⊢
  rw [arrayChain, if_pos h]

theorem arrayChain_flat {isRegistered : Text → Bool} (hbase : base.head? ≠ some (Text.byte '['))
    (h : isRegistered (brackets 1 base) = false) :
    arrayChain isRegistered (brackets 1 base) = [brackets 1 base] := by
  change isRegistered (Text.byte '[' :: base) = false at h
  change arrayChain isRegistered (Text.byte '[' :: base) = [Text.byte '[' :: base]
  simp [arrayChain, h, hbase]

theorem arrayChain_nested {isRegistered : Text → Bool}
    (h : isRegistered (brackets (k + 2) base) = false) :
    arrayChain isRegistered (brackets (k + 2) base) =
      brackets (k + 2) base :: arrayChain isRegistered (brackets (k + 1) base) := by
  rw [brackets_succ (k + 1)] at h ⊢
  have hbracket := head?_brackets_succ k base
  simp [arrayChain, h, hbracket]

/-- The arrays that an array is built from can be made where one of them is registered, or where the
base stands for something. -/
theorem arrayChain_iff (hnames : s.NoArrays) (h : Rooted s l)
    (hbase : base.head? ≠ some (Text.byte '[')) :
    (∃ l', (arrayChain (fun t => (l.registry.find? t).isSome) (brackets (k + 1) base)).reverse.forM
      (registerArray (loadFrom s fuel)) l = .ok () l') ↔
      (∃ j, 1 ≤ j ∧ j ≤ k + 1 ∧ l.Has (brackets j base)) ∨ Buildable (loadFrom s fuel) base l := by
  have hcons : ∀ {k}, l.registry.find? (brackets (k + 1) base) = none →
      (∃ j, 1 ≤ j ∧ j ≤ k + 1 ∧ l.Has (brackets j base)) →
      ∃ j, 1 ≤ j ∧ j ≤ k ∧ l.Has (brackets j base) := by
    rintro k hnew ⟨j, hpos, hle, row, hrow⟩
    rcases Nat.lt_or_eq_of_le hle with hlt | rfl
    · exact ⟨j, hpos, Nat.le_of_lt_succ hlt, row, hrow⟩
    · cases hnew.symm.trans hrow
  have hall : ∀ {k row}, l.registry.find? (brackets (k + 1) base) = some row →
      ((∃ l', (arrayChain (fun t => (l.registry.find? t).isSome) (brackets (k + 1) base)).reverse.forM
        (registerArray (loadFrom s fuel)) l = .ok () l') ↔
      (∃ j, 1 ≤ j ∧ j ≤ k + 1 ∧ l.Has (brackets j base)) ∨ Buildable (loadFrom s fuel) base l) := by
    intro k row hrow
    rw [arrayChain_registered (by rw [hrow]; rfl)]
    exact iff_of_true ⟨l, rfl⟩ (.inl ⟨k + 1, Nat.le_add_left 1 k, Nat.le_refl _, row, hrow⟩)
  induction k with
  | zero =>
      cases hnew : l.registry.find? (brackets 1 base) with
      | some row => exact hall hnew
      | none =>
          rw [arrayChain_flat hbase (by rw [hnew]; rfl), List.reverse_singleton,
            ← registerArray_base_iff hnames h hbase hnew]
          simp only [forM_cons_ok, forM_nil_ok]
          constructor
          · rintro ⟨l', t, hok, rfl⟩
            exact .inr ⟨t, hok⟩
          · rintro (hhas | ⟨l', hok⟩)
            · obtain ⟨j, hpos, hle, -⟩ := hcons hnew hhas
              omega
            · exact ⟨l', l', hok, rfl⟩
  | succ k ih =>
      cases hnew : l.registry.find? (brackets (k + 2) base) with
      | some row => exact hall hnew
      | none =>
          rw [arrayChain_nested (by rw [hnew]; rfl), List.reverse_cons]
          simp only [forM_append_ok, forM_cons_ok, forM_nil_ok]
          constructor
          · rintro ⟨l', t, hchain, -⟩
            rcases ih.mp ⟨t, hchain⟩ with ⟨j, hpos, hle, hhas⟩ | hbuildable
            · exact .inl ⟨j, hpos, by omega, hhas⟩
            · exact .inr hbuildable
          · intro hsome
            obtain ⟨t, hchain⟩ := ih.mpr (hsome.imp_left (hcons hnew))
            have hends := arrayChain_ends (R := Accounts s) s (loadFrom_ends s fuel) h.orderly
              (head?_brackets_succ k base)
            have ht := h.step (hends.ok hchain)
            obtain ⟨hinner, hlatest⟩ := hends.success hchain
            have hlong := brackets_ne_nil_of_has ht.accounted ht.orderly hnames hbase hinner
            obtain ⟨l', hok⟩ := registerArray_nested ht hlong <|
              fresh_of_latest ht.accounted ht.orderly hnames (head?_brackets_succ (k + 1) base)
                (elementName?_nested.mpr ⟨hlong, rfl⟩) hlatest hnew
            exact ⟨l', t, hchain, l', hok, rfl⟩

/-! ### Loading arrays -/

/-- A class can be loaded. -/
def Loadable (s : Source) (l : Linker) (name : Text) : Prop :=
  ∃ row l', loadClass s name l = .ok row l'

/-- Fuel above the length of the name makes no difference. -/
theorem loadFrom_eq_loadClass (hl : l.Fit) (hcut : l.cut = false) (hpos : 0 < fuel)
    (hfuel : name.head? = some (Text.byte '[') → name.length < fuel) :
    loadFrom s fuel name l = loadClass s name l := by
  have hthis := (loadFrom_metered (s := s) hpos hfuel).spends hl
  have hother := (loadClass_metered (s := s) name).spends hl
  exact (loadFrom_parallel s s (name.length + 1) fuel name).same hl.orderly (fun _ _ => rfl)
    (hother.cut_eq.trans hcut) (hthis.cut_eq.trans hcut)

/-- Loading a class runs out of nothing, and what it leaves is fit for loading more. -/
theorem fit_of_load (hl : l.Fit) (hcut : l.cut = false) {row : Nat}
    (hok : loadClass s name l = .ok row l') : l'.Fit ∧ l'.cut = false := by
  have hspent := (loadClass_metered (s := s) name).spends hl
  rw [hok, final_ok] at hspent
  exact ⟨hspent.fit, hspent.cut_eq.trans hcut⟩

/-- An array is made once the root is loaded. -/
theorem loadable_bracket_iff (hl : l.Fit) (hcut : l.cut = false)
    (hbracket : name.head? = some (Text.byte '[')) (hnew : l.registry.find? name = none) :
    Loadable s l name ↔ ∃ p t, loadClass s l.root l = .ok p t ∧
      ∃ t', (arrayChain (fun n => (t.registry.find? n).isSome) name).reverse.forM
        (registerArray (loadFrom s name.length)) t = .ok () t' := by
  have hpos : 0 < name.length := List.length_pos_iff.mpr (by rintro rfl; cases hbracket)
  have hroot : loadFrom s name.length l.root l = loadClass s l.root l :=
    loadFrom_eq_loadClass hl hcut hpos fun h => absurd h hl.plain
  have hrun : loadClass s name l = (do
      discard (loadFrom s name.length l.root)
      let r := (← get).registry
      (arrayChain (fun n => (r.find? n).isSome) name).reverse.forM
        (registerArray (loadFrom s name.length))
      match ← registered? name with
      | some row => return row
      | none => throw .fault : LinkM Nat) l := by
    unfold loadClass
    rw [loadFrom, bind_of_ok (registered?_ok.mpr ⟨hnew, rfl⟩)]
    dsimp only
    rw [if_pos hbracket]
    rfl
  unfold Loadable
  simp only [hrun, bind_ok, discard_ok, get_ok, hroot]
  constructor
  · rintro ⟨row, l', _, t, ⟨p, hload⟩, _, _, ⟨rfl, rfl⟩, _, t', hchain, -⟩
    exact ⟨p, t, hload, t', hchain⟩
  · rintro ⟨p, t, hload, t', hchain⟩
    have ht : Proceeds l t := (loadClass_ends s l.root hl.orderly).ok hload
    obtain ⟨⟨row, hrow⟩, -⟩ := (arrayChain_ends (R := Proceeds) s (loadFrom_ends s _) ht.orderly
      hbracket).success hchain
    exact ⟨row, t', .unit, t, ⟨p, hload⟩, t, t, ⟨rfl, rfl⟩, .unit, t', hchain,
      bind_ok.mp (registeredRow_ok.mpr ⟨hrow, rfl⟩)⟩

/-- Loading a class that is no array registers no arrays. -/
theorem has_bracket_of_load (hl : l.Orderly) (hnames : s.NoArrays)
    (hplain : name.head? ≠ some (Text.byte '[')) {row : Nat} {n : Text}
    (hok : loadClass s name l = .ok row l') (hbracket : n.head? = some (Text.byte '['))
    (hhas : l'.Has n) : l.Has n := by
  obtain ⟨p, hp⟩ := hhas
  by_contra hnew
  rw [Linker.Has, ← Option.ne_none_iff_exists', not_not] at hnew
  obtain ⟨-, d, -, hload, -⟩ := (loadClass_loaded hl hplain hok).2.fresh hp hnew
  exact hnames hload hbracket

/-- A class of a link without arrays can be loaded in every other one. -/
theorem loadable_of_has {F : Linker} (hF : F.Wired s) (hnames : s.NoArrays) (hroot : F.root ≠ [])
    (hplain : ∀ {n}, F.Has n → n.head? ≠ some (Text.byte '[')) (hl : l.Wired s)
    (heq : l.root = F.root) (hhas : F.Has name) : Loadable s l name := by
  cases hrow : l.registry.find? name with
  | some row => exact ⟨row, l, loadClass_of_registered hrow⟩
  | none =>
      obtain ⟨k, hk⟩ := hhas
      have hflat := hplain ⟨k, hk⟩
      have hsupers : ∀ {n d t}, F.Has n → s.load n = .ok d → t ∈ supertypes d →
          t.head? ≠ some (Text.byte '[') := by
        rintro n d t ⟨q, hq⟩ hload ht
        obtain ⟨p, hp, -⟩ := supertype_before hF hnames hq hload ht
        exact hplain ⟨p, hp⟩
      obtain ⟨l', htree⟩ : ∃ l', loadTree s (s.decls.length + 1) [] name l = .ok () l' :=
        loadTree_succeeds hF hnames hsupers hroot hl heq hk hflat hrow List.nodup_nil nofun nofun
          (Nat.lt_succ_self _)
      obtain ⟨-, row, hfound⟩ := loadTree_loads hl htree
      refine ⟨row, l', ?_⟩
      rw [loadClass_of_missing hflat hrow]
      exact bind_ok.mpr ⟨.unit, l', htree, registeredRow_ok.mpr ⟨hfound, rfl⟩⟩

/-- What one link without arrays can load, every other one can. -/
theorem Loadable.again (h : Loadable s l name) (hl : l.Orderly) (hw : l.Wired s) (hw' : l'.Wired s)
    (hnames : s.NoArrays) (hroot : l.root ≠ []) (heq : l'.root = l.root)
    (hplain : ∀ {n}, l.Has n → n.head? ≠ some (Text.byte '['))
    (hname : name.head? ≠ some (Text.byte '[')) : Loadable s l' name := by
  obtain ⟨row, F, hok⟩ := h
  obtain ⟨hF, hrow⟩ := loadClass_loads hw hok
  have hroot_eq : F.root = l.root := hF.loads.root_eq
  exact loadable_of_has hF.wired hnames (hroot_eq ▸ hroot)
    (fun hn hbracket => hplain (has_bracket_of_load hl hnames hname hok hbracket hn) hbracket)
    hw' (heq.trans hroot_eq.symm) ⟨row, hrow⟩

/-- Loading the root first does not change what can be loaded. -/
theorem loadable_after_root (hl : l.Fit) (hcut : l.cut = false) (h : l.Accounted s)
    (hnames : s.NoArrays) (hroot : l.root ≠ []) {p : Nat} {t : Linker}
    (hok : loadClass s l.root l = .ok p t) : Loadable s t name ↔ Loadable s l name := by
  cases hrow : l.registry.find? l.root with
  | some row =>
      rw [loadClass_of_registered hrow] at hok
      cases hok
      rfl
  | none =>
      -- There are no classes yet, and all that loading the root registers is declared.
      have hsize := h.size_eq_zero hl.orderly hroot hrow
      have hempty : ∀ n, ¬l.Has n := by
        rintro n ⟨q, hq⟩
        have hlt := hl.orderly.tidy.wellFormed.live_lt (hl.orderly.tidy.wellFormed.find_live hq)
        omega
      have hplain : ∀ {n}, t.Has n → n.head? ≠ some (Text.byte '[') := fun hn hbracket =>
        hempty _ (has_bracket_of_load hl.orderly hnames hl.plain hok hbracket hn)
      have hfresh : ∀ {u : Linker}, ¬u.Has name → u.registry.find? name = none := fun hnew =>
        Option.eq_none_iff_forall_ne_some.mpr fun q hq => hnew ⟨q, hq⟩
      have hw := h.wired hl.orderly hsize
      obtain ⟨hloads, hp⟩ := loadClass_loads hw hok
      have hroot_eq : t.root = l.root := hloads.loads.root_eq
      obtain ⟨ht, htcut⟩ := fit_of_load hl hcut hok
      by_cases hbracket : name.head? = some (Text.byte '[')
      · rw [loadable_bracket_iff ht htcut hbracket
          (hfresh fun hn => hplain hn hbracket), loadable_bracket_iff hl hcut hbracket
          (hfresh (hempty _)), hroot_eq, loadClass_of_registered hp, hok]
      · constructor
        · intro hthat
          exact hthat.again ht.orderly hloads.wired hw hnames (hroot_eq ▸ hroot) hroot_eq.symm
            hplain hbracket
        · intro hthis
          exact hthis.again hl.orderly hw hloads.wired hnames hroot hroot_eq
            (fun hn => absurd hn (hempty _)) hbracket

/-- An array can be loaded where one of the arrays that it is built from is registered, or where the root
can be loaded and the base stands for something. -/
theorem loadable_brackets_iff (hl : l.Fit) (hcut : l.cut = false) (h : l.Accounted s)
    (hnames : s.NoArrays) (hroot : l.root ≠ []) (hbase : base.head? ≠ some (Text.byte '['))
    (hnew : l.registry.find? (brackets (k + 1) base) = none) :
    Loadable s l (brackets (k + 1) base) ↔
      (∃ j, 1 ≤ j ∧ j ≤ k + 1 ∧ l.Has (brackets j base)) ∨
      Loadable s l l.root ∧ Buildable (loadClass s) base l := by
  have hbracket : ∀ {j}, 1 ≤ j → (brackets j base).head? = some (Text.byte '[') := by
    intro j hj
    obtain ⟨i, rfl⟩ := Nat.exists_eq_add_of_le' hj
    exact head?_brackets_succ i base
  have hrooted : ∀ {p t}, loadClass s l.root l = .ok p t → Rooted s t := by
    intro p t hok
    have hends := loadClass_ends (R := Accounts s) s l.root hl.orderly
    have hstep := hends.ok hok
    exact ⟨hstep.proceeds.orderly, hstep.accounted h, hstep.root_eq ▸ hroot,
      hstep.root_eq ▸ ⟨p, hends.success hok⟩⟩
  have hbuildable : ∀ {p t}, loadClass s l.root l = .ok p t →
      (Buildable (loadFrom s (brackets (k + 1) base).length) base t ↔
        Buildable (loadClass s) base l) := by
    intro p t hok
    obtain ⟨ht, htcut⟩ := fit_of_load hl hcut hok
    refine or_congr Iff.rfl (exists_congr fun x => and_congr_right fun _ => and_congr_right fun hx => ?_)
    have hlength : x.length < (brackets (k + 1) base).length := by
      simp only [hx, brackets, objectBase, List.length_append, List.length_replicate,
        List.length_cons, List.length_nil]
      omega
    rw [loadFrom_eq_loadClass ht htcut (Nat.zero_lt_of_lt hlength) fun _ => hlength]
    exact loadable_after_root hl hcut h hnames hroot hok
  rw [loadable_bracket_iff hl hcut (head?_brackets_succ k base) hnew]
  constructor
  · rintro ⟨p, t, hok, hchain⟩
    rcases (arrayChain_iff hnames (hrooted hok) hbase).mp hchain with ⟨j, hpos, hle, hhas⟩ | hbuilt
    · exact .inl ⟨j, hpos, hle,
        has_bracket_of_load hl.orderly hnames hl.plain hok (hbracket hpos) hhas⟩
    · exact .inr ⟨⟨p, t, hok⟩, (hbuildable hok).mp hbuilt⟩
  · intro hsome
    obtain ⟨p, t, hok⟩ : Loadable s l l.root := by
      rcases hsome with ⟨j, hpos, -, hhas⟩ | ⟨hload, -⟩
      · obtain ⟨p, hp⟩ := h.has_root hl.orderly hnames hroot (hbracket hpos) hhas
        exact ⟨p, l, loadClass_of_registered hp⟩
      · exact hload
    refine ⟨p, t, hok, (arrayChain_iff hnames (hrooted hok) hbase).mpr (hsome.imp ?_ ?_)⟩
    · rintro ⟨j, hpos, hle, row, hrow⟩
      have hproceeds : Proceeds l t := (loadClass_ends s l.root hl.orderly).ok hok
      exact ⟨j, hpos, hle, row, hproceeds.retains.names hrow⟩
    · exact fun hload => (hbuildable hok).mpr hload.2

/-- Whatever was asked of a link before, of a source that serves no arrays, an array that it lacks is
loaded if and only if one of the arrays that it is built from is registered, or the root can be loaded
and the base stands for a primitive type or a class that can be loaded. Then all arrays that it is built
from are registered, each after the class of its elements. -/
theorem loadClass_array (s : Source) (hnames : s.NoArrays) (requests : List Request) {k : Nat}
    {base : Text} (hpos : 1 ≤ k) (hbase : base.head? ≠ some (Text.byte '[')) :
    let l := requests.foldl (Request.apply s) {}
    l.registry.find? (brackets k base) = none →
      (Loadable s l (brackets k base) ↔
        (∃ j, 1 ≤ j ∧ j ≤ k ∧ l.Has (brackets j base)) ∨
        Loadable s l l.root ∧ ((∃ p : Primitive, base = [p.letter]) ∨
          ∃ x, x ≠ [] ∧ base = objectBase x ∧ Loadable s l x)) ∧
      ∀ row l', loadClass s (brackets k base) l = .ok row l' →
        l'.registry.find? (brackets k base) = some row ∧
        ∀ j, 1 ≤ j → j ≤ k → ∃ p c, l'.registry.find? (brackets j base) = some p ∧
          l'.registry.classAt? p = some c ∧ c.IsArrayOf l.root l'.registry j base := by
  intro l hnew
  have hspent := Request.foldl_spends s requests
    (fit_empty (show RuntimeSeeds.defaultRoot.head? ≠ _ by decide))
  have hbuilt : Accounts s {} l := Request.foldl_lasting s requests orderly_empty
  have haccounted := hbuilt.accounted (.empty s _)
  have hroot : l.root ≠ [] := by
    rw [hbuilt.root_eq]
    decide
  obtain ⟨k, rfl⟩ := Nat.exists_eq_add_of_le' hpos
  refine ⟨loadable_brackets_iff hspent.fit hspent.cut_eq haccounted hnames hroot hbase hnew, ?_⟩
  intro row l' hok
  have hends := loadClass_ends (R := Accounts s) s (brackets (k + 1) base) hspent.fit.orderly
  have hstep : Accounts s l l' := hends.ok hok
  have hrow := hends.success hok
  refine ⟨hrow, fun j hj hle => ?_⟩
  rw [← hstep.root_eq]
  exact exists_isArrayOf (hstep.accounted haccounted) hstep.proceeds.orderly hnames hbase ⟨row, hrow⟩
    hj hle

/-- An array of arrays of a declared class, where only another array is registered. -/
theorem loadClass_array_sample :
    let l := [Request.load "[J"].foldl (Request.apply sampleSource) {}
    ∃ row l', loadClass sampleSource "[[LMain;" l = .ok row l' ∧
      l'.registry.find? "[[LMain;" = some row ∧ ∃ p c, l'.registry.find? "[LMain;" = some p ∧
        l'.registry.classAt? p = some c ∧ c.IsArrayOf l.root l'.registry 1 "LMain;" := by
  intro l
  have hloads : ∀ name, Step.yields (loadClass sampleSource name l) (fun _ _ => true) = true →
      Loadable sampleSource l name := by
    intro name h
    obtain ⟨row, l', hok, -⟩ := Step.exists_of_yields h
    exact ⟨row, l', hok⟩
  have hroot := hloads l.root (by decide +kernel)
  have hmain := hloads "Main" (by decide +kernel)
  obtain ⟨hiff, hafter⟩ := loadClass_array sampleSource sampleSource_noArrays [.load "[J"]
    (show 1 ≤ 2 by decide) (show ("LMain;" : Text).head? ≠ some (Text.byte '[') by decide)
    (show l.registry.find? (brackets 2 "LMain;") = none by decide +kernel)
  obtain ⟨row, l', hok⟩ :=
    hiff.mpr (.inr ⟨hroot, .inr ⟨"Main", by decide, by decide, hmain⟩⟩)
  obtain ⟨hrow, hlevels⟩ := hafter row l' hok
  exact ⟨row, l', hok, hrow, hlevels 1 (Nat.le_refl 1) (by decide)⟩

end Closure

end ClassLinker
