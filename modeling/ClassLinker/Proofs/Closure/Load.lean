import ClassLinker.Proofs.Closure.Register

/-! Loading. A class is registered from its declaration after its supertypes, an array class is made
from its name after the root and the class of its elements, and loading a name registers it and
nothing but what it brings. -/

namespace ClassLinker

open Closure

/-! ### Names of arrays -/

/-- The base of the arrays of a class. -/
def objectBase (name : Text) : Text := Text.byte 'L' :: (name ++ [Text.byte ';'])

theorem Text.dropStart?_eq_some {start t rest : Text} :
    Text.dropStart? start t = some rest ↔ t = start ++ rest := by
  unfold Text.dropStart?
  constructor
  · intro h
    split at h
    · rename_i hstart
      obtain ⟨rest', rfl⟩ := List.isPrefixOf_iff_prefix.mp hstart
      rw [List.drop_left] at h
      cases h
      rfl
    · cases h
  · rintro rfl
    rw [if_pos (List.isPrefixOf_iff_prefix.mpr (List.prefix_append ..)), List.drop_left]

theorem Text.dropEnd?_eq_some {tail t rest : Text} :
    Text.dropEnd? tail t = some rest ↔ t = rest ++ tail := by
  unfold Text.dropEnd?
  constructor
  · intro h
    split at h
    · rename_i hend
      obtain ⟨rest', rfl⟩ := List.isSuffixOf_iff_suffix.mp hend
      rw [List.length_append, Nat.add_sub_cancel, List.take_left] at h
      cases h
      rfl
    · cases h
  · rintro rfl
    rw [if_pos (List.isSuffixOf_iff_suffix.mpr (List.suffix_append ..)), List.length_append,
      Nat.add_sub_cancel, List.take_left]

theorem objectBase_ne_singleton (name : Text) (b : UInt8) : objectBase name ≠ [b] := by
  intro h
  have hlength := congrArg List.length h
  simp [objectBase] at hlength

theorem Primitive.letter_ne_bracket (p : Primitive) : p.letter ≠ Text.byte '[' := by
  cases p <;> decide

theorem Primitive.arrayName_code (p : Primitive) :
    Primitive.arrayName p.code = [Text.byte '[', p.letter] := by
  rw [arrayName, ofCode?_code]
  rfl

/-- An object type names a class. -/
theorem Closure.objectName?_eq_some {t e : Text} :
    objectName? t = some e ↔ e ≠ [] ∧ t = objectBase e := by
  have hL : ("L" : Text) = [Text.byte 'L'] := by decide
  have hsemicolon : (";" : Text) = [Text.byte ';'] := by decide
  unfold objectName?
  constructor
  · intro h
    cases hstart : Text.dropStart? "L" t with
    | none => simp [hstart] at h
    | some rest =>
        obtain rfl := Text.dropStart?_eq_some.mp hstart
        simp only [hstart] at h
        cases hend : Text.dropEnd? ";" rest with
        | none => simp [hend] at h
        | some e' =>
            obtain rfl := Text.dropEnd?_eq_some.mp hend
            cases e' with
            | nil =>
                rw [hend] at h
                cases h
            | cons b e' =>
                simp only [hend, Option.some.injEq] at h
                subst h
                exact ⟨List.cons_ne_nil _ _, by rw [hL, hsemicolon]; rfl⟩
  · rintro ⟨hne, rfl⟩
    have hstart : Text.dropStart? "L" (objectBase e) = some (e ++ [Text.byte ';']) :=
      Text.dropStart?_eq_some.mpr (by rw [hL]; rfl)
    have hend : Text.dropEnd? ";" (e ++ [Text.byte ';']) = some e :=
      Text.dropEnd?_eq_some.mpr (by rw [hsemicolon])
    simp only [hstart, hend]
    split
    · rename_i heq
      cases heq
      exact absurd rfl hne
    · rfl

/-- The class of the elements that the name of an array class names, if they are objects. -/
def elementName? (name : Text) : Option Text :=
  match name.drop 1 with
  | [_] => none
  | elem =>
    match objectName? elem with
    | some element => some element
    | none => if elem.head? = some (Text.byte '[') then some elem else none

/-! ### The classes of a link -/

/-- `c` is an array class that was made from its name: it extends the root and declares nothing, and
the class of its elements comes before it. -/
structure Class.IsArray (root : Text) (r : Registry) (row : Nat) (c : Class) : Prop where
  bracket : c.name.head? = some (Text.byte '[')
  super_eq : c.super = root
  interfaces_eq : c.interfaces = []
  methods_eq : c.methods = []
  fields_eq : c.fields = []
  pool_eq : c.pool = #[]
  root_found : ∃ p, r.find? root = some p
  shape :
    (∃ p : Primitive, c.kind = .primitiveArray ∧ c.name = Primitive.arrayName p.code ∧
      c.elementType = p.code ∧ elementName? c.name = none) ∨
    c.kind = .objectArray ∧ elementName? c.name = some c.element ∧
      ∃ p, r.find? c.element = some p ∧ p < row

theorem Class.IsArray.grows {root : Text} {r r' : Registry} {row : Nat} {c c' : Class}
    (h : c.IsArray root r row) (hr : r.Grows r') (hc : c.Grows c') : c'.IsArray root r' row where
  bracket := by rw [hc.name_eq]; exact h.bracket
  super_eq := hc.super_eq.trans h.super_eq
  interfaces_eq := hc.interfaces_eq.trans h.interfaces_eq
  methods_eq := by
    have hmethods := hc.methods
    rw [h.methods_eq] at hmethods
    exact List.forall₂_nil_left_iff.mp hmethods
  fields_eq := by
    have hfields := hc.fields
    rw [h.fields_eq] at hfields
    exact List.forall₂_nil_left_iff.mp hfields
  pool_eq := by
    have hsize := hc.pool_size
    rw [h.pool_eq] at hsize
    exact Array.eq_empty_of_size_eq_zero hsize
  root_found := by
    obtain ⟨p, hp⟩ := h.root_found
    exact ⟨p, hr.find hp⟩
  shape := by
    rw [hc.frame]
    rcases h.shape with hprimitive | ⟨hkind, helement, p, hp, hlt⟩
    · exact Or.inl hprimitive
    · exact Or.inr ⟨hkind, helement, p, hr.find hp, hlt⟩

/-- Every class of a link comes from a declaration of the source or from the name of an array. -/
structure Linker.Wired (s : Source) (l : Linker) : Prop where
  tidy : l.registry.Tidy
  kept : ∀ {row c}, l.registry.classAt? row = some c → c.kept = true
  origin : ∀ {row c}, l.registry.classAt? row = some c →
    (∃ d, s.load c.name = .ok d ∧ c.Describes l.root d row (l.arraysOf row)) ∨
      c.IsArray l.root l.registry row
  arrays_lt : ∀ {id name a}, l.arraysOf id name = some a → id < l.registry.rows.size

/-- When the classes of a link have only grown, it stays wired as long as the new ones are. -/
theorem Linker.Wired.step {s : Source} {l l' : Linker} (hw : l.Wired s) (htidy : l'.registry.Tidy)
    (hgrows : l.registry.Grows l'.registry) (hroot : l'.root = l.root)
    (harrays : ∀ {id}, id < l.registry.rows.size → l'.arraysOf id = l.arraysOf id)
    (hnew : ∀ {row c}, l.registry.rows.size ≤ row → l'.registry.classAt? row = some c →
      c.kept = true ∧ ((∃ d, s.load c.name = .ok d ∧ c.Describes l'.root d row (l'.arraysOf row)) ∨
        c.IsArray l'.root l'.registry row))
    (hlt : ∀ {id name a}, l'.arraysOf id name = some a → id < l'.registry.rows.size) :
    l'.Wired s where
  tidy := htidy
  kept {row c'} hc' := by
    by_cases hrow : row < l.registry.rows.size
    · obtain ⟨c, hc, hgrow⟩ := hgrows.exists_old hc' hrow
      exact hgrow.kept (hw.kept hc)
    · exact (hnew (Nat.le_of_not_lt hrow) hc').1
  origin {row c'} hc' := by
    by_cases hrow : row < l.registry.rows.size
    · obtain ⟨c, hc, hgrow⟩ := hgrows.exists_old hc' hrow
      rw [hroot, hgrow.name_eq, harrays hrow]
      rcases hw.origin hc with ⟨d, hd, hdesc⟩ | harray
      · exact Or.inl ⟨d, hd, hdesc.grows hgrow⟩
      · exact Or.inr (harray.grows hgrows hgrow)
    · exact (hnew (Nat.le_of_not_lt hrow) hc').2
  arrays_lt := hlt

/-- Names that are closed under what a class brings: its supertypes, and for an array the root and
the class of its elements. -/
structure Source.Closed (s : Source) (root : Text) (P : Text → Prop) : Prop where
  supertypes : ∀ {name d t}, P name → s.load name = .ok d → t ∈ supertypes d → P t
  root : ∀ {name}, P name → name.head? = some (Text.byte '[') → P root
  element : ∀ {name e}, P name → name.head? = some (Text.byte '[') → elementName? name = some e → P e

namespace Closure

open LinkM RegistryM Step Registry

/-- Loading registers nothing but what a name brings. -/
structure LoadsFor (s : Source) (name : Text) (l l' : Linker) : Prop where
  wired : l'.Wired s
  loads : Loads l l'
  only : ∀ {P : Text → Prop}, s.Closed l.root P → P name → ∀ {n row},
    l'.registry.find? n = some row → (∃ row, l.registry.find? n = some row) ∨ P n

namespace LoadsFor

variable {s : Source} {name : Text} {l l' l'' : Linker}

theorem refl (hw : l.Wired s) (name : Text) : LoadsFor s name l l := by
  refine ⟨hw, .refl l, ?_⟩
  intro P _ _ n row hrow
  exact Or.inl ⟨row, hrow⟩

/-- Asking the source changes nothing that is registered. -/
theorem ask (hw : l.Wired s) (name : Text) (asked : List Text) :
    LoadsFor s name l { l with asked := asked } where
  wired := ⟨hw.tidy, hw.kept, hw.origin, hw.arrays_lt⟩
  loads := { Loads.refl l with }
  only := (refl hw name).only

theorem trans (h : LoadsFor s name l l') (h' : LoadsFor s name l' l'') :
    LoadsFor s name l l'' := by
  refine ⟨h'.wired, h.loads.trans h'.loads, ?_⟩
  intro P hclosed hname n row hrow
  rcases h'.only (h.loads.root_eq ▸ hclosed) hname hrow with ⟨row', hrow'⟩ | hn
  · exact h.only hclosed hname hrow'
  · exact Or.inr hn

/-- What a name brings, every name that brings it brings. -/
theorem of_brought {dep : Text} (h : LoadsFor s dep l l')
    (hdep : ∀ {P : Text → Prop}, s.Closed l.root P → P name → P dep) : LoadsFor s name l l' :=
  ⟨h.wired, h.loads, fun hclosed hname => h.only hclosed (hdep hclosed hname)⟩

end LoadsFor

variable {s : Source} {l l' : Linker}

theorem wired_empty (s : Source) (root : Text) : ({ root := root } : Linker).Wired s where
  tidy := ⟨.empty, .empty, ⟨fun hc => by simp [classAt?] at hc, fun hc => by simp [classAt?] at hc⟩, rfl, rfl⟩
  kept hc := by simp [classAt?] at hc
  origin hc := by simp [classAt?] at hc
  arrays_lt ha := by simp [Linker.arraysOf] at ha

/-- A registered declaration. -/
theorem register_wired {d : ClassDecl} (hw : l.Wired s) (hd : s.load d.name = .ok d)
    (hok : register d l = .ok () l') :
    l'.Wired s ∧ Loads l l' ∧ ∀ name, l'.registry.find? name =
      if name = d.name then some l.registry.rows.size else l.registry.find? name := by
  have hfresh : ∀ name, l.arraysOf l.registry.rows.size name = none := by
    intro name
    by_contra hne
    obtain ⟨a, ha⟩ := Option.ne_none_iff_exists'.mp hne
    exact absurd (hw.arrays_lt ha) (Nat.lt_irrefl _)
  obtain ⟨hloads, htidy, hsize, hfind, ⟨c, hc, hkept, hdescribes⟩, harrays⟩ :=
    register_loads hw.tidy hfresh hok
  refine ⟨hw.step htidy hloads.grows hloads.root_eq hloads.arraysOf_eq ?_ ?_, hloads, hfind⟩
  · intro row c' hle hc'
    have hlt := classAt?_lt hc'
    obtain rfl : row = l.registry.rows.size := by omega
    cases hc.symm.trans hc'
    rw [hloads.root_eq]
    exact ⟨hkept, Or.inl ⟨d, by rw [hdescribes.name_eq]; exact hd, hdescribes⟩⟩
  · intro id name a ha
    rcases harrays ha with ha | rfl
    · have := hw.arrays_lt ha
      omega
    · omega

/-- Loading a class loads its missing supertypes and then registers it. -/
theorem loadTree_loads {depth : Nat} {path : List Text} {name : Text} (hw : l.Wired s)
    (hok : loadTree s depth path name l = .ok () l') :
    LoadsFor s name l l' ∧ ∃ row, l'.registry.find? name = some row := by
  induction depth generalizing path name l l' with
  | zero => simp [loadTree] at hok
  | succ depth ih =>
      simp only [loadTree, ite_ok, bind_ok, fail_ok, ask_ok, false_and, exists_false, and_false,
        false_or] at hok
      obtain ⟨-, answer, u, ⟨hload, hasked⟩, hok⟩ := hok
      cases answer with
      | error e => simp at hok
      | ok d =>
          simp only [bind_ok] at hok
          obtain ⟨_, l₁, hsupers, hregister⟩ := hok
          have hname := Source.name_of_load hload
          have h₁ : LoadsFor s name l l₁ := by
            refine forM_preserves (P := LoadsFor s name l) ?_ (hasked ▸ .ask hw name _) hsupers
            intro dep hdep t t' ht hstep
            simp only [bind_ok, registered?_ok, ite_ok, pure_ok, and_assoc] at hstep
            obtain ⟨_, _, rfl, rfl, ⟨-, hstep⟩ | ⟨-, -, rfl⟩⟩ := hstep
            · refine ht.trans ((ih ht.wired hstep).1.of_brought ?_)
              intro P hclosed hP
              exact hclosed.supertypes hP hload hdep
            · exact ht
          have hd : s.load d.name = .ok d := by rw [hname]; exact hload
          obtain ⟨hwired, hloads, hfind⟩ := register_wired h₁.wired hd hregister
          refine ⟨h₁.trans ⟨hwired, hloads, ?_⟩, ?_⟩
          · intro P _ hP n row hrow
            rw [hfind] at hrow
            split at hrow
            · rename_i heq
              rw [heq, hname]
              exact Or.inr hP
            · exact Or.inl ⟨row, hrow⟩
          · rw [hfind, if_pos hname.symm]
            exact ⟨_, rfl⟩

/-- Making an array class whose element class, if it has one, is registered. -/
theorem array_loads {name element : Text} {kind : ClassKind} {elementType : Int} {r : Registry}
    (hw : l.Wired s) (hroot : ∃ p, l.registry.find? l.root = some p)
    (hbracket : name.head? = some (Text.byte '['))
    (hshape : (∃ p : Primitive, kind = .primitiveArray ∧ name = Primitive.arrayName p.code ∧
        elementType = p.code ∧ elementName? name = none) ∨
      kind = .objectArray ∧ elementName? name = some element ∧
        ∃ p, l.registry.find? element = some p)
    (hcreated : Created ⟨name, l.root, kind, [], element, elementType, 0⟩ l.registry r) :
    LoadsFor s name l { l with registry := r } ∧ ∃ row, r.find? name = some row := by
  obtain ⟨children, hc⟩ := hcreated.this
  have hgrows := hcreated.grows hw.tidy
  have hloads : Loads l { l with registry := r } := by
    refine @loads_of_created _ l { l with registry := r } { l with registry := r } _ _
      hw.tidy hcreated rfl (.refl _ _) rfl hc ?_ ?_
    · intro sig d hd
      simp [Class.declared?, ClassSpec.toClass] at hd
    · simp [Class.declared?, ClassSpec.toClass]
  refine ⟨⟨hw.step hcreated.tidy hgrows rfl (fun _ => rfl) ?_ ?_, hloads, ?_⟩, ?_⟩
  · intro row c' hle hc'
    have hlt := classAt?_lt hc'
    rw [hcreated.size_eq] at hlt
    obtain rfl : row = l.registry.rows.size := by omega
    cases hc.symm.trans hc'
    obtain ⟨p, hp⟩ := hroot
    refine ⟨rfl, Or.inr ⟨hbracket, rfl, rfl, rfl, rfl, rfl, ⟨p, hgrows.find hp⟩, ?_⟩⟩
    rcases hshape with hprimitive | ⟨hkind, helement, q, hq⟩
    · exact Or.inl hprimitive
    · refine Or.inr ⟨hkind, helement, q, hgrows.find hq, ?_⟩
      exact hw.tidy.wellFormed.live_lt (hw.tidy.wellFormed.find_live hq)
  · intro id n a ha
    rw [hcreated.size_eq]
    exact Nat.lt_succ_of_lt (hw.arrays_lt ha)
  · intro P _ hP n row hrow
    rw [show _ = _ from hcreated.find?_eq n] at hrow
    split at hrow
    · rename_i heq
      rw [heq]
      exact Or.inr hP
    · exact Or.inl ⟨row, hrow⟩
  · rw [hcreated.find?_eq, if_pos rfl]
    exact ⟨_, rfl⟩

/-- Creates an array class and keeps it. -/
def createArray (name : Text) (kind : ClassKind) (element : Text) (elementType : Int) :
    LinkM Unit := do
  let row ← onRegistry (Registry.createClass
    { name, super := (← get).root, kind, interfaces := [], element, elementType, poolSize := 0 })
  discard (onRegistry (Registry.keepClass row))

theorem createArray_ok {name element : Text} {kind : ClassKind} {elementType : Int}
    (htidy : l.registry.Tidy) (hok : createArray name kind element elementType l = .ok () l') :
    ∃ r, l' = { l with registry := r } ∧
      Created ⟨name, l.root, kind, [], element, elementType, 0⟩ l.registry r := by
  simp only [createArray, bind_ok, get_ok, onRegistry_ok, discard_ok, and_assoc] at hok
  obtain ⟨_, _, rfl, rfl, row, _, ⟨r₁, hcreate, rfl⟩, fresh, r₂, hkeep, rfl⟩ := hok
  obtain ⟨-, hcreated⟩ := created htidy hcreate hkeep
  exact ⟨r₂, rfl, hcreated⟩

/-- What loading the class of the elements of an array does. -/
def LoadsElements (s : Source) (loadElement : Text → LinkM Nat) : Prop :=
  ∀ {name : Text} {l l' : Linker} {row : Nat}, l.Wired s → loadElement name l = .ok row l' →
    LoadsFor s name l l' ∧ l'.registry.find? name = some row

/-- The elements of an array whose name goes on for more than a letter. -/
theorem elementName?_of_long (b : UInt8) {elem : Text} (hlong : ¬∃ letter, elem = [letter]) :
    elementName? (b :: elem) = match objectName? elem with
      | some element => some element
      | none => if elem.head? = some (Text.byte '[') then some elem else none := by
  unfold elementName?
  simp only [List.drop_succ_cons, List.drop_zero]
  split
  · exact absurd ⟨_, rfl⟩ hlong
  · rfl

theorem arrayName_of_ofLetter? {letter : UInt8} {p : Primitive}
    (hp : Primitive.ofLetter? letter = some p) :
    [Text.byte '[', letter] = Primitive.arrayName p.code := by
  have hletter : p.letter = letter := by
    unfold Primitive.ofLetter? at hp
    simpa using List.find?_some hp
  rw [p.arrayName_code, hletter]

/-- Making an array class loads the class of its elements first, unless that is an array. -/
theorem registerArray_loads {loadElement : Text → LinkM Nat}
    (helements : LoadsElements s loadElement) {name : Text} (hw : l.Wired s)
    (hroot : ∃ p, l.registry.find? l.root = some p) (hbracket : name.head? = some (Text.byte '['))
    (hinner : (name.drop 1).head? = some (Text.byte '[') →
      ∃ p, l.registry.find? (name.drop 1) = some p)
    (hok : registerArray loadElement name l = .ok () l') :
    LoadsFor s name l l' ∧ ∃ row, l'.registry.find? name = some row := by
  obtain ⟨b, elem, rfl⟩ := List.exists_cons_of_ne_nil (l := name) (by rintro rfl; cases hbracket)
  obtain rfl : b = Text.byte '[' := by simpa using hbracket
  simp only [List.drop_succ_cons, List.drop_zero] at hinner
  unfold registerArray at hok
  simp only [List.drop_succ_cons, List.drop_zero] at hok
  by_cases hletter : ∃ letter, elem = [letter]
  · obtain ⟨letter, rfl⟩ := hletter
    cases hp : Primitive.ofLetter? letter with
    | none => simp [hp] at hok
    | some p =>
        simp only [hp] at hok
        obtain ⟨r, rfl, hcreated⟩ := createArray_ok hw.tidy hok
        exact array_loads hw hroot hbracket
          (Or.inl ⟨p, rfl, arrayName_of_ofLetter? hp, rfl, rfl⟩) hcreated
  · have hname := elementName?_of_long (Text.byte '[') hletter
    split at hok
    · exact absurd ⟨_, rfl⟩ hletter
    · cases hobject : objectName? elem with
      | some element =>
          simp only [hobject] at hok hname
          rw [bind_ok] at hok
          obtain ⟨_, l₁, hload, hcreate⟩ := hok
          obtain ⟨row, hload⟩ := discard_ok.mp hload
          obtain ⟨h₁, hfound⟩ := helements hw hload
          obtain ⟨r, rfl, hcreated⟩ := createArray_ok h₁.wired.tidy hcreate
          have hroot₁ : ∃ p, l₁.registry.find? l₁.root = some p := by
            obtain ⟨p, hp⟩ := hroot
            rw [h₁.loads.root_eq]
            exact ⟨p, h₁.loads.grows.find hp⟩
          obtain ⟨h₂, hregistered⟩ := array_loads h₁.wired hroot₁ hbracket
            (Or.inr ⟨rfl, hname, row, hfound⟩) hcreated
          refine ⟨(h₁.of_brought ?_).trans h₂, hregistered⟩
          intro P hclosed hP
          exact hclosed.element hP hbracket hname
      | none =>
          simp only [hobject] at hok hname
          split at hok
          · rename_i hinside
            rw [if_pos hinside] at hname
            obtain ⟨r, rfl, hcreated⟩ := createArray_ok hw.tidy hok
            exact array_loads hw hroot hbracket (Or.inr ⟨rfl, hname, hinner hinside⟩) hcreated
          · simp at hok

theorem objectName?_bracket (rest : Text) : objectName? (Text.byte '[' :: rest) = none := by
  refine Option.eq_none_iff_forall_ne_some.mpr fun e he => ?_
  exact absurd (List.cons.inj (objectName?_eq_some.mp he).2).1 (by decide)

/-- An array of arrays has that array as its elements, unless the inner name is a single bracket. -/
theorem elementName?_of_bracket (b : UInt8) {elem : Text}
    (hinside : elem.head? = some (Text.byte '[')) (hlong : elem ≠ [Text.byte '[']) :
    elementName? (b :: elem) = some elem := by
  obtain ⟨b', rest, rfl⟩ := List.exists_cons_of_ne_nil (l := elem) (by rintro rfl; cases hinside)
  obtain rfl : b' = Text.byte '[' := by simpa using hinside
  have hobject := objectName?_bracket rest
  obtain ⟨b₂, rest, rfl⟩ := List.exists_cons_of_ne_nil (l := rest) (by rintro rfl; exact hlong rfl)
  simp [elementName?, hobject]

theorem registerArray_bracket (loadElement : Text → LinkM Nat) (b : UInt8) :
    registerArray loadElement (b :: [Text.byte '[']) l ≠ .ok () l' := by
  have hletter : Primitive.ofLetter? (Text.byte '[') = none := by decide
  simp [registerArray, hletter]

/-- The arrays that an array is built from are made from the inside out. -/
theorem arrayChain_loads {loadElement : Text → LinkM Nat}
    (helements : LoadsElements s loadElement) {name : Text} (hw : l.Wired s)
    (hroot : ∃ p, l.registry.find? l.root = some p) (hbracket : name.head? = some (Text.byte '['))
    (hok : (arrayChain (fun t => (l.registry.find? t).isSome) name).reverse.forM
      (registerArray loadElement) l = .ok () l') :
    LoadsFor s name l l' ∧ ∃ row, l'.registry.find? name = some row := by
  induction name generalizing l' with
  | nil => cases hbracket
  | cons b elem ih =>
      unfold arrayChain at hok
      split at hok
      · rename_i hregistered
        obtain rfl := forM_nil_ok.mp hok
        exact ⟨.refl hw _, Option.isSome_iff_exists.mp hregistered⟩
      · split at hok
        · rename_i hnested
          simp only [Bool.and_eq_true, decide_eq_true_eq] at hnested
          obtain ⟨-, hinside⟩ := hnested
          rw [List.reverse_cons, forM_append_ok] at hok
          obtain ⟨l₁, hchain, hlast⟩ := hok
          obtain ⟨h₁, hinner⟩ := ih hinside hchain
          rw [forM_cons_ok] at hlast
          obtain ⟨_, hlast, hnil⟩ := hlast
          obtain rfl := forM_nil_ok.mp hnil
          have hlong : elem ≠ [Text.byte '['] := by
            rintro rfl
            exact registerArray_bracket loadElement b hlast
          have hroot₁ : ∃ p, l₁.registry.find? l₁.root = some p := by
            obtain ⟨p, hp⟩ := hroot
            rw [h₁.loads.root_eq]
            exact ⟨p, h₁.loads.grows.find hp⟩
          obtain ⟨h₂, hregistered⟩ :=
            registerArray_loads helements h₁.wired hroot₁ hbracket (fun _ => hinner) hlast
          refine ⟨(h₁.of_brought ?_).trans h₂, hregistered⟩
          intro P hclosed hP
          exact hclosed.element hP hbracket (elementName?_of_bracket b hinside hlong)
        · rename_i hflat
          have hinside : elem.head? ≠ some (Text.byte '[') := by
            intro hinside
            have hb : b = Text.byte '[' := by simpa using hbracket
            simp [hinside, hb] at hflat
          rw [List.reverse_singleton, forM_cons_ok] at hok
          obtain ⟨_, hlast, hnil⟩ := hok
          obtain rfl := forM_nil_ok.mp hnil
          exact registerArray_loads helements hw hroot hbracket (fun h => absurd h hinside) hlast

theorem loadFrom_loads (s : Source) (fuel : Nat) : LoadsElements s (loadFrom s fuel) := by
  induction fuel with
  | zero =>
      intro name l l' row _ hok
      simp [loadFrom] at hok
  | succ fuel ih =>
      intro name l l' row hw hok
      simp only [loadFrom, bind_ok, registered?_ok, and_assoc] at hok
      obtain ⟨o, _, rfl, rfl, hok⟩ := hok
      cases hfound : l.registry.find? name with
      | some found =>
          simp only [hfound, pure_ok] at hok
          obtain ⟨rfl, rfl⟩ := hok
          exact ⟨.refl hw name, hfound⟩
      | none =>
          simp only [hfound, ite_ok, bind_ok, discard_ok, get_ok, registered?_ok, and_assoc] at hok
          rcases hok with ⟨hbracket, _, _, rfl, rfl, hok⟩ | ⟨-, hok⟩
          · obtain ⟨_, l₁, ⟨p, hroot⟩, _, _, rfl, rfl, _, l₂, hchain, o, _, hrow, rfl, hok⟩ := hok
            obtain ⟨h₁, hp⟩ := ih hw hroot
            obtain ⟨h₂, row', hrow'⟩ := arrayChain_loads ih h₁.wired
              ⟨p, by rw [h₁.loads.root_eq]; exact hp⟩ hbracket hchain
            rw [hrow'] at hrow
            subst hrow
            obtain ⟨rfl, rfl⟩ := pure_ok.mp hok
            refine ⟨(h₁.of_brought ?_).trans h₂, hrow'⟩
            intro P hclosed hP
            exact hclosed.root hP hbracket
          · obtain ⟨_, l₁, htree, o, _, hrow, rfl, hok⟩ := hok
            obtain ⟨hloads, row', hrow'⟩ := loadTree_loads hw htree
            rw [hrow'] at hrow
            subst hrow
            obtain ⟨rfl, rfl⟩ := pure_ok.mp hok
            exact ⟨hloads, hrow'⟩

/-- Loading a name registers it and what it brings. -/
theorem loadClass_loads {name : Text} {row : Nat} (hw : l.Wired s)
    (hok : loadClass s name l = .ok row l') :
    LoadsFor s name l l' ∧ l'.registry.find? name = some row :=
  loadFrom_loads s _ hw hok

end Closure

end ClassLinker
