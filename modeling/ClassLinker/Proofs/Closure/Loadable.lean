import Mathlib.Data.List.Perm.Subperm
import ClassLinker.Proofs.Closure.Alike

/-! Loading again. What one link has loaded can be loaded in every other link of the same source,
whatever that one has so far, unless the source has classes that extend arrays. The rows of the link
that has a class say what has to come before it: supertypes, the root and the classes of elements
stand in earlier rows, so loading them neither ends in a cycle nor registers the class itself. -/

namespace ClassLinker

open Closure

/-- No class of the source has an array class as a supertype. -/
def Source.PlainSupertypes (s : Source) : Prop :=
  ∀ {name d t}, s.load name = .ok d → t ∈ supertypes d → t.head? ≠ some (Text.byte '[')

/-- A name of a class that a link has in a row before `k`. -/
def Linker.HasBefore (F : Linker) (k : Nat) (name : Text) : Prop :=
  ∃ q, F.registry.find? name = some q ∧ q < k

namespace Closure

open LinkM RegistryM Step Registry Linker

variable {s : Source} {F l l' : Linker} {name : Text} {k : Nat}

/-! ### What comes before a class -/

theorem supertype_before (hF : F.Wired s) (hnames : s.NoArrays)
    (hk : F.registry.find? name = some k) {d : ClassDecl} (hload : s.load name = .ok d) {t : Text}
    (ht : t ∈ supertypes d) : F.HasBefore k t := by
  obtain ⟨c, hc, -, hdesc⟩ := exists_described hF hnames hload hk
  have hlive := hF.tidy.live_of_class hc
  rcases List.mem_append.mp ht with ht | ht
  · split at ht
    · cases ht
    · rename_i hne
      obtain rfl := List.mem_singleton.mp ht
      rw [← hdesc.super_eq] at hne ⊢
      exact hF.tidy.hierarchy.super_lt hlive hc hne
  · rw [← hdesc.interfaces_eq] at ht
    exact hF.tidy.hierarchy.interface_lt hlive hc ht

/-- The class of an array that a link has, in its row. -/
theorem exists_arrayAt (hF : F.Wired s) (hnames : s.NoArrays) (hk : F.registry.find? name = some k)
    (hbracket : name.head? = some (Text.byte '[')) :
    ∃ c, F.registry.classAt? k = some c ∧ c.name = name ∧ c.IsArray F.root F.registry k := by
  obtain ⟨row, c, hc, hname, harray⟩ := exists_array hF hnames hbracket ⟨k, hk⟩
  cases (hname ▸ hF.tidy.find_self hc).symm.trans hk
  exact ⟨c, hc, hname, harray⟩

theorem root_before (hF : F.Wired s) (hnames : s.NoArrays) (hroot : F.root ≠ [])
    (hk : F.registry.find? name = some k) (hbracket : name.head? = some (Text.byte '[')) :
    F.HasBefore k F.root := by
  obtain ⟨c, hc, -, harray⟩ := exists_arrayAt hF hnames hk hbracket
  rw [← harray.super_eq]
  exact hF.tidy.hierarchy.super_lt (hF.tidy.live_of_class hc) hc (by rwa [harray.super_eq])

theorem element_before (hF : F.Wired s) (hnames : s.NoArrays)
    (hk : F.registry.find? name = some k) (hbracket : name.head? = some (Text.byte '['))
    {e : Text} (he : elementName? name = some e) : F.HasBefore k e := by
  obtain ⟨c, hc, rfl, harray⟩ := exists_arrayAt hF hnames hk hbracket
  rcases harray.shape with ⟨p, -, -, -, hnone⟩ | ⟨-, helement, hrow⟩
  · rw [hnone] at he
    cases he
  · cases helement.symm.trans he
    exact hrow

/-- The root is no array. -/
theorem root_plain (hF : F.Wired s) (hnames : s.NoArrays) (hroot : F.root ≠ [])
    (hhas : F.Has F.root) : F.root.head? ≠ some (Text.byte '[') := by
  intro hbracket
  obtain ⟨k, hk⟩ := hhas
  obtain ⟨q, hq, hlt⟩ := root_before hF hnames hroot hk hbracket
  cases hk.symm.trans hq
  exact Nat.lt_irrefl k hlt

/-- What comes before a class is closed under what loading brings. -/
theorem closed_before (hF : F.Wired s) (hnames : s.NoArrays) (hroot : F.root ≠ []) (k : Nat) :
    s.Closed F.root (F.HasBefore k) := by
  have hmono : ∀ {q t}, F.HasBefore q t → q < k → F.HasBefore k t := by
    rintro q t ⟨p, hp, hlt⟩ hq
    exact ⟨p, hp, Nat.lt_trans hlt hq⟩
  refine ⟨?_, ?_, ?_⟩
  · rintro n d t ⟨q, hq, hlt⟩ hload ht
    exact hmono (supertype_before hF hnames hq hload ht) hlt
  · rintro n ⟨q, hq, hlt⟩ hbracket
    exact hmono (root_before hF hnames hroot hq hbracket) hlt
  · rintro n e ⟨q, hq, hlt⟩ hbracket he
    exact hmono (element_before hF hnames hq hbracket he) hlt

/-- Loading what comes before a class does not register the class. -/
theorem LoadsFor.fresh {dep : Text} (h : LoadsFor s dep l l') (hF : F.Wired s)
    (hnames : s.NoArrays) (hroot : F.root ≠ []) (heq : l.root = F.root)
    (hdep : F.HasBefore k dep) (hk : F.registry.find? name = some k)
    (hnew : l.registry.find? name = none) : l'.registry.find? name = none := by
  cases hrow : l'.registry.find? name with
  | none => rfl
  | some row =>
      rcases h.only (heq ▸ closed_before hF hnames hroot k) hdep hrow with ⟨p, hp⟩ | ⟨q, hq, hlt⟩
      · rw [hnew] at hp
        cases hp
      · cases hk.symm.trans hq
        exact absurd hlt (Nat.lt_irrefl k)

/-! ### Declared classes -/

/-- The only class without a superclass is the one with the name of the root. -/
theorem name_of_registers {root : Text} {d : ClassDecl} {c : Class} (h : d.Registers root c)
    (hsuper : d.super = []) : d.name = root := by
  obtain ⟨u, u', -, -, -, rfl, hok, -⟩ := h
  by_contra hne
  simp [register, hsuper, hne] at hok

/-- The first class has the name of the root, so a link that lacks the root has no classes. -/
theorem live_eq_nil (hl : l.Wired s) (hroot : l.root ≠ [])
    (hnew : l.registry.find? l.root = none) : l.registry.live = [] := by
  by_contra hlive
  obtain ⟨c, hc⟩ : ∃ c, l.registry.classAt? 0 = some c := by
    refine exists_classAt? (Nat.pos_of_ne_zero fun h => hlive ?_)
    rw [hl.tidy.live_eq, h, List.range_zero]
  have hsuper : c.super = [] := by
    rw [hl.tidy.hierarchy.root_iff (hl.tidy.live_of_class hc) hc, hl.tidy.live_eq]
    have hsize := classAt?_lt hc
    cases hn : l.registry.rows.size with
    | zero => omega
    | succ n => rw [List.range_succ_eq_map, List.head?_cons]
  have hname : c.name = l.root := by
    rcases hl.origin hc with ⟨d, hload, hdesc⟩ | harray
    · rw [hdesc.name_eq, name_of_registers hdesc.registers (hdesc.super_eq ▸ hsuper)]
    · exact absurd (harray.super_eq.symm.trans hsuper) hroot
  have hfound := hl.tidy.find_self hc
  rw [hname, hnew] at hfound
  cases hfound

/-- A declaration that one link has registered can be registered in another one that has its
supertypes and not the class itself. -/
theorem register_succeeds (hF : F.Wired s) (hnames : s.NoArrays) (hroot : F.root ≠ [])
    (hl : l.Wired s) (heq : l.root = F.root) {d : ClassDecl} (hload : s.load name = .ok d)
    (hk : F.registry.find? name = some k) (hnew : l.registry.find? name = none)
    (hsupers : ∀ t ∈ supertypes d, l.Has t) : ∃ l', register d l = .ok () l' := by
  obtain rfl := Source.name_of_load hload
  obtain ⟨c, hc, -, hdesc⟩ := exists_described hF hnames hload hk
  have hsuper : d.super ≠ [] → l.Has d.super := fun hne => hsupers _ (by simp [supertypes, hne])
  have hfirst : d.super = [] ↔ l.registry.live = [] := by
    constructor
    · intro hempty
      have hname : d.name = l.root := (name_of_registers hdesc.registers hempty).trans heq.symm
      exact live_eq_nil hl (heq ▸ hroot) (hname ▸ hnew)
    · intro hlive
      by_contra hne
      obtain ⟨p, hp⟩ := hsuper hne
      have hmem := hl.tidy.wellFormed.find_live hp
      rw [hlive] at hmem
      cases hmem
  obtain ⟨r', hcreate⟩ := exists_createClass d.spec hl.tidy.isOpen hnew hfirst hsuper
    fun i hi => hsupers i (List.mem_append_right _ hi)
  obtain ⟨u, u', -, htidy, hfresh, hroot', hok, -⟩ := hdesc.registers
  have hfresh' : ∀ t, l.arraysOf l.registry.rows.size t = none := by
    intro t
    cases ha : l.arraysOf l.registry.rows.size t with
    | none => rfl
    | some a => exact absurd (hl.arrays_lt ha) (Nat.lt_irrefl _)
  obtain ⟨v, hv, -⟩ := register_replays htidy hfresh hok hl.tidy hfresh'
    (heq.trans hroot'.symm) hcreate
  exact ⟨v, hv⟩

/-- Names that differ and that a source serves are no more than it has declarations. -/
theorem length_le_decls {path : List Text} (hnodup : path.Nodup)
    (hserved : ∀ n ∈ path, ∃ d, s.load n = .ok d) : path.length ≤ s.decls.length := by
  have hsub : path ⊆ s.decls.map ClassDecl.name := by
    intro n hn
    obtain ⟨d, hd⟩ := hserved n hn
    exact List.mem_map.mpr ⟨d, Source.mem_decls_of_load hd, Source.name_of_load hd⟩
  simpa using (List.Nodup.subperm hnodup hsub).length_le

theorem unlessRegistered_ok {t : Text} {x : LinkM Unit} :
    (do if (← registered? t).isNone then x : LinkM Unit) l = .ok () l' ↔
      l.Has t ∧ l = l' ∨ l.registry.find? t = none ∧ x l = .ok () l' := by
  simp only [bind_ok, registered?_ok, and_assoc, ite_ok, pure_ok, true_and]
  unfold Linker.Has
  cases hrow : l.registry.find? t with
  | none => simp
  | some row => simp

/-- A declared class can be loaded, if no class that the other link has extends an array. The classes
whose loading is under way come after it, so it is not among them. -/
theorem loadTree_succeeds (hF : F.Wired s) (hnames : s.NoArrays)
    (hplain : ∀ {n d t}, F.Has n → s.load n = .ok d → t ∈ supertypes d →
      t.head? ≠ some (Text.byte '[')) (hroot : F.root ≠ []) {depth : Nat} {path : List Text} (hl : l.Wired s) (heq : l.root = F.root)
    (hk : F.registry.find? name = some k) (hflat : name.head? ≠ some (Text.byte '['))
    (hnew : l.registry.find? name = none) (hnodup : path.Nodup)
    (hserved : ∀ n ∈ path, ∃ d, s.load n = .ok d)
    (hafter : ∀ n ∈ path, ∃ p, F.registry.find? n = some p ∧ k < p)
    (hdepth : s.decls.length < depth + path.length) :
    ∃ l', loadTree s depth path name l = .ok () l' := by
  induction depth generalizing l path name k with
  | zero =>
      have hle := length_le_decls hnodup hserved
      omega
  | succ depth ih =>
      have hpath : name ∉ path := by
        intro hmem
        obtain ⟨p, hp, hlt⟩ := hafter name hmem
        cases hk.symm.trans hp
        exact Nat.lt_irrefl k hlt
      obtain ⟨d, hload⟩ : ∃ d, s.load name = .ok d := by
        obtain ⟨c, hc, rfl⟩ := hF.tidy.exists_class hk
        rcases hF.origin hc with ⟨d, hload, -⟩ | harray
        · exact ⟨d, hload⟩
        · exact absurd harray.bracket hflat
      -- Loading one supertype leaves the class itself to be registered.
      have hstep : ∀ t ∈ supertypes d, ∀ u, u.Wired s ∧ u.root = F.root ∧
          u.registry.find? name = none → ∃ v, (do
            if (← registered? t).isNone then loadTree s depth (name :: path) t : LinkM Unit) u =
              .ok .unit v ∧ (v.Wired s ∧ v.root = F.root ∧ v.registry.find? name = none) ∧
            v.Has t ∧ ∀ t', u.Has t' → v.Has t' := by
        rintro t ht u ⟨hu, hequ, hnewu⟩
        obtain ⟨q, hq, hlt⟩ := supertype_before hF hnames hk hload ht
        cases hrow : u.registry.find? t with
        | some row =>
            exact ⟨u, unlessRegistered_ok.mpr (.inl ⟨⟨row, hrow⟩, rfl⟩), ⟨hu, hequ, hnewu⟩,
              ⟨row, hrow⟩, fun _ h => h⟩
        | none =>
            have hafter' : ∀ n ∈ name :: path, ∃ p, F.registry.find? n = some p ∧ q < p := by
              refine List.forall_mem_cons.mpr ⟨⟨k, hk, hlt⟩, fun n hn => ?_⟩
              obtain ⟨p, hp, hlt'⟩ := hafter n hn
              exact ⟨p, hp, Nat.lt_trans hlt hlt'⟩
            obtain ⟨v, hv⟩ := ih hu hequ hq (hplain ⟨k, hk⟩ hload ht) hrow
              (List.nodup_cons.mpr ⟨hpath, hnodup⟩)
              (List.forall_mem_cons.mpr ⟨⟨d, hload⟩, hserved⟩) hafter'
              (by rw [List.length_cons]; omega)
            obtain ⟨hloads, hhas⟩ := loadTree_loads hu hv
            refine ⟨v, unlessRegistered_ok.mpr (.inr ⟨hrow, hv⟩), ⟨hloads.wired,
              hloads.loads.root_eq.trans hequ, ?_⟩, hhas, fun _ h => h.grows hloads.loads.grows⟩
            exact hloads.fresh hF hnames hroot hequ ⟨q, hq, hlt⟩ hk hnewu
      have hasked : Wired s { l with asked := name :: l.asked } := (LoadsFor.ask hl name _).wired
      obtain ⟨u, hsupers, ⟨hu, hequ, hnewu⟩, hhas⟩ := forM_establishes hstep ⟨hasked, heq, hnew⟩
      obtain ⟨v, hv⟩ := register_succeeds hF hnames hroot hu hequ hload hk hnewu hhas
      refine ⟨v, ?_⟩
      simp only [loadTree, List.contains_eq_mem, hpath, decide_false, Bool.false_eq_true, if_false,
        bind_ok, ask_ok]
      refine ⟨_, _, ⟨hload, rfl⟩, ?_⟩
      exact bind_ok.mpr ⟨.unit, u, hsupers, hv⟩

/-! ### Array classes -/

/-- What loading the class of the elements of an array has to do: it succeeds for the names that
another link has and that are short enough. -/
def LoadableElements (s : Source) (F : Linker) (fuel : Nat) (loadElement : Text → LinkM Nat) :
    Prop :=
  ∀ {name : Text} {l : Linker}, l.Wired s → l.root = F.root → F.Has name → 0 < fuel →
    (name.head? = some (Text.byte '[') → name.length < fuel) →
    ∃ row l', loadElement name l = .ok row l'

theorem createArray_succeeds {element : Text} {kind : ClassKind} {elementType : Int}
    (hl : l.registry.Tidy) (hroot : l.root ≠ []) (hhas : l.Has l.root)
    (hnew : l.registry.find? name = none) :
    ∃ l', createArray name kind element elementType l = .ok () l' := by
  have hlive : l.registry.live ≠ [] := by
    obtain ⟨p, hp⟩ := hhas
    exact List.ne_nil_of_mem (hl.wellFormed.find_live hp)
  obtain ⟨r, hcreate⟩ := exists_createClass
    ⟨name, l.root, kind, [], element, elementType, 0⟩ hl.isOpen hnew
    ⟨fun h => absurd h hroot, fun h => absurd h hlive⟩ (fun _ => hhas) (by simp)
  obtain ⟨r', hkeep⟩ := exists_keepClass hcreate
  simp only [createArray, bind_ok, get_ok, onRegistry_ok, discard_ok, and_assoc]
  exact ⟨_, l, l, rfl, rfl, _, _, ⟨r, hcreate, rfl⟩, true, r', hkeep, rfl⟩

theorem length_objectName?_le {t e : Text} (h : objectName? t = some e) : e.length ≤ t.length := by
  rw [(objectName?_eq_some.mp h).2]
  simp only [objectBase, List.length_cons, List.length_append]
  omega

/-- An array class can be made once the array that it holds is there, if it holds one. -/
theorem registerArray_succeeds (hF : F.Wired s) (hnames : s.NoArrays) (hroot : F.root ≠ [])
    {fuel : Nat} {loadElement : Text → LinkM Nat} (hloads : LoadsElements s loadElement)
    (helements : LoadableElements s F fuel loadElement) (hl : l.Wired s) (heq : l.root = F.root)
    (hhas : l.Has l.root) (hk : F.registry.find? name = some k)
    (hbracket : name.head? = some (Text.byte '[')) (hlength : name.length ≤ fuel)
    (hnew : l.registry.find? name = none) : ∃ l', registerArray loadElement name l = .ok () l' := by
  obtain ⟨c, -, hname, harray⟩ := exists_arrayAt hF hnames hk hbracket
  obtain ⟨b, elem, rfl⟩ := List.exists_cons_of_ne_nil (l := name) (by rintro rfl; cases hbracket)
  have hshape := harray.shape
  rw [hname] at hshape
  unfold registerArray
  simp only [List.drop_succ_cons, List.drop_zero]
  by_cases hletter : ∃ letter, elem = [letter]
  · obtain ⟨letter, rfl⟩ := hletter
    rcases hshape with ⟨p, -, harrayName, -⟩ | ⟨-, helement, -⟩
    · have hp : Primitive.ofLetter? letter = some p := by
        rw [p.arrayName_code] at harrayName
        rw [(List.cons.inj (List.cons.inj harrayName).2).1, Primitive.ofLetter?_letter]
      simp only [hp]
      exact createArray_succeeds hl.tidy (heq ▸ hroot) hhas hnew
    · simp [elementName?] at helement
  · rcases hshape with ⟨p, -, harrayName, -⟩ | ⟨-, helement, hbefore⟩
    · rw [Primitive.arrayName, List.cons.injEq] at harrayName
      exact absurd ⟨_, harrayName.2⟩ hletter
    · simp only [elementName?, List.drop_succ_cons, List.drop_zero] at helement
      split
      · exact absurd ⟨_, rfl⟩ hletter
      · split at helement
        · cases helement
        · cases hobject : objectName? elem with
          | some element =>
              simp only [hobject, Option.some.injEq] at helement ⊢
              rw [← helement] at hbefore
              obtain ⟨q, hq, hlt⟩ := hbefore
              have hshort := length_objectName?_le hobject
              rw [List.length_cons] at hlength
              obtain ⟨row, l₁, hload⟩ := helements hl heq ⟨q, hq⟩ (by omega) fun _ => by omega
              obtain ⟨h₁, -⟩ := hloads hl hload
              have hroot₁ := h₁.loads.root_eq
              obtain ⟨l', hcreate⟩ := createArray_succeeds h₁.wired.tidy (hroot₁.trans heq ▸ hroot)
                (hroot₁ ▸ hhas.grows h₁.loads.grows)
                (h₁.fresh hF hnames hroot heq ⟨q, hq, hlt⟩ hk hnew)
              exact ⟨l', bind_ok.mpr ⟨.unit, l₁, discard_ok.mpr ⟨row, hload⟩, hcreate⟩⟩
          | none =>
              simp only [hobject] at helement ⊢
              split at helement
              · rename_i hinside
                rw [if_pos hinside]
                exact createArray_succeeds hl.tidy (heq ▸ hroot) hhas hnew
              · cases helement

/-- The arrays that an array is built from can be made from the inside out. -/
theorem arrayChain_succeeds (hF : F.Wired s) (hnames : s.NoArrays) (hroot : F.root ≠ [])
    {fuel : Nat} {loadElement : Text → LinkM Nat} (hloads : LoadsElements s loadElement)
    (helements : LoadableElements s F fuel loadElement) (hl : l.Wired s) (heq : l.root = F.root)
    (hhas : l.Has l.root) (hk : F.registry.find? name = some k)
    (hbracket : name.head? = some (Text.byte '[')) (hlength : name.length ≤ fuel) :
    ∃ l', (arrayChain (fun t => (l.registry.find? t).isSome) name).reverse.forM
      (registerArray loadElement) l = .ok () l' := by
  induction name generalizing k with
  | nil => cases hbracket
  | cons b elem ih =>
      unfold arrayChain
      cases hnew : l.registry.find? (b :: elem) with
      | some row => exact ⟨l, by simp⟩
      | none =>
          simp only [Option.isSome_none, Bool.false_eq_true, if_false, Bool.and_eq_true,
            decide_eq_true_eq]
          obtain rfl : b = Text.byte '[' := by simpa using hbracket
          by_cases hinside : elem.head? = some (Text.byte '[')
          · have hlong : elem ≠ [Text.byte '['] := by
              rintro rfl
              obtain ⟨c, -, hname, harray⟩ := exists_arrayAt hF hnames hk hbracket
              have hshape := harray.shape
              rw [hname] at hshape
              rcases hshape with ⟨p, -, harrayName, -⟩ | ⟨-, helement, -⟩
              · rw [p.arrayName_code] at harrayName
                exact absurd (List.cons.inj (List.cons.inj harrayName).2).1.symm p.letter_ne_bracket
              · cases helement
            have helement := elementName?_of_bracket (Text.byte '[') hinside hlong
            obtain ⟨q, hq, hlt⟩ := element_before hF hnames hk hbracket helement
            obtain ⟨l₁, h₁⟩ := ih hq hinside (Nat.le_of_succ_le hlength)
            obtain ⟨hchain, -⟩ := arrayChain_loads hloads hl hhas hinside h₁
            have hroot₁ := hchain.loads.root_eq
            obtain ⟨l', hlast⟩ := registerArray_succeeds hF hnames hroot hloads helements
              hchain.wired (hroot₁.trans heq) (hroot₁ ▸ hhas.grows hchain.loads.grows) hk hbracket
              hlength (hchain.fresh hF hnames hroot heq ⟨q, hq, hlt⟩ hk hnew)
            rw [if_pos ⟨rfl, hinside⟩, List.reverse_cons]
            exact ⟨l', forM_append_ok.mpr ⟨l₁, h₁, forM_cons_ok.mpr ⟨l', hlast, forM_nil_ok.mpr rfl⟩⟩⟩
          · obtain ⟨l', hlast⟩ := registerArray_succeeds hF hnames hroot hloads helements hl heq hhas
              hk hbracket hlength hnew
            rw [if_neg fun h => hinside h.2, List.reverse_singleton]
            exact ⟨l', forM_cons_ok.mpr ⟨l', hlast, forM_nil_ok.mpr rfl⟩⟩

/-! ### All classes -/

theorem loadFrom_succeeds (hF : F.Wired s) (hnames : s.NoArrays) (hplain : s.PlainSupertypes)
    (hroot : F.root ≠ []) (fuel : Nat) : LoadableElements s F fuel (loadFrom s fuel) := by
  induction fuel with
  | zero => exact fun _ _ _ hpos _ => absurd hpos (Nat.lt_irrefl 0)
  | succ fuel ih =>
      intro name l hl heq hhas _ hfuel
      obtain ⟨k, hk⟩ := hhas
      simp only [loadFrom, bind_ok, registered?_ok, and_assoc]
      cases hnew : l.registry.find? name with
      | some row => exact ⟨row, l, _, l, rfl, rfl, pure_ok.mpr ⟨rfl, rfl⟩⟩
      | none =>
          by_cases hbracket : name.head? = some (Text.byte '[')
          · have hlength := hfuel hbracket
            have hname : name ≠ [] := by rintro rfl; cases hbracket
            have hpos : 0 < name.length := List.length_pos_iff.mpr hname
            obtain ⟨q, hq, -⟩ := root_before hF hnames hroot hk hbracket
            obtain ⟨p, l₁, hload⟩ := ih hl heq ⟨q, hq⟩ (by omega) fun h =>
              absurd h (root_plain hF hnames hroot ⟨q, hq⟩)
            obtain ⟨h₁, hp⟩ := loadFrom_loads s fuel hl hload
            have hroot₁ := h₁.loads.root_eq
            obtain ⟨l₂, hchain⟩ := arrayChain_succeeds hF hnames hroot (loadFrom_loads s fuel) ih
              h₁.wired (hroot₁.trans heq) (by rw [hroot₁, heq]; exact ⟨p, hp⟩) hk hbracket (by omega)
            obtain ⟨h₂, row, hrow⟩ := arrayChain_loads (loadFrom_loads s fuel) h₁.wired
              (by rw [hroot₁, heq]; exact ⟨p, hp⟩) hbracket hchain
            refine ⟨row, l₂, none, l, rfl, rfl, ?_⟩
            simp only [ite_ok, bind_ok, discard_ok, get_ok, registered?_ok, and_assoc]
            refine .inl ⟨hbracket, l, l, rfl, rfl, .unit, l₁, ⟨p, heq ▸ hload⟩, l₁, l₁, rfl, rfl,
              .unit, l₂, hchain, some row, l₂, hrow, rfl, pure_ok.mpr ⟨rfl, rfl⟩⟩
          · obtain ⟨l₁, htree⟩ : ∃ l₁, loadTree s (s.decls.length + 1) [] name l = .ok () l₁ :=
              loadTree_succeeds hF hnames (fun _ => hplain) hroot hl heq hk hbracket hnew
                List.nodup_nil (by simp) (by simp) (by simp)
            obtain ⟨-, row, hrow⟩ := loadTree_loads hl htree
            refine ⟨row, l₁, none, l, rfl, rfl, ?_⟩
            simp only [ite_ok, bind_ok, registered?_ok, and_assoc]
            exact .inr ⟨hbracket, .unit, l₁, htree, some row, l₁, hrow, rfl, pure_ok.mpr ⟨rfl, rfl⟩⟩

/-- What one link has loaded can be loaded in another one. -/
theorem loadClass_succeeds (hF : F.Wired s) (hnames : s.NoArrays) (hplain : s.PlainSupertypes)
    (hroot : F.root ≠ []) (hl : l.Wired s) (heq : l.root = F.root) (hhas : F.Has name) :
    ∃ row l', loadClass s name l = .ok row l' :=
  loadFrom_succeeds hF hnames hplain hroot _ hl heq hhas (Nat.succ_pos _) fun _ => Nat.lt_succ_self _

end Closure

end ClassLinker
