import ClassLinker.Proofs.Closure.Consistent
import ClassLinker.Proofs.Closure.Loadable
import ClassLinker.Proofs.Registry.Ancestry

/-! What loading a class registers. The classes whose loading is under way form a path of classes that
each name the next one, so a class that is on the path already is a supertype of itself. Of a class and
its supertypes those that are missing are registered, each after the supertypes it names; where one of
them cannot be loaded, or is a supertype of itself, loading fails. -/

namespace ClassLinker

open Relation

/-- The types that a class names, its superclass first. -/
def Class.supertypes (c : Class) : List Text :=
  (if c.super = [] then [] else [c.super]) ++ c.interfaces

theorem Class.supertypes_eq {c c' : Class} (h : c'.spec = c.spec) : c'.supertypes = c.supertypes := by
  rw [supertypes, show c'.super = c.super from congrArg ClassSpec.super h,
    show c'.interfaces = c.interfaces from congrArg ClassSpec.interfaces h, supertypes]

theorem Class.mem_supertypes {c : Class} {name : Text} :
    name ∈ c.supertypes ↔ c.super ≠ [] ∧ name = c.super ∨ name ∈ c.interfaces := by
  unfold supertypes
  split <;> simp_all

namespace Registry

open Step RegistryM

/-- The class registered under a name names a supertype. -/
def NamesSupertype (r : Registry) (name dep : Text) : Prop :=
  ∃ row c, r.find? name = some row ∧ r.classAt? row = some c ∧ dep ∈ c.supertypes

theorem namesSupertype_iff {r : Registry} {name dep : Text} {row : Nat} {c : Class}
    (hrow : r.find? name = some row) (hc : r.classAt? row = some c) :
    r.NamesSupertype name dep ↔ dep ∈ c.supertypes := by
  constructor
  · rintro ⟨row', c', hrow', hc', hdep⟩
    cases hrow.symm.trans hrow'
    cases hc.symm.trans hc'
    exact hdep
  · exact fun hdep => ⟨row, c, hrow, hc, hdep⟩

/-- The names of the registered classes in the order of their ids. -/
def classNames (r : Registry) : List Text := r.classes.map fun q => q.2.name

namespace Tidy

variable {r : Registry} {name dep : Text}

theorem find?_supertype (h : r.Tidy) {row : Nat} {c : Class} (hc : r.classAt? row = some c)
    (hdep : dep ∈ c.supertypes) : ∃ p, r.find? dep = some p ∧ p < row := by
  rcases Class.mem_supertypes.mp hdep with ⟨hne, rfl⟩ | hdep
  · exact h.hierarchy.super_lt (h.live_of_class hc) hc hne
  · exact h.hierarchy.interface_lt (h.live_of_class hc) hc hdep

theorem row_lt (h : r.Tidy) (hnames : r.NamesSupertype name dep) :
    ∃ row p, r.find? name = some row ∧ r.find? dep = some p ∧ p < row := by
  obtain ⟨row, c, hrow, hc, hdep⟩ := hnames
  obtain ⟨p, hp, hlt⟩ := h.find?_supertype hc hdep
  exact ⟨row, p, hrow, hp, hlt⟩

/-- Rows descend from a class to its supertypes, so no class is a supertype of itself. -/
theorem not_cyclic (h : r.Tidy) : ¬TransGen r.NamesSupertype name name := by
  have hlt : ∀ {a b}, TransGen r.NamesSupertype a b →
      ∃ row p, r.find? a = some row ∧ r.find? b = some p ∧ p < row := by
    intro a b hab
    induction hab with
    | single hab => exact h.row_lt hab
    | tail _ hbc ih =>
        obtain ⟨row, p, hrow, hp, hlt⟩ := ih
        obtain ⟨p', q, hp', hq, hlt'⟩ := h.row_lt hbc
        cases hp.symm.trans hp'
        exact ⟨row, q, hrow, hq, Nat.lt_trans hlt' hlt⟩
  intro hcycle
  obtain ⟨row, p, hrow, hp, hless⟩ := hlt hcycle
  cases hrow.symm.trans hp
  exact Nat.lt_irrefl row hless

/-- The supertypes of a registered class are registered. -/
theorem exists_supertype (h : r.Tidy) (hreach : ReflTransGen r.NamesSupertype name dep)
    (hname : ∃ row, r.find? name = some row) : ∃ row, r.find? dep = some row := by
  induction hreach with
  | refl => exact hname
  | tail _ hstep _ =>
      obtain ⟨-, p, -, hp, -⟩ := h.row_lt hstep
      exact ⟨p, hp⟩

theorem classNames_eq (h : r.Tidy) : r.classNames = r.rows.toList.map Class.name := by
  refine List.ext_getElem? fun i => ?_
  rw [classNames, List.getElem?_map, getElem?_classes fun row hrow => h.wellFormed.exists_class hrow,
    h.live_eq, List.getElem?_map, Array.getElem?_toList]
  rcases Nat.lt_or_ge i r.rows.size with hi | hi
  · simp [classAt?, hi]
  · simp [hi]

theorem getElem?_classNames (h : r.Tidy) {i : Nat} :
    r.classNames[i]? = some name ↔ r.find? name = some i := by
  rw [h.classNames_eq, List.getElem?_map, Array.getElem?_toList]
  constructor
  · intro hi
    obtain ⟨c, hc, rfl⟩ := Option.map_eq_some_iff.mp hi
    exact h.find_self hc
  · intro hi
    obtain ⟨c, hc, rfl⟩ := h.exists_class hi
    exact Option.map_eq_some_iff.mpr ⟨c, hc, rfl⟩

theorem mem_drop_classNames (h : r.Tidy) {n : Nat} :
    name ∈ r.classNames.drop n ↔ ∃ i, r.find? name = some (n + i) := by
  simp only [List.mem_iff_getElem?, List.getElem?_drop, h.getElem?_classNames]

end Tidy

end Registry

/-- The source's declaration of a class names a supertype that is not registered. -/
def Source.NamesMissing (s : Source) (r : Registry) (name dep : Text) : Prop :=
  ∃ d, s.load name = .ok d ∧ dep ∈ Closure.supertypes d ∧ r.find? dep = none

instance (s : Source) (r : Registry) (name dep : Text) : Decidable (s.NamesMissing r name dep) :=
  match hload : s.load name with
  | .ok d => decidable_of_iff (dep ∈ Closure.supertypes d ∧ r.find? dep = none)
      ⟨fun hdep => ⟨d, hload, hdep⟩, fun ⟨_, hload', hdep⟩ => by
        cases hload.symm.trans hload'
        exact hdep⟩
  | .error _ => .isFalse fun ⟨_, hload', _⟩ => by cases hload.symm.trans hload'

theorem Source.NamesMissing.mono {s : Source} {r r' : Registry} {name dep : Text}
    (h : s.NamesMissing r' name dep) (hretains : r.Retains r') : s.NamesMissing r name dep := by
  obtain ⟨d, hload, hdep, hnew⟩ := h
  refine ⟨d, hload, hdep, Option.eq_none_iff_forall_ne_some.mpr fun row hrow => ?_⟩
  exact Option.eq_none_iff_forall_ne_some.mp hnew row (hretains.names hrow)

/-- Among a class and its missing supertypes is one that the source cannot load, or that is a supertype
of itself. -/
def Source.Blocked (s : Source) (r : Registry) (name : Text) : Prop :=
  ∃ n, ReflTransGen (s.NamesMissing r) name n ∧
    (TransGen (s.NamesMissing r) n n ∨ ∃ e, s.load n = .error e)

/-- Where the source can load the class itself, one of its missing supertypes is blocked. -/
theorem Source.Blocked.supertype {s : Source} {r : Registry} {name : Text} {d : ClassDecl}
    (h : s.Blocked r name) (hload : s.load name = .ok d) :
    ∃ dep, s.NamesMissing r name dep ∧ s.Blocked r dep := by
  obtain ⟨n, hreach, hcause⟩ := h
  rcases ReflTransGen.cases_head hreach with rfl | ⟨dep, hdep, hreach⟩
  · rcases hcause with hcycle | ⟨e, herror⟩
    · obtain ⟨dep, hdep, hback⟩ := TransGen.head'_iff.mp hcycle
      exact ⟨dep, hdep, dep, .refl, .inl (.tail' hback hdep)⟩
    · cases hload.symm.trans herror
  · exact ⟨dep, hdep, n, hreach, hcause⟩

namespace Closure

open LinkM RegistryM Step Registry

variable {s : Source} {l l' t : Linker} {name : Text}

/-! ### What is registered -/

/-- `r'` has the classes of `r`, and further ones that the source declares and that satisfy `P`. -/
structure Loaded (s : Source) (P : Text → Prop) (r r' : Registry) : Prop where
  names : ∀ {name row}, r.find? name = some row → r'.find? name = some row
  classes : ∀ {row c}, r.classAt? row = some c →
    ∃ c', r'.classAt? row = some c' ∧ c'.name = c.name ∧ c'.supertypes = c.supertypes
  fresh : ∀ {name row}, r'.find? name = some row → r.find? name = none → P name ∧
    ∃ d c, s.load name = .ok d ∧ r'.classAt? row = some c ∧ c.supertypes = supertypes d

namespace Loaded

variable {P Q : Text → Prop} {r r' r'' : Registry}

theorem refl (s : Source) (P : Text → Prop) (r : Registry) : Loaded s P r r where
  names hrow := hrow
  classes hc := ⟨_, hc, rfl, rfl⟩
  fresh hrow hnew := by
    rw [hnew] at hrow
    cases hrow

theorem mono (h : Loaded s P r r') (himp : ∀ n, P n → Q n) : Loaded s Q r r' :=
  ⟨h.names, h.classes, fun hrow hnew => (h.fresh hrow hnew).imp (himp _) id⟩

theorem trans (h : Loaded s P r r') (h' : Loaded s P r' r'') : Loaded s P r r'' where
  names hrow := h'.names (h.names hrow)
  classes hc := by
    obtain ⟨c', hc', hname, hsupertypes⟩ := h.classes hc
    obtain ⟨c'', hc'', hname', hsupertypes'⟩ := h'.classes hc'
    exact ⟨c'', hc'', hname'.trans hname, hsupertypes'.trans hsupertypes⟩
  fresh {name row} hrow hnew := by
    cases hmid : r'.find? name with
    | none => exact h'.fresh hrow hmid
    | some p =>
        cases (h'.names hmid).symm.trans hrow
        obtain ⟨hP, d, c, hload, hc, hsupertypes⟩ := h.fresh hmid hnew
        obtain ⟨c', hc', -, hsupertypes'⟩ := h'.classes hc
        exact ⟨hP, d, c', hload, hc', hsupertypes'.trans hsupertypes⟩

theorem of_created {d : ClassDecl} (hload : s.load d.name = .ok d) (h : Created d.spec r r')
    (hsame : SameSpecs r' r'') : Loaded s (· = d.name) r r'' where
  names {name row} hrow := by
    rw [hsame.find?_eq, h.find?_eq, if_neg]
    · exact hrow
    · rintro rfl
      rw [h.fresh] at hrow
      cases hrow
  classes hc := by
    obtain ⟨children, hother⟩ := h.other hc
    obtain ⟨c', hc', hspec⟩ := hsame.classes hother
    exact ⟨c', hc', congrArg ClassSpec.name hspec, Class.supertypes_eq hspec⟩
  fresh {name row} hrow hnew := by
    rw [hsame.find?_eq, h.find?_eq] at hrow
    split at hrow
    · rename_i hname
      cases hrow
      obtain ⟨children, hthis⟩ := h.this
      obtain ⟨c, hc, hspec⟩ := hsame.classes hthis
      exact ⟨hname, d, c, hname ▸ hload, hc, Class.supertypes_eq hspec⟩
    · rw [hnew] at hrow
      cases hrow

/-- The supertypes that the source declares for a new class are those of the registered class, and they
are registered. -/
theorem step (h : Loaded s P r r') (hr' : r'.Tidy) {n : Text} (hstep : s.NamesMissing r name n)
    (hname : ∃ row, r'.find? name = some row) (hnew : r.find? name = none) :
    r'.NamesSupertype name n ∧ (∃ row, r'.find? n = some row) ∧ r.find? n = none := by
  obtain ⟨row, hrow⟩ := hname
  obtain ⟨d, hload, hdep, hdepNew⟩ := hstep
  obtain ⟨-, d', c, hload', hc, hsupertypes⟩ := h.fresh hrow hnew
  cases hload.symm.trans hload'
  rw [← hsupertypes] at hdep
  obtain ⟨p, hp, -⟩ := hr'.find?_supertype hc hdep
  exact ⟨⟨row, c, hrow, hc, hdep⟩, ⟨p, hp⟩, hdepNew⟩

theorem follow (h : Loaded s P r r') (hr' : r'.Tidy) {n : Text}
    (hreach : ReflTransGen (s.NamesMissing r) name n) (hname : ∃ row, r'.find? name = some row)
    (hnew : r.find? name = none) :
    ReflTransGen r'.NamesSupertype name n ∧ (∃ row, r'.find? n = some row) ∧ r.find? n = none := by
  induction hreach with
  | refl => exact ⟨.refl, hname, hnew⟩
  | tail _ hstep ih =>
      obtain ⟨hreach, hmid, hmidNew⟩ := ih
      obtain ⟨hnames, hrow, hnew⟩ := h.step hr' hstep hmid hmidNew
      exact ⟨hreach.tail hnames, hrow, hnew⟩

/-- A new class that could be registered was not blocked. -/
theorem not_blocked (h : Loaded s P r r') (hr' : r'.Tidy) (hname : ∃ row, r'.find? name = some row)
    (hnew : r.find? name = none) : ¬s.Blocked r name := by
  rintro ⟨n, hreach, hcause⟩
  obtain ⟨-, ⟨row, hrow⟩, hnNew⟩ := h.follow hr' hreach hname hnew
  rcases hcause with hcycle | ⟨e, hload⟩
  · obtain ⟨x, hstep, hback⟩ := TransGen.head'_iff.mp hcycle
    obtain ⟨hnames, hx, hxNew⟩ := h.step hr' hstep ⟨row, hrow⟩ hnNew
    obtain ⟨hback, -, -⟩ := h.follow hr' hback hx hxNew
    exact hr'.not_cyclic (.head' hnames hback)
  · obtain ⟨-, d, c, hload', -⟩ := h.fresh hrow hnNew
    cases hload.symm.trans hload'

end Loaded

/-! ### Loading the supertypes -/

/-- What loading the missing ones of some names does. -/
theorem loop_loaded {load : Text → LinkM Unit} {deps : List Text} {P : Text → Prop}
    (hload : ∀ dep ∈ deps, ∀ {u v : Linker}, u.Orderly → l.registry.Retains u.registry →
      u.registry.find? dep = none → load dep u = .ok () v →
      Proceeds u v ∧ Loaded s P u.registry v.registry)
    (hl : l.Orderly) (hok : (deps.forM fun dep => do
      if (← LinkM.registered? dep).isNone then load dep : LinkM Unit) l = .ok () l') :
    Proceeds l l' ∧ Loaded s P l.registry l'.registry := by
  refine forM_preserves (P := fun u => Proceeds l u ∧ Loaded s P l.registry u.registry)
    (fun dep hdep u v hu hstep => ?_) ⟨.refl hl, .refl s P l.registry⟩ hok
  obtain ⟨hproceeds, hloaded⟩ := hu
  rcases unlessRegistered_ok.mp hstep with ⟨-, rfl⟩ | ⟨hnew, hdone⟩
  · exact ⟨hproceeds, hloaded⟩
  · obtain ⟨hfurther, hmore⟩ := hload dep hdep hproceeds.orderly hproceeds.retains hnew hdone
    exact ⟨hproceeds.trans hfurther, hloaded.trans hmore⟩

/-- What loading the missing supertypes of a class does, when each of them is loaded as below. -/
theorem supertypes_loaded {depth : Nat} {path : List Text} {d : ClassDecl}
    (hdeclared : s.load name = .ok d)
    (hdone : ∀ {dep} {u v : Linker}, u.Orderly → loadTree s depth path dep u = .ok () v →
      Loaded s (fun n => n ∉ path ∧ ReflTransGen (s.NamesMissing u.registry) dep n) u.registry
        v.registry)
    (hl : l.Orderly) (hok : ((supertypes d).forM fun dep => do
      if (← LinkM.registered? dep).isNone then loadTree s depth path dep : LinkM Unit) l =
        .ok () l') :
    Proceeds l l' ∧ (∀ dep ∈ supertypes d, ∃ row, l'.registry.find? dep = some row) ∧
      Loaded s (fun n => n ∉ path ∧ TransGen (s.NamesMissing l.registry) name n) l.registry
        l'.registry := by
  have hload : ∀ dep ∈ supertypes d, ∀ {u v : Linker}, u.Orderly → l.registry.Retains u.registry →
      u.registry.find? dep = none → loadTree s depth path dep u = .ok () v → Proceeds u v ∧
        Loaded s (fun n => n ∉ path ∧ TransGen (s.NamesMissing l.registry) name n) u.registry
          v.registry := by
    intro dep hdep u v hu hretains hnew hrun
    have hproceeds := (loadTree_steady (R := Proceeds) s depth path dep).proceeds hu
    rw [hrun] at hproceeds
    refine ⟨hproceeds, (hdone hu hrun).mono fun n hn => ⟨hn.1, ?_⟩⟩
    have hfirst : s.NamesMissing l.registry name dep :=
      Source.NamesMissing.mono ⟨d, hdeclared, hdep, hnew⟩ hretains
    have hmono : s.NamesMissing u.registry ≤ s.NamesMissing l.registry :=
      fun _ _ hnames => hnames.mono hretains
    exact .head' hfirst (ReflTransGen.mono hmono _ _ hn.2)
  obtain ⟨hproceeds, hloaded⟩ := loop_loaded hload hl hok
  exact ⟨hproceeds, registered_of_loop (fun dep _ hu => loadTree_proceeds s hu) hl hok, hloaded⟩

/-- Loading registers a class and missing supertypes of it, none of which is on the path. -/
theorem loadTree_loaded {depth : Nat} {path : List Text} (hl : l.Orderly)
    (hok : loadTree s depth path name l = .ok () l') :
    Loaded s (fun n => n ∉ path ∧ ReflTransGen (s.NamesMissing l.registry) name n) l.registry
      l'.registry := by
  induction depth generalizing l l' path name with
  | zero => cases hok
  | succ depth ih =>
      unfold loadTree at hok
      dsimp only at hok
      split at hok
      · cases hok
      rename_i hpath
      rw [bind_of_ok (ask_ok.mpr ⟨rfl, rfl⟩)] at hok
      cases hload : s.load name with
      | error e =>
          rw [hload] at hok
          cases hok
      | ok d =>
          rw [hload] at hok
          obtain ⟨_, t, hdeps, hregister⟩ := bind_ok.mp hok
          obtain ⟨hproceeds, hall, hloaded⟩ :=
            supertypes_loaded hload ih (Proceeds.ask hl name).orderly hdeps
          obtain ⟨r, hcreated, hsame⟩ := register_created hproceeds.orderly
            (fun i hi => hall i (List.mem_append_right _ hi)) hregister
          have hname := Source.name_of_load hload
          have hdeps := hloaded.mono (Q := fun n =>
            n ∉ path ∧ ReflTransGen (s.NamesMissing l.registry) name n) fun n hn =>
              ⟨fun hmem => hn.1 (List.mem_cons_of_mem _ hmem), hn.2.to_reflTransGen⟩
          refine hdeps.trans ((Loaded.of_created (hname ▸ hload) hcreated hsame).mono ?_)
          rintro n rfl
          rw [hname]
          exact ⟨fun hmem => hpath (List.contains_iff_mem.mpr hmem), .refl⟩

/-! ### Failures -/

/-- The source cannot load a class that is needed, or the class is a supertype of itself. -/
def LoaderFails (s : Source) (r : Registry) (name : Text) (e : Failure) : Prop :=
  ∃ n cause, e = .error (.loader n cause) ∧ ReflTransGen (s.NamesMissing r) name n ∧
    (s.load n = .error cause ∨
      cause = .plain "cyclic inheritance" ∧ TransGen (s.NamesMissing r) n n)

/-- A class could not be registered after its supertypes. -/
def RegisterFails (s : Source) (r : Registry) (name : Text) (e : Failure) (l' : Linker) : Prop :=
  ∃ d t, s.load name = .ok d ∧ r.Retains t.registry ∧
    (∀ dep ∈ supertypes d, ∃ row, t.registry.find? dep = some row) ∧ register d t = .error e l'

theorem LoaderFails.head {r : Registry} {e : Failure} {dep : Text}
    (h : LoaderFails s r dep e) (hdep : s.NamesMissing r name dep) : LoaderFails s r name e := by
  obtain ⟨n, cause, he, hreach, hcause⟩ := h
  exact ⟨n, cause, he, .head hdep hreach, hcause⟩

theorem unlessRegistered_error {t : Text} {x : LinkM Unit} {e : Failure} :
    (do if (← registered? t).isNone then x : LinkM Unit) l = .error e l' ↔
      l.registry.find? t = none ∧ x l = .error e l' := by
  simp only [bind_error, registered?_ok, and_assoc, ite_error, pure_error, and_false, or_false]
  cases hrow : l.registry.find? t <;> simp [LinkM.registered?]

/-- Why the missing supertypes of a class could not all be loaded, when each of them fails as below. -/
theorem supertypes_refused {depth : Nat} {path : List Text} {d : ClassDecl} {r : Registry}
    {e : Failure} (hdeclared : s.load name = .ok d)
    (hfail : ∀ {dep} {u : Linker}, u.Orderly → r.Retains u.registry → s.NamesMissing r name dep →
      loadTree s depth path dep u = .error e l' → LoaderFails s r dep e ∨
        ∃ n, ReflTransGen (s.NamesMissing r) dep n ∧ RegisterFails s r n e l')
    (hl : l.Orderly) (hretains : r.Retains l.registry)
    (herror : ((supertypes d).forM fun dep => do
      if (← LinkM.registered? dep).isNone then loadTree s depth path dep : LinkM Unit) l =
        .error e l') :
    LoaderFails s r name e ∨ ∃ n, TransGen (s.NamesMissing r) name n ∧ RegisterFails s r n e l' := by
  obtain ⟨done, dep, rest, u, hdeps, hdone, hstep⟩ := forM_error herror
  have hproceeds := (loop_steady (R := Proceeds) (loadTree_steady s depth path) done).proceeds hl
  rw [hdone] at hproceeds
  obtain ⟨hnew, hstep⟩ := unlessRegistered_error.mp hstep
  have hu := hretains.trans hproceeds.retains
  have hnames : s.NamesMissing r name dep :=
    Source.NamesMissing.mono ⟨d, hdeclared, by rw [hdeps]; simp, hnew⟩ hu
  rcases hfail hproceeds.orderly hu hnames hstep with hloader | ⟨n, hreach, hregister⟩
  · exact .inl (hloader.head hnames)
  · exact .inr ⟨n, .head' hnames hreach, hregister⟩

/-- Why a class could not be loaded. Every class on the path has the class as a supertype, and the
names on it are too few for the depth to run out. -/
theorem loadTree_refused {depth : Nat} {path : List Text} {r : Registry} {e : Failure}
    (hl : l.Orderly) (hretains : r.Retains l.registry)
    (hpath : ∀ n ∈ path, TransGen (s.NamesMissing r) n name) (hnodup : path.Nodup)
    (hserved : ∀ n ∈ path, ∃ d, s.load n = .ok d) (hdepth : s.decls.length < depth + path.length)
    (herror : loadTree s depth path name l = .error e l') :
    LoaderFails s r name e ∨
      ∃ n, ReflTransGen (s.NamesMissing r) name n ∧ RegisterFails s r n e l' := by
  induction depth generalizing l path name with
  | zero =>
      have hle := length_le_decls hnodup hserved
      omega
  | succ depth ih =>
      unfold loadTree at herror
      dsimp only at herror
      split at herror
      · rename_i hmem
        cases herror
        have hcycle := hpath name (List.contains_iff_mem.mp hmem)
        exact .inl ⟨name, _, rfl, .refl, .inr ⟨rfl, hcycle⟩⟩
      rename_i hnew
      rw [bind_of_ok (ask_ok.mpr ⟨rfl, rfl⟩)] at herror
      cases hload : s.load name with
      | error cause =>
          rw [hload] at herror
          cases herror
          exact .inl ⟨name, cause, rfl, .refl, .inl hload⟩
      | ok d =>
          rw [hload] at herror
          have hasked := (Proceeds.ask hl name).orderly
          rcases bind_error.mp herror with hdeps | ⟨_, t, hdeps, hregister⟩
          · refine (supertypes_refused hload ?_ hasked hretains hdeps).imp id
              (Exists.imp fun n => And.imp TransGen.to_reflTransGen id)
            intro dep u hu hretains hnames hrun
            refine ih hu hretains ?_ (List.nodup_cons.mpr ⟨?_, hnodup⟩)
              (List.forall_mem_cons.mpr ⟨⟨d, hload⟩, hserved⟩) (by rw [List.length_cons]; omega) hrun
            · exact List.forall_mem_cons.mpr ⟨.single hnames, fun n hn => (hpath n hn).tail hnames⟩
            · exact fun hmem => hnew (List.contains_iff_mem.mpr hmem)
          · obtain ⟨hproceeds, hall, -⟩ := supertypes_loaded hload loadTree_loaded hasked hdeps
            exact .inr ⟨name, .refl, d, t, hload, hretains.trans hproceeds.retains, hall, hregister⟩

/-! ### Termination -/

theorem fills_cut : Fills fun l l' => l'.cut = l.cut where
  refl _ := rfl
  trans h h' := h'.trans h
  arrays _ _ := rfl
  pending _ _ := rfl
  allocSlot _ _ := rfl
  createRef _ _ _ _ := rfl
  createMethod _ _ _ := rfl
  createField _ _ _ := rfl
  modifyMethod _ _ _ _ _ _ := rfl

theorem register_cut (d : ClassDecl) : Along (fun l l' => l'.cut = l.cut) (register d) := by
  have hcreate : Along (fun l l' => l'.cut = l.cut) (do
      let row ← onRegistry (Registry.createClass d.spec)
      discard (onRegistry (Registry.keepClass row))
      d.pool.forM (registerSlot d row)
      d.fields.forM (registerField row)
      d.methods.forM (registerMethod d row)
      let c ← onRegistry (RegistryM.classAt row)
      if (c.declared? Signature.initializer).isSome then push (c.member Signature.initializer)) := by
    refine fills_cut.bind (Fills.onRegistry fun _ => rfl) fun row => ?_
    exact fills_cut.bind (Fills.discard (Fills.onRegistry fun _ => rfl)) fun _ => fills_cut.fill d row
  refine fills_cut.bind fills_cut.get fun u => ?_
  dsimp only
  split
  · exact fills_cut.bind (fills_cut.fail _) fun _ => hcreate
  · exact hcreate

/-- The depth does not run out. -/
theorem loadTree_cut {depth : Nat} {path : List Text} (hnodup : path.Nodup)
    (hserved : ∀ n ∈ path, ∃ d, s.load n = .ok d) (hdepth : s.decls.length < depth + path.length) :
    Along (fun l l' => l'.cut = l.cut) (loadTree s depth path name) := by
  induction depth generalizing path name with
  | zero =>
      have hle := length_le_decls hnodup hserved
      omega
  | succ depth ih =>
      refine ⟨fun l => ?_⟩
      unfold loadTree
      dsimp only
      split
      · rfl
      rename_i hnew
      rw [bind_of_ok (ask_ok.mpr ⟨rfl, rfl⟩)]
      cases hload : s.load name with
      | error cause => rfl
      | ok d =>
          have hdep : ∀ dep, Along (fun l l' => l'.cut = l.cut)
              (loadTree s depth (name :: path) dep) := fun dep =>
            ih (List.nodup_cons.mpr ⟨fun hmem => hnew (List.contains_iff_mem.mpr hmem), hnodup⟩)
              (List.forall_mem_cons.mpr ⟨⟨d, hload⟩, hserved⟩) (by rw [List.length_cons]; omega)
          have hdeps : Along (fun l l' => l'.cut = l.cut) (do
              (supertypes d).forM fun dep => do
                if (← registered? dep).isNone then loadTree s depth (name :: path) dep
              register d) := by
            refine fills_cut.bind (fills_cut.forM fun dep _ => ?_) fun _ => register_cut d
            refine fills_cut.bind ⟨fun _ => rfl⟩ fun row => ?_
            split
            · exact hdep dep
            · exact fills_cut.pure _
          exact hdeps.along { l with asked := name :: l.asked }

/-! ### The classes that are added -/

/-- The names `added` are those of a class and the supertypes of it that were missing: each of them
once, and after the supertypes it names. -/
structure AddsSupertypes (s : Source) (name : Text) (r r' : Registry) (added : List Text) : Prop where
  names_eq : r'.classNames = r.classNames ++ added
  /-- The classes that were there have the supertypes they had. -/
  old_iff : ∀ {n row}, r.find? n = some row → ∀ dep, r'.NamesSupertype n dep ↔ r.NamesSupertype n dep
  nodup : added.Nodup
  mem_iff : ∀ n, n ∈ added ↔ r.find? n = none ∧ ReflTransGen r'.NamesSupertype name n
  /-- The supertypes of a new class are those that the source declares. -/
  declared : ∀ n ∈ added, ∃ d, s.load n = .ok d ∧ ∀ dep, r'.NamesSupertype n dep ↔ dep ∈ supertypes d
  ordered : ∀ before n after, added = before ++ n :: after →
    ∀ dep, r'.NamesSupertype n dep → (∃ row, r.find? dep = some row) ∨ dep ∈ before

namespace Loaded

variable {P : Text → Prop} {r r' : Registry}

/-- The old rows hold the old names. -/
theorem find?_lt (h : Loaded s P r r') (hr : r.Tidy) (hr' : r'.Tidy) {row : Nat}
    (hrow : r'.find? name = some row) (hlt : row < r.rows.size) : r.find? name = some row := by
  obtain ⟨c, hc⟩ := exists_classAt? hlt
  obtain ⟨c', hc', hname, -⟩ := h.classes hc
  obtain ⟨c'', hc'', rfl⟩ := hr'.exists_class hrow
  cases hc'.symm.trans hc''
  rw [hname]
  exact hr.find_self hc

theorem find?_iff (h : Loaded s P r r') (hr : r.Tidy) (hr' : r'.Tidy) {row : Nat}
    (hlt : row < r.rows.size) : r'.find? name = some row ↔ r.find? name = some row :=
  ⟨fun hrow => h.find?_lt hr hr' hrow hlt, h.names⟩

theorem names_eq (h : Loaded s P r r') (hr : r.Tidy) (hr' : r'.Tidy) :
    r'.classNames = r.classNames ++ r'.classNames.drop r.rows.size := by
  have htake : r'.classNames.take r.rows.size = r.classNames := by
    refine List.ext_getElem? fun i => ?_
    rw [List.getElem?_take]
    split
    · rename_i hlt
      ext n
      rw [hr'.getElem?_classNames, hr.getElem?_classNames, h.find?_iff hr hr' hlt]
    · rename_i hge
      rw [List.getElem?_eq_none]
      rw [hr.classNames_eq, List.length_map, Array.length_toList]
      exact Nat.le_of_not_lt hge
  conv => lhs; rw [← List.take_append_drop r.rows.size r'.classNames, htake]

theorem fresh_iff (h : Loaded s P r r') (hr : r.Tidy) (hr' : r'.Tidy) :
    name ∈ r'.classNames.drop r.rows.size ↔ r.find? name = none ∧ ∃ row, r'.find? name = some row := by
  rw [hr'.mem_drop_classNames]
  constructor
  · rintro ⟨i, hi⟩
    refine ⟨Option.eq_none_iff_forall_ne_some.mpr fun row hrow => ?_, _, hi⟩
    cases (h.names hrow).symm.trans hi
    have hlt := classAt?_lt (hr.exists_class hrow).choose_spec.1
    omega
  · rintro ⟨hnew, row, hrow⟩
    have hge : r.rows.size ≤ row := by
      by_contra hlt
      rw [h.find?_lt hr hr' hrow (Nat.lt_of_not_le hlt)] at hnew
      cases hnew
    exact ⟨row - r.rows.size, by rw [Nat.add_sub_cancel' hge]; exact hrow⟩

/-- The names of the new classes, in the order in which they were registered. -/
theorem adds (h : Loaded s P r r') (hr : r.Tidy) (hr' : r'.Tidy)
    (hname : ∃ row, r'.find? name = some row)
    (hP : ∀ n, P n → r.find? name = none ∧ ReflTransGen (s.NamesMissing r) name n) :
    AddsSupertypes s name r r' (r'.classNames.drop r.rows.size) where
  names_eq := h.names_eq hr hr'
  old_iff {n row} hrow dep := by
    obtain ⟨c, hc, -⟩ := hr.exists_class hrow
    obtain ⟨c', hc', -, hsupertypes⟩ := h.classes hc
    rw [namesSupertype_iff hrow hc, namesSupertype_iff (h.names hrow) hc', hsupertypes]
  nodup := by
    rw [hr'.classNames_eq]
    exact hr'.names_nodup.sublist (List.drop_sublist _ _)
  mem_iff n := by
    rw [h.fresh_iff hr hr']
    constructor
    · rintro ⟨hnew, row, hrow⟩
      obtain ⟨hnameNew, hreach⟩ := hP n (h.fresh hrow hnew).1
      exact ⟨hnew, (h.follow hr' hreach hname hnameNew).1⟩
    · rintro ⟨hnew, hreach⟩
      exact ⟨hnew, hr'.exists_supertype hreach hname⟩
  declared n hn := by
    obtain ⟨hnew, row, hrow⟩ := (h.fresh_iff hr hr').mp hn
    obtain ⟨-, d, c, hload, hc, hsupertypes⟩ := h.fresh hrow hnew
    exact ⟨d, hload, fun dep => by rw [namesSupertype_iff hrow hc, hsupertypes]⟩
  ordered before n after hsplit dep hdep := by
    obtain ⟨row, p, hrow, hp, hlt⟩ := hr'.row_lt hdep
    have hn : r'.find? n = some (r.rows.size + before.length) := by
      rw [← hr'.getElem?_classNames, ← List.getElem?_drop, hsplit]
      simp
    cases hrow.symm.trans hn
    rcases Nat.lt_or_ge p r.rows.size with hold | hnew
    · exact .inl ⟨p, h.find?_lt hr hr' hp hold⟩
    · obtain ⟨i, rfl⟩ := Nat.exists_eq_add_of_le hnew
      rw [← hr'.getElem?_classNames, ← List.getElem?_drop, hsplit,
        List.getElem?_append_left (by omega)] at hp
      exact .inr (List.mem_of_getElem? hp)

end Loaded

/-! ### Loading a class -/

theorem loadFrom_of_registered {fuel row : Nat} (hrow : l.registry.find? name = some row) :
    loadFrom s (fuel + 1) name l = .ok row l := by
  unfold loadFrom
  rw [bind_of_ok (registered?_ok.mpr ⟨hrow, rfl⟩)]
  rfl

theorem loadClass_of_registered {row : Nat} (hrow : l.registry.find? name = some row) :
    loadClass s name l = .ok row l := loadFrom_of_registered hrow

theorem loadClass_of_missing (hname : name.head? ≠ some (Text.byte '['))
    (hnew : l.registry.find? name = none) : loadClass s name l = (do
      loadTree s (s.decls.length + 1) [] name
      match ← registered? name with
      | some row => return row
      | none => throw .fault : LinkM Nat) l := by
  unfold loadClass loadFrom
  rw [bind_of_ok (registered?_ok.mpr ⟨hnew, rfl⟩)]
  dsimp only
  split
  · contradiction
  · rfl

theorem loadClass_cut (hname : name.head? ≠ some (Text.byte '[')) :
    (final (loadClass s name l)).cut = l.cut := by
  cases hrow : l.registry.find? name with
  | some row => rw [loadClass_of_registered hrow, final_ok]
  | none =>
      have htree : Along (fun l l' => l'.cut = l.cut) (loadTree s (s.decls.length + 1) [] name) :=
        loadTree_cut List.nodup_nil nofun (Nat.lt_succ_self _)
      rw [loadClass_of_missing hname hrow]
      refine (fills_cut.bind htree fun _ => fills_cut.bind ⟨fun _ => rfl⟩ fun row => ?_).along l
      cases row with
      | some row => exact fills_cut.pure _
      | none => exact fills_cut.fault

/-- Loading a class registers it, and missing supertypes of it. -/
theorem loadClass_loaded (hl : l.Orderly) (hname : name.head? ≠ some (Text.byte '[')) {row : Nat}
    (hok : loadClass s name l = .ok row l') : l'.registry.find? name = some row ∧
      Loaded s (fun n => l.registry.find? name = none ∧
        ReflTransGen (s.NamesMissing l.registry) name n) l.registry l'.registry := by
  cases hrow : l.registry.find? name with
  | some p =>
      rw [loadClass_of_registered hrow] at hok
      cases hok
      exact ⟨hrow, .refl ..⟩
  | none =>
      rw [loadClass_of_missing hname hrow] at hok
      obtain ⟨_, t, htree, hok⟩ := bind_ok.mp hok
      obtain ⟨found, u, hlookup, hok⟩ := bind_ok.mp hok
      obtain ⟨hfound, rfl⟩ := registered?_ok.mp hlookup
      cases found with
      | none => cases hok
      | some p =>
          cases hok
          exact ⟨hfound, (loadTree_loaded hl htree).mono fun n hn => ⟨rfl, hn.2⟩⟩

theorem loadClass_adds (hl : l.Orderly) (hname : name.head? ≠ some (Text.byte '[')) {row : Nat}
    (hok : loadClass s name l = .ok row l') : l'.registry.find? name = some row ∧
      ∃ added, AddsSupertypes s name l.registry l'.registry added := by
  obtain ⟨hrow, hloaded⟩ := loadClass_loaded hl hname hok
  have hproceeds := (loadClass_steady (R := Proceeds) s name).proceeds hl
  rw [hok] at hproceeds
  exact ⟨hrow, _, hloaded.adds hl.tidy hproceeds.orderly.tidy ⟨row, hrow⟩ fun n hn => hn⟩

/-- A class that is blocked is not loaded: the loader fails, unless registering a supertype failed
before. -/
theorem loadClass_blocked (hl : l.Orderly) (hname : name.head? ≠ some (Text.byte '['))
    (hnew : l.registry.find? name = none) (hblocked : s.Blocked l.registry name) :
    ∃ e l', loadClass s name l = .error e l' ∧ (LoaderFails s l.registry name e ∨
      ∃ n, TransGen (s.NamesMissing l.registry) name n ∧ RegisterFails s l.registry n e l') := by
  rw [loadClass_of_missing hname hnew]
  suffices hfail : ∃ e l', loadTree s (s.decls.length + 1) [] name l = .error e l' ∧
      (LoaderFails s l.registry name e ∨
        ∃ n, TransGen (s.NamesMissing l.registry) name n ∧ RegisterFails s l.registry n e l') by
    obtain ⟨e, l', herror, hcause⟩ := hfail
    exact ⟨e, l', bind_of_error herror, hcause⟩
  have hasked := Proceeds.ask hl name
  unfold loadTree
  rw [if_neg (by simp)]
  dsimp only
  rw [bind_of_ok (ask_ok.mpr ⟨rfl, rfl⟩)]
  cases hload : s.load name with
  | error cause => exact ⟨_, _, rfl, .inl ⟨name, cause, rfl, .refl, .inl hload⟩⟩
  | ok d =>
      dsimp only
      cases hdeps : ((supertypes d).forM fun dep => do
          if (← registered? dep).isNone then loadTree s s.decls.length [name] dep : LinkM Unit)
            { l with asked := name :: l.asked } with
      | error e l' =>
          refine ⟨e, l', bind_of_error hdeps, supertypes_refused hload ?_ hasked.orderly
            hasked.retains hdeps⟩
          intro dep u hu hretains hnames hrun
          exact loadTree_refused hu hretains (List.forall_mem_singleton.mpr (.single hnames))
            (List.nodup_singleton name) (List.forall_mem_singleton.mpr ⟨d, hload⟩)
            (Nat.lt_succ_self _) hrun
      | ok u t =>
          -- All supertypes were registered, so none of them was blocked.
          obtain ⟨hproceeds, hall, hloaded⟩ :=
            supertypes_loaded hload loadTree_loaded hasked.orderly hdeps
          obtain ⟨dep, ⟨d', hload', hdep, hdepNew⟩, hblockedDep⟩ := hblocked.supertype hload
          cases hload.symm.trans hload'
          exact absurd hblockedDep
            (hloaded.not_blocked hproceeds.orderly.tidy (hall dep hdep) hdepNew)

/-- Whatever was asked of a link before, loading a class that is no array class comes to an end. Where
it succeeds, it adds the class and those of its supertypes that were missing, and only these, each once
and after its own supertypes. It never succeeds when one of them cannot be loaded or is a supertype of
itself; the loader then fails, unless registering one of the supertypes failed before. -/
theorem loadClass_supertypes (s : Source) (root name : Text)
    (hname : name.head? ≠ some (Text.byte '[')) (requests : List Request) :
    let l := requests.foldl (Request.apply s) { root := root }
    (final (loadClass s name l)).cut = l.cut ∧
      (∀ row l', loadClass s name l = .ok row l' → l'.registry.find? name = some row ∧
        ∃ added, AddsSupertypes s name l.registry l'.registry added) ∧
      (l.registry.find? name = none → s.Blocked l.registry name →
        ∃ e l', loadClass s name l = .error e l' ∧ (LoaderFails s l.registry name e ∨
          ∃ n, TransGen (s.NamesMissing l.registry) name n ∧ RegisterFails s l.registry n e l')) := by
  have hempty : Linker.Orderly { root := root } := orderly_empty
  have hl := (Request.foldl_proceeds s requests hempty).orderly
  exact ⟨loadClass_cut hname, fun row l' hok => loadClass_adds hl hname hok,
    fun hnew hblocked => loadClass_blocked hl hname hnew hblocked⟩

/-- Classes that share supertypes, and two that extend each other. -/
def tangledSource : Source := .ofDecls [
  .bareRoot,
  .simple true "I" RuntimeSeeds.defaultRoot [] [] [],
  .simple true "J" RuntimeSeeds.defaultRoot ["I"] [] [],
  .simple false "A" RuntimeSeeds.defaultRoot ["I"] [] [],
  .simple false "B" "A" ["J", "I", "J"] [] [],
  .simple false "X" "Y" [] [] [],
  .simple false "Y" "X" [] [] [],
  .simple false "Z" "A" ["J", "X"] [] []]

/-- Of the supertypes of one class only one is missing; those of another are a supertype of
themselves. -/
theorem loadClass_supertypes_tangled :
    let l := [Request.load "A"].foldl (Request.apply tangledSource)
      { root := RuntimeSeeds.defaultRoot }
    (∃ row l', loadClass tangledSource "B" l = .ok row l' ∧
      AddsSupertypes tangledSource "B" l.registry l'.registry ["J", "B"]) ∧
    ∃ e l', loadClass tangledSource "Z" l = .error e l' ∧
      (LoaderFails tangledSource l.registry "Z" e ∨
        ∃ n, TransGen (tangledSource.NamesMissing l.registry) "Z" n ∧
          RegisterFails tangledSource l.registry n e l') := by
  intro l
  obtain ⟨-, hadds, -⟩ := loadClass_supertypes tangledSource RuntimeSeeds.defaultRoot "B"
    (by decide) [.load "A"]
  obtain ⟨-, -, hblocked⟩ := loadClass_supertypes tangledSource RuntimeSeeds.defaultRoot "Z"
    (by decide) [.load "A"]
  have hzx : tangledSource.NamesMissing l.registry "Z" "X" := by decide +kernel
  have hxy : tangledSource.NamesMissing l.registry "X" "Y" := by decide +kernel
  have hyx : tangledSource.NamesMissing l.registry "Y" "X" := by decide +kernel
  have hcheck : Step.yields (loadClass tangledSource "B" l) (fun _ l' =>
      l'.registry.classNames = l.registry.classNames ++ (["J", "B"] : List Text)) = true := by
    decide +kernel
  obtain ⟨row, l', hok, hcheck⟩ := Step.exists_of_yields hcheck
  obtain ⟨-, added, hadded⟩ := hadds row l' hok
  have hnames := hadded.names_eq.symm.trans (of_decide_eq_true hcheck)
  rw [List.append_cancel_left hnames] at hadded
  exact ⟨⟨row, l', hok, hadded⟩,
    hblocked (by decide +kernel) ⟨"X", .single hzx, .inl (.tail (.single hxy) hyx)⟩⟩

end Closure

end ClassLinker
