import ClassLinker.Closure.Overrides
import ClassLinker.Proofs.Closure.Along
import ClassLinker.Proofs.Closure.Orderly
import ClassLinker.Proofs.Closure.Require
import ClassLinker.Proofs.Registry.Ancestry

/-! What the steps of a link do, whether or not they succeed. They change a link in a few ways: a class
is created and filled, an array class is made, something is kept, and aside from the registry the
source is asked and members become pending. Whatever relation between links each of these establishes
holds between the link before any step and the link after it. One such relation is that the link stays
in order. A class that fails half way of its registration stays registered, with what was registered of
it; that is why a class is registered only when its supertypes are. -/

namespace ClassLinker

/-- The registry of a link is in order, and one expansion was counted for each kept method. -/
def Linker.Orderly (l : Linker) : Prop := l.registry.Orderly l.expansions

/-- What an array class in a row is registered with: it extends the root, and its name says of what its
elements are. If they are objects, their class stands before it. -/
structure ClassSpec.IsArray (root : Text) (r : Registry) (row : Nat) (spec : ClassSpec) : Prop where
  bracket : spec.name.head? = some (Text.byte '[')
  super_eq : spec.super = root
  shape :
    (∃ p : Primitive, spec.kind = .primitiveArray ∧ spec.name = Primitive.arrayName p.code ∧
      spec.elementType = p.code) ∨
    spec.kind = .objectArray ∧ elementName? spec.name = some spec.element ∧
      ∃ p, r.find? spec.element = some p ∧ p < row

/-- The class with this name was registered after all others. -/
def Linker.Latest (l : Linker) (name : Text) : Prop :=
  ∃ row, l.registry.find? name = some row ∧ l.registry.rows.size = row + 1

namespace Closure

open LinkM RegistryM Step Registry

variable {α β : Type} {l l' l'' : Linker}

/-- `l'` is in order and has what was registered and kept in `l`; it has asked the source for all that
`l` has, and what was given up stays given up. -/
structure Proceeds (l l' : Linker) : Prop where
  orderly : l'.Orderly
  retains : l.registry.Retains l'.registry
  asked : l.asked ⊆ l'.asked
  cut : l.cut = true → l'.cut = true

theorem Proceeds.refl (hl : l.Orderly) : Proceeds l l :=
  ⟨hl, .refl _, List.Subset.refl _, id⟩

theorem Proceeds.trans (h : Proceeds l l') (h' : Proceeds l' l'') : Proceeds l l'' :=
  ⟨h'.orderly, h.retains.trans h'.retains, List.Subset.trans h.asked h'.asked, h'.cut ∘ h.cut⟩

/-- A change of the registry and the counter. -/
theorem Proceeds.of_registry {r : Registry} {expansions : Nat} (horder : r.Orderly expansions)
    (hretains : l.registry.Retains r) :
    Proceeds l { l with registry := r, expansions := expansions } :=
  ⟨horder, hretains, List.Subset.refl _, id⟩

theorem Proceeds.of_keepsOrder {x : RegistryM α} (hl : l.Orderly) (h : KeepsOrder x) :
    Proceeds l { l with registry := final (x l.registry) } := by
  obtain ⟨horderly, hretains⟩ := h hl
  exact .of_registry horderly hretains

/-- A change of what is pending and kept of the catalog, which the order does not depend on. -/
theorem Proceeds.of_same (hl : l.Orderly) (hregistry : l'.registry = l.registry)
    (hexpansions : l'.expansions = l.expansions) (hasked : l.asked ⊆ l'.asked)
    (hcut : l.cut = true → l'.cut = true) : Proceeds l l' := by
  refine ⟨?_, ?_, hasked, hcut⟩
  · rw [Linker.Orderly, hregistry, hexpansions]
    exact hl
  · rw [hregistry]
    exact .refl _

theorem Proceeds.ask (hl : l.Orderly) (name : Text) :
    Proceeds l { l with asked := name :: l.asked } :=
  .of_same hl rfl rfl (List.subset_cons_self _ _) id

/-! ### What steps establish -/

/-- Nothing that is registered or counted changes; what was asked and given up before still is. -/
structure Aside (l l' : Linker) : Prop where
  registry_eq : l'.registry = l.registry
  root_eq : l'.root = l.root
  arrayRefs_eq : l'.arrayRefs = l.arrayRefs
  expansions_eq : l'.expansions = l.expansions
  asked : l.asked ⊆ l'.asked
  cut : l.cut = true → l'.cut = true

theorem Aside.refl (l : Linker) : Aside l l := ⟨rfl, rfl, rfl, rfl, List.Subset.refl _, id⟩

theorem Aside.ask (l : Linker) (name : Text) : Aside l { l with asked := name :: l.asked } :=
  ⟨rfl, rfl, rfl, rfl, List.subset_cons_self _ _, id⟩

/-- A relation between a link in order and what becomes of it that holds along sequences of steps. -/
class Lasting (R : Linker → Linker → Prop) : Prop where
  proceeds : ∀ {l l'}, R l l' → Proceeds l l'
  trans : ∀ {l l' l''}, R l l' → R l' l'' → R l l''
  aside : ∀ {l l'}, l.Orderly → Aside l l' → R l l'

/-- What filling a class makes of a link, as far as relations can tell. -/
def Filled (l l' : Linker) : Prop := ∀ {R : Linker → Linker → Prop}, Fills R → R l l'

/-- A relation that every change of the registry of a link establishes whose classes are declared by a
source. -/
class Invariant (s : Source) (R : Linker → Linker → Prop) [Lasting R] : Prop where
  declare : ∀ {l l' r d}, l.Orderly → s.load d.name = .ok d → (d.super = [] → d.name = l.root) →
    Created d.spec l.registry r → Filled { l with registry := r } l' → R l l'
  make : ∀ {l r spec}, l.Orderly → spec.IsArray l.root l.registry l.registry.rows.size →
    Created spec l.registry r → R l { l with registry := r }
  keepRef : ∀ {l} a, l.Orderly → R l { l with registry := final (Registry.keepRef a l.registry) }
  keepMember : ∀ {l row sig c d fresh r}, l.Orderly → l.registry.classAt? row = some c →
    c.declared? sig = some d → Registry.keepMember row sig l.registry = .ok fresh r →
    R l { l with registry := r
                 expansions := l.expansions + if fresh then d.weight (fun _ => 1) else 0 }

variable {R : Linker → Linker → Prop} [Lasting R]

theorem Lasting.orderly (h : R l l') : l'.Orderly := (Lasting.proceeds h).orderly

theorem Lasting.refl (hl : l.Orderly) : R l l := Lasting.aside hl (.refl l)

theorem Lasting.bind {x : LinkM α} {f : α → LinkM β} (hx : R l (final (x l)))
    (hf : ∀ {a t}, x l = .ok a t → R l t → R t (final (f a t))) : R l (final ((x >>= f) l)) := by
  refine final_bind hx fun {a t} ht => ?_
  rw [ht] at hx
  exact Lasting.trans hx (hf ht hx)

/-- What a step leaves goes on to what the steps after it leave. -/
theorem Proceeds.of_bind {x : LinkM α} {f : α → LinkM β} (hx : Proceeds l (final (x l)))
    (hf : ∀ {a t}, x l = .ok a t → Proceeds t (final (f a t))) :
    Proceeds (final (x l)) (final ((x >>= f) l)) := by
  cases hrun : x l with
  | ok a t =>
      rw [bind_of_ok hrun]
      exact hf hrun
  | error e t =>
      rw [hrun] at hx
      rw [bind_of_error hrun]
      exact .refl hx.orderly

/-- What a step makes of a link is related to it, and where the step succeeds, `Q` holds. -/
structure Ends (R : Linker → Linker → Prop) (x : LinkM α) (l : Linker) (Q : α → Linker → Prop) :
    Prop where
  related : R l (final (x l))
  success : ∀ {a l'}, x l = .ok a l' → Q a l'

namespace Ends

variable {x : LinkM α} {P : α → Linker → Prop} {Q : β → Linker → Prop}

omit [Lasting R] in
theorem ok (h : Ends R x l P) {a : α} (hok : x l = .ok a l') : R l l' := by
  have hrelated := h.related
  rwa [hok] at hrelated

theorem bind {f : α → LinkM β} (hx : Ends R x l P)
    (hf : ∀ {a t}, P a t → R l t → Ends R (f a) t Q) : Ends R (x >>= f) l Q where
  related := Lasting.bind hx.related fun hrun hstep => (hf (hx.success hrun) hstep).related
  success hok := by
    obtain ⟨a, t, hrun, hok⟩ := bind_ok.mp hok
    exact (hf (hx.success hrun) (hx.ok hrun)).success hok

omit [Lasting R] in
theorem discard (h : Ends R x l P) : Ends R (Functor.discard x) l fun _ l' => ∃ a, P a l' := by
  refine ⟨?_, fun hok => ?_⟩
  · rw [final_discard]
    exact h.related
  · obtain ⟨a, hrun⟩ := discard_ok.mp hok
    exact ⟨a, h.success hrun⟩

theorem forM_append {γ : Type} {f : γ → LinkM PUnit} {xs ys : List γ} {P Q : PUnit → Linker → Prop}
    (hx : Ends R (xs.forM f) l P) (hy : ∀ {a t}, P a t → R l t → Ends R (ys.forM f) t Q) :
    Ends R ((xs ++ ys).forM f) l Q := by
  have happ : (xs ++ ys).forM f = do { xs.forM f; ys.forM f } := List.forM_append
  rw [happ]
  exact hx.bind hy

omit [Lasting R] in
/-- A step that succeeds without a change. -/
theorem read {f : α → LinkM β} {a : α} (hrun : x l = .ok a l) (h : Ends R (f a) l Q) :
    Ends R (x >>= f) l Q := by
  refine ⟨?_, fun hok => ?_⟩
  · rw [bind_of_ok hrun]
    exact h.related
  · rw [bind_of_ok hrun] at hok
    exact h.success hok

theorem pure {a : α} (hl : l.Orderly) (ha : P a l) : Ends R (Pure.pure a) l P := by
  refine ⟨Lasting.refl hl, fun hok => ?_⟩
  cases hok
  exact ha

theorem fail (e : Error) (hl : l.Orderly) : Ends R (LinkM.fail e : LinkM α) l P :=
  ⟨Lasting.refl hl, fun hok => by cases hok⟩

end Ends

/-- A step that establishes a relation when it is taken from a link in order. -/
structure Steady (R : Linker → Linker → Prop) (x : LinkM α) : Prop where
  proceeds : ∀ {l : Linker}, l.Orderly → R l (final (x l))

namespace Steady

theorem of_aside {x : LinkM α} (h : ∀ l, Aside l (final (x l))) : Steady R x :=
  ⟨fun hl => Lasting.aside hl (h _)⟩

theorem pure (a : α) : Steady R (Pure.pure a : LinkM α) := of_aside .refl

theorem fault : Steady R (throw .fault : LinkM α) := of_aside .refl

theorem giveUp : Steady R (LinkM.giveUp : LinkM α) :=
  of_aside fun _ => ⟨rfl, rfl, rfl, rfl, List.Subset.refl _, fun _ => rfl⟩

theorem fail (e : Error) : Steady R (LinkM.fail e : LinkM α) := of_aside .refl

theorem get : Steady R (MonadState.get : LinkM Linker) := of_aside .refl

theorem registered? (name : Text) : Steady R (LinkM.registered? name) := of_aside .refl

theorem push (m : Member) : Steady R (LinkM.push m) :=
  of_aside fun _ => ⟨rfl, rfl, rfl, rfl, List.Subset.refl _, id⟩

theorem bind {x : LinkM α} {f : α → LinkM β} (hx : Steady R x) (hf : ∀ a, Steady R (f a)) :
    Steady R (x >>= f) :=
  ⟨fun hl => Lasting.bind (hx.proceeds hl) fun _ ht => (hf _).proceeds (Lasting.orderly ht)⟩

omit [Lasting R] in
theorem discard {x : LinkM α} (h : Steady R x) : Steady R (discard x) := by
  refine ⟨fun {l} hl => ?_⟩
  rw [final_discard]
  exact h.proceeds hl

omit [Lasting R] in
theorem mapError {f : Error → Error} {x : LinkM α} (h : Steady R x) :
    Steady R (LinkM.mapError f x) := by
  refine ⟨fun {l} hl => ?_⟩
  rw [final_mapError]
  exact h.proceeds hl

theorem forM {f : α → LinkM PUnit} {xs : List α} (h : ∀ x ∈ xs, Steady R (f x)) :
    Steady R (xs.forM f) := by
  refine ⟨fun {l} hl => ?_⟩
  refine final_forM (P := R l) (fun x hx l' hl' => ?_) (Lasting.refl hl)
  exact Lasting.trans hl' ((h x hx).proceeds (Lasting.orderly hl'))

theorem foldlM {f : β → α → LinkM β} {xs : List α} {b : β} (h : ∀ b, ∀ x ∈ xs, Steady R (f b x)) :
    Steady R (xs.foldlM f b) := by
  induction xs generalizing b with
  | nil => exact pure b
  | cons x xs ih =>
      rw [List.foldlM_cons]
      refine (h b x List.mem_cons_self).bind fun b' => ?_
      exact ih fun b y hy => h b y (List.mem_cons_of_mem _ hy)

omit [Lasting R] in
theorem onRegistry {x : RegistryM α}
    (h : ∀ {l : Linker}, l.Orderly → R l { l with registry := final (x l.registry) }) :
    Steady R (LinkM.onRegistry x) := by
  refine ⟨fun {l} hl => ?_⟩
  rw [final_onRegistry]
  exact h hl

theorem readClass (row : Nat) : Steady R (LinkM.onRegistry (RegistryM.classAt row)) := by
  refine onRegistry fun hl => ?_
  rw [final_classAt]
  exact Lasting.refl hl

theorem readRef (a : RefAddr) : Steady R (LinkM.onRegistry (RegistryM.refAt a)) := by
  refine onRegistry fun hl => ?_
  rw [final_refAt]
  exact Lasting.refl hl

theorem keepRef (s : Source) [Invariant s R] (a : RefAddr) :
    Steady R (LinkM.onRegistry (Registry.keepRef a)) :=
  onRegistry fun hl => Invariant.keepRef s a hl

end Steady

/-! ### Registering -/

/-- Filling a class leaves the classes what they were registered as. -/
theorem fills_sameSpecs : Fills fun l l' => l'.root = l.root ∧ SameSpecs l.registry l'.registry where
  refl l := ⟨rfl, .refl l.registry⟩
  trans h h' := ⟨h'.1.trans h.1, h.2.trans h'.2⟩
  arrays l _ := ⟨rfl, .refl l.registry⟩
  pending l _ := ⟨rfl, .refl l.registry⟩
  allocSlot l row := by
    have hchanges := Operation.apply_changesAt l.registry
      (show (Operation.allocSlot row).row? = some row from rfl)
    rw [Operation.apply, Operation.run, final_discard] at hchanges
    exact ⟨rfl, .of_changesAt hchanges⟩
  createRef l row slot body :=
    ⟨rfl, .of_changesAt (Operation.changesAt_createRef l.registry row slot body)⟩
  createMethod l row spec :=
    ⟨rfl, .of_changesAt (Operation.apply_changesAt l.registry
      (show (Operation.createMethod row spec).row? = some row from rfl))⟩
  createField l row spec :=
    ⟨rfl, .of_changesAt (Operation.apply_changesAt l.registry
      (show (Operation.createField row spec).row? = some row from rfl))⟩
  modifyMethod l row sig f _ _ :=
    ⟨rfl, .of_changesAt (Operation.changesAt_modifyMethod l.registry row sig f)⟩

/-- Filling a class leaves the link in order. -/
theorem fills_proceeds : Fills fun l l' => l.Orderly → Proceeds l l' where
  refl _ hl := .refl hl
  trans h h' hl := (h hl).trans (h' (h hl).orderly)
  arrays _ _ hl := .of_same hl rfl rfl (List.Subset.refl _) id
  pending _ _ hl := .of_same hl rfl rfl (List.Subset.refl _) id
  allocSlot l row hl := .of_keepsOrder hl (allocSlot_keepsOrder row)
  createRef l row slot body hl := .of_keepsOrder hl (createRef_keepsOrder row slot body)
  createMethod l row spec hl := .of_keepsOrder hl (createMethod_keepsOrder row spec)
  createField l row spec hl := .of_keepsOrder hl (createField_keepsOrder row spec)
  modifyMethod l row sig f hsig hkept hl := by
    obtain ⟨horderly, hretains⟩ := Registry.Orderly.modifyMethod hl row sig hsig hkept
    exact .of_registry horderly hretains

/-- A class whose interfaces are registered is registered and kept at once, or nothing changes. -/
theorem createKept_cases (spec : ClassSpec) (hl : l.Orderly)
    (hinterfaces : ∀ i ∈ spec.interfaces, ∃ p, l.registry.find? i = some p) :
    (∃ e, onRegistry (createClass spec) l = .error e l) ∨
      ∃ row l₁ r, onRegistry (createClass spec) l = .ok row l₁ ∧
        discard (onRegistry (keepClass row)) l₁ = .ok () { l with registry := r } ∧
        Created spec l.registry r := by
  rcases createClass_cases spec hl.tidy hinterfaces with ⟨e, hcreate⟩ | ⟨r₁, r₂, hcreate, hkeep, hcreated⟩
  · refine .inl ⟨e, ?_⟩
    unfold onRegistry
    rw [hcreate]
  · exact .inr ⟨_, { l with registry := r₁ }, r₂, onRegistry_ok.mpr ⟨r₁, hcreate, rfl⟩,
      discard_ok.mpr ⟨true, onRegistry_ok.mpr ⟨r₂, hkeep, rfl⟩⟩, hcreated⟩

theorem Proceeds.of_created {spec : ClassSpec} {r : Registry} (hl : l.Orderly)
    (h : Created spec l.registry r) : Proceeds l { l with registry := r } := by
  obtain ⟨horderly, hretains⟩ := Registry.Orderly.created hl h
  exact .of_registry horderly hretains

theorem Proceeds.of_filled {spec : ClassSpec} {r : Registry} (hl : l.Orderly)
    (h : Created spec l.registry r) (hfilled : Filled { l with registry := r } l') :
    Proceeds l l' := by
  have hcreated := Proceeds.of_created hl h
  exact hcreated.trans (hfilled fills_proceeds hcreated.orderly)

instance : Lasting Proceeds where
  proceeds := id
  trans := .trans
  aside hl h := .of_same hl h.registry_eq h.expansions_eq h.asked h.cut

instance (s : Source) : Invariant s Proceeds where
  declare hl _ _ hcreated hfilled := .of_filled hl hcreated hfilled
  make hl _ hcreated := .of_created hl hcreated
  keepRef a hl := .of_keepsOrder hl (keepRef_keepsOrder a)
  keepMember hl hc hd hok := by
    obtain ⟨horderly, hretains⟩ := Registry.Orderly.keepMember hl hc hd hok
    exact .of_registry horderly hretains

/-- A declared class whose interfaces are registered is created and filled, perhaps not to the end, or
nothing changes. -/
theorem register_cases {d : ClassDecl} (hl : l.Orderly)
    (hinterfaces : ∀ i ∈ d.interfaces, ∃ p, l.registry.find? i = some p) :
    (∃ e, register d l = .error e l) ∨ ∃ r, Created d.spec l.registry r ∧
      (d.super = [] → d.name = l.root) ∧ Filled { l with registry := r } (final (register d l)) := by
  unfold register
  rw [bind_of_ok (get_ok.mpr ⟨rfl, rfl⟩)]
  dsimp only
  split
  · exact .inl ⟨_, rfl⟩
  rename_i hguard
  rcases createKept_cases d.spec hl hinterfaces with
    ⟨e, hcreate⟩ | ⟨row, l₁, r, hcreate, hkeep, hcreated⟩
  · rw [ClassDecl.spec] at hcreate
    exact .inl ⟨e, bind_of_error hcreate⟩
  · rw [ClassDecl.spec] at hcreate
    rw [bind_of_ok hcreate, bind_of_ok hkeep]
    refine .inr ⟨r, hcreated, fun hsuper => ?_, fun hR => (hR.fill d row).along _⟩
    by_contra hne
    simp [hsuper, hne] at hguard

/-- Registering a declared class whose interfaces are registered. -/
theorem register_proceeds {d : ClassDecl} (hl : l.Orderly)
    (hinterfaces : ∀ i ∈ d.interfaces, ∃ p, l.registry.find? i = some p) :
    Proceeds l (final (register d l)) := by
  rcases register_cases hl hinterfaces with ⟨e, herror⟩ | ⟨r, hcreated, -, hfilled⟩
  · rw [herror]
    exact .refl hl
  · exact .of_filled hl hcreated hfilled

/-- A class that could be registered was created, and filling it left all classes what they were
registered as. -/
theorem register_created {d : ClassDecl} (hl : l.Orderly)
    (hinterfaces : ∀ i ∈ d.interfaces, ∃ p, l.registry.find? i = some p)
    (hok : register d l = .ok () l') :
    ∃ r, Created d.spec l.registry r ∧ SameSpecs r l'.registry := by
  rcases register_cases hl hinterfaces with ⟨e, herror⟩ | ⟨r, hcreated, -, hfilled⟩
  · cases herror.symm.trans hok
  · rw [hok] at hfilled
    exact ⟨r, hcreated, (hfilled fills_sameSpecs).2⟩

/-- Registering a class that the source declares, once its interfaces are registered. -/
theorem register_ends {s : Source} [Invariant s R] {d : ClassDecl} (hl : l.Orderly)
    (hload : s.load d.name = .ok d)
    (hinterfaces : ∀ i ∈ d.interfaces, ∃ p, l.registry.find? i = some p) :
    Ends R (register d) l fun _ l' => l'.Latest d.name := by
  refine ⟨?_, fun hok => ?_⟩
  · rcases register_cases hl hinterfaces with ⟨e, herror⟩ | ⟨r, hcreated, hsuper, hfilled⟩
    · rw [herror]
      exact Lasting.refl hl
    · exact Invariant.declare hl hload hsuper hcreated hfilled
  · obtain ⟨r, hcreated, hsame⟩ := register_created hl hinterfaces hok
    refine ⟨l.registry.rows.size, ?_, hsame.size_eq.trans hcreated.size_eq⟩
    exact (hsame.find?_eq _).trans ((hcreated.find?_eq _).trans (if_pos rfl))

/-! ### Loading -/

/-- The names that a loop loads unless they are registered are registered after it. -/
theorem registered_of_loop {load : Text → LinkM Unit} {deps : List Text}
    (hload : ∀ dep {l}, Linker.Orderly l → Proceeds l (final (load dep l)) ∧
      ∀ {u l'}, load dep l = .ok u l' → ∃ row, l'.registry.find? dep = some row)
    (hl : l.Orderly)
    (hok : (deps.forM fun dep => do
      if (← LinkM.registered? dep).isNone then load dep : LinkM Unit) l = .ok () l') :
    ∀ dep ∈ deps, ∃ row, l'.registry.find? dep = some row := by
  refine (forM_collects (R := Proceeds) (Q := fun dep u => ∃ row, u.registry.find? dep = some row)
    (.refl hl) (fun h h' => h.trans h') ?_ ?_ hok).2
  · rintro dep u v - - huv ⟨row, hrow⟩
    exact ⟨row, huv.retains.names hrow⟩
  · intro dep u v _ hu hstep
    simp only [bind_ok, registered?_ok, ite_ok, pure_ok, and_assoc] at hstep
    obtain ⟨row, _, rfl, rfl, ⟨-, hstep⟩ | ⟨hrow, -, rfl⟩⟩ := hstep
    · obtain ⟨hproceeds, hfound⟩ := hload dep hu.orderly
      rw [hstep] at hproceeds
      exact ⟨hproceeds, hfound hstep⟩
    · rw [Option.isNone_iff_eq_none] at hrow
      exact ⟨.refl hu.orderly, Option.ne_none_iff_exists'.mp hrow⟩

theorem loop_steady {load : Text → LinkM Unit} (hload : ∀ dep, Steady R (load dep))
    (deps : List Text) :
    Steady R (deps.forM fun dep => do if (← LinkM.registered? dep).isNone then load dep) := by
  refine Steady.forM fun dep _ => (Steady.registered? dep).bind fun row => ?_
  split
  · exact hload dep
  · exact .pure _

/-- Registering a declared class once its supertypes are loaded. -/
theorem register_of_loop {load : Text → LinkM Unit} {d : ClassDecl}
    (hload : ∀ dep {l}, Linker.Orderly l → Proceeds l (final (load dep l)) ∧
      ∀ {u l'}, load dep l = .ok u l' → ∃ row, l'.registry.find? dep = some row)
    (hl : l.Orderly)
    (hok : ((supertypes d).forM fun dep => do
      if (← LinkM.registered? dep).isNone then load dep : LinkM Unit) l = .ok () l') :
    Proceeds l' (final (register d l')) := by
  have hdeps := (loop_steady (fun dep => ⟨fun hl => (hload dep hl).1⟩)
    (supertypes d)).proceeds hl
  rw [hok] at hdeps
  have hall := registered_of_loop hload hl hok
  exact register_proceeds hdeps.orderly fun i hi => hall i (List.mem_append_right _ hi)

/-- An array class has no interfaces, so creating it succeeds or changes nothing. -/
theorem createArray_cases (name : Text) (kind : ClassKind) (element : Text) (elementType : Int)
    (hl : l.Orderly) : (∃ e, createArray name kind element elementType l = .error e l) ∨
      ∃ r, createArray name kind element elementType l = .ok () { l with registry := r } ∧
        Created ⟨name, l.root, kind, [], element, elementType, 0⟩ l.registry r := by
  unfold createArray
  rw [bind_of_ok (get_ok.mpr ⟨rfl, rfl⟩)]
  rcases createKept_cases ⟨name, l.root, kind, [], element, elementType, 0⟩ hl nofun with
    ⟨e, hcreate⟩ | ⟨row, l₁, r, hcreate, hkeep, hcreated⟩
  · exact .inl ⟨e, bind_of_error hcreate⟩
  · exact .inr ⟨r, (bind_of_ok hcreate).trans hkeep, hcreated⟩

theorem createArray_steady (name : Text) (kind : ClassKind) (element : Text) (elementType : Int) :
    Steady Proceeds (createArray name kind element elementType) := by
  refine ⟨fun {l} hl => ?_⟩
  rcases createArray_cases name kind element elementType hl with ⟨e, hrun⟩ | ⟨r, hrun, hcreated⟩
  · rw [hrun]
    exact .refl hl
  · rw [hrun]
    exact .of_created hl hcreated

theorem registeredRow_steady (name : Text) : Steady R (do
    match ← LinkM.registered? name with
    | some row => return row
    | none => throw .fault) := by
  refine (Steady.registered? name).bind fun row => ?_
  cases row with
  | some row => exact .pure _
  | none => exact .fault

/-- What loading the class of the elements of an array establishes. -/
def EndsLoaded (R : Linker → Linker → Prop) (loadElement : Text → LinkM Nat) : Prop :=
  ∀ {name : Text} {l : Linker}, l.Orderly →
    Ends R (loadElement name) l fun row l' => l'.registry.find? name = some row

section Loading

variable (s : Source) [Invariant s R]

/-- Loading a class, which is registered after its supertypes. -/
theorem loadTree_ends {depth : Nat} {path : List Text} {name : Text} (hl : l.Orderly) :
    Ends R (loadTree s depth path name) l fun _ l' => l'.Latest name := by
  induction depth generalizing path name l with
  | zero => exact ⟨Steady.giveUp.proceeds hl, fun hok => by cases hok⟩
  | succ depth ih =>
      unfold loadTree
      dsimp only
      split
      · exact .fail _ hl
      have hasked : R l { l with asked := name :: l.asked } := Lasting.aside hl (.ask l name)
      have hask : Ends R (ask s name) l fun answer t =>
          answer = s.load name ∧ t = { l with asked := name :: l.asked } := by
        refine ⟨hasked, fun hok => ?_⟩
        obtain ⟨hanswer, ht⟩ := ask_ok.mp hok
        exact ⟨hanswer.symm, ht.symm⟩
      refine hask.bind fun {answer t} ht _ => ?_
      obtain ⟨rfl, rfl⟩ := ht
      cases hload : s.load name with
      | error e => exact .fail _ (Lasting.orderly hasked)
      | ok d =>
          have hdeps : Ends R ((supertypes d).forM fun dep => do
              if (← registered? dep).isNone then loadTree s depth (name :: path) dep)
              { l with asked := name :: l.asked } fun _ t =>
                ∀ dep ∈ supertypes d, ∃ row, t.registry.find? dep = some row := by
            refine ⟨(loop_steady (fun dep => ⟨fun hu => (ih hu).related⟩) _).proceeds
              (Lasting.orderly hasked), fun hok => ?_⟩
            refine registered_of_loop (fun dep {u} hu => ⟨?_, fun hrun => ?_⟩)
              (Lasting.orderly hasked) hok
            · exact Lasting.proceeds (ih hu).related
            · exact ((ih hu).success hrun).imp fun _ h => h.1
          refine hdeps.bind fun hall ht => ?_
          have hname := Source.name_of_load hload
          rw [← hname] at hload ⊢
          exact register_ends (Lasting.orderly ht) hload fun i hi =>
            hall i (List.mem_append_right _ hi)

theorem loadTree_proceeds {depth : Nat} {path : List Text} {name : Text}
    (hl : l.Orderly) : Proceeds l (final (loadTree s depth path name l)) ∧
      ∀ {u l'}, loadTree s depth path name l = .ok u l' →
        ∃ row, l'.registry.find? name = some row := by
  have hends : Ends Proceeds (loadTree s depth path name) l fun _ l' => l'.Latest name :=
    loadTree_ends s hl
  exact ⟨hends.related, fun hok => (hends.success hok).imp fun _ h => h.1⟩

theorem loadTree_steady (depth : Nat) (path : List Text) (name : Text) :
    Steady R (loadTree s depth path name) := ⟨fun hl => (loadTree_ends s hl).related⟩

include s

theorem createArray_ends {name element : Text} {kind : ClassKind} {elementType : Int}
    (hl : l.Orderly) (hspec : (⟨name, l.root, kind, [], element, elementType, 0⟩ : ClassSpec).IsArray
      l.root l.registry l.registry.rows.size) :
    Ends R (createArray name kind element elementType) l fun _ l' => l'.Latest name := by
  rcases createArray_cases name kind element elementType hl with ⟨e, hrun⟩ | ⟨r, hrun, hcreated⟩
  · refine ⟨?_, fun hok => by cases hrun.symm.trans hok⟩
    rw [hrun]
    exact Lasting.refl hl
  · refine ⟨?_, fun hok => ?_⟩
    · rw [hrun]
      exact Invariant.make s hl hspec hcreated
    · cases hrun.symm.trans hok
      exact ⟨l.registry.rows.size, (hcreated.find?_eq _).trans (if_pos rfl), hcreated.size_eq⟩

/-- An array class is made after the class of its elements. -/
theorem registerArray_ends {loadElement : Text → LinkM Nat} (helements : EndsLoaded R loadElement)
    {elem : Text} (hl : l.Orderly) (hinner : elem.head? = some (Text.byte '[') →
      ∃ p, l.registry.find? elem = some p) :
    Ends R (registerArray loadElement (Text.byte '[' :: elem)) l
      fun _ l' => l'.Latest (Text.byte '[' :: elem) := by
  have hbefore : ∀ {u : Linker} {name : Text}, u.Orderly → (∃ p, u.registry.find? name = some p) →
      ∃ p, u.registry.find? name = some p ∧ p < u.registry.rows.size := by
    rintro u name hu ⟨p, hp⟩
    exact ⟨p, hp, hu.tidy.wellFormed.live_lt (hu.tidy.wellFormed.find_live hp)⟩
  unfold registerArray
  simp only [List.drop_succ_cons, List.drop_zero]
  split
  · rename_i letter
    cases hp : Primitive.ofLetter? letter with
    | none => exact .fail _ hl
    | some p => exact createArray_ends s hl ⟨rfl, rfl, .inl ⟨p, rfl, arrayName_of_ofLetter? hp, rfl⟩⟩
  · rename_i hlong
    have hname := elementName?_of_long (Text.byte '[') (fun ⟨letter, h⟩ => hlong letter h)
    cases hobject : objectName? elem with
    | some element =>
        rw [hobject] at hname
        refine (helements hl).discard.bind fun {_ t} hfound ht => ?_
        exact createArray_ends s (Lasting.orderly ht) ⟨rfl, rfl, .inr ⟨rfl, hname,
          hbefore (Lasting.orderly ht) hfound⟩⟩
    | none =>
        rw [hobject] at hname
        dsimp only at hname ⊢
        split
        · rename_i hinside
          rw [if_pos hinside] at hname
          exact createArray_ends s hl ⟨rfl, rfl, .inr ⟨rfl, hname, hbefore hl (hinner hinside)⟩⟩
        · exact .fail _ hl

/-- The arrays that an array is built from are made from the inside out. -/
theorem arrayChain_ends {loadElement : Text → LinkM Nat} (helements : EndsLoaded R loadElement)
    {name : Text} (hl : l.Orderly) (hbracket : name.head? = some (Text.byte '[')) :
    Ends R ((arrayChain (fun t => (l.registry.find? t).isSome) name).reverse.forM
      (registerArray loadElement)) l
      fun _ l' => (∃ row, l'.registry.find? name = some row) ∧ (l' = l ∨ l'.Latest name) := by
  induction name with
  | nil => cases hbracket
  | cons b elem ih =>
      obtain rfl : b = Text.byte '[' := by simpa using hbracket
      have hlatest : ∀ {u : Linker} {name : Text}, u.Latest name →
          (∃ row, u.registry.find? name = some row) ∧ (u = l ∨ u.Latest name) :=
        fun h => ⟨h.imp fun _ h => h.1, .inr h⟩
      unfold arrayChain
      split
      · rename_i hregistered
        exact .pure hl ⟨Option.isSome_iff_exists.mp hregistered, .inl rfl⟩
      · split
        · rename_i hnested
          simp only [decide_true, Bool.true_and, decide_eq_true_eq] at hnested
          rw [List.reverse_cons]
          refine (ih hnested).forM_append fun {_ t} hinner ht => ?_
          exact (registerArray_ends s helements (Lasting.orderly ht) fun _ => hinner.1).bind
            fun hdone hu => .pure (Lasting.orderly hu) (hlatest hdone)
        · rename_i hflat
          have hinside : elem.head? ≠ some (Text.byte '[') := by simpa using hflat
          rw [List.reverse_singleton]
          exact (registerArray_ends s helements hl fun h => absurd h hinside).bind
            fun hdone hu => .pure (Lasting.orderly hu) (hlatest hdone)

theorem loadFrom_ends (fuel : Nat) : EndsLoaded R (loadFrom s fuel) := by
  induction fuel with
  | zero => exact fun hl => ⟨Steady.giveUp.proceeds hl, fun hok => by cases hok⟩
  | succ fuel ih =>
      intro name l hl
      unfold loadFrom
      cases hrow : l.registry.find? name with
      | some row => exact .read (registered?_ok.mpr ⟨hrow, rfl⟩) (.pure hl hrow)
      | none =>
          refine .read (registered?_ok.mpr ⟨hrow, rfl⟩) ?_
          dsimp only
          split
          · rename_i hbracket
            refine .read (get_ok.mpr ⟨rfl, rfl⟩) ((ih hl).discard.bind fun _ ht => ?_)
            refine .read (get_ok.mpr ⟨rfl, rfl⟩) ?_
            refine (arrayChain_ends s ih (Lasting.orderly ht) hbracket).bind fun hchain hu => ?_
            obtain ⟨⟨row, hfound⟩, -⟩ := hchain
            exact .read (registered?_ok.mpr ⟨hfound, rfl⟩) (.pure (Lasting.orderly hu) hfound)
          · refine (loadTree_ends s hl).bind fun hlatest ht => ?_
            obtain ⟨row, hfound, -⟩ := hlatest
            exact .read (registered?_ok.mpr ⟨hfound, rfl⟩) (.pure (Lasting.orderly ht) hfound)

theorem loadFrom_steady (fuel : Nat) (name : Text) : Steady R (loadFrom s fuel name) :=
  ⟨fun hl => (loadFrom_ends s fuel hl).related⟩

theorem loadClass_ends (name : Text) (hl : l.Orderly) :
    Ends R (loadClass s name) l fun row l' => l'.registry.find? name = some row :=
  loadFrom_ends s _ hl

theorem loadClass_steady (name : Text) : Steady R (loadClass s name) :=
  loadFrom_steady s _ name

end Loading

/-! ### Requiring -/

theorem follow_method (s : Source) (method : Method) (l : Linker) :
    follow s (.method method) l = expand s method { l with expansions := l.expansions + 1 } :=
  bind_of_ok (a := .unit) (modify_ok.mpr rfl)

/-- Requiring a member of a loaded class fails without a change, or the member is found and marked. The
source has no say in that. -/
theorem requireLoaded_cases (m : Member) (l : Linker) :
    (∃ e, ∀ s, requireLoaded s m l = .error e l) ∨ ∃ row d fresh r,
      l.registry.findMember m = .ok (row, d) ∧ keepMember row d.sig l.registry = .ok fresh r ∧
      ∀ s, requireLoaded s m l =
        (if fresh then follow s d else pure () : LinkM Unit) { l with registry := r } := by
  cases hfind : l.registry.findMember m with
  | error e =>
      refine .inl ⟨.error e, fun s => ?_⟩
      rw [requireLoaded, bind_of_ok (get_ok.mpr ⟨rfl, rfl⟩)]
      simp only [hfind]
      rfl
  | ok found =>
      obtain ⟨row, d⟩ := found
      cases hkeep : keepMember row d.sig l.registry with
      | error e r =>
          obtain rfl := keepMember_error hkeep
          have hmark : onRegistry (keepMember row d.sig) l = .error e l := by
            unfold onRegistry
            rw [hkeep]
          refine .inl ⟨e, fun s => ?_⟩
          rw [requireLoaded, bind_of_ok (get_ok.mpr ⟨rfl, rfl⟩)]
          simp only [hfind]
          exact bind_of_error hmark
      | ok fresh r =>
          exact .inr ⟨row, d, fresh, r, rfl, hkeep, fun s => requireLoaded_of_keepMember hfind hkeep⟩

section Requiring

variable (s : Source) [Invariant s R]

theorem keepBuiltin_steady (id : Int) : Steady R (keepBuiltin s id) := by
  have hentries : ∀ ids : List Nat, Steady R
      ((ids.filterMap fun (e : Nat) => Builtin.lookup? e).forM fun e => do
        Functor.discard (loadClass s e.className)
        if e.isMember then LinkM.push ⟨e.className, e.member, e.descriptor⟩) := by
    intro ids
    refine .forM fun e _ => (loadClass_steady s _).discard.bind fun _ => ?_
    split
    · exact .push _
    · exact .pure _
  refine ⟨fun {l} hl => Lasting.bind (Lasting.refl hl) fun {u t} hget _ => ?_⟩
  obtain ⟨rfl, rfl⟩ := get_ok.mp hget
  split
  · exact Lasting.refl hl
  · cases hkept : Builtin.keep? l.builtins id with
    | none => exact Lasting.refl hl
    | some kept =>
        cases hids : Builtin.expand? id with
        | none => exact Lasting.refl hl
        | some ids =>
            have hset : R l { l with builtins := kept } :=
              Lasting.aside hl ⟨rfl, rfl, rfl, rfl, List.Subset.refl _, fun h => h⟩
            dsimp only
            rw [bind_of_ok (a := .unit) (set_ok.mpr rfl)]
            exact Lasting.trans hset ((hentries ids).proceeds (Lasting.orderly hset))

theorem expand_steady (m : Method) : Steady R (expand s m) := by
  refine (Steady.forM fun a _ => ?_).bind fun _ => (Steady.forM fun code _ => ?_).bind fun _ =>
    (Steady.forM fun a _ => ?_).bind fun _ => (Steady.forM fun id _ => ?_).bind fun _ =>
    (Steady.forM fun a _ => ?_).bind fun _ => Steady.forM fun a _ => ?_
  · refine (Steady.keepRef s a).discard.bind fun _ => ?_
    refine (Steady.readRef a).bind fun ref => ?_
    split
    · exact (loadClass_steady s _).discard
    · exact .fault
  · exact (loadClass_steady s _).discard
  · refine (Steady.keepRef s a).discard.bind fun _ => ?_
    refine (Steady.readRef a).bind fun ref => ?_
    split
    · exact (loadClass_steady s _).discard
    · exact .pure _
  · exact keepBuiltin_steady s id
  · exact (Steady.keepRef s a).discard
  · refine Steady.bind ?_ fun m => .push m
    refine (Steady.readRef a).bind fun ref => ?_
    split
    · exact .pure _
    · exact .fault

/-- A member is kept and counted at once. -/
theorem requireLoaded_steady (m : Member) : Steady R (requireLoaded s m) := by
  refine ⟨fun {l} hl => ?_⟩
  rcases requireLoaded_cases m l with ⟨e, hrun⟩ | ⟨row, d, fresh, r, hfind, hkeep, hrun⟩
  · rw [hrun]
    exact Lasting.refl hl
  rw [hrun]
  obtain ⟨name, c, -, hc, hd⟩ := findMember_ok hfind
  rw [← Class.sig_of_declared? hd] at hd
  have hkept := Invariant.keepMember (R := R) s hl hc hd hkeep
  cases fresh with
  | false => exact hkept
  | true =>
      cases d with
      | field f => exact hkept
      | method method =>
          rw [if_pos rfl, follow_method]
          exact Lasting.trans hkept ((expand_steady s method).proceeds (Lasting.orderly hkept))

theorem requireOne_steady (m : Member) : Steady R (requireOne s m) :=
  (loadClass_steady s m.className).discard.bind fun _ => requireLoaded_steady s m

theorem drainFrom_steady (fuel : Nat) : Steady R (drainFrom s fuel) := by
  induction fuel with
  | zero =>
      refine Steady.get.bind fun l => ?_
      split
      · exact .giveUp
      · exact .pure _
  | succ fuel ih =>
      refine Steady.get.bind fun l => ?_
      split
      · exact .pure _
      · rename_i m rest _
        have hpop : ∀ l : Linker, Aside l { l with pending := rest } :=
          fun _ => ⟨rfl, rfl, rfl, rfl, List.Subset.refl _, id⟩
        refine Steady.bind (.of_aside hpop) fun _ => ⟨fun {l} hl => ?_⟩
        have hone := (requireOne_steady (R := R) s m).proceeds hl
        cases hrun : requireOne s m l with
        | ok u t =>
            rw [hrun] at hone
            exact Lasting.trans hone (ih.proceeds (Lasting.orderly hone))
        | error e t =>
            rw [hrun] at hone
            cases e with
            | error e =>
                exact Lasting.trans hone (Lasting.aside (Lasting.orderly hone)
                  ⟨rfl, rfl, rfl, rfl, List.Subset.refl _, id⟩)
            | fault => exact hone

theorem drain_steady : Steady R (drain s) :=
  ⟨fun hl => (drainFrom_steady s _).proceeds hl⟩

theorem require_steady (m : Member) : Steady R (require s m) :=
  (Steady.push m).bind fun _ => drain_steady s

theorem load_steady (name : Text) : Steady R (load s name) :=
  (loadClass_steady s name).bind fun _ => (drain_steady s).bind fun _ => .pure _

/-! ### Overrides -/

theorem requireOverride_steady (row : Nat) (sig : Signature) :
    Steady R (requireOverride s row sig) := by
  refine (Steady.readClass row).bind fun c => ?_
  split
  · split
    · exact .pure _
    · exact (require_steady s _).bind fun _ => .pure _
  · exact .pure _

theorem overridesOf_steady (row : Nat) : Steady R (overridesOf s row) := by
  refine (Steady.readClass row).bind fun c => Steady.get.bind fun l => ?_
  dsimp only
  split
  · exact .pure _
  · refine .foldlM fun added sub _ => (Steady.readClass _).bind fun sc => ?_
    split
    · exact .pure _
    · refine .foldlM fun added sig _ => (requireOverride_steady s _ sig).bind fun required => ?_
      split
      · exact .pure _
      · exact .pure _

theorem overridePass_steady : Steady R (overridePass s) := by
  refine Steady.get.bind fun l => .foldlM fun added row _ => ?_
  exact (overridesOf_steady s row).bind fun n => .pure _

theorem overridePasses_steady (fuel : Nat) : Steady R (overridePasses s fuel) := by
  induction fuel with
  | zero => exact .giveUp
  | succ fuel ih =>
      refine (overridePass_steady s).bind fun n => ?_
      split
      · exact ih
      · exact .pure _

theorem requireOverrides_steady : Steady R (requireOverrides s) :=
  ⟨fun hl => (overridePasses_steady s _).proceeds hl⟩

end Requiring

end Closure

end ClassLinker
