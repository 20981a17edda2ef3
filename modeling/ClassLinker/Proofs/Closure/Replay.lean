import ClassLinker.Proofs.Closure.Register

/-! Registering a declaration goes the same way wherever it is done. What it does to a class depends
on the declaration, on the name of the root and on what the class has so far, never on the row of
the class or on the classes beside it. Two runs go in lockstep, so a declaration that was registered
once can be registered in every link that has its supertypes, and the pool comes out the same. -/

namespace ClassLinker

namespace Registry

open RegistryM Step

theorem exists_addToInterfaces (name : Text) (row : Nat) {interfaces : List Text} {r : Registry}
    (h : ∀ i ∈ interfaces, ∃ p, r.find? i = some p) :
    ∃ r', addToInterfaces name row interfaces r = .ok () r' := by
  induction interfaces generalizing r with
  | nil => exact ⟨r, rfl⟩
  | cons i rest ih =>
      obtain ⟨p, hp⟩ := h i List.mem_cons_self
      obtain ⟨r', hr'⟩ := ih (r := r.addChild p row) fun j hj => h j (List.mem_cons_of_mem _ hj)
      exact ⟨r', addToInterfaces_cons_ok.mpr ⟨p, hp, hr'⟩⟩

/-- A class with a new name can be registered once its supertypes are. -/
theorem exists_createClass (spec : ClassSpec) {r : Registry} (hopen : r.closed = false)
    (hnew : r.find? spec.name = none) (hroot : spec.super = [] ↔ r.live = [])
    (hsuper : spec.super ≠ [] → ∃ p, r.find? spec.super = some p)
    (hinterfaces : ∀ i ∈ spec.interfaces, ∃ p, r.find? i = some p) :
    ∃ r', createClass spec r = .ok r.rows.size r' := by
  simp only [createClass, bind_ok, checkOpen_ok, get_ok, ite_ok, inconsistent_ok, false_and,
    exists_false, and_false, false_or, modify_ok, pure_ok, and_assoc]
  by_cases hempty : spec.super = []
  · obtain ⟨r', hr'⟩ := exists_addToInterfaces spec.name r.rows.size
      (r := { r with rows := r.rows.push (spec.toClass r.live.length) }) hinterfaces
    have hlive := hroot.mp hempty
    exact ⟨_, .unit, r, hopen, rfl, r, r, rfl, rfl, by simp [hnew], by simp [hlive],
      by simp [hempty], .inl ⟨hempty, .unit, _, set_ok.mpr rfl, .unit, r', hr', .unit, _, rfl, rfl,
        rfl⟩⟩
  · obtain ⟨p, hp⟩ := hsuper hempty
    obtain ⟨r', hr'⟩ := exists_addToInterfaces spec.name r.rows.size
      (r := ({ r with rows := r.rows.push (spec.toClass r.live.length) } : Registry).addChild p
        r.rows.size) hinterfaces
    have hlive : r.live ≠ [] := fun h => hempty (hroot.mpr h)
    refine ⟨r'.enlist r.rows.size spec.name, .unit, r, hopen, rfl, r, r, rfl, rfl, by simp [hnew],
      by simp [hempty],
      by simp [hlive], .inr ⟨hempty, ?_⟩⟩
    simp only [hp, bind_ok, modify_ok, pure_ok]
    exact ⟨.unit, _, set_ok.mpr rfl, .unit, r', hr', .unit, _, rfl, trivial, rfl⟩

/-- A class that was registered can be kept. -/
theorem exists_keepClass {spec : ClassSpec} {r r' : Registry} {row : Nat}
    (h : createClass spec r = .ok row r') : ∃ r'', keepClass row r' = .ok true r'' := by
  obtain ⟨hopen, -, -, -, -, rfl, hsame, -⟩ := createClass_ok h
  have hstored : ((r.store (spec.toClass r.live.length)).enlist r.rows.size spec.name).classAt?
      r.rows.size = some (spec.toClass r.live.length) :=
    (classAt?_store ..).trans (if_pos rfl)
  obtain ⟨children, hclass⟩ := hsame.classes hstored
  have hopen' : r'.closed = false := by rw [hsame.frame]; exact hopen
  exact ⟨_, keepClass_ok.mpr ⟨hopen', _, hclass, .inr ⟨rfl, rfl, rfl⟩⟩⟩

end Registry

namespace Closure

open LinkM RegistryM Step Registry

/-! ### Lockstep -/

/-- Two steps in lockstep: where the first succeeds, the second succeeds from every related state,
and both their results and the states that they leave are related. -/
structure Mirrors {α β : Type} (T : Linker → Linker → Prop) (R : α → β → Prop) (x : LinkM α)
    (y : LinkM β) : Prop where
  run : ∀ {l l' u : Linker} {a : α}, T l l' → x l = .ok a u →
    ∃ b u', y l' = .ok b u' ∧ R a b ∧ T u u'

/-- Results that do not matter. -/
abbrev Anything {α β : Type} (_ : α) (_ : β) : Prop := True

namespace Mirrors

variable {α β γ δ : Type} {T : Linker → Linker → Prop} {R : α → β → Prop} {S : γ → δ → Prop}
  {x : LinkM α} {y : LinkM β}

theorem bind {f : α → LinkM γ} {g : β → LinkM δ} (hx : Mirrors T R x y)
    (hf : ∀ {a b}, R a b → Mirrors T S (f a) (g b)) : Mirrors T S (x >>= f) (y >>= g) := by
  refine ⟨fun {l l' u c} h hok => ?_⟩
  obtain ⟨a, v, ha, hok⟩ := bind_ok.mp hok
  obtain ⟨b, v', hb, hab, hv⟩ := hx.run h ha
  obtain ⟨d, u', hd, hcd, hu⟩ := (hf hab).run hv hok
  exact ⟨d, u', bind_ok.mpr ⟨b, v', hb, hd⟩, hcd, hu⟩

theorem pure {a : α} {b : β} (h : R a b) : Mirrors T R (pure a) (pure b) := by
  refine ⟨fun {l l' u c} hl hok => ?_⟩
  obtain ⟨rfl, rfl⟩ := pure_ok.mp hok
  exact ⟨b, l', rfl, h, hl⟩

theorem of_fail (e : Error) (y : LinkM β) : Mirrors T R (fail e) y :=
  ⟨fun _ hok => (fail_ok.mp hok).elim⟩

/-- Nothing comes after a failure. -/
theorem of_throw_bind (e : Failure) (f : γ → LinkM α) (y : LinkM β) :
    Mirrors T R (throw e >>= f) y := by
  refine ⟨fun _ hok => ?_⟩
  obtain ⟨_, _, hthrow, -⟩ := bind_ok.mp hok
  exact (throw_ok.mp hthrow).elim

theorem mapError {f g : Error → Error} (hx : Mirrors T R x y) :
    Mirrors T R (mapError f x) (mapError g y) := by
  refine ⟨fun {l l' u a} h hok => ?_⟩
  obtain ⟨b, u', hb, hab, hu⟩ := hx.run h (mapError_ok.mp hok)
  exact ⟨b, u', mapError_ok.mpr hb, hab, hu⟩

theorem discard (hx : Mirrors T R x y) :
    Mirrors T Anything (discard x) (discard y) := by
  refine ⟨fun {l l' u _} h hok => ?_⟩
  obtain ⟨a, ha⟩ := discard_ok.mp hok
  obtain ⟨b, u', hb, -, hu⟩ := hx.run h ha
  exact ⟨.unit, u', discard_ok.mpr ⟨b, hb⟩, trivial, hu⟩

/-- Lists of steps in lockstep. -/
theorem forM {ι : Type} {f g : ι → LinkM PUnit} {xs : List ι}
    (hf : ∀ x ∈ xs, Mirrors T Anything (f x) (g x)) :
    Mirrors T Anything (xs.forM f) (xs.forM g) := by
  induction xs with
  | nil => exact pure trivial
  | cons x xs ih =>
      refine bind (hf x List.mem_cons_self) fun _ => ?_
      exact ih fun y hy => hf y (List.mem_cons_of_mem _ hy)

end Mirrors

/-- Two links whose classes in two rows are alike as far as registering is concerned: the pools are
alike, the same signatures are declared, and references to the same array classes were added. -/
structure Twins (row row' : Nat) (l l' : Linker) : Prop where
  tidy : l.registry.Tidy
  tidy' : l'.registry.Tidy
  root_eq : l'.root = l.root
  classes : ∃ c c', l.registry.classAt? row = some c ∧ l'.registry.classAt? row' = some c' ∧
    c'.poolShape = c.poolShape ∧ ∀ sig, sig ∈ c'.signatures ↔ sig ∈ c.signatures
  arrays : ∀ name, (l'.arraysOf row' name).isSome = (l.arraysOf row name).isSome

variable {row row' : Nat} {l l' : Linker}

/-- Changing both classes in a way that keeps them alike. -/
theorem Twins.modifyClass (h : Twins row row' l l') {f f' : Class → Class}
    (htidy : (l.registry.modifyClass row f).Tidy)
    (htidy' : (l'.registry.modifyClass row' f').Tidy)
    (hf : ∀ {c c'}, c'.poolShape = c.poolShape →
      (∀ sig, sig ∈ c'.signatures ↔ sig ∈ c.signatures) →
      (f' c').poolShape = (f c).poolShape ∧
        ∀ sig, sig ∈ (f' c').signatures ↔ sig ∈ (f c).signatures) :
    Twins row row' { l with registry := l.registry.modifyClass row f }
      { l' with registry := l'.registry.modifyClass row' f' } := by
  obtain ⟨c, c', hc, hc', hshape, hsigs⟩ := h.classes
  refine ⟨htidy, htidy', h.root_eq, ⟨f c, f' c', ?_, ?_, hf hshape hsigs⟩, h.arrays⟩
  · rw [classAt?_modifyClass, if_pos rfl, hc, Option.map_some]
  · rw [classAt?_modifyClass, if_pos rfl, hc', Option.map_some]

/-! ### References -/

theorem slots_of_poolShape {c c' : Class} (h : c'.poolShape = c.poolShape) : c'.slots = c.slots :=
  congrArg Prod.fst h

theorem maxSlot_of_poolShape {c c' : Class} (h : c'.poolShape = c.poolShape) :
    c'.maxSlot = c.maxSlot := congrArg (fun p => p.2.2) h

theorem pool_of_poolShape {c c' : Class} (h : c'.poolShape = c.poolShape) (pos : Nat) :
    (c'.pool[pos]?).map (fun ref => (ref.slot, ref.body)) =
      (c.pool[pos]?).map fun ref => (ref.slot, ref.body) := by
  have hpool : (c'.pool.toList.map fun ref => (ref.slot, ref.body)) =
      c.pool.toList.map fun ref => (ref.slot, ref.body) := congrArg (fun p => p.2.1) h
  have hpos := congrArg (·[pos]?) hpool
  simpa only [List.getElem?_map, Array.getElem?_toList] using hpos

theorem size_of_poolShape {c c' : Class} (h : c'.poolShape = c.poolShape) :
    c'.pool.size = c.pool.size := by
  have hpool : (c'.pool.toList.map fun ref => (ref.slot, ref.body)) =
      c.pool.toList.map fun ref => (ref.slot, ref.body) := congrArg (fun p => p.2.1) h
  simpa using congrArg List.length hpool

theorem poolShape_addRef {c c' : Class} (h : c'.poolShape = c.poolShape) (slot : Int)
    (body : RefBody) : (c'.addRef slot body).poolShape = (c.addRef slot body).poolShape := by
  have hpool : (c'.pool.toList.map fun ref => (ref.slot, ref.body)) =
      c.pool.toList.map fun ref => (ref.slot, ref.body) := congrArg (fun p => p.2.1) h
  simp only [Class.poolShape, Class.addRef, Array.toList_push, List.map_append, hpool,
    slots_of_poolShape h, maxSlot_of_poolShape h, size_of_poolShape h, List.map_cons, List.map_nil]

/-- What is known at a slot has the same contents in both classes. -/
theorem known?_of_poolShape {c c' : Class} (h : c'.poolShape = c.poolShape) {slot : Int} {pos : Nat}
    {ref : Reference} (hknown : c.known? slot = some (pos, ref)) :
    ∃ ref', c'.known? slot = some (pos, ref') ∧ ref'.slot = ref.slot ∧ ref'.body = ref.body := by
  obtain ⟨hslot, href⟩ := Class.known?_eq_some.mp hknown
  have hpos := pool_of_poolShape h pos
  rw [href, Option.map_some] at hpos
  obtain ⟨ref', href', heq⟩ := Option.map_eq_some_iff.mp hpos
  obtain ⟨hs, hb⟩ := Prod.mk.inj heq
  exact ⟨ref', Class.known?_eq_some.mpr ⟨by rw [slots_of_poolShape h, hslot], href'⟩, hs, hb⟩

theorem createRef_mirrors (slot : Int) (body : RefBody) :
    Mirrors (Twins row row') Anything (onRegistry (createRef row slot body))
      (onRegistry (createRef row' slot body)) := by
  refine ⟨fun {l l' u a} h hok => ?_⟩
  obtain ⟨r, hcreate, rfl⟩ := onRegistry_ok.mp hok
  have htidy := createRef_tidy h.tidy hcreate
  obtain ⟨-, c, hc, hpos, hle, hfree, rfl, -⟩ := createRef_ok.mp hcreate
  obtain ⟨c₀, c', hc₀, hc', hshape, -⟩ := h.classes
  cases hc.symm.trans hc₀
  have hnone : c.slots.lookup slot = none := refAddr?_eq_none.mp hfree row c hc rfl
  have hfree' : l'.registry.refAddr? c'.id slot = none := by
    rw [h.tidy'.refAddr?_eq hc', slots_of_poolShape hshape, hnone]
    rfl
  have hcreate' : createRef row' slot body l'.registry = .ok _ _ :=
    createRef_ok.mpr ⟨h.tidy'.isOpen, c', hc', hpos, hle, hfree', rfl, rfl⟩
  refine ⟨_, _, onRegistry_ok.mpr ⟨_, hcreate', rfl⟩, trivial, ?_⟩
  exact h.modifyClass htidy (createRef_tidy h.tidy' hcreate') fun hshape hsigs =>
    ⟨poolShape_addRef hshape slot body, hsigs⟩

theorem createLiteral_mirrors (slot kind : Int) (value : Option Literal) :
    Mirrors (Twins row row') Anything (onRegistry (createLiteral row slot kind value))
      (onRegistry (createLiteral row' slot kind value)) := by
  refine ⟨fun {l l' u a} h hok => ?_⟩
  obtain ⟨r, hcreate, rfl⟩ := onRegistry_ok.mp hok
  obtain ⟨v, hv, hkind, hcreate⟩ := createLiteral_ok.mp hcreate
  obtain ⟨b, u', hb, -, hu⟩ := (createRef_mirrors slot (.literal v)).run h
    (onRegistry_ok.mpr ⟨r, hcreate, rfl⟩)
  obtain ⟨r', hcreate', hu'⟩ := onRegistry_ok.mp hb
  exact ⟨b, u', onRegistry_ok.mpr ⟨r', createLiteral_ok.mpr ⟨v, hv, hkind, hcreate'⟩, hu'⟩, trivial,
    hu⟩

theorem allocSlot_mirrors : Mirrors (Twins row row') Eq (onRegistry (allocSlot row))
    (onRegistry (allocSlot row')) := by
  refine ⟨fun {l l' u slot} h hok => ?_⟩
  obtain ⟨r, halloc, rfl⟩ := onRegistry_ok.mp hok
  have htidy := allocSlot_tidy h.tidy halloc
  obtain ⟨-, c, hc, hlt, rfl, rfl⟩ := allocSlot_ok.mp halloc
  obtain ⟨c₀, c', hc₀, hc', hshape, -⟩ := h.classes
  cases hc.symm.trans hc₀
  have hmax := maxSlot_of_poolShape hshape
  have halloc' := allocSlot_ok.mpr
    ⟨h.tidy'.isOpen, c', hc', by rw [hmax]; exact hlt, rfl, rfl⟩
  refine ⟨_, _, onRegistry_ok.mpr ⟨_, halloc', rfl⟩, by rw [hmax], ?_⟩
  refine h.modifyClass htidy (allocSlot_tidy h.tidy' halloc') fun {c c'} hshape hsigs => ⟨?_, hsigs⟩
  rw [Class.poolShape, Class.poolShape, Prod.mk.injEq, Prod.mk.injEq] at hshape ⊢
  exact ⟨hshape.1, hshape.2.1, congrArg (· + 1) hshape.2.2⟩

/-- A reference to an array class that is to be added in one link is to be added in the other. -/
theorem arrayRef_mirrors (name : Text) :
    Mirrors (Twins row row') Anything (arrayRef row name) (arrayRef row' name) := by
  refine ⟨fun {l l' u a} h hok => ?_⟩
  obtain ⟨c, c', hc, hc', -, -⟩ := h.classes
  have hname := h.arrays name
  simp only [arrayRef, bind_ok, readClass_ok, get_ok, and_assoc] at hok ⊢
  obtain ⟨c₀, _, hc₀, rfl, _, _, rfl, rfl, hok⟩ := hok
  cases hc.symm.trans hc₀
  rw [h.tidy.id_eq hc] at hok
  have hid : c'.id = row' := h.tidy'.id_eq hc'
  rw [Linker.arraysOf, Linker.arraysOf] at hname
  cases hlookup : l.arrayRefs.lookup (row, name) with
  | some b =>
      rw [hlookup, Option.isSome_some, Option.isSome_iff_exists] at hname
      obtain ⟨b', hb'⟩ := hname
      simp only [hlookup, pure_ok] at hok
      obtain ⟨rfl, rfl⟩ := hok
      refine ⟨b', l', ⟨c', l', hc', rfl, l', l', rfl, rfl, ?_⟩, trivial, h⟩
      simp only [hid, hb', pure_ok, and_self]
  | none =>
      rw [hlookup, Option.isSome_none, Option.isSome_eq_false_iff, Option.isNone_iff_eq_none]
        at hname
      simp only [hlookup] at hok
      have hadd : Mirrors (Twins row row') Anything
          (onRegistry (allocSlot row) >>= fun slot => onRegistry (createClassRef row slot name))
          (onRegistry (allocSlot row') >>= fun slot => onRegistry (createClassRef row' slot name)) :=
        allocSlot_mirrors.bind fun hslot => hslot ▸ createRef_mirrors _ _
      simp only [bind_ok, modify_ok, pure_ok] at hok
      obtain ⟨slot, l₁, halloc, b, l₂, hcreate, _, _, rfl, rfl, rfl⟩ := hok
      obtain ⟨b', l₂', hok', -, h₂⟩ := hadd.run h (bind_ok.mpr ⟨slot, l₁, halloc, hcreate⟩)
      obtain ⟨slot', l₁', halloc', hcreate'⟩ := bind_ok.mp hok'
      refine ⟨b', { l₂' with arrayRefs := ((row', name), b') :: l₂'.arrayRefs },
        ⟨c', l', hc', rfl, l', l', rfl, rfl, ?_⟩, trivial, ?_⟩
      · simp only [hid, hname, bind_ok, modify_ok, pure_ok]
        exact ⟨slot', l₁', halloc', b', l₂', hcreate', .unit, _, rfl, rfl, rfl⟩
      · refine ⟨h₂.tidy, h₂.tidy', h₂.root_eq, h₂.classes, fun t => ?_⟩
        rw [arraysOf_cons, arraysOf_cons]
        by_cases ht : t = name
        · rw [if_pos ⟨rfl, ht⟩, if_pos ⟨rfl, ht⟩]
          rfl
        · rw [if_neg fun heq => ht heq.2, if_neg fun heq => ht heq.2]
          exact h₂.arrays t

/-- What is at a slot is the same in both links. -/
def SameBody (o o' : Option (RefAddr × Reference)) : Prop :=
  Option.Rel (fun p p' => p'.2.body = p.2.body) o o'

theorem refAtSlot?_mirrors (slot : Int) :
    Mirrors (Twins row row') SameBody (refAtSlot? row slot) (refAtSlot? row' slot) := by
  refine ⟨fun {l l' u o} h hok => ?_⟩
  obtain ⟨c, c', hc, hc', hshape, -⟩ := h.classes
  obtain ⟨rfl, rfl⟩ := refAtSlot?_ok h.tidy hc hok
  have hread : ∃ o', refAtSlot? row' slot l' = .ok o' l' := by
    simp only [refAtSlot?, bind_ok, readClass_ok, get_ok, pure_ok, and_assoc]
    exact ⟨_, c', l', hc', rfl, l', l', rfl, rfl, rfl, rfl⟩
  obtain ⟨o', hok'⟩ := hread
  obtain ⟨-, rfl⟩ := refAtSlot?_ok h.tidy' hc' hok'
  refine ⟨_, l', hok', ?_, h⟩
  cases hknown : c.known? slot with
  | none =>
      cases hknown' : c'.known? slot with
      | none => exact .none
      | some found =>
          obtain ⟨ref, href, -⟩ := known?_of_poolShape hshape.symm hknown'
          rw [hknown] at href
          cases href
  | some found =>
      obtain ⟨ref', hknown', -, hbody⟩ := known?_of_poolShape hshape hknown
      rw [hknown']
      exact .some hbody

theorem classRefAt_mirrors (slot : Int) :
    Mirrors (Twins row row') (fun p p' => p'.2 = p.2) (classRefAt row slot)
      (classRefAt row' slot) := by
  refine Mirrors.bind (refAtSlot?_mirrors slot) fun {o o'} hsame => ?_
  cases hsame with
  | none => exact .of_fail _ _
  | @some p p' hbody =>
      cases hp : p.2.body with
      | classRef target id =>
          rw [hp] at hbody
          simp only [hp, hbody]
          exact .pure rfl
      | memberRef m t d k i =>
          simp only [hp]
          exact .of_fail _ _
      | literal v =>
          simp only [hp]
          exact .of_fail _ _

/-! ### Members -/

/-- Recording something about a method. -/
theorem record_mirrors (sig : Signature) {f f' : Method → Method} (hf : ∀ m, (f m).sig = m.sig)
    (hf' : ∀ m, (f' m).sig = m.sig) :
    Mirrors (Twins row row') Anything (record fun r => r.modifyMethod row sig f)
      (record fun r => r.modifyMethod row' sig f') := by
  have hsigs : ∀ {f : Method → Method}, (∀ m, (f m).sig = m.sig) → ∀ c : Class,
      ({ c with methods := c.methods.map fun m => if m.sig = sig then f m else m } :
        Class).signatures = c.signatures := by
    intro f hf c
    simp only [Class.signatures, List.map_map]
    congr 1
    refine List.map_congr_left fun m _ => ?_
    simp only [Function.comp]
    split
    · exact hf m
    · rfl
  refine ⟨fun {l l' u a} h hok => ?_⟩
  obtain rfl := record_ok.mp hok
  refine ⟨.unit, _, record_ok.mpr rfl, trivial, ?_⟩
  refine h.modifyClass ?_ ?_ fun hshape hsame => ⟨hshape, ?_⟩
  · exact h.tidy.modifyClass (modifyMethod_wellFormed h.tidy.wellFormed row sig hf)
      fun c => ⟨rfl, rfl, rfl, rfl⟩
  · exact h.tidy'.modifyClass (modifyMethod_wellFormed h.tidy'.wellFormed row' sig hf')
      fun c => ⟨rfl, rfl, rfl, rfl⟩
  · intro sig'
    rw [hsigs hf, hsigs hf', hsame]

theorem addClassDep_mirrors (sig : Signature) (a b : RefAddr) :
    Mirrors (Twins row row') Anything (record (addClassDep row sig a))
      (record (addClassDep row' sig b)) := by
  rw [funext (addClassDep_eq row sig a), funext (addClassDep_eq row' sig b)]
  exact record_mirrors sig (fun _ => rfl) fun _ => rfl

theorem addMemberDep_mirrors (sig : Signature) (a b : RefAddr) :
    Mirrors (Twins row row') Anything (record (addMemberDep row sig a))
      (record (addMemberDep row' sig b)) := by
  rw [funext (addMemberDep_eq row sig a), funext (addMemberDep_eq row' sig b)]
  exact record_mirrors sig (fun _ => rfl) fun _ => rfl

theorem addLiteralDep_mirrors (sig : Signature) (a b : RefAddr) :
    Mirrors (Twins row row') Anything (record (addLiteralDep row sig a))
      (record (addLiteralDep row' sig b)) := by
  rw [funext (addLiteralDep_eq row sig a), funext (addLiteralDep_eq row' sig b)]
  exact record_mirrors sig (fun _ => rfl) fun _ => rfl

/-- Scanning an instruction goes the same way. -/
theorem scanInstruction_mirrors (sig : Signature) (i : Instruction) :
    Mirrors (Twins row row') Anything (scanInstruction row sig i) (scanInstruction row' sig i) := by
  unfold scanInstruction
  refine Mirrors.bind (R := Anything) (.forM fun id _ => ?_) fun _ => ?_
  · rw [funext (addBuiltin_eq row sig id), funext (addBuiltin_eq row' sig id)]
    exact record_mirrors sig (fun _ => rfl) fun _ => rfl
  cases Opcode.operand i.op with
  | none => exact .pure trivial
  | memberSlot =>
      refine Mirrors.bind (refAtSlot?_mirrors _) fun {o o'} hsame => ?_
      cases hsame with
      | none => exact .of_fail _ _
      | @some p p' hbody =>
          obtain ⟨a, owner, slot, kept, body⟩ := p
          obtain ⟨a', owner', slot', kept', body'⟩ := p'
          obtain rfl : body' = body := hbody
          cases body' with
          | memberRef m t d k j => exact addMemberDep_mirrors sig a a'
          | classRef target id => exact .of_fail _ _
          | literal v => exact .of_fail _ _
  | classSlot =>
      refine Mirrors.bind (.mapError (classRefAt_mirrors _)) fun {p p'} htarget => ?_
      refine Mirrors.bind (addClassDep_mirrors sig p.1 p'.1) fun _ => ?_
      by_cases hnew : i.op = Opcode.anewarray
      · simp only [if_pos hnew, htarget]
        exact Mirrors.bind (arrayRef_mirrors _) fun {a b} _ => addClassDep_mirrors sig a b
      · simp only [if_neg hnew]
        exact .pure trivial
  | constantSlot =>
      refine Mirrors.bind (refAtSlot?_mirrors _) fun {o o'} hsame => ?_
      cases hsame with
      | none => exact .of_fail _ _
      | @some p p' hbody =>
          cases hp : p.2.body with
          | literal v =>
              rw [hp] at hbody
              simp only [hp, hbody]
              exact addLiteralDep_mirrors sig p.1 p'.1
          | classRef target id =>
              rw [hp] at hbody
              simp only [hp, hbody]
              exact addClassDep_mirrors sig p.1 p'.1
          | memberRef m t d k j =>
              simp only [hp]
              exact .of_fail _ _
  | arrayType =>
      dsimp only
      split
      · exact .of_throw_bind _ _ _
      · rw [funext (addArrayDep_eq row sig _), funext (addArrayDep_eq row' sig _)]
        exact record_mirrors sig (fun _ => rfl) fun _ => rfl
  | dynamicSlot => exact .of_fail _ _

theorem scan_mirrors (sig : Signature) (code : Bytes) (handlers : List Handler)
    (throws : List Int) :
    Mirrors (Twins row row') Anything (scan row sig code handlers throws)
      (scan row' sig code handlers throws) := by
  unfold scan
  refine Mirrors.bind (R := Anything) (.forM fun i _ => scanInstruction_mirrors sig i) fun _ => ?_
  cases (Code.decode code).ending with
  | fault cause => exact .of_throw_bind _ _ _
  | stuck pc => exact .of_throw_bind _ _ _
  | complete =>
      refine Mirrors.bind (R := Anything) (.forM fun handler _ => ?_) fun _ =>
        .forM fun slot _ => ?_
      · split
        · exact Mirrors.bind (.mapError (classRefAt_mirrors _)) fun {p p'} _ =>
            addClassDep_mirrors sig p.1 p'.1
        · exact .pure trivial
      · exact Mirrors.bind (.mapError (classRefAt_mirrors _)) fun {p p'} _ =>
          addClassDep_mirrors sig p.1 p'.1

/-! ### Classes -/

theorem registerSlot_mirrors (d : ClassDecl) (p : PoolSlot) :
    Mirrors (Twins row row') Anything (registerSlot d row p) (registerSlot d row' p) := by
  unfold registerSlot
  cases p.item with
  | classRef name => exact .discard (createRef_mirrors _ _)
  | member className name descriptor isField => exact .discard (createRef_mirrors _ _)
  | constant kind value =>
      dsimp only
      cases PoolItem.literalKind? kind with
      | none => exact .of_fail _ _
      | some k => exact .discard (createLiteral_mirrors _ _ _)

/-- A signature that one class does not declare is new to its twin too. -/
theorem undeclared_of_same {c c' : Class} {sig : Signature}
    (h : ∀ sig, sig ∈ c'.signatures ↔ sig ∈ c.signatures) (hnew : c.declared? sig = none) :
    c'.declared? sig = none := by
  rw [Class.declared?_eq_none] at hnew ⊢
  rwa [h]

/-- Declaring the same member in both classes. -/
theorem Twins.declare (h : Twins row row' l l') {f : Class → Class} (sig : Signature)
    (htidy : (l.registry.modifyClass row f).Tidy) (htidy' : (l'.registry.modifyClass row' f).Tidy)
    (hshape : ∀ c, (f c).poolShape = c.poolShape)
    (hmore : ∀ c sig', sig' ∈ (f c).signatures ↔ sig' ∈ c.signatures ∨ sig' = sig) :
    Twins row row' { l with registry := l.registry.modifyClass row f }
      { l' with registry := l'.registry.modifyClass row' f } := by
  refine h.modifyClass htidy htidy' fun {c c'} hshapes hsame => ⟨?_, fun sig' => ?_⟩
  · rw [hshape, hshape, hshapes]
  · rw [hmore, hmore, hsame]

theorem registerField_mirrors (f : FieldDecl) :
    Mirrors (Twins row row') Anything (registerField row f) (registerField row' f) := by
  refine ⟨fun {l l' u a} h hok => ?_⟩
  obtain ⟨r, hcreate, rfl⟩ := onRegistry_ok.mp hok
  obtain ⟨c, c', hc, hc', -, hsigs⟩ := h.classes
  have hwf := createField_wellFormed h.tidy.wellFormed row f.spec
  rw [show createField row f.spec l.registry = _ from hcreate] at hwf
  obtain ⟨-, c₀, hc₀, hnew, rfl⟩ := createField_ok.mp hcreate
  cases hc.symm.trans hc₀
  have hnew' : c'.declared? f.spec.sig = none := undeclared_of_same hsigs hnew
  have hcreate' := createField_ok.mpr ⟨h.tidy'.isOpen, c', hc', hnew', rfl⟩
  have hwf' := createField_wellFormed h.tidy'.wellFormed row' f.spec
  rw [hcreate'] at hwf'
  refine ⟨.unit, _, onRegistry_ok.mpr ⟨_, hcreate', rfl⟩, trivial, ?_⟩
  have hmore : ∀ (c : Class) sig, sig ∈ ({ c with fields := c.fields ++ [f.spec.toField] } :
      Class).signatures ↔ sig ∈ c.signatures ∨ sig = f.spec.sig := by
    intro c sig
    simp [Class.signatures, FieldSpec.toField, or_assoc]
  exact h.declare f.spec.sig (h.tidy.modifyClass hwf fun c => ⟨rfl, rfl, rfl, rfl⟩)
    (h.tidy'.modifyClass hwf' fun c => ⟨rfl, rfl, rfl, rfl⟩) (fun _ => rfl) hmore

theorem createMethod_mirrors (spec : MethodSpec) :
    Mirrors (Twins row row') Anything (onRegistry (createMethod row spec))
      (onRegistry (createMethod row' spec)) := by
  refine ⟨fun {l l' u a} h hok => ?_⟩
  obtain ⟨r, hcreate, rfl⟩ := onRegistry_ok.mp hok
  obtain ⟨c, c', hc, hc', -, hsigs⟩ := h.classes
  have hwf := createMethod_wellFormed h.tidy.wellFormed row spec
  rw [show createMethod row spec l.registry = _ from hcreate] at hwf
  obtain ⟨-, c₀, hc₀, hnew, hcoded, rfl⟩ := createMethod_ok.mp hcreate
  cases hc.symm.trans hc₀
  have hcreate' := createMethod_ok.mpr
    ⟨h.tidy'.isOpen, c', hc', undeclared_of_same hsigs hnew, hcoded, rfl⟩
  have hwf' := createMethod_wellFormed h.tidy'.wellFormed row' spec
  rw [hcreate'] at hwf'
  refine ⟨.unit, _, onRegistry_ok.mpr ⟨_, hcreate', rfl⟩, trivial, ?_⟩
  refine h.declare spec.sig (h.tidy.modifyClass hwf fun c => ⟨rfl, rfl, rfl, rfl⟩)
    (h.tidy'.modifyClass hwf' fun c => ⟨rfl, rfl, rfl, rfl⟩) (fun _ => rfl) fun c sig => ?_
  simp [Class.signatures, MethodSpec.toMethod, or_assoc, or_comm]

theorem registerMethod_mirrors (d : ClassDecl) (m : MethodDecl) :
    Mirrors (Twins row row') Anything (registerMethod d row m) (registerMethod d row' m) := by
  refine ⟨fun {l l' u a} h hok => ?_⟩
  simp only [registerMethod, bind_ok, get_ok, mapError_ok, and_assoc] at hok ⊢
  obtain ⟨_, _, rfl, rfl, _, l₁, hcreate, hscan⟩ := hok
  obtain ⟨_, l₁', hcreate', -, h₁⟩ := (createMethod_mirrors _).run h hcreate
  obtain ⟨_, u', hscan', -, hu⟩ := (scan_mirrors _ _ _ _).run h₁ hscan
  rw [← h.root_eq] at hcreate' hscan'
  exact ⟨.unit, u', ⟨l', l', rfl, rfl, .unit, l₁', hcreate', hscan'⟩, trivial, hu⟩

/-- A declaration that was registered in one link can be registered in another one in which its
class can be created, and its class comes out alike. -/
theorem register_replays {d : ClassDecl} {u : Linker} (htidy : l.registry.Tidy)
    (hfresh : ∀ name, l.arraysOf l.registry.rows.size name = none) (hok : register d l = .ok () u)
    (htidy' : l'.registry.Tidy)
    (hfresh' : ∀ name, l'.arraysOf l'.registry.rows.size name = none) (hroot : l'.root = l.root)
    {r' : Registry} (hcreate' : createClass d.spec l'.registry = .ok l'.registry.rows.size r') :
    ∃ u', register d l' = .ok () u' ∧
      Twins l.registry.rows.size l'.registry.rows.size u u' := by
  simp only [register, bind_ok, get_ok, ite_ok, fail_ok, false_and, exists_false, and_false,
    false_or, readClass_ok, discard_ok, push_ok, pure_ok, and_assoc] at hok
  obtain ⟨_, _, rfl, rfl, hname, row, _, hstored, _, l₁, ⟨fresh, hmarked⟩, _, l₂, hpool, _, l₃,
    hfields, _, l₄, hmethods, c, _, hc, rfl, hpush⟩ := hok
  obtain ⟨r₀, hcreate, rfl⟩ := onRegistry_ok.mp hstored
  obtain ⟨r₁, hkeep, rfl⟩ := onRegistry_ok.mp hmarked
  obtain ⟨rfl, hcreated⟩ := created htidy hcreate hkeep
  obtain ⟨r₁', hkeep'⟩ := exists_keepClass hcreate'
  obtain ⟨-, hcreated'⟩ := created htidy' hcreate' hkeep'
  obtain ⟨children, hclass⟩ := hcreated.this
  obtain ⟨children', hclass'⟩ := hcreated'.this
  have hstart : Twins l.registry.rows.size l'.registry.rows.size { l with registry := r₁ }
      { l' with registry := r₁' } := by
    refine ⟨hcreated.tidy, hcreated'.tidy, hroot, ⟨_, _, hclass, hclass', rfl, fun _ => .rfl⟩, ?_⟩
    intro name
    exact (congrArg _ (hfresh' name)).trans (congrArg _ (hfresh name)).symm
  obtain ⟨_, l₂', hpool', -, h₂⟩ :=
    (Mirrors.forM fun p _ => registerSlot_mirrors d p).run hstart hpool
  obtain ⟨_, l₃', hfields', -, h₃⟩ :=
    (Mirrors.forM fun f _ => registerField_mirrors f).run h₂ hfields
  obtain ⟨_, l₄', hmethods', -, h₄⟩ :=
    (Mirrors.forM fun m _ => registerMethod_mirrors d m).run h₃ hmethods
  obtain ⟨c₀, c', hc₀, hc', -, hsigs⟩ := h₄.classes
  cases hc.symm.trans hc₀
  have hdeclared : (c'.declared? Signature.initializer).isSome =
      (c.declared? Signature.initializer).isSome := by
    rw [Bool.eq_iff_iff, Option.isSome_iff_exists, Option.isSome_iff_exists,
      Class.exists_declared?, Class.exists_declared?]
    exact hsigs _
  have hstep : ∀ {u'}, (c'.declared? Signature.initializer).isSome = true ∧
      { l₄' with pending := c'.member Signature.initializer :: l₄'.pending } = u' ∨
      ¬(c'.declared? Signature.initializer).isSome = true ∧ True ∧ l₄' = u' →
      register d l' = .ok () u' := by
    intro u' hu'
    simp only [register, bind_ok, get_ok, ite_ok, fail_ok, false_and, exists_false, and_false,
      false_or, readClass_ok, discard_ok, push_ok, pure_ok, and_assoc]
    exact ⟨l', l', rfl, rfl, hroot ▸ hname, _, _, onRegistry_ok.mpr ⟨r', hcreate', rfl⟩, .unit, _,
      ⟨true, onRegistry_ok.mpr ⟨r₁', hkeep', rfl⟩⟩, .unit, l₂', hpool', .unit, l₃', hfields', .unit,
      l₄', hmethods', c', l₄', hc', rfl, hu'⟩
  rcases hpush with ⟨hsome, rfl⟩ | ⟨hnone, -, rfl⟩
  · refine ⟨_, hstep (.inl ⟨hdeclared.trans hsome, rfl⟩), ?_⟩
    exact ⟨h₄.tidy, h₄.tidy', h₄.root_eq, h₄.classes, h₄.arrays⟩
  · exact ⟨l₄', hstep (.inr ⟨hdeclared ▸ hnone, trivial, rfl⟩), h₄⟩

/-- What a declaration makes of a pool is the same wherever it is registered. -/
theorem poolShape_of_registers {root : Text} {d : ClassDecl} {c c' : Class} (h : d.Registers root c)
    (h' : d.Registers root c') : c'.poolShape = c.poolShape := by
  obtain ⟨l, u, c₀, htidy, hfresh, hroot, hok, hc₀, hshape⟩ := h
  obtain ⟨l', u', c₀', htidy', hfresh', hroot', hok', hc₀', hshape'⟩ := h'
  obtain ⟨r', hcreate'⟩ : ∃ r', createClass d.spec l'.registry =
      .ok l'.registry.rows.size r' := by
    simp only [register, bind_ok, get_ok, ite_ok, fail_ok, false_and, exists_false, and_false,
      false_or, and_assoc] at hok'
    obtain ⟨_, _, rfl, rfl, -, row, _, hstored, -⟩ := hok'
    obtain ⟨r', hcreate', -⟩ := onRegistry_ok.mp hstored
    obtain rfl := (createClass_ok hcreate').2.2.2.2.2.1
    exact ⟨r', hcreate'⟩
  obtain ⟨v, hv, htwins⟩ := register_replays htidy hfresh hok htidy' hfresh'
    (hroot'.trans hroot.symm) hcreate'
  cases hok'.symm.trans hv
  obtain ⟨e, e', he, he', hsame, -⟩ := htwins.classes
  cases hc₀.symm.trans he
  cases hc₀'.symm.trans he'
  rw [← hshape, ← hshape', hsame]

end Closure

end ClassLinker
