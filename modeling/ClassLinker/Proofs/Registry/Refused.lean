import ClassLinker.Proofs.Registry.Reachable

/-! What an operation that was refused leaves behind. Registering, reserving and keeping check what
they are asked before they change anything, but for one case: a new class becomes a child of its
superclass and of its interfaces one by one, and when an interface is missing, the ones before it
keep a child that was never registered. -/

namespace ClassLinker

namespace Step

variable {ε σ α : Type}

/-- Whether a step fails, and with an error and a state that pass a check. -/
def refuses (step : EStateM.Result ε σ α) (check : ε → σ → Bool) : Bool :=
  match step with
  | .ok _ _ => false
  | .error e s => check e s

theorem exists_of_refuses {step : EStateM.Result ε σ α} {check : ε → σ → Bool}
    (h : refuses step check = true) : ∃ e s, step = .error e s ∧ check e s = true := by
  cases step with
  | ok a s => cases h
  | error e s => exact ⟨e, s, rfl, h⟩

end Step

namespace Registry

open RegistryM Step

/-! ### Children of classes that were not registered -/

theorem classAt?_adopt (r : Registry) (parents : List Nat) (child row : Nat) :
    (r.adopt parents child).classAt? row = (r.classAt? row).map fun c =>
      { c with children := c.children ++ List.replicate (parents.count row) child } := by
  induction parents generalizing r with
  | nil => simp [adopt]
  | cons parent parents ih =>
      have hstep : (r.adopt (parent :: parents) child).classAt? row =
          ((r.addChild parent child).adopt parents child).classAt? row := rfl
      rw [hstep, ih, addChild, classAt?_modifyClass]
      by_cases heq : parent = row
      · subst heq
        rw [if_pos rfl, Option.map_map, List.count_cons_self, List.replicate_succ]
        simp [Function.comp_def]
      · rw [if_neg heq, List.count_cons_of_ne heq]

/-- A slot is looked up among the ids and the slots of the classes only. -/
theorem refAddr?_of_keys {r r' : Registry}
    (h : ∀ row, (r'.classAt? row).map (fun c => (c.id, c.slots)) =
      (r.classAt? row).map fun c => (c.id, c.slots)) (owner slot : Int) :
    r'.refAddr? owner slot = r.refAddr? owner slot := by
  have hread : ∀ r : Registry, r.refAddr? owner slot =
      (r.rows.toList.map fun c => (c.id, c.slots)).zipIdx.findSome? fun (key, row) =>
        if (key.1 : Int) = owner then (key.2.lookup slot).map (⟨row, ·⟩) else none := by
    intro r
    rw [List.zipIdx_map, List.findSome?_map]
    rfl
  have hkeys : r'.rows.toList.map (fun c => (c.id, c.slots)) =
      r.rows.toList.map fun c => (c.id, c.slots) := by
    refine List.ext_getElem? fun row => ?_
    simpa only [classAt?, List.getElem?_map, Array.getElem?_toList] using h row
  rw [hread, hread, hkeys]

/-- No slot leads to a class that is stored without any. -/
theorem refAddr?_store (r : Registry) {c : Class} (hslots : c.slots = []) (owner slot : Int) :
    (r.store c).refAddr? owner slot = r.refAddr? owner slot := by
  simp [refAddr?, store, List.zipIdx_append, List.findSome?_append, hslots]

/-- `r'` is `r` with a further row, which neither a name nor an id nor a slot leads to, and in which
the classes in the rows `parents` have it as a child. -/
structure Strayed (r r' : Registry) (parents : List Nat) : Prop where
  tables : r' = { r with rows := r'.rows }
  classes : ∀ row < r.rows.size, r'.classAt? row = (r.classAt? row).map fun c =>
    { c with children := c.children ++ List.replicate (parents.count row) r.rows.size }
  refs : ∀ owner slot, r'.refAddr? owner slot = r.refAddr? owner slot

theorem strayed_adopt (r : Registry) {c : Class} (hslots : c.slots = []) (parents : List Nat) :
    r.Strayed ((r.store c).adopt parents r.rows.size) parents := by
  refine ⟨(SameButChildren.adopt (r.store c) parents r.rows.size).frame, ?_, ?_⟩
  · intro row hrow
    rw [classAt?_adopt, classAt?_store, if_neg (Nat.ne_of_lt hrow)]
  · intro owner slot
    rw [← refAddr?_store r hslots]
    refine refAddr?_of_keys (fun row => ?_) owner slot
    rw [classAt?_adopt, Option.map_map]
    rfl

/-! ### Refusals -/

/-- The interfaces are gone through up to the first that is not registered. -/
theorem addToInterfaces_refused {name : Text} {row : Nat} {interfaces : List Text} {r r' : Registry}
    {e : Failure} (h : addToInterfaces name row interfaces r = .error e r') :
    ∃ known missing others, interfaces = known ++ missing :: others ∧
      (∀ i ∈ known, (r.find? i).isSome) ∧ r.find? missing = none ∧
      e = .internal (.missingInterface name missing) ∧
      r' = r.adopt (known.filterMap r.find?) row := by
  induction interfaces generalizing r with
  | nil => simp [addToInterfaces] at h
  | cons i rest ih =>
      rcases addToInterfaces_cons_error h with ⟨hfind, rfl, rfl⟩ | ⟨parent, hfind, hrest⟩
      · exact ⟨[], i, rest, rfl, List.forall_mem_nil _, hfind, rfl, rfl⟩
      · obtain ⟨known, missing, others, rfl, hknown, hmissing, rfl, rfl⟩ := ih hrest
        refine ⟨i :: known, missing, others, rfl, ?_, hmissing, rfl, ?_⟩
        · exact List.forall_mem_cons.mpr ⟨by rw [hfind]; rfl, hknown⟩
        · rw [List.filterMap_cons_some hfind]
          rfl

/-- A class that cannot be registered leaves the registry alone, or one of its interfaces is
missing. -/
theorem createClass_refused {spec : ClassSpec} {r r' : Registry} {e : Failure}
    (h : createClass spec r = .error e r') :
    r' = r ∨ ∃ known missing others, spec.interfaces = known ++ missing :: others ∧
      (∀ i ∈ known, (r.find? i).isSome) ∧ r.find? missing = none ∧
      e = .internal (.missingInterface spec.name missing) ∧
      r.Strayed r' ((r.superOf? (spec.toClass r.live.length)).toList ++
        known.filterMap r.find?) := by
  rcases createClass_fails h with rfl | hadd
  · exact .inl rfl
  obtain ⟨known, missing, others, hsplit, hknown, hmissing, he, rfl⟩ :=
    addToInterfaces_refused hadd
  -- The classes are looked up after the row of the new one is stored, but it has no name yet.
  have hfind : ∀ name, ((r.store (spec.toClass r.live.length)).adopt
      (r.superOf? (spec.toClass r.live.length)).toList r.rows.size).find? name = r.find? name :=
    (SameButChildren.adopt ..).find?_eq
  simp only [funext hfind] at hknown hmissing ⊢
  refine .inr ⟨known, missing, others, hsplit, hknown, hmissing, he, ?_⟩
  rw [adopt, adopt, ← List.foldl_append]
  exact strayed_adopt r rfl _

/-- A refused operation changes nothing, unless it registers a class with a missing interface: that
leaves a child behind in the superclass and in the interfaces before the missing one. -/
theorem refused_unchanged {op : Operation} {r r' : Registry} {e : Failure}
    (hop : op ∉ [.link, .compact, .relocate]) (h : op.run r = .error e r') :
    r' = r ∨ ∃ spec known missing others, op = .createClass spec ∧
      spec.interfaces = known ++ missing :: others ∧ (∀ i ∈ known, (r.find? i).isSome) ∧
      r.find? missing = none ∧ e = .internal (.missingInterface spec.name missing) ∧
      r.Strayed r' ((r.superOf? (spec.toClass r.live.length)).toList ++
        known.filterMap r.find?) := by
  have hdiscard : ∀ {α : Type} {x : RegistryM α}, (discard x) r = .error e r' →
      x r = .error e r' := by
    intro α x hx
    exact map_error.mp hx
  cases op with
  | createClass spec =>
      obtain hsame | ⟨known, missing, others, hrest⟩ := createClass_refused (hdiscard h)
      · exact .inl hsame
      · exact .inr ⟨spec, known, missing, others, rfl, hrest⟩
  | createMethod row spec => exact .inl (createMethod_error h).symm
  | createField row spec => exact .inl (createField_error h).symm
  | createClassRef row slot target => exact .inl (createRef_error (hdiscard h)).symm
  | createMemberRef row slot target => exact .inl (createRef_error (hdiscard h)).symm
  | createLiteral row slot kind value => exact .inl (createLiteral_error (hdiscard h)).symm
  | allocSlot row => exact .inl (allocSlot_error (hdiscard h)).symm
  | keepClass row => exact .inl (keepClass_error (hdiscard h)).symm
  | keepMember row sig => exact .inl (keepMember_error (hdiscard h)).symm
  | keepRef a => exact .inl (keepRef_error (hdiscard h)).symm
  | addClassDep row sig a => exact (modify_error.mp h).elim
  | addMemberDep row sig a => exact (modify_error.mp h).elim
  | addLiteralDep row sig a => exact (modify_error.mp h).elim
  | addArrayDep row sig code => exact (modify_error.mp h).elim
  | addBuiltin row sig id => exact (modify_error.mp h).elim
  | link => simp at hop
  | compact => simp at hop
  | relocate => simp at hop

/-- A class whose interface is missing. -/
def orphanSpec : ClassSpec where
  name := "C"
  super := "R"
  kind := .ordinary
  interfaces := ["I"]
  element := []
  elementType := 0
  poolSize := 1

/-- A registry with nothing but the root. -/
def rootOnly : Registry := Operation.apply {} (.bareClass "R" [])

theorem refused_unchanged_orphan : ∃ e r',
    (Operation.createClass orphanSpec).run rootOnly = .error e r' ∧
    e = .internal (.missingInterface "C" "I") ∧ rootOnly.Strayed r' [0] := by
  have hcheck : refuses ((Operation.createClass orphanSpec).run rootOnly)
      (fun _ r' => r'.rows.size = 2) = true := by decide +kernel
  obtain ⟨e, r', hrun, hsize⟩ := exists_of_refuses hcheck
  obtain rfl | ⟨spec, known, missing, others, hspec, hsplit, -, -, he, hstrayed⟩ :=
    refused_unchanged (by decide) hrun
  · exact absurd (of_decide_eq_true hsize) (by decide +kernel)
  · cases hspec
    obtain ⟨rfl, rfl, rfl⟩ : known = [] ∧ missing = "I" ∧ others = [] := by
      simpa [orphanSpec, List.cons_eq_append_iff] using hsplit
    exact ⟨e, r', hrun, he, hstrayed⟩

/-- A class that is refused for a missing interface is among the subclasses of its superclass from
then on, although it is not registered. -/
theorem refused_leaves_child : ∃ e r' c c',
    (Operation.createClass orphanSpec).run rootOnly = .error e r' ∧
    rootOnly.classAt? 0 = some c ∧ r'.classAt? 0 = some c' ∧ rootOnly.subclasses c = [] ∧
    (r'.subclasses c').map Prod.fst = [1] ∧ 1 ∉ r'.live := by
  have hcheck : refuses ((Operation.createClass orphanSpec).run rootOnly) (fun _ r' =>
      (rootOnly.classAt? 0).any (fun c => rootOnly.subclasses c = []) &&
      (r'.classAt? 0).any (fun c' => (r'.subclasses c').map Prod.fst = [1]) &&
      1 ∉ r'.live) = true := by decide +kernel
  obtain ⟨e, r', hrun, hshown⟩ := exists_of_refuses hcheck
  simp only [Bool.and_eq_true, Option.any_eq_true, decide_eq_true_eq] at hshown
  obtain ⟨⟨⟨c, hc, hbefore⟩, c', hc', hafter⟩, hlive⟩ := hshown
  exact ⟨e, r', c, c', hrun, hc, hc', hbefore, hafter, hlive⟩

end Registry

end ClassLinker
