import ClassLinker.Proofs.Registry.WellFormed

/-! What each operation on the registry does when it succeeds, and that the representation invariant
holds after it, whether or not it succeeds. -/

namespace ClassLinker

namespace Step

/-- The state that a step leaves, whether or not it succeeds. -/
def final {ε σ α : Type} : EStateM.Result ε σ α → σ
  | .ok _ s => s
  | .error _ s => s

@[simp]
theorem final_ok {ε σ α : Type} (a : α) (s : σ) : final (.ok a s : EStateM.Result ε σ α) = s := rfl

@[simp]
theorem final_error {ε σ α : Type} (e : ε) (s : σ) :
    final (.error e s : EStateM.Result ε σ α) = s := rfl

end Step

namespace Registry

open RegistryM Step

/-! ### References, members and marks -/

theorem createRef_ok {row : Nat} {slot : Int} {body : RefBody} {r r' : Registry} {a : RefAddr} :
    createRef row slot body r = .ok a r' ↔
      r.closed = false ∧ ∃ c, r.classAt? row = some c ∧ 0 < slot ∧ slot ≤ lastSlot ∧
        r.refAddr? c.id slot = none ∧ r.modifyClass row (Class.addRef slot body) = r' ∧
        ⟨row, c.pool.size⟩ = a := by
  simp only [createRef, bind_ok, checkOpen_ok, classAt_ok, get_ok, ite_ok, inconsistent_ok,
    modify_ok, pure_ok, and_assoc]
  constructor
  · rintro ⟨_, _, hopen, rfl, c, _, hc, rfl, h⟩
    refine ⟨hopen, c, hc, ?_⟩
    unfold Class.addRef
    simp at h
    grind
  · rintro ⟨hopen, c, hc, hpos, hle, hfree, rfl, rfl⟩
    refine ⟨(), r, hopen, rfl, c, r, hc, rfl, ?_⟩
    simp only [Bool.or_eq_true, decide_eq_true_eq]
    exact Or.inr ⟨by omega, r, r, rfl, rfl, Or.inr ⟨by simp [hfree], (), _, rfl, trivial, rfl⟩⟩

theorem createRef_error {row : Nat} {slot : Int} {body : RefBody} {r r' : Registry} {e : Failure}
    (h : createRef row slot body r = .error e r') : r = r' := by
  simp [createRef, and_assoc] at h
  grind

theorem createLiteral_ok {row : Nat} {slot kind : Int} {value : Option Literal} {r r' : Registry}
    {a : RefAddr} :
    createLiteral row slot kind value r = .ok a r' ↔
      ∃ v, value = some v ∧ LiteralKind.ofCode? kind = some v.kind ∧
        createRef row slot (.literal v) r = .ok a r' := by
  cases value with
  | none => simp [createLiteral]
  | some v =>
      simp only [createLiteral, bind_ok, classAt_ok, and_assoc, ite_ok, inconsistent_ok, and_false,
        or_false, Option.some.injEq, exists_eq_left', createRef_ok]
      constructor
      · rintro ⟨c, r, hc, rfl, hk, h⟩
        exact ⟨hk, h⟩
      · rintro ⟨hk, hopen, c, hc, h⟩
        exact ⟨c, r, hc, rfl, hk, hopen, c, hc, h⟩

theorem createLiteral_error {row : Nat} {slot kind : Int} {value : Option Literal}
    {r r' : Registry} {e : Failure} (h : createLiteral row slot kind value r = .error e r') :
    r = r' := by
  have := @createRef_error row slot
  cases value <;> simp [createLiteral, and_assoc] at h <;> grind

theorem createMethod_ok {row : Nat} {spec : MethodSpec} {r r' : Registry} :
    createMethod row spec r = .ok () r' ↔
      r.closed = false ∧ ∃ c, r.classAt? row = some c ∧ c.declared? spec.sig = none ∧
        ((spec.kind = .native ∨ spec.kind = .abstract) ↔ spec.code = []) ∧
        r.modifyClass row (fun c => { c with methods := c.methods ++ [spec.toMethod] }) = r' := by
  simp [createMethod, and_assoc]
  grind

theorem createMethod_error {row : Nat} {spec : MethodSpec} {r r' : Registry} {e : Failure}
    (h : createMethod row spec r = .error e r') : r = r' := by
  simp [createMethod, and_assoc] at h
  grind

theorem createField_ok {row : Nat} {spec : FieldSpec} {r r' : Registry} :
    createField row spec r = .ok () r' ↔
      r.closed = false ∧ ∃ c, r.classAt? row = some c ∧ c.declared? spec.sig = none ∧
        r.modifyClass row (fun c => { c with fields := c.fields ++ [spec.toField] }) = r' := by
  simp [createField, and_assoc]

theorem createField_error {row : Nat} {spec : FieldSpec} {r r' : Registry} {e : Failure}
    (h : createField row spec r = .error e r') : r = r' := by
  simp [createField, and_assoc] at h
  grind

theorem allocSlot_ok {row : Nat} {r r' : Registry} {slot : Int} :
    allocSlot row r = .ok slot r' ↔
      r.closed = false ∧ ∃ c, r.classAt? row = some c ∧ c.maxSlot < lastSlot ∧
        r.modifyClass row (fun c => { c with maxSlot := c.maxSlot + 1 }) = r' ∧
        c.maxSlot + 1 = slot := by
  simp [allocSlot, and_assoc]

theorem allocSlot_error {row : Nat} {r r' : Registry} {e : Failure}
    (h : allocSlot row r = .error e r') : r = r' := by
  simp [allocSlot, and_assoc] at h
  grind

theorem keepClass_ok {row : Nat} {r r' : Registry} {fresh : Bool} :
    keepClass row r = .ok fresh r' ↔
      r.closed = false ∧ ∃ c, r.classAt? row = some c ∧
        (c.kept = true ∧ fresh = false ∧ r = r' ∨ c.kept = false ∧ fresh = true ∧
          r.modifyClass row (fun c => { c with kept := true }) = r') := by
  simp [keepClass, and_assoc]
  grind

theorem keepClass_error {row : Nat} {r r' : Registry} {e : Failure}
    (h : keepClass row r = .error e r') : r = r' := by
  simp [keepClass, and_assoc] at h
  grind

theorem keepMember_ok {row : Nat} {sig : Signature} {r r' : Registry} {fresh : Bool} :
    keepMember row sig r = .ok fresh r' ↔
      r.closed = false ∧ ∃ c, r.classAt? row = some c ∧ c.kept = true ∧
        ((∃ d, c.declared? sig = some d ∧ d.kept = true) ∧ fresh = false ∧ r = r' ∨
          (∀ d, c.declared? sig = some d → d.kept = false) ∧ fresh = true ∧
          r.modifyClass row (fun c => markMember c sig) = r') := by
  simp only [keepMember, bind_ok, checkOpen_ok, classAt_ok, and_assoc]
  constructor
  · rintro ⟨_, _, hopen, rfl, c, _, hc, rfl, h⟩
    refine ⟨hopen, c, hc, ?_⟩
    cases hd : c.declared? sig <;> simp [hd] at h ⊢ <;> grind
  · rintro ⟨hopen, c, hc, hkept, h⟩
    refine ⟨(), r, hopen, rfl, c, r, hc, rfl, ?_⟩
    cases hd : c.declared? sig <;> simp [hd, hkept] at h ⊢ <;> grind

theorem keepMember_error {row : Nat} {sig : Signature} {r r' : Registry} {e : Failure}
    (h : keepMember row sig r = .error e r') : r = r' := by
  simp [keepMember, and_assoc] at h
  grind

/-- Marks a reference as kept. -/
def markRef (ref : Reference) : Reference := { ref with kept := true }

theorem keepRef_ok {a : RefAddr} {r r' : Registry} {fresh : Bool} :
    keepRef a r = .ok fresh r' ↔
      r.closed = false ∧ ∃ ref, r.refAt? a = some ref ∧
        (∃ row c, r.byId? ref.owner = some row ∧ r.classAt? row = some c ∧ c.kept = true) ∧
        (ref.kept = true ∧ fresh = false ∧ r = r' ∨
          ref.kept = false ∧ fresh = true ∧ r.modifyRef a markRef = r') := by
  simp only [keepRef, bind_ok, checkOpen_ok, refAt_ok, get_ok, and_assoc]
  constructor
  · rintro ⟨_, _, hopen, rfl, ref, _, href, rfl, _, _, rfl, rfl, h⟩
    refine ⟨hopen, ref, href, ?_⟩
    cases hb : (r.byId? ref.owner).bind r.classAt? with
    | none => simp [hb] at h
    | some c =>
        obtain ⟨row, hrow, hc⟩ := Option.bind_eq_some_iff.mp hb
        simp [hb] at h
        refine ⟨⟨row, c, hrow, hc, by grind⟩, ?_⟩
        unfold markRef
        grind
  · rintro ⟨hopen, ref, href, ⟨row, c, hrow, hc, hkept⟩, h⟩
    have hb : (r.byId? ref.owner).bind r.classAt? = some c := by simp [hrow, hc]
    refine ⟨(), r, hopen, rfl, ref, r, href, rfl, r, r, rfl, rfl, ?_⟩
    unfold markRef at h
    simp [hb, hkept]
    grind

theorem keepRef_error {a : RefAddr} {r r' : Registry} {e : Failure}
    (h : keepRef a r = .error e r') : r = r' := by
  simp [keepRef, and_assoc] at h
  grind

namespace WellFormed

variable {r : Registry} {row : Nat} {c : Class}

theorem addRef (h : r.WellFormed) {slot : Int} (hc : r.classAt? row = some c) (hpos : 0 < slot)
    (hle : slot ≤ lastSlot) (hfree : r.refAddr? c.id slot = none) (body : RefBody) :
    (r.modifyClass row (Class.addRef slot body)).WellFormed := by
  apply h.modifyClass
  intro c' hc'
  cases hc.symm.trans hc'
  have hnone : c.slots.lookup slot = none := refAddr?_eq_none.mp hfree row c hc rfl
  have hnodup : c.signatures.Nodup := h.signatures_nodup hc
  refine ⟨rfl, rfl, hnodup, fun hlive => ?_, fun s pos hs => ?_⟩
  · exact (h.indexed hlive hc).addRef hpos hle hnone
  · by_cases heq : s = slot
    · exact Or.inr (heq ▸ hfree)
    · simp only [Class.addRef, List.lookup_cons, beq_false_of_ne heq] at hs
      exact Or.inl ⟨pos, hs⟩

theorem addMethod (h : r.WellFormed) {m : Method} (hc : r.classAt? row = some c)
    (hnew : c.declared? m.sig = none) :
    (r.modifyClass row fun c => { c with methods := c.methods ++ [m] }).WellFormed := by
  apply h.modifyClass
  intro c' hc'
  cases hc.symm.trans hc'
  refine ⟨rfl, rfl, Class.nodup_append_method (h.signatures_nodup hc) hnew, fun hlive => ?_,
    fun s pos hs => Or.inl ⟨pos, hs⟩⟩
  exact (h.indexed hlive hc).of_frame rfl (fun _ => rfl) rfl rfl (Int.le_refl _)

theorem addField (h : r.WellFormed) {f : Field} (hc : r.classAt? row = some c)
    (hnew : c.declared? f.sig = none) :
    (r.modifyClass row fun c => { c with fields := c.fields ++ [f] }).WellFormed := by
  apply h.modifyClass
  intro c' hc'
  cases hc.symm.trans hc'
  refine ⟨rfl, rfl, Class.nodup_append_field (h.signatures_nodup hc) hnew, fun hlive => ?_,
    fun s pos hs => Or.inl ⟨pos, hs⟩⟩
  exact (h.indexed hlive hc).of_frame rfl (fun _ => rfl) rfl rfl (Int.le_refl _)

theorem raiseMaxSlot (h : r.WellFormed) (row : Nat) :
    (r.modifyClass row fun c => { c with maxSlot := c.maxSlot + 1 }).WellFormed :=
  h.modifyClass_of_frame fun c =>
    ⟨rfl, rfl, rfl, fun _ => rfl, rfl, rfl, by show c.maxSlot ≤ c.maxSlot + 1; omega⟩

theorem markClass (h : r.WellFormed) (row : Nat) :
    (r.modifyClass row fun c => { c with kept := true }).WellFormed :=
  h.modifyClass_of_frame fun _ => ⟨rfl, rfl, rfl, fun _ => rfl, rfl, rfl, Int.le_refl _⟩

end WellFormed

theorem createRef_wellFormed {r : Registry} (h : r.WellFormed) (row : Nat) (slot : Int)
    (body : RefBody) : (final (createRef row slot body r)).WellFormed := by
  cases hr : createRef row slot body r with
  | error e r' => exact createRef_error hr ▸ h
  | ok a r' =>
      obtain ⟨-, c, hc, hpos, hle, hfree, rfl, -⟩ := createRef_ok.mp hr
      exact h.addRef hc hpos hle hfree body

theorem createMethod_wellFormed {r : Registry} (h : r.WellFormed) (row : Nat) (spec : MethodSpec) :
    (final (createMethod row spec r)).WellFormed := by
  cases hr : createMethod row spec r with
  | error e r' => exact createMethod_error hr ▸ h
  | ok a r' =>
      obtain ⟨-, c, hc, hnew, -, rfl⟩ := createMethod_ok.mp hr
      exact h.addMethod hc hnew

theorem createField_wellFormed {r : Registry} (h : r.WellFormed) (row : Nat) (spec : FieldSpec) :
    (final (createField row spec r)).WellFormed := by
  cases hr : createField row spec r with
  | error e r' => exact createField_error hr ▸ h
  | ok a r' =>
      obtain ⟨-, c, hc, hnew, rfl⟩ := createField_ok.mp hr
      exact h.addField hc hnew

theorem allocSlot_wellFormed {r : Registry} (h : r.WellFormed) (row : Nat) :
    (final (allocSlot row r)).WellFormed := by
  cases hr : allocSlot row r with
  | error e r' => exact allocSlot_error hr ▸ h
  | ok slot r' =>
      obtain ⟨-, c, -, -, rfl, -⟩ := allocSlot_ok.mp hr
      exact h.raiseMaxSlot row

theorem keepClass_wellFormed {r : Registry} (h : r.WellFormed) (row : Nat) :
    (final (keepClass row r)).WellFormed := by
  cases hr : keepClass row r with
  | error e r' => exact keepClass_error hr ▸ h
  | ok fresh r' =>
      obtain ⟨-, c, -, ⟨-, -, rfl⟩ | ⟨-, -, rfl⟩⟩ := keepClass_ok.mp hr
      · exact h
      · exact h.markClass row

/-- Marking a member changes no signature. -/
theorem signatures_markMember (c : Class) (sig : Signature) :
    (markMember c sig).signatures = c.signatures := by
  have hm : (c.methods.map fun m => if m.sig = sig then { m with kept := true } else m).map
      Method.sig = c.methods.map Method.sig := by
    rw [List.map_map]
    exact List.map_congr_left fun m _ => by simp only [Function.comp]; split <;> rfl
  have hf : (c.fields.map fun f => if f.sig = sig then { f with kept := true } else f).map
      Field.sig = c.fields.map Field.sig := by
    rw [List.map_map]
    exact List.map_congr_left fun f _ => by simp only [Function.comp]; split <;> rfl
  unfold markMember Class.signatures
  split
  · rw [hm]
  · rw [hf]

theorem WellFormed.markMember {r : Registry} (h : r.WellFormed) (row : Nat) (sig : Signature) :
    (r.modifyClass row fun c => markMember c sig).WellFormed := by
  refine h.modifyClass_of_frame fun c => ⟨?_, ?_, signatures_markMember c sig, ?_⟩
  all_goals unfold Registry.markMember; split <;> simp

theorem keepMember_wellFormed {r : Registry} (h : r.WellFormed) (row : Nat) (sig : Signature) :
    (final (keepMember row sig r)).WellFormed := by
  cases hr : keepMember row sig r with
  | error e r' => exact keepMember_error hr ▸ h
  | ok fresh r' =>
      obtain ⟨-, c, -, -, ⟨-, -, rfl⟩ | ⟨-, -, rfl⟩⟩ := keepMember_ok.mp hr
      · exact h
      · exact h.markMember row sig

/-- Changing references without moving them keeps the registry well formed. -/
theorem modifyRef_wellFormed {r : Registry} (h : r.WellFormed) (a : RefAddr)
    {f : Reference → Reference} (hf : ∀ ref, (f ref).key = ref.key) :
    (r.modifyRef a f).WellFormed := by
  refine h.modifyClass_of_frame fun c => ⟨rfl, rfl, rfl, fun pos => ?_, rfl, rfl, Int.le_refl _⟩
  rw [Array.getElem?_modify]
  split
  · cases c.pool[pos]? <;> simp [hf]
  · rfl

theorem keepRef_wellFormed {r : Registry} (h : r.WellFormed) (a : RefAddr) :
    (final (keepRef a r)).WellFormed := by
  cases hr : keepRef a r with
  | error e r' => exact keepRef_error hr ▸ h
  | ok fresh r' =>
      obtain ⟨-, ref, -, -, ⟨-, -, rfl⟩ | ⟨-, -, rfl⟩⟩ := keepRef_ok.mp hr
      · exact h
      · exact modifyRef_wellFormed h a fun _ => rfl

/-- Changing a method without renaming it keeps the registry well formed. -/
theorem modifyMethod_wellFormed {r : Registry} (h : r.WellFormed) (row : Nat) (sig : Signature)
    {f : Method → Method} (hf : ∀ m, (f m).sig = m.sig) :
    (r.modifyMethod row sig f).WellFormed := by
  refine h.modifyClass_of_frame fun c =>
    ⟨rfl, rfl, ?_, fun pos => rfl, rfl, rfl, Int.le_refl _⟩
  unfold Class.signatures
  congr 1
  rw [List.map_map]
  exact List.map_congr_left fun m _ => by
    simp only [Function.comp]
    split
    · exact hf m
    · rfl

/-! ### Classes

Registering a class stores its row, makes it a child of its supertypes and then lists it. A failure
in between leaves the row and what was done to the children behind. -/

/-- The class in a row is the superclass or an interface of a class. -/
def Supertype (r : Registry) (c : Class) (parent : Nat) : Prop :=
  r.superOf? c = some parent ∨ ∃ i ∈ c.interfaces, r.find? i = some parent

/-- Makes a class a child of each of the given classes in turn. -/
def adopt (r : Registry) (parents : List Nat) (child : Nat) : Registry :=
  parents.foldl (fun r parent => r.addChild parent child) r

/-- `r'` is `r` but for the children of its classes, of which there may be more. -/
structure SameButChildren (r r' : Registry) : Prop where
  frame : r' = { r with rows := r'.rows }
  size_eq : r'.rows.size = r.rows.size
  classes : ∀ {row c}, r.classAt? row = some c →
    ∃ children, r'.classAt? row = some { c with children := children }
  children : ∀ {row c c'}, r.classAt? row = some c → r'.classAt? row = some c' →
    c.children ⊆ c'.children

namespace SameButChildren

variable {r r' r'' : Registry}

theorem refl (r : Registry) : SameButChildren r r where
  frame := rfl
  size_eq := rfl
  classes {_ c} hc := ⟨c.children, hc⟩
  children hc hc' := by
    cases hc.symm.trans hc'
    exact List.Subset.refl _

theorem trans (h : SameButChildren r r') (h' : SameButChildren r' r'') :
    SameButChildren r r'' := by
  refine ⟨?_, h'.size_eq.trans h.size_eq, ?_, ?_⟩
  · rw [h'.frame, h.frame]
  · intro row c hc
    obtain ⟨children, hc'⟩ := h.classes hc
    obtain ⟨children', hc''⟩ := h'.classes hc'
    exact ⟨children', hc''⟩
  · intro row c c'' hc hc''
    obtain ⟨children, hc'⟩ := h.classes hc
    exact List.Subset.trans (h.children hc hc') (h'.children hc' hc'')

theorem addChild (r : Registry) (parent child : Nat) :
    SameButChildren r (r.addChild parent child) := by
  refine ⟨rfl, size_modifyClass .., ?_, ?_⟩
  · intro row c hc
    rw [Registry.addChild, classAt?_modifyClass, hc]
    split
    · exact ⟨_, rfl⟩
    · exact ⟨c.children, rfl⟩
  · intro row c c' hc hc'
    rw [Registry.addChild, classAt?_modifyClass, hc] at hc'
    split at hc'
    · cases hc'
      exact List.subset_append_left ..
    · cases hc'
      exact List.Subset.refl _

theorem mem_children_addChild {parent child : Nat} {c : Class}
    (hc : (r.addChild parent child).classAt? parent = some c) : child ∈ c.children := by
  rw [Registry.addChild, classAt?_modifyClass, if_pos rfl] at hc
  obtain ⟨c₀, -, rfl⟩ := Option.map_eq_some_iff.mp hc
  exact List.mem_append_right _ (List.mem_singleton.mpr rfl)

theorem adopt (r : Registry) (parents : List Nat) (child : Nat) :
    SameButChildren r (r.adopt parents child) := by
  induction parents generalizing r with
  | nil => exact .refl r
  | cons parent parents ih => exact (addChild r parent child).trans (ih _)

theorem find?_eq (h : SameButChildren r r') (name : Text) : r'.find? name = r.find? name := by
  rw [h.frame]
  rfl

theorem live_eq (h : SameButChildren r r') : r'.live = r.live := by
  rw [h.frame]

/-- Every class of the changed registry comes from one of the old registry. -/
theorem exists_old (h : SameButChildren r r') {row : Nat} {c' : Class}
    (hc' : r'.classAt? row = some c') :
    ∃ c, r.classAt? row = some c ∧ c' = { c with children := c'.children } := by
  obtain ⟨c, hc⟩ := exists_classAt? (h.size_eq ▸ classAt?_lt hc')
  obtain ⟨children, hchildren⟩ := h.classes hc
  cases hc'.symm.trans hchildren
  exact ⟨c, hc, rfl⟩

theorem wellFormed (h : SameButChildren r r') (hr : r.WellFormed) : r'.WellFormed := by
  refine hr.of_sameIndex h.live_eq h.find?_eq h.size_eq ?_
  intro row c' hc'
  obtain ⟨c, hc, heq⟩ := h.exists_old hc'
  refine ⟨c, hc, ?_⟩
  rw [heq]
  exact ⟨rfl, rfl, rfl, fun _ => rfl, rfl, rfl, Int.le_refl _⟩

end SameButChildren

/-- The first interface is registered, and then the others are gone through. -/
theorem addToInterfaces_cons_ok {name i : Text} {row : Nat} {rest : List Text} {r r' : Registry} :
    addToInterfaces name row (i :: rest) r = .ok () r' ↔
      ∃ p, r.find? i = some p ∧ addToInterfaces name row rest (r.addChild p row) = .ok () r' := by
  simp only [addToInterfaces, bind_ok, get_ok, and_assoc]
  constructor
  · rintro ⟨_, _, rfl, rfl, h⟩
    cases hfind : r.find? i with
    | none => simp [hfind] at h
    | some p =>
        simp only [hfind, bind_ok, modify_ok] at h
        obtain ⟨_, _, rfl, h⟩ := h
        exact ⟨p, rfl, h⟩
  · rintro ⟨p, hfind, h⟩
    refine ⟨r, r, rfl, rfl, ?_⟩
    simp only [hfind, bind_ok, modify_ok]
    exact ⟨.unit, _, rfl, h⟩

theorem addToInterfaces_ok {name : Text} {row : Nat} {interfaces : List Text} {r r' : Registry}
    (h : addToInterfaces name row interfaces r = .ok () r') :
    (∀ i ∈ interfaces, ∃ p, r.find? i = some p ∧
      ∀ {c'}, r'.classAt? p = some c' → row ∈ c'.children) ∧ SameButChildren r r' := by
  induction interfaces generalizing r with
  | nil =>
      simp only [addToInterfaces, pure_ok] at h
      obtain ⟨-, rfl⟩ := h
      exact ⟨by simp, .refl r⟩
  | cons i rest ih =>
      obtain ⟨p, hfind, h⟩ := addToInterfaces_cons_ok.mp h
      obtain ⟨hrest, hsame⟩ := ih h
      refine ⟨?_, (SameButChildren.addChild r p row).trans hsame⟩
      intro j hj
      rcases List.mem_cons.mp hj with rfl | hj
      · refine ⟨p, hfind, fun {c'} hc' => ?_⟩
        obtain ⟨c₁, hc₁, -⟩ := hsame.exists_old hc'
        exact hsame.children hc₁ hc' (SameButChildren.mem_children_addChild hc₁)
      · exact hrest j hj

/-- The first interface is missing, or one of the others is. -/
theorem addToInterfaces_cons_error {name i : Text} {row : Nat} {rest : List Text} {r r' : Registry}
    {e : Failure} (h : addToInterfaces name row (i :: rest) r = .error e r') :
    (r.find? i = none ∧ e = .internal (.missingInterface name i) ∧ r' = r) ∨
      ∃ p, r.find? i = some p ∧ addToInterfaces name row rest (r.addChild p row) = .error e r' := by
  simp only [addToInterfaces, bind_error, get_error, get_ok, and_assoc, false_or] at h
  obtain ⟨_, _, rfl, rfl, h⟩ := h
  cases hfind : r.find? i with
  | none =>
      simp only [hfind, inconsistent_error] at h
      obtain ⟨rfl, rfl⟩ := h
      exact .inl ⟨rfl, rfl, rfl⟩
  | some p =>
      simp only [hfind, bind_error, modify_error, modify_ok, false_or] at h
      obtain ⟨_, _, rfl, h⟩ := h
      exact .inr ⟨p, rfl, h⟩

theorem addToInterfaces_error {name : Text} {row : Nat} {interfaces : List Text} {r r' : Registry}
    {e : Failure} (h : addToInterfaces name row interfaces r = .error e r') :
    SameButChildren r r' := by
  induction interfaces generalizing r with
  | nil => simp [addToInterfaces] at h
  | cons i rest ih =>
      rcases addToInterfaces_cons_error h with ⟨-, -, rfl⟩ | ⟨p, -, hrest⟩
      · exact .refl r'
      · exact (SameButChildren.addChild r p row).trans (ih hrest)

/-- The registry with a row stored for a class that is not listed yet. -/
def store (r : Registry) (c : Class) : Registry := { r with rows := r.rows.push c }

/-- The registry with a stored row listed under a name. -/
def enlist (r : Registry) (row : Nat) (name : Text) : Registry :=
  { r with live := r.live ++ [row], names := (name, row) :: r.names }

theorem classAt?_store (r : Registry) (c : Class) (row : Nat) :
    (r.store c).classAt? row = if row = r.rows.size then some c else r.classAt? row := by
  simp only [store, classAt?]
  exact Array.getElem?_push

theorem store_wellFormed {r : Registry} (h : r.WellFormed) {c : Class} (hslots : c.slots = [])
    (hsigs : c.signatures.Nodup) : (r.store c).WellFormed := by
  have hold : ∀ {row c'}, row ∈ r.live → (r.store c).classAt? row = some c' →
      r.classAt? row = some c' := by
    intro row c' hrow hc'
    rw [classAt?_store, if_neg (Nat.ne_of_lt (h.live_lt hrow))] at hc'
    exact hc'
  constructor
  · intro row hrow
    have := h.live_lt hrow
    simp only [store, Array.size_push]
    omega
  · exact h.live_sorted
  · intro i row c' hi hc'
    exact h.id_eq hi (hold (List.mem_of_getElem? hi) hc')
  · exact h.find_live
  · intro name row c' hfind hc'
    exact h.find_name hfind (hold (h.find_live hfind) hc')
  · intro row c' hc'
    rw [classAt?_store] at hc'
    split at hc'
    · cases hc'
      exact hsigs
    · exact h.signatures_nodup hc'
  · intro row c' hrow hc'
    exact h.indexed hrow (hold hrow hc')
  · intro p q cp cq slot i j hp hq hid hi hj
    rw [classAt?_store] at hp hq
    split at hp
    · cases hp
      rw [hslots] at hi
      cases hi
    split at hq
    · cases hq
      rw [hslots] at hj
      cases hj
    exact h.slot_row hp hq hid hi hj

theorem find?_enlist (r : Registry) (row : Nat) (name name' : Text) :
    (r.enlist row name).find? name' = if name' = name then some row else r.find? name' := by
  simp only [enlist, find?, List.lookup_cons]
  by_cases h : name' = name
  · simp [h]
  · simp [h, beq_false_of_ne h]

theorem enlist_wellFormed {r : Registry} (h : r.WellFormed) {row : Nat} {c : Class}
    (hc : r.classAt? row = some c) (hlast : ∀ p ∈ r.live, p < row) (hid : c.id = r.live.length)
    (hindexed : c.Indexed) : (r.enlist row c.name).WellFormed := by
  constructor
  · intro p hp
    rcases List.mem_append.mp hp with hp | hp
    · exact h.live_lt hp
    · rw [List.mem_singleton.mp hp]
      exact classAt?_lt hc
  · refine List.pairwise_append.mpr ⟨h.live_sorted, List.pairwise_singleton .., ?_⟩
    intro p hp q hq
    rw [List.mem_singleton.mp hq]
    exact hlast p hp
  · intro i p c' hi hc'
    simp only [enlist, List.getElem?_append] at hi
    split at hi
    · exact h.id_eq hi hc'
    · rename_i hge
      rw [List.getElem?_singleton] at hi
      split at hi
      · cases hi
        cases hc.symm.trans hc'
        omega
      · cases hi
  · intro name p hfind
    rw [find?_enlist] at hfind
    split at hfind
    · cases hfind
      exact List.mem_append_right _ (List.mem_singleton.mpr rfl)
    · exact List.mem_append_left _ (h.find_live hfind)
  · intro name p c' hfind hc'
    rw [find?_enlist] at hfind
    split at hfind
    · rename_i heq
      cases hfind
      cases hc.symm.trans hc'
      exact heq.symm
    · exact h.find_name hfind hc'
  · exact h.signatures_nodup
  · intro p c' hp hc'
    rcases List.mem_append.mp hp with hp | hp
    · exact h.indexed hp hc'
    · rw [List.mem_singleton.mp hp] at hc'
      cases hc.symm.trans hc'
      exact hindexed
  · exact h.slot_row

theorem indexed_toClass (spec : ClassSpec) (id : Nat) : (spec.toClass id).Indexed := by
  have hmax : 0 ≤ (spec.toClass id).maxSlot := by
    dsimp only [ClassSpec.toClass]
    split <;> omega
  refine ⟨?_, ?_, ?_, ?_, ?_, hmax⟩ <;> simp [ClassSpec.toClass]

/-- A registered class has a new name, its supertypes are registered and have it as a child, and it
is the root exactly when it is the first. -/
theorem createClass_ok {spec : ClassSpec} {r r' : Registry} {row : Nat}
    (h : createClass spec r = .ok row r') :
    r.closed = false ∧ r.find? spec.name = none ∧ (spec.super = [] ↔ r.live = []) ∧
      (spec.super ≠ [] → ∃ p, r.find? spec.super = some p) ∧
      (∀ i ∈ spec.interfaces, ∃ p, r.find? i = some p) ∧ row = r.rows.size ∧
      SameButChildren ((r.store (spec.toClass r.live.length)).enlist row spec.name) r' ∧
      ∀ {id p c'}, r.Supertype (spec.toClass id) p → r'.classAt? p = some c' →
        row ∈ c'.children := by
  have hlist : ∀ {t u : Registry}, SameButChildren t u →
      SameButChildren (t.enlist r.rows.size spec.name) (u.enlist r.rows.size spec.name) := by
    intro t u hsame
    refine ⟨?_, hsame.size_eq, hsame.classes, hsame.children⟩
    rw [hsame.frame]
    rfl
  simp only [createClass, bind_ok, checkOpen_ok, get_ok, ite_ok, inconsistent_ok, and_assoc] at h
  obtain ⟨_, _, hopen, rfl, _, _, rfl, rfl, h⟩ := h
  simp only [false_and, exists_false, and_false, false_or, Option.isSome_iff_ne_none, ne_eq,
    not_not, Bool.and_eq_true, decide_eq_true_eq, Bool.not_eq_true', List.isEmpty_iff,
    List.isEmpty_eq_false_iff, not_and] at h
  obtain ⟨hnew, hfirst, hlater, h⟩ := h
  have hroot : spec.super = [] ↔ r.live = [] := by
    constructor
    · exact hfirst
    · intro hlive
      by_contra hsuper
      exact hlater hsuper hlive
  rcases h with ⟨hsuper, h⟩ | ⟨hsuper, h⟩
  · simp only [set_ok, modify_ok, pure_ok] at h
    obtain ⟨_, _, rfl, _, u, hadd, _, _, rfl, rfl, rfl⟩ := h
    obtain ⟨hinterfaces, hsame⟩ := addToInterfaces_ok hadd
    refine ⟨hopen, hnew, hroot, fun hne => absurd hsuper hne,
      fun i hi => (hinterfaces i hi).imp fun _ hp => hp.1, rfl, hlist hsame, ?_⟩
    rintro id p c' (hp | ⟨i, hi, hp⟩) hc'
    · have hnone : r.superOf? (spec.toClass id) = none := if_pos hsuper
      cases hnone.symm.trans hp
    · obtain ⟨q, hq, hchild⟩ := hinterfaces i hi
      cases hp.symm.trans hq
      exact hchild hc'
  · cases hfind : r.find? spec.super with
    | none => simp [hfind] at h
    | some p =>
        simp only [hfind, bind_ok, set_ok, modify_ok, pure_ok] at h
        obtain ⟨_, _, rfl, _, u, hadd, _, _, rfl, rfl, rfl⟩ := h
        obtain ⟨hinterfaces, hsame⟩ := addToInterfaces_ok hadd
        refine ⟨hopen, hnew, hroot, fun _ => ⟨p, rfl⟩,
          fun i hi => (hinterfaces i hi).imp fun _ hp => hp.1, rfl,
          hlist ((SameButChildren.addChild _ _ _).trans hsame), ?_⟩
        rintro id q c' (hq | ⟨i, hi, hq⟩) hc'
        · have hsome : r.superOf? (spec.toClass id) = some p := (if_neg hsuper).trans hfind
          cases hsome.symm.trans hq
          obtain ⟨c₁, hc₁, -⟩ := hsame.exists_old hc'
          exact hsame.children hc₁ hc' (SameButChildren.mem_children_addChild hc₁)
        · obtain ⟨q', hq', hchild⟩ := hinterfaces i hi
          cases hq.symm.trans hq'
          exact hchild hc'

theorem children_addChild {r : Registry} {parent child p k : Nat} {c' : Class}
    (hc' : (r.addChild parent child).classAt? p = some c') (hk : k ∈ c'.children) :
    (∃ c, r.classAt? p = some c ∧ k ∈ c.children) ∨ k = child ∧ p = parent := by
  obtain ⟨c, hc, ⟨hp, rfl⟩ | ⟨-, rfl⟩⟩ := classAt?_of_modifyClass hc'
  · rcases List.mem_append.mp hk with hk | hk
    · exact .inl ⟨c, hc, hk⟩
    · exact .inr ⟨List.mem_singleton.mp hk, hp⟩
  · exact .inl ⟨c', hc, hk⟩

theorem children_addToInterfaces {name : Text} {row : Nat} {interfaces : List Text}
    {r r' : Registry} (h : addToInterfaces name row interfaces r = .ok () r') {p k : Nat}
    {c' : Class} (hc' : r'.classAt? p = some c') (hk : k ∈ c'.children) :
    (∃ c, r.classAt? p = some c ∧ k ∈ c.children) ∨
      k = row ∧ ∃ i ∈ interfaces, r.find? i = some p := by
  induction interfaces generalizing r with
  | nil =>
      simp only [addToInterfaces, pure_ok] at h
      obtain ⟨-, rfl⟩ := h
      exact .inl ⟨c', hc', hk⟩
  | cons i rest ih =>
      obtain ⟨q, hfind, h⟩ := addToInterfaces_cons_ok.mp h
      rcases ih h with ⟨c₁, hc₁, hk₁⟩ | ⟨hrow, j, hj, hp⟩
      · rcases children_addChild hc₁ hk₁ with hold | ⟨hrow, rfl⟩
        · exact .inl hold
        · exact .inr ⟨hrow, i, List.mem_cons_self, hfind⟩
      · exact .inr ⟨hrow, j, List.mem_cons_of_mem _ hj, hp⟩

/-- Registering a class makes it a child of its supertypes only. -/
theorem children_createClass {spec : ClassSpec} {r r' : Registry} {row : Nat}
    (h : createClass spec r = .ok row r') {p k : Nat} {c' : Class}
    (hc' : r'.classAt? p = some c') (hk : k ∈ c'.children) (id : Nat) :
    (∃ c, r.classAt? p = some c ∧ k ∈ c.children) ∨
      k = row ∧ r.Supertype (spec.toClass id) p := by
  have hstored : ∀ {c}, (r.store (spec.toClass r.live.length)).classAt? p = some c →
      k ∈ c.children → ∃ c, r.classAt? p = some c ∧ k ∈ c.children := by
    intro c hc hk
    rw [classAt?_store] at hc
    split at hc
    · cases hc
      cases hk
    · exact ⟨c, hc, hk⟩
  simp only [createClass, bind_ok, checkOpen_ok, get_ok, ite_ok, inconsistent_ok, and_assoc] at h
  obtain ⟨_, _, -, rfl, _, _, rfl, rfl, h⟩ := h
  simp only [false_and, exists_false, and_false, false_or] at h
  obtain ⟨-, -, -, ⟨-, h⟩ | ⟨hsuper, h⟩⟩ := h
  · simp only [set_ok, modify_ok, pure_ok] at h
    obtain ⟨_, _, rfl, _, u, hadd, _, _, rfl, rfl, rfl⟩ := h
    rcases children_addToInterfaces hadd hc' hk with ⟨c, hc, hk⟩ | ⟨hrow, i, hi, hp⟩
    · exact .inl (hstored hc hk)
    · exact .inr ⟨hrow, .inr ⟨i, hi, hp⟩⟩
  · cases hfind : r.find? spec.super with
    | none => simp [hfind] at h
    | some q =>
        simp only [hfind, bind_ok, set_ok, modify_ok, pure_ok] at h
        obtain ⟨_, _, rfl, _, u, hadd, _, _, rfl, rfl, rfl⟩ := h
        rcases children_addToInterfaces hadd hc' hk with ⟨c, hc, hk⟩ | ⟨hrow, i, hi, hp⟩
        · rcases children_addChild hc hk with ⟨c, hc, hk⟩ | ⟨hrow, rfl⟩
          · exact .inl (hstored hc hk)
          · exact .inr ⟨hrow, .inl ((if_neg hsuper).trans hfind)⟩
        · exact .inr ⟨hrow, .inr ⟨i, hi, hp⟩⟩

/-- Registering a class fails before anything is changed, or at one of its interfaces. -/
theorem createClass_fails {spec : ClassSpec} {r r' : Registry} {e : Failure}
    (h : createClass spec r = .error e r') :
    r = r' ∨ addToInterfaces spec.name r.rows.size spec.interfaces
      ((r.store (spec.toClass r.live.length)).adopt
        (r.superOf? (spec.toClass r.live.length)).toList r.rows.size) = .error e r' := by
  simp only [createClass, bind_error, checkOpen_ok, checkOpen_error, get_ok, get_error,
    ite_error, inconsistent_error, inconsistent_ok, and_assoc] at h
  rcases h with ⟨-, -, rfl⟩ | ⟨_, _, hopen, rfl, h⟩
  · exact Or.inl rfl
  rcases h with h | ⟨_, _, rfl, rfl, h⟩
  · exact h.elim
  rcases h with ⟨-, (⟨-, rfl⟩ | h)⟩ | ⟨-, h⟩
  · exact Or.inl rfl
  · simp at h
  rcases h with ⟨-, (⟨-, rfl⟩ | h)⟩ | ⟨-, h⟩
  · exact Or.inl rfl
  · simp at h
  rcases h with ⟨-, (⟨-, rfl⟩ | h)⟩ | ⟨-, h⟩
  · exact Or.inl rfl
  · simp at h
  rcases h with ⟨hsuper, h⟩ | ⟨hsuper, h⟩
  · simp only [set_ok, set_error, modify_error, pure_error, and_false, exists_false, or_false,
      false_or] at h
    obtain ⟨_, _, rfl, h⟩ := h
    have hnone : r.superOf? (spec.toClass r.live.length) = none := if_pos hsuper
    exact Or.inr (by rw [hnone]; exact h)
  · cases hfind : r.find? spec.super with
    | none =>
        simp only [hfind, bind_error, inconsistent_error, inconsistent_ok, false_and, exists_false,
          or_false] at h
        exact Or.inl h.2
    | some p =>
        simp only [hfind, bind_error, set_ok, set_error, modify_error, pure_error,
          and_false, exists_false, or_false, false_or] at h
        obtain ⟨_, _, rfl, h⟩ := h
        have hsome : r.superOf? (spec.toClass r.live.length) = some p :=
          (if_neg hsuper).trans hfind
        exact Or.inr (by rw [hsome]; exact h)

theorem createClass_error {spec : ClassSpec} {r r' : Registry} {e : Failure}
    (h : createClass spec r = .error e r') :
    r = r' ∨ SameButChildren (r.store (spec.toClass r.live.length)) r' := by
  rcases createClass_fails h with rfl | hadd
  · exact Or.inl rfl
  · exact Or.inr ((SameButChildren.adopt ..).trans (addToInterfaces_error hadd))

theorem store_toClass_wellFormed {r : Registry} (h : r.WellFormed) (spec : ClassSpec) (id : Nat) :
    (r.store (spec.toClass id)).WellFormed :=
  store_wellFormed h rfl (by simp [Class.signatures, ClassSpec.toClass])

theorem createClass_wellFormed {r : Registry} (h : r.WellFormed) (spec : ClassSpec) :
    (final (createClass spec r)).WellFormed := by
  have hstored := store_toClass_wellFormed h spec r.live.length
  cases hr : createClass spec r with
  | error e r' =>
      rcases createClass_error hr with rfl | hsame
      · exact h
      · exact hsame.wellFormed hstored
  | ok row r' =>
      obtain ⟨-, -, -, -, -, rfl, hsame, -⟩ := createClass_ok hr
      apply hsame.wellFormed
      exact enlist_wellFormed (c := spec.toClass r.live.length) hstored
        (by rw [classAt?_store, if_pos rfl]) (fun p hp => h.live_lt hp) rfl
        (indexed_toClass spec r.live.length)

end Registry

end ClassLinker
