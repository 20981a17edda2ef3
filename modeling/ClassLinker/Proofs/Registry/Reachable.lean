import ClassLinker.Proofs.Registry.Meaning

/-! The registries that operations lead to. Operations may fail at any point, and what they had
changed before stays changed; the registry is well formed all the same, and linking and compacting
it preserves the meaning of every member instruction. The one failure after which this is no longer
so is that of a compaction that has begun: it leaves the slots of the classes unknown, so that a
slot can be given away twice. -/

namespace ClassLinker

namespace Step

variable {ε σ α β : Type}

@[simp]
theorem final_discard (x : EStateM ε σ α) (s : σ) : final ((discard x) s) = final (x s) := by
  show final ((Functor.mapConst PUnit.unit x) s) = _
  simp only [Functor.mapConst, Function.comp_apply]
  show final ((EStateM.map _ x) s) = _
  unfold EStateM.map
  cases x s <;> rfl

/-- A sequence leaves a state with a property when its first step does and, if that succeeds, the
rest does. -/
theorem final_bind {P : σ → Prop} {x : EStateM ε σ α} {f : α → EStateM ε σ β} {s : σ}
    (hx : P (final (x s))) (hf : ∀ {a t}, x s = .ok a t → P (final (f a t))) :
    P (final ((x >>= f) s)) := by
  cases h : x s with
  | ok a t =>
      rw [bind_of_ok h]
      exact hf h
  | error e t =>
      rw [bind_of_error h]
      rw [h] at hx
      exact hx

/-- What two steps preserve, whether or not they succeed, their sequence preserves. -/
theorem final_seq {P : σ → Prop} {x : EStateM ε σ α} {f : α → EStateM ε σ β} {s : σ}
    (hx : P (final (x s))) (hf : ∀ {a t}, P t → P (final (f a t))) : P (final ((x >>= f) s)) :=
  final_bind hx fun {a t} ht => hf (by rwa [ht] at hx)

/-- What every step of a list of steps preserves, whether or not it succeeds, the list preserves. -/
theorem final_forM {P : σ → Prop} {f : α → EStateM ε σ PUnit} {xs : List α} {s : σ}
    (hstep : ∀ x ∈ xs, ∀ {s}, P s → P (final (f x s))) (hs : P s) : P (final (xs.forM f s)) := by
  induction xs generalizing s with
  | nil => exact hs
  | cons x xs ih =>
      have hx := hstep x List.mem_cons_self hs
      refine final_bind hx fun {a t} ht => ih (fun y hy => hstep y (List.mem_cons_of_mem _ hy)) ?_
      rwa [ht] at hx

end Step

/-- `m'` is `m` with other dependencies and other relocated code. -/
def Method.Annotated (m m' : Method) : Prop :=
  m' = { m with
    relocated := m'.relocated, classDeps := m'.classDeps, memberDeps := m'.memberDeps
    literalDeps := m'.literalDeps, arrayDeps := m'.arrayDeps, builtins := m'.builtins }

namespace Registry

open RegistryM Step

/-- A step that leaves the registry alone when it fails. -/
theorem final_of_unchanged {α : Type} {P : Registry → Prop} {x : RegistryM α} (hr : P r)
    (herror : ∀ {e r'}, x r = .error e r' → r = r') (hok : ∀ {a r'}, x r = .ok a r' → P r') :
    P (final (x r)) := by
  cases hx : x r with
  | error e r' => exact herror hx ▸ hr
  | ok a r' => exact hok hx

@[simp]
theorem final_classAt (row : Nat) (r : Registry) : final (RegistryM.classAt row r) = r := by
  cases hx : RegistryM.classAt row r with
  | error e r' => exact (classAt_error.mp hx).2.2.symm
  | ok c r' => exact (classAt_ok.mp hx).2.symm

@[simp]
theorem final_refAt (a : RefAddr) (r : Registry) : final (RegistryM.refAt a r) = r := by
  cases hx : RegistryM.refAt a r with
  | error e r' => exact (refAt_error.mp hx).2.2.symm
  | ok ref r' => exact (refAt_ok.mp hx).2.symm

/-- An operation on the registry. -/
inductive Operation where
  | createClass (spec : ClassSpec)
  | createMethod (row : Nat) (spec : MethodSpec)
  | createField (row : Nat) (spec : FieldSpec)
  | createClassRef (row : Nat) (slot : Int) (target : Text)
  | createMemberRef (row : Nat) (slot : Int) (target : Member)
  | createLiteral (row : Nat) (slot kind : Int) (value : Option Literal)
  | allocSlot (row : Nat)
  | keepClass (row : Nat)
  | keepMember (row : Nat) (sig : Signature)
  | keepRef (a : RefAddr)
  | addClassDep (row : Nat) (sig : Signature) (a : RefAddr)
  | addMemberDep (row : Nat) (sig : Signature) (a : RefAddr)
  | addLiteralDep (row : Nat) (sig : Signature) (a : RefAddr)
  | addArrayDep (row : Nat) (sig : Signature) (code : Int)
  | addBuiltin (row : Nat) (sig : Signature) (id : Int)
  | link
  | compact
  | relocate
deriving DecidableEq

namespace Operation

/-- Does what an operation says. -/
def run : Operation → RegistryM Unit
  | createClass spec => discard (Registry.createClass spec)
  | createMethod row spec => Registry.createMethod row spec
  | createField row spec => Registry.createField row spec
  | createClassRef row slot target => discard (Registry.createClassRef row slot target)
  | createMemberRef row slot target => discard (Registry.createMemberRef row slot target)
  | createLiteral row slot kind value => discard (Registry.createLiteral row slot kind value)
  | allocSlot row => discard (Registry.allocSlot row)
  | keepClass row => discard (Registry.keepClass row)
  | keepMember row sig => discard (Registry.keepMember row sig)
  | keepRef a => discard (Registry.keepRef a)
  | addClassDep row sig a => modify (Registry.addClassDep row sig a)
  | addMemberDep row sig a => modify (Registry.addMemberDep row sig a)
  | addLiteralDep row sig a => modify (Registry.addLiteralDep row sig a)
  | addArrayDep row sig code => modify (Registry.addArrayDep row sig code)
  | addBuiltin row sig id => modify (Registry.addBuiltin row sig id)
  | link => Registry.link
  | compact => Registry.compact
  | relocate => Registry.relocate

/-- The registry that an operation leaves, whether or not it succeeds. -/
def apply (r : Registry) (op : Operation) : Registry := final (op.run r)

/-- The row of the class that an operation is about. -/
def row? : Operation → Option Nat
  | createMethod row _ | createField row _ | createClassRef row _ _ | createMemberRef row _ _
  | createLiteral row _ _ _ | allocSlot row | keepClass row | keepMember row _
  | addClassDep row _ _ | addMemberDep row _ _ | addLiteralDep row _ _ | addArrayDep row _ _
  | addBuiltin row _ _ => some row
  | keepRef a => some a.row
  | createClass _ | link | compact | relocate => none

end Operation

/-- The registries that operations lead to, as long as no compaction fails after it has begun. -/
inductive Reachable : Registry → Prop
  | empty : Reachable {}
  | step {r : Registry} (op : Operation) (h : Reachable r)
      (hwhole : op = .compact → ∀ e r', Registry.compact r = .error e r' → r' = r) :
      Reachable (op.apply r)

/-- Operations other than compaction lead from the empty registry to reachable ones. -/
theorem Reachable.foldl {r : Registry} (h : r.Reachable) (ops : List Operation)
    (hops : .compact ∉ ops) : (ops.foldl Operation.apply r).Reachable := by
  induction ops generalizing r with
  | nil => exact h
  | cons op ops ih =>
      rw [List.mem_cons, not_or] at hops
      exact ih (.step op h fun hop => absurd hop.symm hops.1) hops.2

/-! ### What an operation does -/

theorem final_createLiteral (row : Nat) (slot kind : Int) (value : Option Literal) (t : Registry) :
    (∃ v, value = some v ∧ LiteralKind.ofCode? kind = some v.kind ∧
      final (createLiteral row slot kind value t) = final (createRef row slot (.literal v) t)) ∨
    (∀ v, value = some v → LiteralKind.ofCode? kind ≠ some v.kind) ∧
      final (createLiteral row slot kind value t) = t := by
  by_cases hv : ∃ v, value = some v ∧ LiteralKind.ofCode? kind = some v.kind
  · obtain ⟨v, hv, hkind⟩ := hv
    refine .inl ⟨v, hv, hkind, ?_⟩
    cases hlit : createLiteral row slot kind value t with
    | ok a t' =>
        obtain ⟨v', hv', -, hok⟩ := createLiteral_ok.mp hlit
        cases hv.symm.trans hv'
        rw [hok]
    | error e t' =>
        cases hop : createRef row slot (.literal v) t with
        | ok a u =>
            have hok := createLiteral_ok.mpr ⟨v, hv, hkind, hop⟩
            cases hlit.symm.trans hok
        | error e' u =>
            rw [final_error, final_error, ← createLiteral_error hlit, ← createRef_error hop]
  · refine .inr ⟨fun v h hkind => hv ⟨v, h, hkind⟩, ?_⟩
    cases hlit : createLiteral row slot kind value t with
    | ok a t' =>
        obtain ⟨v, h, hkind, -⟩ := createLiteral_ok.mp hlit
        exact absurd ⟨v, h, hkind⟩ hv
    | error e t' => exact (createLiteral_error hlit).symm

/-- How an operation changes the class in a row, and when it does. -/
inductive Edit (r : Registry) : Operation → Nat → (Class → Class) → Prop
  | createMethod {row : Nat} {spec : MethodSpec} {c : Class} (hopen : r.closed = false)
      (hc : r.classAt? row = some c) (hnew : c.declared? spec.sig = none) :
      Edit r (.createMethod row spec) row fun c =>
        { c with methods := c.methods ++ [spec.toMethod] }
  | createField {row : Nat} {spec : FieldSpec} {c : Class} (hopen : r.closed = false)
      (hc : r.classAt? row = some c) (hnew : c.declared? spec.sig = none) :
      Edit r (.createField row spec) row fun c => { c with fields := c.fields ++ [spec.toField] }
  | createRef {op : Operation} {row : Nat} {slot : Int} {body : RefBody} {c : Class}
      (hopen : r.closed = false) (hrow : op.row? = some row) (hc : r.classAt? row = some c)
      (hpos : 0 < slot) (hle : slot ≤ lastSlot) (hfree : r.refAddr? c.id slot = none) :
      Edit r op row (Class.addRef slot body)
  | allocSlot {row : Nat} (hopen : r.closed = false) :
      Edit r (.allocSlot row) row fun c => { c with maxSlot := c.maxSlot + 1 }
  | keepClass {row : Nat} (hopen : r.closed = false) :
      Edit r (.keepClass row) row fun c => { c with kept := true }
  | keepMember {row : Nat} {sig : Signature} {c : Class} (hopen : r.closed = false)
      (hc : r.classAt? row = some c) (hkept : c.kept = true)
      (hdropped : ∀ d, c.declared? sig = some d → d.kept = false) :
      Edit r (.keepMember row sig) row fun c => markMember c sig
  | keepRef {a : RefAddr} {ref : Reference} (hopen : r.closed = false) (href : r.refAt? a = some ref)
      (howner : ∃ row c, r.byId? ref.owner = some row ∧ r.classAt? row = some c ∧ c.kept = true) :
      Edit r (.keepRef a) a.row fun c => { c with pool := c.pool.modify a.pos markRef }
  | annotate {op : Operation} {row : Nat} {sig : Signature} {f : Method → Method}
      (hrow : op.row? = some row) (hf : ∀ m : Method, m.Annotated (f m)) :
      Edit r op row fun c => { c with methods := c.methods.map fun m => if m.sig = sig then f m else m }

/-- `r'` is `r`, or `r` with the class in a row changed as an operation changes it. -/
def Edited (r : Registry) (op : Operation) (row : Nat) (r' : Registry) : Prop :=
  r' = r ∨ ∃ f, Edit r op row f ∧ r' = r.modifyClass row f

/-- An operation that is about a class changes nothing else. -/
theorem edited_apply (r : Registry) {op : Operation} {row : Nat} (hrow : op.row? = some row) :
    Edited r op row (op.apply r) := by
  have hunchanged : Edited r op row r := .inl rfl
  have hcreateRef : ∀ slot body, Edited r op row (final (createRef row slot body r)) := by
    intro slot body
    refine final_of_unchanged hunchanged createRef_error fun hok => ?_
    obtain ⟨hopen, c, hc, hpos, hle, hfree, rfl, -⟩ := createRef_ok.mp hok
    exact .inr ⟨_, .createRef hopen hrow hc hpos hle hfree, rfl⟩
  have hannotate : ∀ {sig} {f : Method → Method}, (∀ m : Method, m.Annotated (f m)) →
      Edited r op row (r.modifyMethod row sig f) := fun hf => .inr ⟨_, .annotate hrow hf, rfl⟩
  unfold Operation.apply
  cases op with
  | createClass spec => cases hrow
  | link => cases hrow
  | compact => cases hrow
  | relocate => cases hrow
  | createMethod p spec =>
      cases hrow
      refine final_of_unchanged hunchanged createMethod_error fun hok => ?_
      obtain ⟨hopen, c, hc, hnew, -, rfl⟩ := createMethod_ok.mp hok
      exact .inr ⟨_, .createMethod hopen hc hnew, rfl⟩
  | createField p spec =>
      cases hrow
      refine final_of_unchanged hunchanged createField_error fun hok => ?_
      obtain ⟨hopen, c, hc, hnew, rfl⟩ := createField_ok.mp hok
      exact .inr ⟨_, .createField hopen hc hnew, rfl⟩
  | createClassRef p slot target =>
      cases hrow
      rw [Operation.run, final_discard]
      exact hcreateRef slot _
  | createMemberRef p slot target =>
      cases hrow
      rw [Operation.run, final_discard]
      exact hcreateRef slot _
  | createLiteral p slot kind value =>
      cases hrow
      rw [Operation.run, final_discard]
      rcases final_createLiteral row slot kind value r with ⟨v, -, -, heq⟩ | ⟨-, heq⟩
      · rw [heq]
        exact hcreateRef slot (.literal v)
      · rw [heq]
        exact hunchanged
  | allocSlot p =>
      cases hrow
      rw [Operation.run, final_discard]
      refine final_of_unchanged hunchanged allocSlot_error fun hok => ?_
      obtain ⟨hopen, c, -, -, rfl, -⟩ := allocSlot_ok.mp hok
      exact .inr ⟨_, .allocSlot hopen, rfl⟩
  | keepClass p =>
      cases hrow
      rw [Operation.run, final_discard]
      refine final_of_unchanged hunchanged keepClass_error fun hok => ?_
      obtain ⟨hopen, c, -, ⟨-, -, rfl⟩ | ⟨-, -, rfl⟩⟩ := keepClass_ok.mp hok
      · exact hunchanged
      · exact .inr ⟨_, .keepClass hopen, rfl⟩
  | keepMember p sig =>
      cases hrow
      rw [Operation.run, final_discard]
      refine final_of_unchanged hunchanged keepMember_error fun hok => ?_
      obtain ⟨hopen, c, hc, hkept, ⟨-, -, rfl⟩ | ⟨hdropped, -, rfl⟩⟩ := keepMember_ok.mp hok
      · exact hunchanged
      · exact .inr ⟨_, .keepMember hopen hc hkept hdropped, rfl⟩
  | keepRef a =>
      cases hrow
      rw [Operation.run, final_discard]
      refine final_of_unchanged hunchanged keepRef_error fun hok => ?_
      obtain ⟨hopen, ref, href, howner, ⟨-, -, rfl⟩ | ⟨-, -, rfl⟩⟩ := keepRef_ok.mp hok
      · exact hunchanged
      · exact .inr ⟨_, .keepRef hopen href howner, rfl⟩
  | addClassDep p sig a => cases hrow; exact hannotate fun m => by split <;> rfl
  | addMemberDep p sig a => cases hrow; exact hannotate fun m => by split <;> rfl
  | addLiteralDep p sig a => cases hrow; exact hannotate fun m => by split <;> rfl
  | addArrayDep p sig code => cases hrow; exact hannotate fun m => by split <;> rfl
  | addBuiltin p sig id => cases hrow; exact hannotate fun m => by split <;> rfl

theorem Edit.name_eq {r : Registry} {op : Operation} {row : Nat} {f : Class → Class}
    (h : Edit r op row f) (c : Class) : (f c).name = c.name := by
  cases h with
  | keepMember => exact (Class.Grows.markMember c _).name_eq
  | _ => rfl

/-- What an operation leaves has a property when the registry has it, whatever class is edited, and
what registering a class, linking, compacting and relocating leave have it. -/
theorem apply_induction {P : Registry → Prop} {r : Registry} (hr : P r) (op : Operation)
    (hedit : ∀ {row f}, Edit r op row f → P (r.modifyClass row f))
    (hcreate : ∀ {spec}, op = .createClass spec → P (final (createClass spec r)))
    (hlink : op = .link → P (final (link r))) (hcompact : op = .compact → P (final (compact r)))
    (hrelocate : op = .relocate → P (final (relocate r))) : P (op.apply r) := by
  cases hrow : op.row? with
  | some row =>
      rcases edited_apply r hrow with heq | ⟨f, hf, heq⟩
      · rwa [heq]
      · exact heq ▸ hedit hf
  | none =>
      cases op with
      | createClass spec =>
          rw [Operation.apply, Operation.run, final_discard]
          exact hcreate rfl
      | link => exact hlink rfl
      | compact => exact hcompact rfl
      | relocate => exact hrelocate rfl
      | _ => cases hrow

/-- What registering a class leaves has a property that storing the class, listing it and adopting it
preserve. -/
theorem final_createClass {P : Registry → Prop} {r : Registry} {spec : ClassSpec} (hr : P r)
    (hstore : P (r.store (spec.toClass r.live.length)))
    (henlist : r.find? spec.name = none →
      P ((r.store (spec.toClass r.live.length)).enlist r.rows.size spec.name))
    (hchildren : ∀ {u v}, SameButChildren u v → P u → P v) : P (final (createClass spec r)) := by
  cases hrun : createClass spec r with
  | error e r' =>
      rcases createClass_error hrun with rfl | hsame
      · exact hr
      · exact hchildren hsame hstore
  | ok row r' =>
      obtain ⟨-, hnew, -, -, -, rfl, hsame, -⟩ := createClass_ok hrun
      exact hchildren hsame (henlist hnew)

/-! ### Open registries -/

/-- A well-formed registry in which every live class is known under its name. -/
structure Sound (r : Registry) : Prop where
  wellFormed : r.WellFormed
  selfNamed : r.SelfNamed

theorem SelfNamed.modifyClass {r : Registry} (h : r.SelfNamed) {row : Nat} {f : Class → Class}
    (hf : ∀ c, (f c).name = c.name) : (r.modifyClass row f).SelfNamed := by
  refine SelfNamed.of_names h (live_modifyClass r row f) (find?_modifyClass r row f) ?_
  intro p c' hc'
  obtain ⟨c, hc, ⟨-, rfl⟩ | ⟨-, rfl⟩⟩ := classAt?_of_modifyClass hc'
  · exact ⟨c, hc, hf c⟩
  · exact ⟨c', hc, rfl⟩

/-- A new class that is not listed yet has no name to be known under. -/
theorem SelfNamed.store {r : Registry} (h : r.SelfNamed) (hr : r.WellFormed) (c : Class) :
    (r.store c).SelfNamed := by
  intro p c' hp hc'
  have hlt : p < r.rows.size := hr.live_lt hp
  rw [classAt?_store, if_neg (Nat.ne_of_lt hlt)] at hc'
  exact h hp hc'

theorem SelfNamed.enlist {r : Registry} (h : r.SelfNamed) {row : Nat} {c : Class}
    (hc : r.classAt? row = some c) (hnew : r.find? c.name = none) :
    (r.enlist row c.name).SelfNamed := by
  intro p c' hp hc'
  rw [find?_enlist]
  rcases List.mem_append.mp hp with hp | hp
  · have hfind := h hp hc'
    rw [if_neg]
    · exact hfind
    · intro heq
      rw [heq, hnew] at hfind
      cases hfind
  · cases List.mem_singleton.mp hp
    cases hc.symm.trans hc'
    exact if_pos rfl

theorem SelfNamed.sameButChildren {r r' : Registry} (h : r.SelfNamed)
    (hsame : SameButChildren r r') : r'.SelfNamed := by
  refine SelfNamed.of_names h hsame.live_eq hsame.find?_eq fun {p c'} hc' => ?_
  obtain ⟨c, hc, heq⟩ := hsame.exists_old hc'
  exact ⟨c, hc, by rw [heq]⟩

namespace Sound

variable {r : Registry}

theorem createClass (h : r.Sound) (spec : ClassSpec) :
    (final (Registry.createClass spec r)).Sound := by
  refine ⟨createClass_wellFormed h.wellFormed spec, ?_⟩
  have hstored : (r.store (spec.toClass r.live.length)).SelfNamed :=
    SelfNamed.store h.selfNamed h.wellFormed _
  have hclass : (r.store (spec.toClass r.live.length)).classAt? r.rows.size =
      some (spec.toClass r.live.length) := by rw [classAt?_store, if_pos rfl]
  exact @final_createClass SelfNamed r spec h.selfNamed hstored
    (fun hnew => SelfNamed.enlist hstored hclass hnew)
    fun hsame hu => SelfNamed.sameButChildren hu hsame

theorem modifyMethod (h : r.Sound) (row : Nat) (sig : Signature) {f : Method → Method}
    (hf : ∀ m, (f m).sig = m.sig) : (r.modifyMethod row sig f).Sound := by
  refine ⟨modifyMethod_wellFormed h.wellFormed row sig hf, ?_⟩
  exact SelfNamed.modifyClass (f := fun c =>
    { c with methods := c.methods.map fun m => if m.sig = sig then f m else m }) h.selfNamed
    fun _ => rfl

theorem laid {r' : Registry} (h : r.Sound) (hlaid : r.Laid r') : r'.Sound :=
  ⟨hlaid.wellFormed h.wellFormed, hlaid.selfNamed h.selfNamed⟩

end Sound

/-! ### Linking and relocating, whether or not it succeeds -/

theorem keptTarget_error {owner : Class} {name : Text} {r r' : Registry} {e : Failure}
    (h : keptTarget owner name r = .error e r') : r' = r := by
  simp only [keptTarget, bind_error, get_error, get_ok, false_or] at h
  obtain ⟨_, _, ⟨rfl, rfl⟩, h⟩ := h
  cases hc : (r.find? name).bind r.classAt? with
  | none =>
      simp only [hc, inconsistent_error] at h
      exact h.2.symm
  | some c =>
      simp only [hc, ite_error, pure_error, and_false, false_or, inconsistent_error] at h
      exact h.2.2.symm

/-- A reference that cannot be resolved is left alone. -/
theorem resolveRef_error {owner : Class} {a : RefAddr} {ref : Reference} {r r' : Registry}
    {e : Failure} (h : resolveRef owner a ref r = .error e r') : r' = r := by
  cases hbody : ref.body with
  | literal v => simp [resolveRef, hbody] at h
  | classRef name id =>
      simp only [resolveRef, hbody, bind_error, modify_error, and_false, exists_false,
        or_false] at h
      exact keptTarget_error h
  | memberRef m t d k i =>
      simp only [resolveRef, hbody, bind_error, get_error, get_ok, false_or] at h
      rcases h with h | ⟨c, u, hc, _, _, ⟨rfl, rfl⟩, h⟩
      · exact keptTarget_error h
      · obtain ⟨-, -, rfl⟩ := keptTarget_ok.mp hc
        cases hfind : r.findMember m with
        | error cause =>
            simp only [hfind, inconsistent_error] at h
            exact h.2.symm
        | ok found =>
            obtain ⟨row, decl⟩ := found
            simp only [hfind, bind_error, classAt_error, classAt_ok] at h
            rcases h with ⟨-, -, rfl⟩ | ⟨co, _, ⟨-, rfl⟩, h⟩
            · rfl
            · cases hkept : decl.kept with
              | false =>
                  simp only [hkept, Bool.not_false, if_true, bind_error, inconsistent_error,
                    inconsistent_ok, false_and, exists_false, or_false] at h
                  exact h.2.symm
              | true => simp [hkept] at h

/-- Resolving the references of a class, wherever it stops. -/
theorem final_resolveRefs {r l : Registry} (hr : r.Laid l) (row : Nat) :
    Resolves r l (final (resolveRefs row l)) := by
  unfold resolveRefs
  refine final_bind (P := Resolves r l) ?_ fun {c t} ht => ?_
  · cases hc : classAt row l with
    | ok c t => rw [final_ok, (classAt_ok.mp hc).2]; exact .refl r t
    | error e t => rw [final_error, (classAt_error.mp hc).2.2]; exact .refl r t
  · obtain ⟨hc, rfl⟩ := classAt_ok.mp ht
    refine final_forM ?_ (.refl r l)
    rintro ⟨pos, ref⟩ hmem u hu
    by_cases hkept : ref.kept = true
    · simp only [if_pos hkept]
      cases hstep : resolveRef c ⟨row, pos⟩ ref u with
      | error e v =>
          cases resolveRef_error hstep
          exact hu
      | ok x v =>
          obtain ⟨cur, hcur, hlaid⟩ := hu.laid.refAt? (a := ⟨row, pos⟩)
            (refAt?_eq_some.mpr ⟨c, hc, (Class.mem_references.mp hmem).2⟩)
          exact hu.trans (resolveRef_resolves (hr.trans hu.laid) hcur hlaid.body.symm hstep).1
    · simp only [if_neg hkept]
      exact hu

theorem link_eq (r : Registry) : link r =
    if r.closed then .error (.internal (.closed .link)) r
    else if (r.keptClasses.head?.map fun p => p.2.id) ≠ some 0 then
      .error (.internal .rootNotKept) r
    else (do
      r.keptRows.forM resolveRefs
      modify fun r => { r with linked := true } : RegistryM Unit) r.layOut := by
  unfold link
  cases hclosed : r.closed with
  | true => exact bind_of_error (checkOpen_error.mpr ⟨hclosed, rfl, rfl⟩)
  | false =>
      rw [bind_of_ok (a := ()) (checkOpen_ok.mpr ⟨hclosed, rfl⟩), bind_of_ok (get_ok.mpr ⟨rfl, rfl⟩),
        if_neg Bool.false_ne_true]
      dsimp only
      by_cases hroot : (r.keptClasses.head?.map fun p => p.2.id) = some 0
      · rw [if_neg (not_not.mpr hroot), if_neg (not_not.mpr hroot)]
        exact bind_of_ok (a := ()) (modify_ok.mpr rfl)
      · rw [if_pos hroot, if_pos hroot]
        exact bind_of_error (inconsistent_error.mpr ⟨rfl, rfl⟩)

/-- Linking that is not refused lays the registry out, wherever it stops. -/
theorem final_link {r : Registry} (hopen : r.closed = false)
    (hroot : (r.keptClasses.head?.map fun p => p.2.id) = some 0) :
    Resolves r r.layOut (final (link r)) := by
  rw [link_eq, if_neg (by simp [hopen]), if_neg (not_not.mpr hroot)]
  refine final_seq (final_forM (fun row _ {l} hl => ?_) (.refl r _)) fun {_ l} hl => ?_
  · exact hl.trans (final_resolveRefs ((layOut_spec r).1.trans hl.laid) row)
  · exact ⟨⟨hl.laid.names_eq, hl.laid.live_eq, hl.laid.closed_eq, hl.laid.size_eq, hl.laid.classes⟩,
      hl.signatures, hl.nodup, hl.members, hl.resolved⟩

theorem link_laid (r : Registry) : r.Laid (final (link r)) := by
  by_cases hopen : r.closed = false
  · by_cases hroot : (r.keptClasses.head?.map fun p => p.2.id) = some 0
    · exact (layOut_spec r).1.trans (final_link hopen hroot).laid
    · rw [link_eq, if_neg (by simp [hopen]), if_pos hroot]
      exact .refl r
  · rw [link_eq, if_pos (by simpa using hopen)]
    exact .refl r

theorem relocateMethod_error {row : Nat} {c : Class} {m : Method} {r r' : Registry} {e : Failure}
    (h : relocateMethod row c m r = .error e r') : r' = r := by
  simp only [relocateMethod, bind_error, get_error, get_ok, false_or] at h
  obtain ⟨_, _, ⟨rfl, rfl⟩, h⟩ := h
  cases hcode : Code.relocate (r.compactSlot c.id) m.rawCode with
  | ok code => simp [hcode] at h
  | error cause =>
      cases cause <;>
        simp only [hcode, throw_error, inconsistent_error] at h <;> exact h.2.symm

theorem relocate_run (r : Registry) : relocate r =
    if r.compacted then r.live.forM relocateClass r
    else .error (.internal .relocateBeforeCompact) r := by
  unfold relocate
  rw [bind_of_ok (get_ok.mpr ⟨rfl, rfl⟩)]
  cases r.compacted with
  | false => rfl
  | true => rfl

/-- What every change of the code of a method preserves, relocation preserves. -/
theorem final_relocate {P : Registry → Prop} {r : Registry} (hr : P r)
    (hstep : ∀ {r row sig code}, P r →
      P (r.modifyMethod row sig fun m => { m with relocated := some code })) :
    P (final (relocate r)) := by
  have hmethod : ∀ row c m {r}, P r → P (final (relocateMethod row c m r)) := by
    intro row c m r hr
    cases hop : relocateMethod row c m r with
    | ok u r' =>
        obtain ⟨code, -, rfl⟩ := relocateMethod_ok.mp hop
        exact hstep hr
    | error e r' =>
        cases relocateMethod_error hop
        exact hr
  have hclass : ∀ row {r}, P r → P (final (relocateClass row r)) := by
    intro row r hr
    refine final_bind ?_ fun {c t} ht => ?_
    · cases hc : classAt row r with
      | ok c t => rw [final_ok, ← (classAt_ok.mp hc).2]; exact hr
      | error e t => rw [final_error, ← (classAt_error.mp hc).2.2]; exact hr
    · obtain ⟨-, rfl⟩ := classAt_ok.mp ht
      refine final_forM (fun m _ {u} hu => ?_) hr
      by_cases hcode : m.hasCode = true
      · simp only [if_pos hcode]
        exact hmethod row c m hu
      · simp only [if_neg hcode]
        exact hu
  rw [relocate_run]
  split
  · exact final_forM (fun row _ {u} hu => hclass row hu) hr
  · exact hr

/-- What compaction leaves, wherever it stops: what holds while the classes are pruned turns into
what holds before and after. Compaction closes the registry only when it succeeds. -/
theorem final_compact {P Q : Registry → Prop} {r : Registry} (hrefused : P r) (hnames : P r.dropNames)
    (hstart : Q r.unindexed)
    (hprune : ∀ row ∈ r.keptRows, ∀ {u}, Q u → Q (final (pruneClass r.newIds row u)))
    (hstop : ∀ {u}, Q u → P u) (htabled : ∀ {u}, Q u → P (tabled r.keptRows u))
    (hstep : ∀ {u row sig code}, P u →
      P (u.modifyMethod row sig fun m => { m with relocated := some code })) :
    P (final (compact r)) ∨ ∃ u, P u ∧ compact r = .ok () { u with closed := true } := by
  have hpruned := final_forM hprune hstart
  have hrun := compact_eq r
  split at hrun
  · exact .inl (hrun ▸ hrefused)
  split at hrun
  · exact .inl (hrun ▸ hrefused)
  split at hrun
  · cases hforM : r.keptRows.forM (pruneClass r.newIds) r.unindexed with
    | error e u =>
        rw [hforM] at hpruned
        rw [hrun, compacting, bind_of_error hforM]
        exact .inl (hstop hpruned)
    | ok _ u =>
        rw [hforM, final_ok] at hpruned
        have hrelocated := final_relocate (htabled hpruned) hstep
        rw [hrun, compacting, bind_of_ok hforM, bind_of_ok (a := ()) (modify_ok.mpr rfl)]
        cases hrelocate : relocate (tabled r.keptRows u) with
        | error e v =>
            rw [hrelocate] at hrelocated
            rw [bind_of_error hrelocate]
            exact .inl hrelocated
        | ok _ v =>
            rw [hrelocate] at hrelocated
            exact .inr ⟨v, hrelocated, bind_of_ok hrelocate⟩
  · exact .inl (hrun ▸ hnames)

/-! ### Reachable registries -/

/-- A closed registry takes no changes. -/
theorem checkOpen_bind_of_closed {α : Type} {op : RegistryOp} {f : Unit → RegistryM α}
    {r : Registry} (h : r.closed = true) :
    (checkOpen op >>= f) r = .error (.internal (.closed op)) r :=
  bind_of_error (checkOpen_error.mpr ⟨h, rfl, rfl⟩)

/-- Only the dependencies and the relocated code of a method are still changed in a closed
registry. -/
theorem apply_of_closed {P : Registry → Prop} {r : Registry} (h : r.closed = true) (hr : P r)
    (hstep : ∀ {u row sig} {f : Method → Method}, (∀ m : Method, m.Annotated (f m)) → P u →
      P (u.modifyMethod row sig f)) (op : Operation) : P (op.apply r) := by
  have hcheck : ∀ {α : Type} {name : RegistryOp} {f : Unit → RegistryM α},
      P (final ((checkOpen name >>= f) r)) := by
    intro α name f
    rw [checkOpen_bind_of_closed h]
    exact hr
  refine apply_induction hr op (fun hedit => ?_) (fun _ => hcheck) (fun _ => hcheck)
    (fun _ => hcheck) fun _ => final_relocate hr fun hu => hstep (fun _ => rfl) hu
  cases hedit with
  | annotate _ hf => exact hstep hf hr
  | _ => cases h.symm.trans ‹r.closed = false›

theorem closed_apply {r : Registry} (h : r.closed = true) (op : Operation) :
    (op.apply r).closed = true :=
  apply_of_closed (P := fun u => u.closed = true) h h (fun _ hu => hu) op

theorem Edit.wellFormed {r : Registry} {op : Operation} {row : Nat} {f : Class → Class}
    (h : Edit r op row f) (hr : r.WellFormed) : (r.modifyClass row f).WellFormed := by
  cases h with
  | createMethod _ hc hnew => exact hr.addMethod hc hnew
  | createField _ hc hnew => exact hr.addField hc hnew
  | createRef _ _ hc hpos hle hfree => exact hr.addRef hc hpos hle hfree _
  | allocSlot => exact hr.raiseMaxSlot row
  | keepClass => exact hr.markClass row
  | keepMember => exact hr.markMember row _
  | keepRef => exact modifyRef_wellFormed hr _ fun _ => rfl
  | annotate _ hf => exact modifyMethod_wellFormed hr row _ fun m => by rw [hf m]

/-- Operations other than compaction keep a registry sound. -/
theorem Sound.apply {r : Registry} (h : r.Sound) {op : Operation} (hop : op ≠ .compact) :
    (op.apply r).Sound :=
  apply_induction h op
    (fun hedit => ⟨hedit.wellFormed h.wellFormed, SelfNamed.modifyClass h.selfNamed hedit.name_eq⟩)
    (fun _ => h.createClass _) (fun _ => h.laid (link_laid r)) (fun heq => absurd heq hop)
    fun _ => final_relocate h fun hu => hu.modifyMethod _ _ fun _ => rfl

/-- A reachable registry that is open is sound. -/
theorem Reachable.sound {r : Registry} (h : r.Reachable) : r.closed = true ∨ r.Sound := by
  induction h with
  | empty => exact .inr ⟨.empty, fun hrow => absurd hrow List.not_mem_nil⟩
  | @step r op _ hwhole ih =>
      rcases ih with hclosed | hsound
      · exact .inl (closed_apply hclosed op)
      · by_cases hop : op = .compact
        · subst hop
          cases hrun : Registry.compact r with
          | ok u r' =>
              refine .inl ?_
              rw [Operation.apply, Operation.run, hrun]
              exact (compact_spec hsound.wellFormed hsound.selfNamed hrun).closed
          | error e r' =>
              refine .inr ?_
              rw [Operation.apply, Operation.run, hrun, final_error, hwhole rfl e r' hrun]
              exact hsound
        · exact .inr (hsound.apply hop)

/-- Linking and compacting a reachable registry preserves the meaning of every member instruction of
the kept methods, and gives every kept class a table with one entry for each member that it names.
Relocating once more changes nothing. -/
theorem meaning_preserved (r r₁ r₂ : Registry) (h : r.Reachable) (hlink : link r = .ok () r₁)
    (hcompact : compact r₁ = .ok () r₂) :
    r₂.live = r₁.keptRows ∧ relocate r₂ = .ok () r₂ ∧
      ∀ row c, row ∈ r₁.keptRows → r₁.classAt? row = some c →
        ∃ c', r₂.classAt? row = some c' ∧ c'.name = c.name ∧
          List.Forall₂ (CodeKept r₁ r₂ c c') (c.methods.filter Method.kept) c'.methods ∧
          TableOf c c' := by
  rcases h.sound with hclosed | hsound
  · rw [(link_spec hlink).isOpen] at hclosed
    cases hclosed
  · obtain ⟨hlive, hagain, hclasses⟩ :=
      compact_preserves hsound.wellFormed hsound.selfNamed hlink hcompact
    exact ⟨hlive, hagain, fun row c hrow hc => hclasses hrow hc⟩

/-! ### Two small registries -/

/-- Registers a class without a pool. -/
def Operation.bareClass (name super : Text) : Operation :=
  .createClass { name, super, kind := .ordinary, interfaces := [], element := [], elementType := 0
                 poolSize := 1 }

/-- Registers a static method without parameters. -/
def Operation.bareMethod (row : Nat) (name : Text) (code : Bytes) : Operation :=
  .createMethod row { sig := ⟨name, "()V"⟩, isStatic := true, isNative := false
                      isAbstract := false, code, argSlots := 0, maxLocals := 0, lines := []
                      handlers := [] }

/-- The registry linked and the registry compacted, if both succeed. -/
def linkAndCompact (r : Registry) : Option (Registry × Registry) :=
  match link r with
  | .error _ _ => none
  | .ok _ r₁ =>
    match compact r₁ with
    | .error _ _ => none
    | .ok _ r₂ => some (r₁, r₂)

theorem linkAndCompact_eq_some {r r₁ r₂ : Registry} (h : linkAndCompact r = some (r₁, r₂)) :
    link r = .ok () r₁ ∧ compact r₁ = .ok () r₂ := by
  unfold linkAndCompact at h
  split at h
  · cases h
  · rename_i hlink
    split at h
    · cases h
    · rename_i hcompact
      cases h
      exact ⟨hlink, hcompact⟩

/-- A method of a class calls another one through slot 7. The class before it is dropped. -/
def renumberedOps : List Operation := [
  .bareClass "R" [], .bareClass "D" "R", .bareClass "C" "R",
  .bareMethod 2 "a" [0xB1], .bareMethod 2 "m" [0xB8, 0, 7, 0xB1],
  .createMemberRef 2 7 ⟨"C", "a", "()V"⟩, .keepClass 0, .keepClass 2,
  .keepMember 2 ⟨"a", "()V"⟩, .keepMember 2 ⟨"m", "()V"⟩, .keepRef ⟨2, 0⟩]

theorem meaning_preserved_renumbered : ∃ r₁ r₂ c c',
    link (renumberedOps.foldl Operation.apply {}) = .ok () r₁ ∧ compact r₁ = .ok () r₂ ∧
    r₁.classAt? 2 = some c ∧ r₂.classAt? 2 = some c' ∧ c.id = 2 ∧ c'.id = 1 ∧
    c'.methods.map Method.code = [[0xB1], [0xB8, 0, 0, 0xB1]] ∧
    List.Forall₂ (CodeKept r₁ r₂ c c') (c.methods.filter Method.kept) c'.methods ∧
    TableOf c c' := by
  have hcheck : (linkAndCompact (renumberedOps.foldl Operation.apply {})).any (fun p =>
      2 ∈ p.1.keptRows ∧ (p.1.classAt? 2).map Class.id = some 2 ∧
      (p.2.classAt? 2).map (fun c' => (c'.id, c'.methods.map Method.code)) =
        some (1, [[0xB1], [0xB8, 0, 0, 0xB1]])) = true := by decide +kernel
  simp only [Option.any_eq_true, decide_eq_true_eq, Option.map_eq_some_iff, Prod.mk.injEq] at hcheck
  obtain ⟨⟨r₁, r₂⟩, hrun, hrow, ⟨c, hc, hid⟩, c', hc', hid', hcode⟩ := hcheck
  obtain ⟨hlink, hcompact⟩ := linkAndCompact_eq_some hrun
  obtain ⟨-, -, hclasses⟩ := meaning_preserved _ r₁ r₂
    (Reachable.empty.foldl renumberedOps (by decide +kernel)) hlink hcompact
  obtain ⟨c'', hc'', -, hkept, htable⟩ := hclasses 2 c hrow hc
  cases hc'.symm.trans hc''
  exact ⟨r₁, r₂, c, c', hlink, hcompact, hc, hc', hid, hid', hcode, hkept, htable⟩

/-- A method of a class calls `a` through slot 1. A compaction fails, because a reference was kept
after linking, and with it the slots of the class are forgotten; then slot 1 is given to `b`. -/
def reusedOps : List Operation := [
  .bareClass "R" [], .bareClass "C" "R",
  .bareMethod 1 "a" [0xB1], .bareMethod 1 "b" [0xB1], .bareMethod 1 "m" [0xB8, 0, 1, 0xB1],
  .createMemberRef 1 1 ⟨"C", "a", "()V"⟩, .keepClass 0, .keepClass 1,
  .keepMember 1 ⟨"a", "()V"⟩, .keepMember 1 ⟨"b", "()V"⟩, .keepMember 1 ⟨"m", "()V"⟩,
  .keepRef ⟨1, 0⟩, .link, .createClassRef 0 1 "C", .keepRef ⟨0, 0⟩, .compact,
  .createMemberRef 1 1 ⟨"C", "b", "()V"⟩]

/-- After a compaction that failed, linking and compacting may succeed and give an instruction
another member than the one known at its slot. -/
theorem meaning_lost_after_failure : ∃ r₁ r₂,
    link (reusedOps.foldl Operation.apply {}) = .ok () r₁ ∧ compact r₁ = .ok () r₂ ∧
    ((r₁.refAddr? 1 1).bind r₁.refAt?).map Reference.body =
      some (.memberRef ⟨"C", "b", "()V"⟩ none none none none) ∧
    ((r₂.classAt? 1).bind fun c => c.methods.find? fun m => m.sig = ⟨"m", "()V"⟩).map
      (fun m => (m.rawCode, m.code)) = some ([0xB8, 0, 1, 0xB1], [0xB8, 0, 0, 0xB1]) ∧
    ((r₂.classAt? 1).bind fun c => c.entry? 0).map Reference.body =
      some (.memberRef ⟨"C", "a", "()V"⟩ (some 1) (some 1) (some 0) (some 0)) ∧
    r₂.signatures[0]? = some ⟨"a", "()V"⟩ := by
  have hcheck : (linkAndCompact (reusedOps.foldl Operation.apply {})).any (fun p =>
      ((p.1.refAddr? 1 1).bind p.1.refAt?).map Reference.body =
        some (.memberRef ⟨"C", "b", "()V"⟩ none none none none) ∧
      ((p.2.classAt? 1).bind fun c => c.methods.find? fun m => m.sig = ⟨"m", "()V"⟩).map
        (fun m => (m.rawCode, m.code)) = some ([0xB8, 0, 1, 0xB1], [0xB8, 0, 0, 0xB1]) ∧
      ((p.2.classAt? 1).bind fun c => c.entry? 0).map Reference.body =
        some (.memberRef ⟨"C", "a", "()V"⟩ (some 1) (some 1) (some 0) (some 0)) ∧
      p.2.signatures[0]? = some ⟨"a", "()V"⟩) = true := by decide +kernel
  rw [Option.any_eq_true] at hcheck
  obtain ⟨⟨r₁, r₂⟩, hrun, hfacts⟩ := hcheck
  obtain ⟨hlink, hcompact⟩ := linkAndCompact_eq_some hrun
  exact ⟨r₁, r₂, hlink, hcompact, of_decide_eq_true hfacts⟩

end Registry

end ClassLinker
