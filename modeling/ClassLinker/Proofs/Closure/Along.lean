import ClassLinker.Closure.Load
import ClassLinker.Proofs.Registry.Reachable

/-! What the filling of a class changes. Registering the pool, the fields and the methods of a class
and scanning its code is made of a few kinds of steps, so whatever relation between links each of
these preserves holds between the link before and the link after, whether or not the class is filled
to the end. -/

namespace ClassLinker

namespace Closure

open LinkM RegistryM Step Registry

variable {α β : Type}

theorem final_onRegistry (x : RegistryM α) (l : Linker) :
    final (onRegistry x l) = { l with registry := final (x l.registry) } := by
  unfold onRegistry
  cases x l.registry <;> rfl

theorem final_mapError (f : Error → Error) (x : LinkM α) (l : Linker) :
    final (mapError f x l) = final (x l) := by
  unfold mapError
  cases x l with
  | ok a l' => rfl
  | error e l' => cases e <;> rfl

/-- A step after which the link is related to the link before. -/
structure Along (R : Linker → Linker → Prop) (x : LinkM α) : Prop where
  along : ∀ l, R l (final (x l))

/-- A relation that holds between two links when a class is filled in between. -/
structure Fills (R : Linker → Linker → Prop) : Prop where
  refl : ∀ l, R l l
  trans : ∀ {l l' l''}, R l l' → R l' l'' → R l l''
  arrays : ∀ l arrayRefs, R l { l with arrayRefs := arrayRefs }
  pending : ∀ l pending, R l { l with pending := pending }
  allocSlot : ∀ l row, R l { l with registry := final (Registry.allocSlot row l.registry) }
  createRef : ∀ l row slot body,
    R l { l with registry := final (Registry.createRef row slot body l.registry) }
  createMethod : ∀ l row spec,
    R l { l with registry := final (Registry.createMethod row spec l.registry) }
  createField : ∀ l row spec,
    R l { l with registry := final (Registry.createField row spec l.registry) }
  modifyMethod : ∀ l row sig (f : Method → Method), (∀ m, (f m).sig = m.sig) →
    (∀ m, (f m).kept = m.kept) → R l { l with registry := l.registry.modifyMethod row sig f }

namespace Fills

variable {R : Linker → Linker → Prop} (hR : Fills R)

include hR

/-! ### Steps -/

theorem pure (a : α) : Along R (Pure.pure a : LinkM α) := ⟨hR.refl⟩

theorem fault : Along R (throw .fault : LinkM α) := ⟨hR.refl⟩

theorem fail (e : Error) : Along R (LinkM.fail e : LinkM α) := ⟨hR.refl⟩

theorem get : Along R (MonadState.get : LinkM Linker) := ⟨hR.refl⟩

theorem push (m : Member) : Along R (LinkM.push m) := ⟨fun l => hR.pending l _⟩

theorem bind {x : LinkM α} {f : α → LinkM β} (hx : Along R x) (hf : ∀ a, Along R (f a)) :
    Along R (x >>= f) := by
  refine ⟨fun l => ?_⟩
  have hfirst := hx.along l
  refine final_bind hfirst fun {a t} ht => ?_
  rw [ht] at hfirst
  exact hR.trans hfirst ((hf a).along t)

theorem forM {f : α → LinkM PUnit} {xs : List α} (h : ∀ x ∈ xs, Along R (f x)) :
    Along R (xs.forM f) :=
  ⟨fun l => final_forM (P := R l) (fun x hx t ht => hR.trans ht ((h x hx).along t)) (hR.refl l)⟩

omit hR in
theorem discard {x : LinkM α} (h : Along R x) : Along R (discard x) := by
  refine ⟨fun l => ?_⟩
  rw [final_discard]
  exact h.along l

omit hR in
theorem mapError {f : Error → Error} {x : LinkM α} (h : Along R x) :
    Along R (LinkM.mapError f x) := by
  refine ⟨fun l => ?_⟩
  rw [final_mapError]
  exact h.along l

omit hR in
theorem onRegistry {x : RegistryM α}
    (h : ∀ l : Linker, R l { l with registry := final (x l.registry) }) :
    Along R (LinkM.onRegistry x) := by
  refine ⟨fun l => ?_⟩
  rw [final_onRegistry]
  exact h l

theorem readClass (row : Nat) : Along R (LinkM.onRegistry (RegistryM.classAt row)) := by
  refine onRegistry fun l => ?_
  rw [final_classAt]
  exact hR.refl l

theorem createLiteral (row : Nat) (slot kind : Int) (value : Option Literal) :
    Along R (LinkM.onRegistry (Registry.createLiteral row slot kind value)) := by
  refine onRegistry fun l => ?_
  cases hop : Registry.createLiteral row slot kind value l.registry with
  | error e r' =>
      cases createLiteral_error hop
      exact hR.refl l
  | ok a r' =>
      obtain ⟨v, -, -, hok⟩ := createLiteral_ok.mp hop
      have hcreated := hR.createRef l row slot (.literal v)
      rwa [hok] at hcreated

/-! ### Scanning -/

theorem refAtSlot? (row : Nat) (slot : Int) : Along R (Closure.refAtSlot? row slot) :=
  hR.bind (hR.readClass row) fun _ => hR.bind hR.get fun _ => hR.pure _

theorem classRefAt (row : Nat) (slot : Int) : Along R (Closure.classRefAt row slot) := by
  refine hR.bind (hR.refAtSlot? row slot) fun found => ?_
  cases found with
  | none => exact hR.fail _
  | some found =>
      dsimp only
      split
      · exact hR.pure _
      · exact hR.fail _

theorem arrayRef (row : Nat) (name : Text) : Along R (Closure.arrayRef row name) := by
  refine hR.bind (hR.readClass row) fun c => hR.bind hR.get fun l => ?_
  split
  · exact hR.pure _
  · refine hR.bind (onRegistry fun l => hR.allocSlot l row) fun slot => ?_
    refine hR.bind (onRegistry fun l => hR.createRef l row slot _) fun a => ?_
    exact hR.bind ⟨fun l => hR.arrays l _⟩ fun _ => hR.pure _

/-- Recording something about a method. -/
theorem record (row : Nat) (sig : Signature) {f : Method → Method}
    (hsig : ∀ m, (f m).sig = m.sig) (hkept : ∀ m, (f m).kept = m.kept) :
    Along R (Closure.record fun r => r.modifyMethod row sig f) :=
  ⟨fun l => hR.modifyMethod l row sig f hsig hkept⟩

theorem recordClass (row : Nat) (sig : Signature) (a : RefAddr) :
    Along R (Closure.record (addClassDep row sig a)) := by
  refine hR.record row sig (fun m => ?_) fun m => ?_ <;> split <;> rfl

theorem recordMember (row : Nat) (sig : Signature) (a : RefAddr) :
    Along R (Closure.record (addMemberDep row sig a)) := by
  refine hR.record row sig (fun m => ?_) fun m => ?_ <;> split <;> rfl

theorem recordLiteral (row : Nat) (sig : Signature) (a : RefAddr) :
    Along R (Closure.record (addLiteralDep row sig a)) := by
  refine hR.record row sig (fun m => ?_) fun m => ?_ <;> split <;> rfl

theorem recordArray (row : Nat) (sig : Signature) (code : Int) :
    Along R (Closure.record (addArrayDep row sig code)) := by
  refine hR.record row sig (fun m => ?_) fun m => ?_ <;> split <;> rfl

theorem recordBuiltin (row : Nat) (sig : Signature) (id : Int) :
    Along R (Closure.record (addBuiltin row sig id)) := by
  refine hR.record row sig (fun m => ?_) fun m => ?_ <;> split <;> rfl

theorem scanInstruction (row : Nat) (sig : Signature) (i : Instruction) :
    Along R (Closure.scanInstruction row sig i) := by
  refine hR.bind (hR.forM fun (id : Nat) _ => hR.recordBuiltin row sig id) fun _ => ?_
  dsimp only
  split
  · exact hR.pure _
  · refine hR.bind (hR.refAtSlot? row _) fun found => ?_
    split
    · exact hR.recordMember row sig _
    · exact hR.fail _
  · refine hR.bind (mapError (hR.classRefAt row _)) fun found => ?_
    refine hR.bind (hR.recordClass row sig found.1) fun _ => ?_
    split
    · exact hR.bind (hR.arrayRef row _) fun a => hR.recordClass row sig a
    · exact hR.pure _
  · refine hR.bind (hR.refAtSlot? row _) fun found => ?_
    split
    · exact hR.fail _
    · split
      · exact hR.recordLiteral row sig _
      · exact hR.recordClass row sig _
      · exact hR.fail _
  · split
    · exact hR.bind (hR.fail _) fun _ => hR.recordArray row sig _
    · exact hR.recordArray row sig _
  · exact hR.fail _

theorem scan (row : Nat) (sig : Signature) (code : Bytes) (handlers : List Handler)
    (throws : List Int) : Along R (Closure.scan row sig code handlers throws) := by
  have hrefs : Along R (do
      handlers.forM fun h => do
        if h.catchSlot ≠ 0 then
          let a ← LinkM.mapError (.within "exception handler") (Closure.classRefAt row h.catchSlot)
          Closure.record (Registry.addClassDep row sig a.1)
      throws.forM fun slot => do
        let a ← LinkM.mapError (.within "throws clause") (Closure.classRefAt row slot)
        Closure.record (Registry.addClassDep row sig a.1)) := by
    refine hR.bind (hR.forM fun h _ => ?_) fun _ => hR.forM fun slot _ => ?_
    · split
      · exact hR.bind (mapError (hR.classRefAt row _)) fun a => hR.recordClass row sig a.1
      · exact hR.pure _
    · exact hR.bind (mapError (hR.classRefAt row slot)) fun a => hR.recordClass row sig a.1
  refine hR.bind (hR.forM fun i _ => hR.scanInstruction row sig i) fun _ => ?_
  dsimp only
  split
  · exact hrefs
  · exact hR.bind (hR.fail _) fun _ => hrefs
  · exact hR.bind hR.fault fun _ => hrefs

/-! ### Filling a class -/

theorem registerSlot (d : ClassDecl) (row : Nat) (p : PoolSlot) :
    Along R (Closure.registerSlot d row p) := by
  unfold Closure.registerSlot
  split
  · exact discard (onRegistry fun l => hR.createRef l row _ _)
  · exact discard (onRegistry fun l => hR.createRef l row _ _)
  · split
    · exact hR.fail _
    · exact discard (hR.createLiteral row _ _ _)

theorem registerMethod (d : ClassDecl) (row : Nat) (m : MethodDecl) :
    Along R (Closure.registerMethod d row m) := by
  refine hR.bind hR.get fun l => ?_
  refine hR.bind (onRegistry fun l => hR.createMethod l row _) fun _ => ?_
  exact mapError (hR.scan row _ _ _ _)

/-- All that is done for a class after it was created. -/
theorem fill (d : ClassDecl) (row : Nat) : Along R (do
    d.pool.forM (Closure.registerSlot d row)
    d.fields.forM (Closure.registerField row)
    d.methods.forM (Closure.registerMethod d row)
    let c ← LinkM.onRegistry (RegistryM.classAt row)
    if (c.declared? Signature.initializer).isSome then LinkM.push (c.member Signature.initializer)) := by
  refine hR.bind (hR.forM fun p _ => hR.registerSlot d row p) fun _ => ?_
  refine hR.bind (hR.forM fun f _ => onRegistry fun l => hR.createField l row _) fun _ => ?_
  refine hR.bind (hR.forM fun m _ => hR.registerMethod d row m) fun _ => ?_
  refine hR.bind (hR.readClass row) fun c => ?_
  split
  · exact hR.push _
  · exact hR.pure _

end Fills

end Closure

end ClassLinker
