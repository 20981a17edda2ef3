import ClassLinker.Proofs.Closure.Loadable
import ClassLinker.Proofs.Closure.Steady

/-! The budget of a link. What a link can still do is bounded by what it has not done yet: the methods
that are not kept, the classes that are not registered and the catalog entries that are not kept.
Every step pays from that for the members that it makes pending, whether or not it succeeds. -/

namespace ClassLinker

open Closure Registry Step

/-! ### What is not kept yet -/

namespace Class

variable {f : Method → Nat} {c : Class}

/-- The sum of the weights of the methods that are not kept. -/
def openWeight (f : Method → Nat) (c : Class) : Nat :=
  total (c.methods.map fun m => if m.kept then 0 else f m)

theorem openWeight_add_keptWeight (f : Method → Nat) (c : Class) :
    c.openWeight f + c.keptWeight f = total (c.methods.map f) := by
  rw [openWeight, keptWeight, ← total_map_add]
  congr 1
  refine List.map_congr_left fun m _ => ?_
  cases m.kept <;> simp

theorem total_methods_markMember (hf : Inherent f) (c : Class) (sig : Signature) :
    total ((markMember c sig).methods.map f) = total (c.methods.map f) := by
  unfold markMember
  split
  · rw [List.map_map]
    congr 1
    refine List.map_congr_left fun m _ => ?_
    rw [Function.comp_apply]
    split
    · exact hf ⟨rfl, fun _ => rfl⟩
    · rfl
  · rfl

/-- A method that becomes kept no longer weighs anything. -/
theorem openWeight_markMember (hnodup : c.signatures.Nodup) {sig : Signature} {d : Declaration}
    (hd : c.declared? sig = some d) (hdropped : d.kept = false) (hf : Inherent f) :
    (markMember c sig).openWeight f + d.weight f = c.openWeight f := by
  cases d with
  | method m =>
      have hkept := keptWeight_markMember hnodup hd hdropped hf
      have hbefore := openWeight_add_keptWeight f c
      have hafter := openWeight_add_keptWeight f (markMember c sig)
      rw [total_methods_markMember hf] at hafter
      simp only [Declaration.weight]
      omega
  | field field =>
      rw [openWeight, methods_markMember_field hd]
      rfl

end Class

/-- What the classes cost that a source serves and a registry does not have. -/
def Source.unregistered (s : Source) (price : ClassDecl → Nat) (r : Registry) : Nat :=
  total (s.decls.map fun d => if (r.find? d.name).isSome then 0 else price d)

/-- What can still become kept, when a method weighs `f` and a class costs `price`. -/
def Registry.reserve (s : Source) (f : Method → Nat) (price : ClassDecl → Nat) (r : Registry) : Nat :=
  r.sumOf (Class.openWeight f) + s.unregistered price r

namespace Registry

variable {s : Source} {f : Method → Nat} {price : ClassDecl → Nat} {r r' : Registry}

/-- Names stay registered, so what is not registered gets no more. -/
theorem unregistered_le (h : ∀ {name}, (r.find? name).isSome → (r'.find? name).isSome) :
    s.unregistered price r' ≤ s.unregistered price r := by
  refine total_map_le fun i d hd _ => ⟨d, hd, ?_⟩
  by_cases hname : (r.find? d.name).isSome
  · rw [if_pos (h hname)]
    exact Nat.zero_le _
  · rw [if_neg hname]
    split
    · exact Nat.zero_le _
    · exact Nat.le_refl _

theorem reserve_modifyClass {row n : Nat} {g : Class → Class}
    (h : ∀ c, r.classAt? row = some c → (g c).openWeight f ≤ c.openWeight f + n) :
    (r.modifyClass row g).reserve s f price ≤ r.reserve s f price + n := by
  have hnames : s.unregistered price (r.modifyClass row g) ≤ s.unregistered price r :=
    unregistered_le fun hname => by rwa [find?_modifyClass]
  have hsum : (r.modifyClass row g).sumOf (Class.openWeight f) ≤ r.sumOf (Class.openWeight f) + n := by
    cases hc : r.classAt? row with
    | some c =>
        have hsum := sumOf_modifyClass (w := Class.openWeight f) hc g
        have hle := h c hc
        omega
    | none =>
        refine Nat.le_trans (sumOf_le fun {p c} hp _ => ⟨c, ?_, Nat.le_refl _⟩) (Nat.le_add_right _ n)
        obtain ⟨c', hc', ⟨rfl, -⟩ | ⟨-, rfl⟩⟩ := classAt?_of_modifyClass hp
        · cases hc.symm.trans hc'
        · exact hc'
  unfold reserve
  omega

theorem reserve_keepMember {row : Nat} {sig : Signature} {fresh : Bool} {c : Class} {d : Declaration}
    (hr : r.WellFormed) (hc : r.classAt? row = some c) (hd : c.declared? sig = some d)
    (hok : keepMember row sig r = .ok fresh r') (hf : Class.Inherent f) :
    r'.reserve s f price + (if fresh then d.weight f else 0) ≤ r.reserve s f price := by
  obtain ⟨-, c', hc', -, ⟨-, rfl, rfl⟩ | ⟨hdropped, rfl, rfl⟩⟩ := keepMember_ok.mp hok
  · exact Nat.le_refl _
  · cases hc.symm.trans hc'
    have hsum := sumOf_modifyClass (w := Class.openWeight f) hc fun c => markMember c sig
    have hmark := Class.openWeight_markMember (hr.signatures_nodup hc) hd (hdropped d hd) hf
    have hnames : s.unregistered price (r.modifyClass row fun c => markMember c sig) ≤
        s.unregistered price r := unregistered_le fun hname => by rwa [find?_modifyClass]
    unfold reserve
    rw [if_pos rfl]
    omega

/-- A new class has no methods yet. -/
theorem sumOf_created {spec : ClassSpec} (h : Created spec r r') :
    r'.sumOf (Class.openWeight f) ≤ r.sumOf (Class.openWeight f) := by
  refine sumOf_le fun {row c'} hc' hne => ?_
  rcases h.class_cases hc' with ⟨c, children, hc, rfl⟩ | ⟨children, rfl⟩
  · exact ⟨c, hc, Nat.le_refl _⟩
  · exact absurd rfl hne

theorem isSome_find?_created {spec : ClassSpec} (h : Created spec r r') {name : Text}
    (hname : (r.find? name).isSome) : (r'.find? name).isSome := by
  rw [h.find?_eq]
  split
  · rfl
  · exact hname

theorem reserve_created {spec : ClassSpec} (h : Created spec r r') :
    r'.reserve s f price ≤ r.reserve s f price :=
  Nat.add_le_add (sumOf_created h) (unregistered_le (isSome_find?_created h))

/-- What the declaration of a new class costs is paid for it. -/
theorem reserve_created_decl {spec : ClassSpec} (h : Created spec r r') {d : ClassDecl}
    (hd : d ∈ s.decls) (hname : d.name = spec.name) :
    r'.reserve s f price + price d ≤ r.reserve s f price := by
  have hsum := sumOf_created (f := f) h
  have hnames : s.unregistered price r' + price d ≤ s.unregistered price r := by
    refine total_map_add_le hd ?_ fun d' _ => ?_
    · rw [hname, h.fresh, h.find?_eq, if_pos rfl]
      simp
    · by_cases hname' : (r.find? d'.name).isSome
      · simp [isSome_find?_created h hname']
      · rw [if_neg hname']
        split <;> simp
  unfold reserve
  omega

/-- No more can become kept than there is. -/
theorem reserve_le (s : Source) (f : Method → Nat) (price : ClassDecl → Nat) (r : Registry) :
    r.reserve s f price ≤
      total (r.rows.toList.map fun c => total (c.methods.map f)) + total (s.decls.map price) := by
  refine Nat.add_le_add (total_map_le fun i c hc _ => ⟨c, hc, ?_⟩)
    (total_map_le fun i d hd _ => ⟨d, hd, ?_⟩)
  · have hsplit := Class.openWeight_add_keptWeight f c
    omega
  · split
    · exact Nat.zero_le _
    · exact Nat.le_refl _

/-! ### Calls and methods -/

theorem inherent_calls : Class.Inherent fun m => m.memberDeps.length := fun hm =>
  congrArg (fun m => m.memberDeps.length) hm.frame

/-- The calls that are still to come: those of the registered methods that are not kept, and for each
class that is not registered its initializer and as many as its code has bytes. -/
def openCalls (s : Source) (r : Registry) : Nat :=
  r.reserve s (fun m => m.memberDeps.length) fun d =>
    1 + total (d.methods.map fun m => m.code.length)

/-- The methods that can still become kept. -/
def openMethods (s : Source) (r : Registry) : Nat :=
  r.reserve s (fun _ => 1) fun d => d.methods.length

/-- A change of a registry adds no more than `n` calls and `k` methods. -/
structure Adds (s : Source) (n k : Nat) (r r' : Registry) : Prop where
  calls : r'.openCalls s ≤ r.openCalls s + n
  methods : r'.openMethods s ≤ r.openMethods s + k

theorem Adds.refl (s : Source) (r : Registry) : r.Adds s 0 0 r := ⟨Nat.le_refl _, Nat.le_refl _⟩

/-- A change of one class that leaves its methods alone. -/
theorem adds_of_methods {row : Nat} {g : Class → Class} (h : ∀ c, (g c).methods = c.methods) :
    r.Adds s 0 0 (r.modifyClass row g) := by
  have hsame : ∀ f c, Class.openWeight f (g c) ≤ Class.openWeight f c + 0 := by
    intro f c
    rw [Class.openWeight, h]
    exact Nat.le_refl _
  exact ⟨reserve_modifyClass fun c _ => hsame _ c, reserve_modifyClass fun c _ => hsame _ c⟩

/-- A change of the methods with a given signature, of which a class has no more than one. -/
theorem openWeight_modify_le {sig : Signature} {g : Method → Method} {n : Nat} {c : Class}
    (hnodup : c.signatures.Nodup) (hkept : ∀ m, (g m).kept = m.kept)
    (hweight : ∀ m, f (g m) ≤ f m + n) :
    ({ c with methods := c.methods.map fun m => if m.sig = sig then g m else m } : Class).openWeight f ≤
      c.openWeight f + n := by
  have hsigs : (c.methods.map Method.sig).Nodup := (List.nodup_append.mp hnodup).1
  unfold Class.openWeight
  dsimp only
  generalize c.methods = ms at hsigs
  induction ms with
  | nil => exact Nat.zero_le _
  | cons m ms ih =>
      rw [List.map_cons, List.nodup_cons] at hsigs
      simp only [List.map_cons, total]
      by_cases hm : m.sig = sig
      · have hothers : (ms.map fun m => if m.sig = sig then g m else m) = ms := by
          conv_rhs => rw [← List.map_id ms]
          refine List.map_congr_left fun x hx => if_neg fun hx' => hsigs.1 ?_
          exact List.mem_map.mpr ⟨x, hx, hx'.trans hm.symm⟩
        have hle := hweight m
        rw [hothers, if_pos hm, hkept]
        cases m.kept
        · simp only [Bool.false_eq_true, if_false]
          omega
        · simp only [if_true]
          omega
      · have hrest := ih hsigs.2
        rw [if_neg hm]
        omega

theorem adds_modifyMethod {row n : Nat} {sig : Signature} {g : Method → Method}
    (hr : r.WellFormed) (hkept : ∀ m, (g m).kept = m.kept)
    (hcalls : ∀ m, (g m).memberDeps.length ≤ m.memberDeps.length + n) :
    r.Adds s n 0 (r.modifyMethod row sig g) where
  calls := reserve_modifyClass fun _ hc =>
    openWeight_modify_le (hr.signatures_nodup hc) hkept hcalls
  methods := reserve_modifyClass fun _ hc =>
    openWeight_modify_le (hr.signatures_nodup hc) hkept fun _ => Nat.le_refl _

/-- A new method refers to nothing before it is scanned. -/
theorem adds_createMethod (s : Source) (row : Nat) (spec : MethodSpec) (r : Registry) :
    r.Adds s 0 1 (final (createMethod row spec r)) := by
  refine final_of_unchanged ⟨Nat.le_refl _, Nat.le_succ _⟩ createMethod_error fun hok => ?_
  obtain ⟨-, c, -, -, -, rfl⟩ := createMethod_ok.mp hok
  have hweight : ∀ (f : Method → Nat) (c : Class) (n : Nat), f spec.toMethod ≤ n →
      Class.openWeight f { c with methods := c.methods ++ [spec.toMethod] } ≤ c.openWeight f + n := by
    intro f c n hle
    simp only [Class.openWeight, List.map_append, List.map_cons, List.map_nil, total_append, total]
    split <;> omega
  exact ⟨reserve_modifyClass fun c _ => hweight _ c 0 (Nat.le_refl _),
    reserve_modifyClass fun c _ => hweight _ c 1 (Nat.le_refl _)⟩

/-- The methods of the registered classes are left alone. -/
def SameMethods (r r' : Registry) : Prop :=
  r' = r ∨ ∃ row g, r' = r.modifyClass row g ∧ ∀ c, (g c).methods = c.methods

theorem SameMethods.adds (h : r.SameMethods r') : r.Adds s 0 0 r' := by
  obtain rfl | ⟨row, g, rfl, hmethods⟩ := h
  · exact .refl s r'
  · exact adds_of_methods hmethods

theorem createRef_sameMethods (row : Nat) (slot : Int) (body : RefBody) (r : Registry) :
    r.SameMethods (final (createRef row slot body r)) := by
  refine final_of_unchanged (.inl rfl) createRef_error fun hok => ?_
  obtain ⟨-, c, -, -, -, -, rfl, -⟩ := createRef_ok.mp hok
  exact .inr ⟨_, _, rfl, fun c => rfl⟩

theorem createLiteral_sameMethods (row : Nat) (slot kind : Int) (value : Option Literal)
    (r : Registry) : r.SameMethods (final (createLiteral row slot kind value r)) := by
  refine final_of_unchanged (.inl rfl) createLiteral_error fun hok => ?_
  obtain ⟨v, -, -, hcreate⟩ := createLiteral_ok.mp hok
  have hsame := createRef_sameMethods row slot (.literal v) r
  rwa [hcreate] at hsame

theorem createField_sameMethods (row : Nat) (spec : FieldSpec) (r : Registry) :
    r.SameMethods (final (createField row spec r)) := by
  refine final_of_unchanged (.inl rfl) createField_error fun hok => ?_
  obtain ⟨-, c, -, -, rfl⟩ := createField_ok.mp hok
  exact .inr ⟨_, _, rfl, fun c => rfl⟩

theorem allocSlot_sameMethods (row : Nat) (r : Registry) :
    r.SameMethods (final (allocSlot row r)) := by
  refine final_of_unchanged (.inl rfl) allocSlot_error fun hok => ?_
  obtain ⟨-, c, -, -, rfl, -⟩ := allocSlot_ok.mp hok
  exact .inr ⟨_, _, rfl, fun c => rfl⟩

theorem keepRef_sameMethods (a : RefAddr) (r : Registry) : r.SameMethods (final (keepRef a r)) := by
  refine final_of_unchanged (.inl rfl) keepRef_error fun hok => ?_
  obtain ⟨-, ref, -, -, ⟨-, -, rfl⟩ | ⟨-, -, rfl⟩⟩ := keepRef_ok.mp hok
  · exact .inl rfl
  · exact .inr ⟨_, _, rfl, fun c => rfl⟩

end Registry

/-! ### The budget of a link -/

/-- A link in order, which has kept entries of the catalog only and whose root is no array. -/
structure Linker.Fit (l : Linker) : Prop where
  orderly : l.Orderly
  sorted : l.builtins.Pairwise (· < ·)
  catalog : ∀ id ∈ l.builtins, id < Builtin.catalog.length
  plain : l.root.head? ≠ some (Text.byte '[')

theorem Linker.Fit.repend {l : Linker} (h : l.Fit) (pending : List Member) :
    Linker.Fit { l with pending := pending } := ⟨h.orderly, h.sorted, h.catalog, h.plain⟩

/-- The members that are pending and those that can still become pending. -/
def Linker.callsLeft (s : Source) (l : Linker) : Nat :=
  l.pending.length + l.registry.openCalls s +
    Builtin.catalog.length * (Builtin.catalog.length - l.builtins.length)

namespace Closure

open LinkM

variable {α β : Type} {s : Source} {n n' k k' : Nat} {l l' l'' : Linker}

/-- A change of a link that costs no more than `n` calls and `k` methods and exhausts no fuel. -/
structure Spends (s : Source) (n k : Nat) (l l' : Linker) : Prop where
  fit : l'.Fit
  cut_eq : l'.cut = l.cut
  calls : l'.callsLeft s ≤ l.callsLeft s + n
  methods : l'.registry.openMethods s ≤ l.registry.openMethods s + k

namespace Spends

theorem refl (hl : l.Fit) : Spends s 0 0 l l := ⟨hl, rfl, Nat.le_refl _, Nat.le_refl _⟩

theorem trans (h : Spends s n k l l') (h' : Spends s n' k' l' l'') :
    Spends s (n + n') (k + k') l l'' := by
  refine ⟨h'.fit, h'.cut_eq.trans h.cut_eq, ?_, ?_⟩
  · have hfirst := h.calls
    have hsecond := h'.calls
    omega
  · have hfirst := h.methods
    have hsecond := h'.methods
    omega

theorem mono (h : Spends s n k l l') (hn : n ≤ n') (hk : k ≤ k') : Spends s n' k' l l' :=
  ⟨h.fit, h.cut_eq, Nat.le_trans h.calls (Nat.add_le_add_left hn _),
    Nat.le_trans h.methods (Nat.add_le_add_left hk _)⟩

/-- What has been paid for already costs nothing more. -/
theorem of_paid (h : Spends s n k l' l'') (hcut : l'.cut = l.cut)
    (hcalls : l'.callsLeft s + n ≤ l.callsLeft s)
    (hmethods : l'.registry.openMethods s + k ≤ l.registry.openMethods s) : Spends s 0 0 l l'' :=
  ⟨h.fit, h.cut_eq.trans hcut, Nat.le_trans h.calls hcalls, Nat.le_trans h.methods hmethods⟩

/-- A change of the registry alone. -/
theorem of_registry {r : Registry} (hl : l.Fit) (horder : r.Orderly l.expansions)
    (hadds : l.registry.Adds s n k r) : Spends s n k l { l with registry := r } := by
  refine ⟨⟨horder, hl.sorted, hl.catalog, hl.plain⟩, rfl, ?_, hadds.methods⟩
  have hcalls := hadds.calls
  unfold Linker.callsLeft
  dsimp only
  omega

end Spends

/-- A step that spends no more than `n` calls and `k` methods, whether or not it succeeds. -/
structure Metered (s : Source) (n k : Nat) (x : LinkM α) : Prop where
  spends : ∀ {l : Linker}, l.Fit → Spends s n k l (final (x l))

namespace Metered

theorem mono {x : LinkM α} (h : Metered s n k x) (hn : n ≤ n') (hk : k ≤ k') : Metered s n' k' x :=
  ⟨fun hl => (h.spends hl).mono hn hk⟩

/-- A step that changes nothing but what is pending and what was asked. -/
theorem of_same {x : LinkM α} (h : ∀ l, ∃ pending arrayRefs asked, final (x l) =
      { l with pending := pending, arrayRefs := arrayRefs, asked := asked } ∧
      pending.length ≤ l.pending.length + n) : Metered s n 0 x := by
  refine ⟨fun {l} hl => ?_⟩
  obtain ⟨pending, arrayRefs, asked, heq, hle⟩ := h l
  rw [heq]
  refine ⟨⟨hl.orderly, hl.sorted, hl.catalog, hl.plain⟩, rfl, ?_, Nat.le_refl _⟩
  unfold Linker.callsLeft
  dsimp only
  omega

theorem pure (a : α) : Metered s 0 0 (Pure.pure a : LinkM α) :=
  of_same fun _ => ⟨_, _, _, rfl, Nat.le_refl _⟩

theorem fault : Metered s 0 0 (throw .fault : LinkM α) :=
  of_same fun _ => ⟨_, _, _, rfl, Nat.le_refl _⟩

theorem fail (e : Error) : Metered s 0 0 (LinkM.fail e : LinkM α) :=
  of_same fun _ => ⟨_, _, _, rfl, Nat.le_refl _⟩

theorem get : Metered s 0 0 (MonadState.get : LinkM Linker) :=
  of_same fun _ => ⟨_, _, _, rfl, Nat.le_refl _⟩

theorem registered? (name : Text) : Metered s 0 0 (LinkM.registered? name) :=
  of_same fun _ => ⟨_, _, _, rfl, Nat.le_refl _⟩

theorem ask (name : Text) : Metered s 0 0 (LinkM.ask s name) :=
  of_same fun _ => ⟨_, _, _, rfl, Nat.le_refl _⟩

theorem push (m : Member) : Metered s 1 0 (LinkM.push m) :=
  of_same fun _ => ⟨_, _, _, rfl, Nat.le_refl _⟩

theorem bind {x : LinkM α} {f : α → LinkM β} (hx : Metered s n k x)
    (hf : ∀ a, Metered s n' k' (f a)) : Metered s (n + n') (k + k') (x >>= f) := by
  refine ⟨fun {l} hl => ?_⟩
  have hfirst := hx.spends hl
  refine final_bind (hfirst.mono (Nat.le_add_right _ _) (Nat.le_add_right _ _)) fun {a t} ht => ?_
  rw [ht] at hfirst
  exact hfirst.trans ((hf a).spends hfirst.fit)

/-- A sequence of which only one part costs anything. -/
theorem seq {x : LinkM α} {f : α → LinkM β} (hx : Metered s 0 0 x) (hf : ∀ a, Metered s n k (f a)) :
    Metered s n k (x >>= f) :=
  (hx.bind hf).mono (Nat.le_of_eq (Nat.zero_add n)) (Nat.le_of_eq (Nat.zero_add k))

theorem discard {x : LinkM α} (h : Metered s n k x) : Metered s n k (discard x) := by
  refine ⟨fun {l} hl => ?_⟩
  rw [final_discard]
  exact h.spends hl

theorem mapError {f : Error → Error} {x : LinkM α} (h : Metered s n k x) :
    Metered s n k (LinkM.mapError f x) := by
  refine ⟨fun {l} hl => ?_⟩
  rw [final_mapError]
  exact h.spends hl

theorem forM {f : α → LinkM PUnit} {xs : List α} {n : α → Nat}
    (h : ∀ x ∈ xs, Metered s (n x) k (f x)) :
    Metered s (total (xs.map n)) (xs.length * k) (xs.forM f) := by
  induction xs with
  | nil => exact (pure _).mono (Nat.zero_le _) (Nat.zero_le _)
  | cons x xs ih =>
      have hrest := ih fun y hy => h y (List.mem_cons_of_mem _ hy)
      refine ((h x List.mem_cons_self).bind fun _ => hrest).mono (Nat.le_refl _) ?_
      rw [List.length_cons, Nat.succ_mul, Nat.add_comm]

/-- A loop whose steps cost nothing. -/
theorem loop {f : α → LinkM PUnit} {xs : List α} (h : ∀ x ∈ xs, Metered s 0 0 (f x)) :
    Metered s 0 0 (xs.forM f) := by
  induction xs with
  | nil => exact pure _
  | cons x xs ih =>
      exact (h x List.mem_cons_self).seq fun _ => ih fun y hy => h y (List.mem_cons_of_mem _ hy)

/-- A check before a step. -/
theorem guard {p : Prop} [Decidable p] {e : Error} {x : LinkM α} (h : Metered s n k x) :
    Metered s n k (if p then LinkM.fail e >>= fun _ : PUnit => x else x) := by
  split
  · exact (fail e).seq fun _ => h
  · exact h

theorem onRegistry {x : RegistryM α} (horder : KeepsOrder x)
    (hadds : ∀ {r : Registry}, r.WellFormed → r.Adds s n k (final (x r))) :
    Metered s n k (LinkM.onRegistry x) := by
  refine ⟨fun {l} hl => ?_⟩
  rw [final_onRegistry]
  exact .of_registry hl (horder hl.orderly).1 (hadds hl.orderly.tidy.wellFormed)

/-- An operation that leaves the methods of the registered classes alone. -/
theorem of_sameMethods {x : RegistryM α} (horder : KeepsOrder x)
    (hsame : ∀ r : Registry, r.SameMethods (final (x r))) : Metered s 0 0 (LinkM.onRegistry x) :=
  onRegistry horder fun _ => (hsame _).adds

theorem readClass (row : Nat) : Metered s 0 0 (LinkM.onRegistry (RegistryM.classAt row)) := by
  refine ⟨fun {l} hl => ?_⟩
  rw [final_onRegistry, final_classAt]
  exact .refl hl

theorem readRef (a : RefAddr) : Metered s 0 0 (LinkM.onRegistry (RegistryM.refAt a)) := by
  refine ⟨fun {l} hl => ?_⟩
  rw [final_onRegistry, final_refAt]
  exact .refl hl

end Metered

end Closure

end ClassLinker
