import ClassLinker.Proofs.Registry.Lookup

/-! Growth: while a link goes on, classes are added and things become kept, and nothing else happens
to what is there. Lookups, ids and references survive it. -/

namespace ClassLinker

section Forall₂

variable {α β γ : Type} {R : α → β → Prop} {xs : List α} {ys : List β}

theorem map_eq_of_forall₂ {f : α → γ} {g : β → γ} (hR : ∀ {x y}, R x y → g y = f x)
    (h : List.Forall₂ R xs ys) : ys.map g = xs.map f := by
  induction h with
  | nil => rfl
  | cons hxy _ ih => rw [List.map_cons, List.map_cons, hR hxy, ih]

theorem find?_of_forall₂ {p : α → Bool} {q : β → Bool} (hR : ∀ {x y}, R x y → q y = p x)
    (h : List.Forall₂ R xs ys) : Option.Rel R (xs.find? p) (ys.find? q) := by
  induction h with
  | nil => exact .none
  | @cons x y _ _ hxy _ ih =>
      rw [List.find?_cons, List.find?_cons, hR hxy]
      cases p x with
      | true => exact .some hxy
      | false => exact ih

theorem forall₂_trans {S : β → γ → Prop} {T : α → γ → Prop} {zs : List γ}
    (hT : ∀ x y z, R x y → S y z → T x z) (h : List.Forall₂ R xs ys)
    (h' : List.Forall₂ S ys zs) : List.Forall₂ T xs zs := by
  induction h generalizing zs with
  | nil =>
      cases h'
      exact .nil
  | cons hxy _ ih =>
      cases h' with
      | cons hyz hrest => exact .cons (hT _ _ _ hxy hyz) (ih hrest)

theorem forall₂_map_self {S : α → α → Prop} {f : α → α} (hS : ∀ x, S x (f x)) (xs : List α) :
    List.Forall₂ S xs (xs.map f) := by
  rw [List.forall₂_map_right_iff]
  exact List.forall₂_same.mpr fun x _ => hS x

theorem forall₂_mem_right (h : List.Forall₂ R xs ys) {y : β} (hy : y ∈ ys) : ∃ x ∈ xs, R x y := by
  induction h with
  | nil => cases hy
  | cons hxy _ ih =>
      rcases List.mem_cons.mp hy with rfl | hy
      · exact ⟨_, List.mem_cons_self, hxy⟩
      · obtain ⟨x, hx, hR⟩ := ih hy
        exact ⟨x, List.mem_cons_of_mem _ hx, hR⟩

theorem forall₂_mem_left (h : List.Forall₂ R xs ys) {x : α} (hx : x ∈ xs) : ∃ y ∈ ys, R x y := by
  obtain ⟨y, hy, hR⟩ := forall₂_mem_right (R := fun y x => R x y) h.flip hx
  exact ⟨y, hy, hR⟩

theorem rel_none {o : Option β} (h : Option.Rel R none o) : o = none := by
  cases h
  rfl

theorem rel_some {o : Option β} {x : α} (h : Option.Rel R (some x) o) : ∃ y, o = some y ∧ R x y := by
  cases h with
  | some hxy => exact ⟨_, rfl, hxy⟩

theorem rel_some_right {o : Option α} {y : β} (h : Option.Rel R o (some y)) :
    ∃ x, o = some x ∧ R x y := by
  cases h with
  | some hxy => exact ⟨_, rfl, hxy⟩

end Forall₂

/-- `m'` is `m`, which may have become kept. -/
structure Method.Grows (m m' : Method) : Prop where
  frame : m' = { m with kept := m'.kept }
  kept : m.kept = true → m'.kept = true

/-- `f'` is `f`, which may have become kept. -/
structure Field.Grows (f f' : Field) : Prop where
  frame : f' = { f with kept := f'.kept }
  kept : f.kept = true → f'.kept = true

/-- `ref'` is `ref`, which may have become kept. -/
structure Reference.Grows (ref ref' : Reference) : Prop where
  frame : ref' = { ref with kept := ref'.kept }
  kept : ref.kept = true → ref'.kept = true

/-- Two declarations of one sort that are related. -/
def Declaration.Rel (R : Method → Method → Prop) (S : Field → Field → Prop) :
    Declaration → Declaration → Prop
  | .method m, .method m' => R m m'
  | .field f, .field f' => S f f'
  | _, _ => False

/-- A declaration that may have become kept. -/
def Declaration.Grows : Declaration → Declaration → Prop := Declaration.Rel Method.Grows Field.Grows

theorem Method.Grows.refl (m : Method) : m.Grows m := ⟨rfl, id⟩

theorem Method.Grows.trans {m m' m'' : Method} (h : m.Grows m') (h' : m'.Grows m'') :
    m.Grows m'' := ⟨by rw [h'.frame, h.frame], fun hk => h'.kept (h.kept hk)⟩

theorem Method.Grows.sig_eq {m m' : Method} (h : m.Grows m') : m'.sig = m.sig := by rw [h.frame]

theorem Field.Grows.refl (f : Field) : f.Grows f := ⟨rfl, id⟩

theorem Field.Grows.trans {f f' f'' : Field} (h : f.Grows f') (h' : f'.Grows f'') :
    f.Grows f'' := ⟨by rw [h'.frame, h.frame], fun hk => h'.kept (h.kept hk)⟩

theorem Field.Grows.sig_eq {f f' : Field} (h : f.Grows f') : f'.sig = f.sig := by rw [h.frame]

theorem Reference.Grows.refl (ref : Reference) : ref.Grows ref := ⟨rfl, id⟩

theorem Reference.Grows.trans {ref ref' ref'' : Reference} (h : ref.Grows ref')
    (h' : ref'.Grows ref'') : ref.Grows ref'' :=
  ⟨by rw [h'.frame, h.frame], fun hk => h'.kept (h.kept hk)⟩

theorem Reference.Grows.body_eq {ref ref' : Reference} (h : ref.Grows ref') :
    ref'.body = ref.body := by rw [h.frame]

theorem Reference.Grows.slot_eq {ref ref' : Reference} (h : ref.Grows ref') :
    ref'.slot = ref.slot := by rw [h.frame]

theorem Reference.Grows.markRef (ref : Reference) : ref.Grows (Registry.markRef ref) :=
  ⟨rfl, fun _ => rfl⟩

theorem Declaration.Grows.kept {d d' : Declaration} (h : d.Grows d') (hk : d.kept = true) :
    d'.kept = true := by
  cases d <;> cases d'
  · exact Method.Grows.kept h hk
  · exact h.elim
  · exact h.elim
  · exact Field.Grows.kept h hk

namespace Class

/-- Classes whose members are related declare related members. -/
theorem declared?_rel {R : Method → Method → Prop} {S : Field → Field → Prop} {c c' : Class}
    (hR : ∀ {m m'}, R m m' → m'.sig = m.sig) (hS : ∀ {f f'}, S f f' → f'.sig = f.sig)
    (hmethods : List.Forall₂ R c.methods c'.methods) (hfields : List.Forall₂ S c.fields c'.fields)
    (sig : Signature) :
    Option.Rel (Declaration.Rel R S) (c.declared? sig) (c'.declared? sig) := by
  have hm := find?_of_forall₂ (p := fun m => m.sig = sig) (q := fun m => m.sig = sig)
    (fun hm => by rw [hR hm]) hmethods
  have hf := find?_of_forall₂ (p := fun f => f.sig = sig) (q := fun f => f.sig = sig)
    (fun hf => by rw [hS hf]) hfields
  unfold Class.declared?
  cases hmethod : c.methods.find? fun m => m.sig = sig with
  | some m =>
      obtain ⟨m', hm', hrel⟩ := rel_some (hmethod ▸ hm)
      rw [hm']
      exact .some hrel
  | none =>
      rw [hmethod] at hm
      cases hmethod' : c'.methods.find? fun m => m.sig = sig with
      | some m' => rw [hmethod'] at hm; cases hm
      | none =>
          cases hfield : c.fields.find? fun f => f.sig = sig with
          | some f =>
              obtain ⟨f', hf', hrel⟩ := rel_some (hfield ▸ hf)
              rw [hf']
              exact .some hrel
          | none =>
              rw [hfield] at hf
              cases hfield' : c'.fields.find? fun f => f.sig = sig with
              | some f' => rw [hfield'] at hf; cases hf
              | none => exact .none

/-- `c'` is `c` with more kept and more children. -/
structure Grows (c c' : Class) : Prop where
  frame : c' = { c with
    kept := c'.kept, methods := c'.methods, fields := c'.fields, pool := c'.pool
    children := c'.children }
  kept : c.kept = true → c'.kept = true
  methods : List.Forall₂ Method.Grows c.methods c'.methods
  fields : List.Forall₂ Field.Grows c.fields c'.fields
  pool_size : c'.pool.size = c.pool.size
  pool : ∀ {pos : Nat} {ref}, c.pool[pos]? = some ref →
    ∃ ref', c'.pool[pos]? = some ref' ∧ ref.Grows ref'

namespace Grows

variable {c c' c'' : Class}

theorem refl (c : Class) : c.Grows c where
  frame := rfl
  kept hk := hk
  methods := List.forall₂_same.mpr fun m _ => .refl m
  fields := List.forall₂_same.mpr fun f _ => .refl f
  pool_size := rfl
  pool {_ ref} href := ⟨ref, href, .refl ref⟩

theorem trans (h : c.Grows c') (h' : c'.Grows c'') : c.Grows c'' := by
  refine ⟨?_, fun hk => h'.kept (h.kept hk),
    forall₂_trans (fun _ _ _ hm hm' => hm.trans hm') h.methods h'.methods,
    forall₂_trans (fun _ _ _ hf hf' => hf.trans hf') h.fields h'.fields,
    h'.pool_size.trans h.pool_size, ?_⟩
  · rw [h'.frame, h.frame]
  · intro pos ref href
    obtain ⟨ref', href', hgrow⟩ := h.pool href
    obtain ⟨ref'', href'', hgrow'⟩ := h'.pool href'
    exact ⟨ref'', href'', hgrow.trans hgrow'⟩

theorem id_eq (h : c.Grows c') : c'.id = c.id := by rw [h.frame]

theorem name_eq (h : c.Grows c') : c'.name = c.name := by rw [h.frame]

theorem member_eq (h : c.Grows c') (sig : Signature) : c'.member sig = c.member sig := by
  rw [member, member, h.name_eq]

theorem super_eq (h : c.Grows c') : c'.super = c.super := by rw [h.frame]

theorem interfaces_eq (h : c.Grows c') : c'.interfaces = c.interfaces := by rw [h.frame]

theorem slots_eq (h : c.Grows c') : c'.slots = c.slots := by rw [h.frame]

theorem pool_old (h : c.Grows c') {pos : Nat} {ref' : Reference} (href' : c'.pool[pos]? = some ref') :
    ∃ ref, c.pool[pos]? = some ref ∧ ref.Grows ref' := by
  obtain ⟨hlt, -⟩ := Array.getElem?_eq_some_iff.mp href'
  obtain ⟨ref'', href'', hgrow⟩ := h.pool (Array.getElem?_eq_getElem (h.pool_size ▸ hlt))
  cases href'.symm.trans href''
  exact ⟨_, Array.getElem?_eq_getElem (h.pool_size ▸ hlt), hgrow⟩

theorem signatures_eq (h : c.Grows c') : c'.signatures = c.signatures := by
  rw [signatures, signatures, map_eq_of_forall₂ (fun hm => hm.sig_eq) h.methods,
    map_eq_of_forall₂ (fun hf => hf.sig_eq) h.fields]

/-- A declaration of the class is one of the grown class, grown. -/
theorem declared? (h : c.Grows c') (sig : Signature) :
    Option.Rel Declaration.Grows (c.declared? sig) (c'.declared? sig) :=
  declared?_rel (fun hm => hm.sig_eq) (fun hf => hf.sig_eq) h.methods h.fields sig

theorem declared?_some (h : c.Grows c') {sig : Signature} {d : Declaration}
    (hd : c.declared? sig = some d) : ∃ d', c'.declared? sig = some d' ∧ d.Grows d' := by
  have hrel := h.declared? sig
  rw [hd] at hrel
  exact rel_some hrel

theorem declared?_old (h : c.Grows c') {sig : Signature} {d' : Declaration}
    (hd' : c'.declared? sig = some d') : ∃ d, c.declared? sig = some d ∧ d.Grows d' := by
  have hrel := h.declared? sig
  rw [hd'] at hrel
  exact rel_some_right hrel

theorem markMember (c : Class) (sig : Signature) : c.Grows (Registry.markMember c sig) := by
  have hm : List.Forall₂ Method.Grows c.methods
      (c.methods.map fun m => if m.sig = sig then { m with kept := true } else m) := by
    refine forall₂_map_self (fun m => ?_) _
    split
    · exact ⟨rfl, fun _ => rfl⟩
    · exact .refl m
  have hf : List.Forall₂ Field.Grows c.fields
      (c.fields.map fun f => if f.sig = sig then { f with kept := true } else f) := by
    refine forall₂_map_self (fun f => ?_) _
    split
    · exact ⟨rfl, fun _ => rfl⟩
    · exact .refl f
  unfold Registry.markMember
  split
  · exact { refl c with frame := rfl, methods := hm }
  · exact { refl c with frame := rfl, fields := hf }

theorem modify_pool (c : Class) (p : Nat) {f : Reference → Reference}
    (hf : ∀ ref : Reference, ref.Grows (f ref)) : c.Grows { c with pool := c.pool.modify p f } := by
  refine { refl c with frame := rfl, pool_size := Array.size_modify .., pool := ?_ }
  intro pos ref href
  rw [Array.getElem?_modify, href]
  split
  · exact ⟨f ref, rfl, hf ref⟩
  · exact ⟨ref, rfl, .refl ref⟩

end Grows

end Class

namespace Registry

/-- `r'` is `r` with more classes and more kept. -/
structure Grows (r r' : Registry) : Prop where
  find : ∀ {name row}, r.find? name = some row → r'.find? name = some row
  live : r.live <+: r'.live
  classes : ∀ {row c}, r.classAt? row = some c → ∃ c', r'.classAt? row = some c' ∧ c.Grows c'

/-- The member that a row declares with a signature is kept. -/
def KeepsMember (r : Registry) (row : Nat) (sig : Signature) : Prop :=
  ∃ c d, r.classAt? row = some c ∧ c.declared? sig = some d ∧ d.kept = true

/-- The reference at an address is kept. -/
def KeepsRef (r : Registry) (a : RefAddr) : Prop := ∃ ref, r.refAt? a = some ref ∧ ref.kept = true

namespace Grows

variable {r r' r'' : Registry}

theorem refl (r : Registry) : r.Grows r :=
  ⟨fun hp => hp, List.prefix_rfl, fun {_ c} hc => ⟨c, hc, .refl c⟩⟩

theorem trans (h : r.Grows r') (h' : r'.Grows r'') : r.Grows r'' := by
  refine ⟨fun hp => h'.find (h.find hp), h.live.trans h'.live, ?_⟩
  intro row c hc
  obtain ⟨c', hc', hgrow⟩ := h.classes hc
  obtain ⟨c'', hc'', hgrow'⟩ := h'.classes hc'
  exact ⟨c'', hc'', hgrow.trans hgrow'⟩

theorem modifyClass (r : Registry) (row : Nat) {f : Class → Class} (hf : ∀ c : Class, c.Grows (f c)) :
    r.Grows (r.modifyClass row f) := by
  refine ⟨fun hp => hp, List.prefix_rfl, ?_⟩
  intro p c hc
  rw [classAt?_modifyClass, hc]
  split
  · exact ⟨f c, rfl, hf c⟩
  · exact ⟨c, rfl, .refl c⟩

theorem size_le (h : r.Grows r') : r.rows.size ≤ r'.rows.size := by
  by_contra hlt
  obtain ⟨c, hc⟩ := exists_classAt? (Nat.lt_of_not_le hlt)
  obtain ⟨c', hc', -⟩ := h.classes hc
  exact absurd (classAt?_lt hc') (Nat.lt_irrefl _)

/-- A class of the grown registry in an old row is an old class, grown. -/
theorem exists_old (h : r.Grows r') {row : Nat} {c' : Class} (hc' : r'.classAt? row = some c')
    (hlt : row < r.rows.size) : ∃ c, r.classAt? row = some c ∧ c.Grows c' := by
  obtain ⟨c, hc⟩ := exists_classAt? hlt
  obtain ⟨c'', hc'', hgrow⟩ := h.classes hc
  cases hc'.symm.trans hc''
  exact ⟨c, hc, hgrow⟩

/-- What a class in an old row declares, the class declared before it grew. -/
theorem declared_old (h : r.Grows r') {row : Nat} {c : Class} {sig : Signature} {d : Declaration}
    (hc : r'.classAt? row = some c) (hd : c.declared? sig = some d) (hlt : row < r.rows.size) :
    ∃ c₀ d₀, r.classAt? row = some c₀ ∧ c₀.declared? sig = some d₀ ∧
      c.member sig = c₀.member sig := by
  obtain ⟨c₀, hc₀, hgrow⟩ := h.exists_old hc hlt
  obtain ⟨d₀, hd₀, -⟩ := hgrow.declared?_old hd
  exact ⟨c₀, d₀, hc₀, hd₀, hgrow.member_eq sig⟩

theorem aligned (h : r.Grows r') (sig : Signature) : Aligned sig (fun _ => False) r r' := by
  refine ⟨fun hp => h.find hp, ?_⟩
  intro row c hc
  obtain ⟨c', hc', hgrow⟩ := h.classes hc
  refine ⟨c', hc', hgrow.super_eq, hgrow.interfaces_eq, ?_, ?_⟩
  · intro hsig
    rw [hgrow.signatures_eq]
    exact hsig
  · intro hsig
    rw [hgrow.signatures_eq] at hsig
    exact Or.inl hsig

/-- A lookup finds the same declaration in the grown registry. -/
theorem findMember (h : r.Grows r') (hr : r.WellFormed) (hh : r.Hierarchy) {m : Member} {row : Nat}
    {d : Declaration} (hok : r.findMember m = .ok (row, d)) :
    ∃ d', r'.findMember m = .ok (row, d') ∧ d.Grows d' := by
  obtain ⟨row', d', hok', rfl | hfalse⟩ := (h.aligned m.sig).findMember hr hh hok
  · obtain ⟨-, c, -, hc, hd⟩ := findMember_ok hok
    obtain ⟨-, c', -, hc', hd'⟩ := findMember_ok hok'
    obtain ⟨c'', hc'', hgrow⟩ := h.classes hc
    cases hc'.symm.trans hc''
    obtain ⟨d'', hd'', hgrow⟩ := hgrow.declared?_some hd
    cases hd'.symm.trans hd''
    exact ⟨d', hok', hgrow⟩
  · exact hfalse.elim

theorem keepsMember (h : r.Grows r') {row : Nat} {sig : Signature} (hkept : r.KeepsMember row sig) :
    r'.KeepsMember row sig := by
  obtain ⟨c, d, hc, hd, hk⟩ := hkept
  obtain ⟨c', hc', hgrow⟩ := h.classes hc
  obtain ⟨d', hd', hgrow'⟩ := hgrow.declared?_some hd
  exact ⟨c', d', hc', hd', hgrow'.kept hk⟩

theorem refAt? (h : r.Grows r') {a : RefAddr} {ref : Reference} (href : r.refAt? a = some ref) :
    ∃ ref', r'.refAt? a = some ref' ∧ ref.Grows ref' := by
  obtain ⟨c, hc, hpool⟩ := refAt?_eq_some.mp href
  obtain ⟨c', hc', hgrow⟩ := h.classes hc
  obtain ⟨ref', href', hgrow'⟩ := hgrow.pool hpool
  exact ⟨ref', refAt?_eq_some.mpr ⟨c', hc', href'⟩, hgrow'⟩

theorem keepsRef (h : r.Grows r') {a : RefAddr} (hkept : r.KeepsRef a) : r'.KeepsRef a := by
  obtain ⟨ref, href, hk⟩ := hkept
  obtain ⟨ref', href', hgrow⟩ := h.refAt? href
  exact ⟨ref', href', hgrow.kept hk⟩

end Grows

/-! ### What the marking operations do -/

theorem keepMember_grows {row : Nat} {sig : Signature} {fresh : Bool} {r r' : Registry}
    (h : keepMember row sig r = .ok fresh r') : r.Grows r' := by
  obtain ⟨-, c, -, -, ⟨-, -, rfl⟩ | ⟨-, -, rfl⟩⟩ := keepMember_ok.mp h
  · exact .refl r
  · exact .modifyClass r row fun c => .markMember c sig

theorem keepRef_grows {a : RefAddr} {fresh : Bool} {r r' : Registry}
    (h : keepRef a r = .ok fresh r') : r.Grows r' := by
  obtain ⟨-, ref, -, -, ⟨-, -, rfl⟩ | ⟨-, -, rfl⟩⟩ := keepRef_ok.mp h
  · exact .refl r
  · exact .modifyClass r a.row fun c => .modify_pool c a.pos .markRef

theorem refAt?_modifyRef (r : Registry) (a b : RefAddr) (f : Reference → Reference) :
    (r.modifyRef a f).refAt? b = if a = b then (r.refAt? b).map f else r.refAt? b := by
  obtain ⟨arow, apos⟩ := a
  obtain ⟨brow, bpos⟩ := b
  simp only [modifyRef, Registry.refAt?, classAt?_modifyClass, RefAddr.mk.injEq]
  by_cases hrow : arow = brow
  · cases r.classAt? brow <;> simp [hrow, Array.getElem?_modify]
  · simp [hrow]

theorem keepRef_keeps {a : RefAddr} {fresh : Bool} {r r' : Registry}
    (h : keepRef a r = .ok fresh r') : r'.KeepsRef a := by
  obtain ⟨-, ref, href, -, ⟨hkept, -, rfl⟩ | ⟨-, -, rfl⟩⟩ := keepRef_ok.mp h
  · exact ⟨ref, href, hkept⟩
  · exact ⟨markRef ref, by rw [refAt?_modifyRef, if_pos rfl, href]; rfl, rfl⟩

theorem keepsRef_of_keepRef {a b : RefAddr} {fresh : Bool} {r r' : Registry}
    (h : keepRef a r = .ok fresh r') (hkept : r'.KeepsRef b) : r.KeepsRef b ∨ b = a := by
  obtain ⟨-, ref, -, -, ⟨-, -, rfl⟩ | ⟨-, -, rfl⟩⟩ := keepRef_ok.mp h
  · exact Or.inl hkept
  · obtain ⟨ref', href', hk⟩ := hkept
    rw [refAt?_modifyRef] at href'
    split at href'
    · rename_i heq
      exact Or.inr heq.symm
    · exact Or.inl ⟨ref', href', hk⟩

theorem keepsMember_of_keepRef {a : RefAddr} {fresh : Bool} {r r' : Registry}
    (h : keepRef a r = .ok fresh r') {row : Nat} {sig : Signature}
    (hkept : r'.KeepsMember row sig) : r.KeepsMember row sig := by
  obtain ⟨-, ref, -, -, ⟨-, -, rfl⟩ | ⟨-, -, rfl⟩⟩ := keepRef_ok.mp h
  · exact hkept
  · obtain ⟨c', d, hc', hd, hk⟩ := hkept
    obtain ⟨c, hc, ⟨-, rfl⟩ | ⟨-, rfl⟩⟩ := classAt?_of_modifyClass hc'
    · exact ⟨c, d, hc, hd, hk⟩
    · exact ⟨c', d, hc, hd, hk⟩

/-- Marks a declaration as kept. -/
def markDeclaration : Declaration → Declaration
  | .method m => .method { m with kept := true }
  | .field f => .field { f with kept := true }

@[simp]
theorem kept_markDeclaration (d : Declaration) : (markDeclaration d).kept = true := by
  cases d <;> rfl

theorem find?_map_mark {α : Type} (key : α → Signature) (mark : α → α)
    (hmark : ∀ x, key (mark x) = key x) (sig sig' : Signature) (xs : List α) :
    (xs.map fun x => if key x = sig then mark x else x).find? (fun x => key x = sig') =
      (xs.find? fun x => key x = sig').map fun x => if sig' = sig then mark x else x := by
  rw [List.find?_map]
  have hkey : ((fun x => decide (key x = sig')) ∘ fun x => if key x = sig then mark x else x) =
      fun x => decide (key x = sig') := by
    funext x
    simp only [Function.comp]
    split <;> simp [hmark]
  rw [hkey]
  cases hfind : xs.find? fun x => key x = sig' with
  | none => rfl
  | some x =>
      have : key x = sig' := by simpa using List.find?_some hfind
      simp [this]

/-- Marking a member marks the declaration with its signature. -/
theorem declared?_markMember (c : Class) (sig sig' : Signature) :
    (markMember c sig).declared? sig' =
      (c.declared? sig').map fun d => if sig' = sig then markDeclaration d else d := by
  unfold markMember Class.declared?
  by_cases hany : c.methods.any fun m => m.sig = sig
  · rw [if_pos hany]
    dsimp only
    rw [find?_map_mark Method.sig (fun m => { m with kept := true }) (fun _ => rfl) sig sig' c.methods]
    cases hm : c.methods.find? fun m => m.sig = sig' with
    | some m =>
        simp only [Option.map_some]
        split <;> rfl
    | none =>
        have hne : sig' ≠ sig := by
          rintro rfl
          rw [List.find?_eq_none] at hm
          obtain ⟨m, hmem, hsig⟩ := List.any_eq_true.mp hany
          exact hm m hmem hsig
        cases c.fields.find? fun f => f.sig = sig' <;> simp [hne]
  · rw [if_neg hany]
    dsimp only
    rw [find?_map_mark Field.sig (fun f => { f with kept := true }) (fun _ => rfl) sig sig' c.fields]
    cases hm : c.methods.find? fun m => m.sig = sig' with
    | some m =>
        have hne : sig' ≠ sig := by
          rintro rfl
          have hsig := List.find?_some hm
          exact hany (List.any_eq_true.mpr ⟨m, List.mem_of_find?_eq_some hm, hsig⟩)
        simp [hne]
    | none =>
        cases c.fields.find? fun f => f.sig = sig' with
        | none => rfl
        | some f =>
            simp only [Option.map_some]
            split <;> rfl

theorem keepMember_keeps {row : Nat} {sig : Signature} {fresh : Bool} {r r' : Registry} {c : Class}
    {d : Declaration} (h : keepMember row sig r = .ok fresh r') (hc : r.classAt? row = some c)
    (hd : c.declared? sig = some d) : r'.KeepsMember row sig := by
  obtain ⟨-, c', hc', -, ⟨⟨d', hd', hkept⟩, -, rfl⟩ | ⟨-, -, rfl⟩⟩ := keepMember_ok.mp h
  · exact ⟨c', d', hc', hd', hkept⟩
  · refine ⟨markMember c sig, markDeclaration d, ?_, ?_, kept_markDeclaration d⟩
    · rw [classAt?_modifyClass, if_pos rfl, hc, Option.map_some]
    · rw [declared?_markMember, hd, Option.map_some, if_pos rfl]

theorem keepsMember_of_keepMember {row : Nat} {sig : Signature} {fresh : Bool} {r r' : Registry}
    (h : keepMember row sig r = .ok fresh r') {p : Nat} {sig' : Signature}
    (hkept : r'.KeepsMember p sig') : r.KeepsMember p sig' ∨ p = row ∧ sig' = sig := by
  obtain ⟨-, -, -, -, ⟨-, -, rfl⟩ | ⟨-, -, rfl⟩⟩ := keepMember_ok.mp h
  · exact Or.inl hkept
  · obtain ⟨c', d, hc', hd, hk⟩ := hkept
    obtain ⟨c, hc, ⟨hrow, rfl⟩ | ⟨-, rfl⟩⟩ := classAt?_of_modifyClass hc'
    · rw [declared?_markMember] at hd
      obtain ⟨d', hd', rfl⟩ := Option.map_eq_some_iff.mp hd
      by_cases hsig : sig' = sig
      · exact Or.inr ⟨hrow, hsig⟩
      · rw [if_neg hsig] at hk
        exact Or.inl ⟨c, d', hc, hd', hk⟩
    · exact Or.inl ⟨c', d, hc, hd, hk⟩

theorem keepsRef_of_keepMember {row : Nat} {sig : Signature} {fresh : Bool} {r r' : Registry}
    (h : keepMember row sig r = .ok fresh r') {a : RefAddr} (hkept : r'.KeepsRef a) :
    r.KeepsRef a := by
  obtain ⟨-, -, -, -, ⟨-, -, rfl⟩ | ⟨-, -, rfl⟩⟩ := keepMember_ok.mp h
  · exact hkept
  · obtain ⟨ref, href, hk⟩ := hkept
    obtain ⟨c', hc', hpool⟩ := refAt?_eq_some.mp href
    obtain ⟨c, hc, ⟨-, rfl⟩ | ⟨-, rfl⟩⟩ := classAt?_of_modifyClass hc'
    · refine ⟨ref, refAt?_eq_some.mpr ⟨c, hc, ?_⟩, hk⟩
      have hsame : (markMember c sig).pool = c.pool := by unfold markMember; split <;> rfl
      rw [← hsame]
      exact hpool
    · exact ⟨ref, refAt?_eq_some.mpr ⟨c', hc, hpool⟩, hk⟩

/-! ### The registry of a link under way -/

/-- Every class is a child of its supertypes, and of no other class. -/
structure Parented (r : Registry) : Prop where
  mem_children : ∀ {row c p parent}, r.classAt? row = some c → r.Supertype c p →
    r.classAt? p = some parent → row ∈ parent.children
  supertype : ∀ {row p parent}, r.classAt? p = some parent → row ∈ parent.children →
    ∃ c, r.classAt? row = some c ∧ r.Supertype c p

/-- A change that leaves supertypes and children alone. -/
theorem Parented.modifyClass {r : Registry} (h : r.Parented) {row : Nat} {f : Class → Class}
    (hf : ∀ c, (f c).super = c.super ∧ (f c).interfaces = c.interfaces ∧
      (f c).children = c.children) : (r.modifyClass row f).Parented := by
  have hold : ∀ {p c'}, (r.modifyClass row f).classAt? p = some c' →
      ∃ c, r.classAt? p = some c ∧ c'.super = c.super ∧ c'.interfaces = c.interfaces ∧
        c'.children = c.children := by
    intro p c' hc'
    obtain ⟨c, hc, ⟨-, rfl⟩ | ⟨-, rfl⟩⟩ := classAt?_of_modifyClass hc'
    · exact ⟨c, hc, hf c⟩
    · exact ⟨c', hc, rfl, rfl, rfl⟩
  refine ⟨fun {p c' q parent'} hc' hsuper hparent' => ?_, fun {p q parent'} hparent' hp => ?_⟩
  · obtain ⟨c, hc, hs, hi, -⟩ := hold hc'
    obtain ⟨parent, hparent, -, -, hchildren⟩ := hold hparent'
    rw [hchildren]
    refine h.mem_children hc ?_ hparent
    simpa only [Supertype, superOf?, find?_modifyClass, hs, hi] using hsuper
  · obtain ⟨parent, hparent, -, -, hchildren⟩ := hold hparent'
    rw [hchildren] at hp
    obtain ⟨c, hc, hsuper⟩ := h.supertype hparent hp
    have hlt : p < (r.modifyClass row f).rows.size := by
      rw [size_modifyClass]
      exact classAt?_lt hc
    obtain ⟨c', hc'⟩ := exists_classAt? hlt
    obtain ⟨c₁, hc₁, hs, hi, -⟩ := hold hc'
    cases hc.symm.trans hc₁
    refine ⟨c', hc', ?_⟩
    simpa only [Supertype, superOf?, find?_modifyClass, hs, hi] using hsuper

/-- An open, well-formed registry in which every row is live. -/
structure Tidy (r : Registry) : Prop where
  wellFormed : r.WellFormed
  hierarchy : r.Hierarchy
  parented : r.Parented
  live_eq : r.live = List.range r.rows.size
  isOpen : r.closed = false

namespace Tidy

variable {r : Registry}

theorem mem_live (h : r.Tidy) {row : Nat} : row ∈ r.live ↔ row < r.rows.size := by
  rw [h.live_eq, List.mem_range]

theorem live_of_class (h : r.Tidy) {row : Nat} {c : Class} (hc : r.classAt? row = some c) :
    row ∈ r.live := h.mem_live.mpr (classAt?_lt hc)

theorem id_eq (h : r.Tidy) {row : Nat} {c : Class} (hc : r.classAt? row = some c) : c.id = row := by
  refine h.wellFormed.id_eq ?_ hc
  rw [h.live_eq, List.getElem?_range (classAt?_lt hc)]

theorem find_self (h : r.Tidy) {row : Nat} {c : Class} (hc : r.classAt? row = some c) :
    r.find? c.name = some row := h.hierarchy.find_self (h.live_of_class hc) hc

theorem names_nodup (h : r.Tidy) : (r.rows.toList.map Class.name).Nodup := by
  refine List.pairwise_iff_getElem.mpr fun i j hi hj hlt heq => ?_
  simp only [List.length_map, Array.length_toList] at hi hj
  simp only [List.getElem_map, Array.getElem_toList] at heq
  have hi' := h.find_self (show r.classAt? i = some r.rows[i] from Array.getElem?_eq_getElem hi)
  have hj' := h.find_self (show r.classAt? j = some r.rows[j] from Array.getElem?_eq_getElem hj)
  rw [heq, hj', Option.some.injEq] at hi'
  omega

theorem exists_class (h : r.Tidy) {name : Text} {row : Nat} (hrow : r.find? name = some row) :
    ∃ c, r.classAt? row = some c ∧ c.name = name := by
  obtain ⟨c, hc⟩ := h.wellFormed.exists_class (h.wellFormed.find_live hrow)
  exact ⟨c, hc, h.wellFormed.find_name hrow hc⟩

theorem indexed (h : r.Tidy) {row : Nat} {c : Class} (hc : r.classAt? row = some c) : c.Indexed :=
  h.wellFormed.indexed (h.live_of_class hc) hc

/-- Ids differ, so a slot of a class id is a slot of the class. -/
theorem refAddr?_eq (h : r.Tidy) {row : Nat} {c : Class} (hc : r.classAt? row = some c)
    (slot : Int) : r.refAddr? c.id slot = (c.slots.lookup slot).map (RefAddr.mk row) := by
  cases hpos : c.slots.lookup slot with
  | some pos => exact h.wellFormed.refAddr?_iff.mpr ⟨c, hc, rfl, hpos⟩
  | none =>
      refine refAddr?_eq_none.mpr fun p c' hc' hid => ?_
      have hid' : c'.id = c.id := by exact_mod_cast hid
      rw [h.id_eq hc', h.id_eq hc] at hid'
      subst hid'
      cases hc.symm.trans hc'
      exact hpos

theorem modifyClass (h : r.Tidy) {row : Nat} {f : Class → Class}
    (hwf : (r.modifyClass row f).WellFormed)
    (hf : ∀ c, (f c).name = c.name ∧ (f c).super = c.super ∧ (f c).interfaces = c.interfaces ∧
      (f c).children = c.children) : (r.modifyClass row f).Tidy where
  wellFormed := hwf
  hierarchy := h.hierarchy.modifyClass fun c => ⟨(hf c).1, (hf c).2.1, (hf c).2.2.1⟩
  parented := h.parented.modifyClass fun c => (hf c).2
  live_eq := by rw [live_modifyClass, size_modifyClass, h.live_eq]
  isOpen := h.isOpen

end Tidy

end Registry

end ClassLinker
