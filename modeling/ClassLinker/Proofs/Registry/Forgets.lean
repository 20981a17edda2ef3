import ClassLinker.Proofs.Registry.Relink

/-! Links leave no trace. No operation that creates or keeps tells registries apart that agree but for
what a link writes, so what the last of several links yields does not depend on the others, whether
they succeeded or stopped halfway. Only a compaction that failed before may make them show, since it
lets a superclass come after its subclasses. -/

namespace ClassLinker

/-- A guarded change of a method that does not look at what is left out of account. -/
theorem Method.forget_ite (m : Method) (w : Stale) {p : Prop} [Decidable p] {f : Method → Method}
    (hf : ∀ m : Method, (f m).forget w = f (m.forget w)) :
    (if p then m.forget w else f (m.forget w)).forget w = (if p then m else f m).forget w := by
  split
  · exact m.forget_forget (.refl w)
  · rw [hf, hf, m.forget_forget (.refl w)]

namespace Class

variable (w : Stale) (c : Class)

/-- A change of the methods that does not look at what is left out of account. -/
theorem forget_changeMethods {f : List Method → List Method}
    (hf : (f (c.methods.map (Method.forget w))).map (Method.forget w) =
      (f c.methods).map (Method.forget w)) :
    ({ c.forget w with methods := f (c.forget w).methods } : Class).forget w =
      ({ c with methods := f c.methods } : Class).forget w := by
  show ({ (c.forget w).forget w with
      methods := (f (c.methods.map (Method.forget w))).map (Method.forget w) } : Class) =
    { c.forget w with methods := (f c.methods).map (Method.forget w) }
  rw [hf, c.forget_forget (.refl w)]

/-- A change of the fields that does not look at what is left out of account. -/
theorem forget_changeFields {f : List Field → List Field}
    (hf : (f (c.fields.map (Field.forget w))).map (Field.forget w) =
      (f c.fields).map (Field.forget w)) :
    ({ c.forget w with fields := f (c.forget w).fields } : Class).forget w =
      ({ c with fields := f c.fields } : Class).forget w := by
  show ({ (c.forget w).forget w with
      fields := (f (c.fields.map (Field.forget w))).map (Field.forget w) } : Class) =
    { c.forget w with fields := (f c.fields).map (Field.forget w) }
  rw [hf, c.forget_forget (.refl w)]

theorem forget_modifyMethods (sig : Signature) {f : Method → Method}
    (hf : ∀ m : Method, (f (m.forget w)).forget w = (f m).forget w) :
    ({ c.forget w with
      methods := (c.forget w).methods.map fun m => if m.sig = sig then f m else m } : Class).forget
        w =
      ({ c with methods := c.methods.map fun m => if m.sig = sig then f m else m } : Class).forget
        w := by
  refine c.forget_changeMethods w (f := List.map fun m => if m.sig = sig then f m else m) ?_
  rw [List.map_map, List.map_map, List.map_map]
  refine List.map_congr_left fun m _ => ?_
  have hsig : (m.forget w).sig = m.sig := rfl
  simp only [Function.comp, hsig]
  split
  · exact hf m
  · exact m.forget_forget (.refl w)

theorem forget_markMember (sig : Signature) :
    (Registry.markMember (c.forget w) sig).forget w = (Registry.markMember c sig).forget w := by
  have hany : ((c.forget w).methods.any fun m => m.sig = sig) =
      c.methods.any fun m => m.sig = sig := by
    show ((c.methods.map (Method.forget w)).any fun m => m.sig = sig) = _
    rw [List.any_map]
    rfl
  unfold Registry.markMember
  rw [hany]
  split
  · refine c.forget_modifyMethods w sig fun m => ?_
    simp only [Method.forget, Method.mk.injEq, true_and]
    grind
  · refine c.forget_changeFields w
      (f := List.map fun f => if f.sig = sig then { f with kept := true } else f) ?_
    rw [List.map_map, List.map_map, List.map_map]
    refine List.map_congr_left fun f _ => ?_
    have hsig : (f.forget w).sig = f.sig := rfl
    simp only [Function.comp, hsig]
    split
    · simp only [Field.forget, Field.mk.injEq, true_and]
      grind
    · exact f.forget_forget (.refl w)

/-- Keeping a reference does not look at what was found for it. -/
theorem forget_markRef (pos : Nat) :
    ({ c.forget w with pool := (c.forget w).pool.modify pos Registry.markRef } : Class).forget w =
      ({ c with pool := c.pool.modify pos Registry.markRef } : Class).forget w := by
  have hmark : ∀ ref : Reference, (Registry.markRef ref.forget).forget =
      (Registry.markRef ref).forget := by
    intro ref
    cases hkept : ref.kept <;>
      simp [Reference.forget, Registry.markRef, hkept, RefBody.bare_bare]
  generalize hX : ({ c.forget w with
    pool := (c.forget w).pool.modify pos Registry.markRef } : Class) = X
  generalize hY : ({ c with pool := c.pool.modify pos Registry.markRef } : Class) = Y
  have hlisted : X.listed = c.listed ∧ Y.listed = c.listed := by subst hX hY; exact ⟨rfl, rfl⟩
  have hpool : (X.forget w).pool = (Y.forget w).pool := by
    refine Array.ext_getElem? fun p => ?_
    rw [getElem?_pool_forget, getElem?_pool_forget, hlisted.1, hlisted.2]
    subst hX hY
    dsimp only
    rw [Array.getElem?_modify, Array.getElem?_modify, getElem?_pool_forget]
    cases c.pool[p]? with
    | none => simp
    | some ref =>
        have := hmark ref
        have := ref.forget_forget
        grind
  calc X.forget w
      = { (c.forget w).forget w with pool := (X.forget w).pool } := by subst hX; rfl
    _ = { c.forget w with pool := (Y.forget w).pool } := by rw [hpool, c.forget_forget (.refl w)]
    _ = Y.forget w := by subst hY; rfl

theorem getElem?_pool_addRef (slot : Int) (body : RefBody) (p : Nat) :
    (c.addRef slot body).pool[p]? =
      if p = c.pool.size then some { owner := c.id, slot, kept := false, body } else c.pool[p]? := by
  rw [addRef, Array.getElem?_push]

theorem forget_addRef (slot : Int) (body : RefBody) :
    ((c.forget w).addRef slot body).forget w = (c.addRef slot body).forget w := by
  have hsize : (c.forget w).pool.size = c.pool.size := by simp [Class.forget]
  have hlisted : ((c.forget w).addRef slot body).listed = (c.addRef slot body).listed := by
    rw [addRef, addRef, hsize]
    rfl
  have hslots : ((c.forget w).addRef slot body).slots = (c.addRef slot body).slots := by
    rw [addRef, addRef, hsize]
    rfl
  have hpool : (((c.forget w).addRef slot body).forget w).pool =
      ((c.addRef slot body).forget w).pool := by
    refine Array.ext_getElem? fun p => ?_
    rw [getElem?_pool_forget, getElem?_pool_forget, hlisted, getElem?_pool_addRef,
      getElem?_pool_addRef, hsize, getElem?_pool_forget]
    by_cases hne : p = c.pool.size
    · rw [if_pos hne, if_pos hne]
      rfl
    · rw [if_neg hne, if_neg hne]
      have hmem : (c.addRef slot body).listed.contains p = c.listed.contains p := by
        simp [addRef, hne]
      rw [hmem]
      cases c.pool[p]? with
      | none => rfl
      | some ref =>
          have := ref.forget_forget
          grind
  calc ((c.forget w).addRef slot body).forget w
      = { (c.forget w).forget w with
          pool := (((c.forget w).addRef slot body).forget w).pool
          listed := ((c.forget w).addRef slot body).listed
          slots := ((c.forget w).addRef slot body).slots, maxSlot := max c.maxSlot slot } := rfl
    _ = { c.forget w with
          pool := ((c.addRef slot body).forget w).pool, listed := (c.addRef slot body).listed
          slots := (c.addRef slot body).slots, maxSlot := max c.maxSlot slot } := by
        rw [hpool, hlisted, hslots, c.forget_forget (.refl w)]
    _ = (c.addRef slot body).forget w := rfl

end Class

namespace Registry

open RegistryM Step

variable {stale : Nat → Stale} {r s l : Registry}

/-! ### Operations on a class -/

theorem written_within (hlive : ∀ p ∈ r.live, p ∈ s.live)
    (hkept : ∀ {p c}, r.classAt? p = some c → c.kept = true →
      ∃ d, s.classAt? p = some d ∧ d.kept = true) (row : Nat) :
    (r.written row).Within (s.written row) := by
  by_cases hrow' : row ∈ s.keptRows
  · rw [written_of_kept hrow']
    exact Stale.within_everything _
  · have hrow : row ∉ r.keptRows := fun hrow => by
      obtain ⟨hmem, c, hc, hk⟩ := mem_keptRows.mp hrow
      exact hrow' (mem_keptRows.mpr ⟨hlive row hmem, hkept hc hk⟩)
    rw [written, written, if_neg hrow, if_neg hrow']
    split
    · rw [if_pos (hlive row ‹_›)]
      exact .refl _
    · exact Stale.nothing_within _

/-- `x` changes the class in a row when `G` holds of it, and does nothing otherwise. -/
structure Guarded {α : Type} (x : RegistryM α) (row : Nat) (f : Class → Class)
    (G : Registry → Class → Prop) : Prop where
  ok : ∀ {t a t'}, x t = .ok a t' → ∃ c, t.classAt? row = some c ∧
    (G t c ∧ t.modifyClass row f = t' ∨ ¬ G t c ∧ t = t')
  error : ∀ {t e t'}, x t = .error e t' → t = t'
  done : ∀ {t c}, t.classAt? row = some c → G t c → ∃ a, x t = .ok a (t.modifyClass row f)

theorem Guarded.final_eq {α : Type} {x : RegistryM α} {row : Nat} {f : Class → Class}
    {G : Registry → Class → Prop} (h : Guarded x row f G) (t : Registry) :
    (∃ c, t.classAt? row = some c ∧ G t c) ∧ final (x t) = t.modifyClass row f ∨
      (∀ c, t.classAt? row = some c → ¬ G t c) ∧ final (x t) = t := by
  by_cases hG : ∃ c, t.classAt? row = some c ∧ G t c
  · obtain ⟨c, hc, hGc⟩ := hG
    obtain ⟨a, ha⟩ := h.done hc hGc
    exact .inl ⟨⟨c, hc, hGc⟩, by rw [ha, final_ok]⟩
  · refine .inr ⟨fun c hc hGc => hG ⟨c, hc, hGc⟩, ?_⟩
    cases hx : x t with
    | error e t' => exact (h.error hx).symm
    | ok a t' =>
        obtain ⟨c, hc, ⟨hGc, -⟩ | ⟨-, rfl⟩⟩ := h.ok hx
        · exact absurd ⟨c, hc, hGc⟩ hG
        · rfl

/-- An operation on one class does not tell registries apart that agree but for what a link
writes. -/
theorem AgreeBut.guarded (h : AgreeBut r.written r s) {α : Type} {x : RegistryM α} {row : Nat}
    {f : Class → Class} {G : Registry → Class → Prop} (hx : Guarded x row f G)
    (hG : ∀ {t u c d}, t.Laid u → t.classAt? row = some c → u.classAt? row = some d → c.Laid d →
      G t c → G u d)
    (hkept : ∀ c, c.kept = true → (f c).kept = true)
    (hf : ∀ w c, (f (c.forget w)).forget w = (f c).forget w) :
    AgreeBut (final (x r)).written (final (x r)) (final (x s)) := by
  have hlaid := h.laid
  rcases hx.final_eq r with ⟨⟨c, hc, hGc⟩, hr⟩ | ⟨hnot, hr⟩
  · obtain ⟨d, hd, hl⟩ := hlaid.classes hc
    have hGd := hG hlaid hc hd hl hGc
    rcases hx.final_eq s with ⟨-, hs⟩ | ⟨hnot, -⟩
    · rw [hr, hs]
      refine (h.mono (written_within (s := r.modifyClass row f) (fun p hp => hp)
        fun {p c} hc hk => ?_)).modifyClass (fun _ _ => rfl) fun {c d} _ _ heq => ?_
      · rw [classAt?_modifyClass, hc]
        split
        · exact ⟨f c, rfl, hkept c hk⟩
        · exact ⟨c, rfl, hk⟩
      · rw [← hf, heq, hf]
    · exact absurd hGd (hnot d hd)
  · rcases hx.final_eq s with ⟨⟨d, hd, hGd⟩, -⟩ | ⟨-, hs⟩
    · obtain ⟨c, hc, hl⟩ := hlaid.exists_old hd
      exact absurd (hG hlaid.symm hd hc hl.symm hGd) (hnot c hc)
    · rw [hr, hs]
      exact h

theorem Laid.refAddr?_none (h : r.Laid s) {owner slot : Int}
    (hnone : r.refAddr? owner slot = none) : s.refAddr? owner slot = none := by
  rw [refAddr?_eq_none] at hnone ⊢
  intro row d hd hid
  obtain ⟨c, hc, hl⟩ := h.exists_old hd
  rw [hl.slots_eq]
  exact hnone row c hc (hl.id_eq ▸ hid)

theorem declared?_none_of_laid {c d : Class} (h : c.Laid d) {sig : Signature}
    (hnone : c.declared? sig = none) : d.declared? sig = none := by
  rw [Class.declared?_eq_none] at hnone ⊢
  rwa [h.signatures_eq]

theorem createMethod_guarded (row : Nat) (spec : MethodSpec) :
    Guarded (createMethod row spec) row (fun c => { c with methods := c.methods ++ [spec.toMethod] })
      fun t c => t.closed = false ∧ c.declared? spec.sig = none ∧
        ((spec.kind = .native ∨ spec.kind = .abstract) ↔ spec.code = []) where
  ok hok := by
    obtain ⟨hopen, c, hc, hnew, hcode, rfl⟩ := createMethod_ok.mp hok
    exact ⟨c, hc, .inl ⟨⟨hopen, hnew, hcode⟩, rfl⟩⟩
  error := createMethod_error
  done := fun hc ⟨hopen, hnew, hcode⟩ =>
    ⟨(), createMethod_ok.mpr ⟨hopen, _, hc, hnew, hcode, rfl⟩⟩

theorem createField_guarded (row : Nat) (spec : FieldSpec) :
    Guarded (createField row spec) row (fun c => { c with fields := c.fields ++ [spec.toField] })
      fun t c => t.closed = false ∧ c.declared? spec.sig = none where
  ok hok := by
    obtain ⟨hopen, c, hc, hnew, rfl⟩ := createField_ok.mp hok
    exact ⟨c, hc, .inl ⟨⟨hopen, hnew⟩, rfl⟩⟩
  error := createField_error
  done := fun hc ⟨hopen, hnew⟩ => ⟨(), createField_ok.mpr ⟨hopen, _, hc, hnew, rfl⟩⟩

theorem createRef_guarded (row : Nat) (slot : Int) (body : RefBody) :
    Guarded (createRef row slot body) row (Class.addRef slot body) fun t c => t.closed = false ∧
      0 < slot ∧ slot ≤ lastSlot ∧ t.refAddr? c.id slot = none where
  ok hok := by
    obtain ⟨hopen, c, hc, hpos, hle, hfree, rfl, -⟩ := createRef_ok.mp hok
    exact ⟨c, hc, .inl ⟨⟨hopen, hpos, hle, hfree⟩, rfl⟩⟩
  error := createRef_error
  done := fun hc ⟨hopen, hpos, hle, hfree⟩ =>
    ⟨_, createRef_ok.mpr ⟨hopen, _, hc, hpos, hle, hfree, rfl, rfl⟩⟩

theorem allocSlot_guarded (row : Nat) :
    Guarded (allocSlot row) row (fun c => { c with maxSlot := c.maxSlot + 1 })
      fun t c => t.closed = false ∧ c.maxSlot < lastSlot where
  ok hok := by
    obtain ⟨hopen, c, hc, hlt, rfl, -⟩ := allocSlot_ok.mp hok
    exact ⟨c, hc, .inl ⟨⟨hopen, hlt⟩, rfl⟩⟩
  error := allocSlot_error
  done := fun hc ⟨hopen, hlt⟩ => ⟨_, allocSlot_ok.mpr ⟨hopen, _, hc, hlt, rfl, rfl⟩⟩

theorem keepClass_guarded (row : Nat) :
    Guarded (keepClass row) row (fun c => { c with kept := true })
      fun t c => t.closed = false ∧ c.kept = false where
  ok hok := by
    obtain ⟨hopen, c, hc, ⟨hkept, -, rfl⟩ | ⟨hkept, -, rfl⟩⟩ := keepClass_ok.mp hok
    · exact ⟨c, hc, .inr ⟨fun h => by simp [hkept] at h, rfl⟩⟩
    · exact ⟨c, hc, .inl ⟨⟨hopen, hkept⟩, rfl⟩⟩
  error := keepClass_error
  done := fun hc ⟨hopen, hkept⟩ =>
    ⟨true, keepClass_ok.mpr ⟨hopen, _, hc, .inr ⟨hkept, rfl, rfl⟩⟩⟩

theorem keepMember_guarded (row : Nat) (sig : Signature) :
    Guarded (keepMember row sig) row (fun c => markMember c sig)
      fun t c => t.closed = false ∧ c.kept = true ∧
        ∀ d, c.declared? sig = some d → d.kept = false where
  ok hok := by
    obtain ⟨hopen, c, hc, hkept, ⟨⟨d, hd, hdkept⟩, -, rfl⟩ | ⟨hnew, -, rfl⟩⟩ :=
      keepMember_ok.mp hok
    · exact ⟨c, hc, .inr ⟨fun h => by simp [h.2.2 d hd] at hdkept, rfl⟩⟩
    · exact ⟨c, hc, .inl ⟨⟨hopen, hkept, hnew⟩, rfl⟩⟩
  error := keepMember_error
  done := fun hc ⟨hopen, hkept, hnew⟩ =>
    ⟨true, keepMember_ok.mpr ⟨hopen, _, hc, hkept, .inr ⟨hnew, rfl, rfl⟩⟩⟩

theorem keepRef_guarded (a : RefAddr) :
    Guarded (keepRef a) a.row (fun c => { c with pool := c.pool.modify a.pos markRef })
      fun t c => t.closed = false ∧ ∃ ref, c.pool[a.pos]? = some ref ∧ ref.kept = false ∧
        ∃ row c', t.byId? ref.owner = some row ∧ t.classAt? row = some c' ∧ c'.kept = true where
  ok hok := by
    obtain ⟨hopen, ref, href, howner, hcase⟩ := keepRef_ok.mp hok
    obtain ⟨c, hc, hpool⟩ := refAt?_eq_some.mp href
    refine ⟨c, hc, ?_⟩
    rcases hcase with ⟨hkept, -, rfl⟩ | ⟨hkept, -, rfl⟩
    · refine .inr ⟨?_, rfl⟩
      rintro ⟨-, ref', href', hkept', -⟩
      cases hpool.symm.trans href'
      simp [hkept] at hkept'
    · exact .inl ⟨⟨hopen, ref, hpool, hkept, howner⟩, rfl⟩
  error := keepRef_error
  done := fun hc ⟨hopen, ref, hpool, hkept, howner⟩ =>
    ⟨true, keepRef_ok.mpr ⟨hopen, ref, refAt?_eq_some.mpr ⟨_, hc, hpool⟩, howner,
      .inr ⟨hkept, rfl, rfl⟩⟩⟩

theorem AgreeBut.createMethod (h : AgreeBut r.written r s) (row : Nat) (spec : MethodSpec) :
    AgreeBut (final (createMethod row spec r)).written (final (createMethod row spec r))
      (final (createMethod row spec s)) := by
  refine h.guarded (createMethod_guarded row spec) ?_ (fun _ hkept => hkept) fun w c => ?_
  · rintro t u c d hlaid - - hl ⟨hopen, hnew, hcode⟩
    exact ⟨hlaid.closed_eq.trans hopen, declared?_none_of_laid hl hnew, hcode⟩
  · refine c.forget_changeMethods w (f := fun ms => ms ++ [spec.toMethod]) ?_
    simp only [List.map_append, List.map_map, Function.comp_def, Method.forget_forget (.refl w)]

theorem AgreeBut.createField (h : AgreeBut r.written r s) (row : Nat) (spec : FieldSpec) :
    AgreeBut (final (createField row spec r)).written (final (createField row spec r))
      (final (createField row spec s)) := by
  refine h.guarded (createField_guarded row spec) ?_ (fun _ hkept => hkept) fun w c => ?_
  · rintro t u c d hlaid - - hl ⟨hopen, hnew⟩
    exact ⟨hlaid.closed_eq.trans hopen, declared?_none_of_laid hl hnew⟩
  · refine c.forget_changeFields w (f := fun fs => fs ++ [spec.toField]) ?_
    simp only [List.map_append, List.map_map, Function.comp_def, Field.forget_forget (.refl w)]

theorem AgreeBut.createRef (h : AgreeBut r.written r s) (row : Nat) (slot : Int) (body : RefBody) :
    AgreeBut (final (createRef row slot body r)).written (final (createRef row slot body r))
      (final (createRef row slot body s)) := by
  refine h.guarded (createRef_guarded row slot body) ?_ (fun _ hkept => hkept)
    fun w c => c.forget_addRef w slot body
  rintro t u c d hlaid - - hl ⟨hopen, hpos, hle, hfree⟩
  exact ⟨hlaid.closed_eq.trans hopen, hpos, hle, by rw [hl.id_eq]; exact hlaid.refAddr?_none hfree⟩

theorem AgreeBut.createLiteral (h : AgreeBut r.written r s) (row : Nat) (slot kind : Int)
    (value : Option Literal) :
    AgreeBut (final (createLiteral row slot kind value r)).written
      (final (createLiteral row slot kind value r)) (final (createLiteral row slot kind value s)) := by
  rcases final_createLiteral row slot kind value r with ⟨v, hv, hkind, hr⟩ | ⟨hnot, hr⟩
  · rcases final_createLiteral row slot kind value s with ⟨v', hv', -, hs⟩ | ⟨hnot, -⟩
    · cases hv.symm.trans hv'
      rw [hr, hs]
      exact h.createRef row slot (.literal v)
    · exact absurd hkind (hnot v hv)
  · rcases final_createLiteral row slot kind value s with ⟨v, hv, hkind, -⟩ | ⟨-, hs⟩
    · exact absurd hkind (hnot v hv)
    · rw [hr, hs]
      exact h

theorem AgreeBut.allocSlot (h : AgreeBut r.written r s) (row : Nat) :
    AgreeBut (final (allocSlot row r)).written (final (allocSlot row r))
      (final (allocSlot row s)) := by
  refine h.guarded (allocSlot_guarded row) ?_ (fun _ hkept => hkept) fun w c => ?_
  · rintro t u c d hlaid - - hl ⟨hopen, hlt⟩
    exact ⟨hlaid.closed_eq.trans hopen, by rw [hl.frame]; exact hlt⟩
  · exact congrArg (fun c : Class => { c with maxSlot := c.maxSlot + 1 })
      (c.forget_forget (.refl w))

theorem AgreeBut.keepClass (h : AgreeBut r.written r s) (row : Nat) :
    AgreeBut (final (keepClass row r)).written (final (keepClass row r))
      (final (keepClass row s)) := by
  refine h.guarded (keepClass_guarded row) ?_ (fun _ _ => rfl) fun w c => ?_
  · rintro t u c d hlaid - - hl ⟨hopen, hdropped⟩
    exact ⟨hlaid.closed_eq.trans hopen, hl.kept_eq.trans hdropped⟩
  · exact congrArg (fun c : Class => { c with kept := true }) (c.forget_forget (.refl w))

theorem AgreeBut.keepMember (h : AgreeBut r.written r s) (row : Nat) (sig : Signature) :
    AgreeBut (final (keepMember row sig r)).written (final (keepMember row sig r))
      (final (keepMember row sig s)) := by
  refine h.guarded (keepMember_guarded row sig) ?_ (fun c => (Class.Grows.markMember c sig).kept)
    fun w c => c.forget_markMember w sig
  rintro t u c d hlaid - - hl ⟨hopen, hkept, hnew⟩
  refine ⟨hlaid.closed_eq.trans hopen, hl.kept_eq.trans hkept, fun decl hdecl => ?_⟩
  obtain ⟨decl', hdecl', hdlaid⟩ := hl.symm.declared?_some hdecl
  exact hdlaid.kept_eq.symm.trans (hnew decl' hdecl')

theorem AgreeBut.keepRef (h : AgreeBut r.written r s) (a : RefAddr) :
    AgreeBut (final (keepRef a r)).written (final (keepRef a r)) (final (keepRef a s)) := by
  refine h.guarded (keepRef_guarded a) ?_ (fun _ hkept => hkept)
    fun w c => c.forget_markRef w a.pos
  rintro t u c d hlaid - - hl ⟨hopen, ref, hpool, hdropped, row, c', hrow, hc', hkept⟩
  obtain ⟨ref', hpool', hreflaid⟩ := hl.pool hpool
  obtain ⟨d', hd', hl'⟩ := hlaid.classes hc'
  refine ⟨hlaid.closed_eq.trans hopen, ref', hpool', hreflaid.kept_eq.trans hdropped, row, d',
    ?_, hd', hl'.kept_eq.trans hkept⟩
  rw [byId?, hreflaid.owner_eq, hlaid.live_eq]
  exact hrow

theorem AgreeBut.modifyMethod (h : AgreeBut r.written r s) (row : Nat) (sig : Signature)
    {f : Method → Method} (hf : ∀ w (m : Method), (f (m.forget w)).forget w = (f m).forget w) :
    AgreeBut (r.modifyMethod row sig f).written (r.modifyMethod row sig f)
      (s.modifyMethod row sig f) := by
  refine (h.mono (written_within (s := r.modifyMethod row sig f) (fun p hp => hp)
    fun {p c} hc hk => ?_)).modifyClass (fun _ _ => rfl) fun {c d} _ _ heq => ?_
  · rw [Registry.modifyMethod, classAt?_modifyClass, hc]
    split
    · exact ⟨_, rfl, hk⟩
    · exact ⟨c, rfl, hk⟩
  · rw [← c.forget_modifyMethods _ sig (hf _), ← d.forget_modifyMethods _ sig (hf _), heq]

/-! ### Registering a class -/

theorem AgreeBut.store (h : AgreeBut stale r s) (c : Class) :
    AgreeBut stale (r.store c) (s.store c) := by
  refine ⟨h.names_eq, h.live_eq, h.compacted_eq, h.closed_eq, fun row => ?_⟩
  rw [classAt?_store, classAt?_store, h.laid.size_eq]
  split
  · rfl
  · exact h.classes row

theorem AgreeBut.addChild (h : AgreeBut stale r s) (parent child : Nat) :
    AgreeBut stale (r.addChild parent child) (s.addChild parent child) := by
  refine h.modifyClass (fun _ _ => rfl) fun {c d} _ _ heq => ?_
  have hchildren : (d.forget (stale parent)).children = (c.forget (stale parent)).children := by
    rw [heq]
  change d.children = c.children at hchildren
  show ({ d.forget (stale parent) with children := d.children ++ [child] } : Class) =
    { c.forget (stale parent) with children := c.children ++ [child] }
  rw [heq, hchildren]

theorem AgreeBut.adopt (h : AgreeBut stale r s) (parents : List Nat) (child : Nat) :
    AgreeBut stale (r.adopt parents child) (s.adopt parents child) := by
  induction parents generalizing r s with
  | nil => exact h
  | cons parent parents ih => exact ih (h.addChild parent child)

theorem AgreeBut.enlist (h : AgreeBut stale r s) (row : Nat) (name : Text) :
    AgreeBut stale (r.enlist row name) (s.enlist row name) := by
  refine ⟨?_, ?_, h.compacted_eq, h.closed_eq, h.classes⟩
  · show (name, row) :: s.names = (name, row) :: r.names
    rw [h.names_eq]
  · show s.live ++ [row] = r.live ++ [row]
    rw [h.live_eq]

/-- Making a class a child of its interfaces stops at the same interface in both registries. -/
theorem AgreeBut.addToInterfaces (h : AgreeBut stale r s) (name : Text) (row : Nat)
    (interfaces : List Text) :
    (∃ u v, addToInterfaces name row interfaces r = .ok () u ∧
      addToInterfaces name row interfaces s = .ok () v ∧ AgreeBut stale u v) ∨
    ∃ e u v, addToInterfaces name row interfaces r = .error e u ∧
      addToInterfaces name row interfaces s = .error e v ∧ AgreeBut stale u v := by
  induction interfaces generalizing r s with
  | nil => exact .inl ⟨r, s, rfl, rfl, h⟩
  | cons i rest ih =>
      rw [Registry.addToInterfaces, bind_of_ok (get_ok.mpr ⟨rfl, rfl⟩),
        bind_of_ok (get_ok.mpr ⟨rfl, rfl⟩), h.laid.find?_eq i]
      cases r.find? i with
      | none => exact .inr ⟨_, r, s, rfl, rfl, h⟩
      | some p => exact ih (h.addChild p row)

/-- A class can be registered, as far as its name and its superclass go. -/
def Registrable (r : Registry) (spec : ClassSpec) : Prop :=
  r.closed = false ∧ r.find? spec.name = none ∧ (spec.super = [] ↔ r.live = []) ∧
    (spec.super ≠ [] → ∃ p, r.find? spec.super = some p)

/-- Registering a class stores it, makes it a child of its supertypes and lists it. -/
theorem createClass_of_registrable {spec : ClassSpec} (h : r.Registrable spec) :
    createClass spec r = (do
      addToInterfaces spec.name r.rows.size spec.interfaces
      modify (·.enlist r.rows.size spec.name)
      return r.rows.size : RegistryM Nat)
        ((r.store (spec.toClass r.live.length)).adopt
          (r.superOf? (spec.toClass r.live.length)).toList r.rows.size) := by
  obtain ⟨hopen, hnew, hroot, hsuper⟩ := h
  unfold createClass
  rw [bind_of_ok (a := ()) (checkOpen_ok.mpr ⟨hopen, rfl⟩), bind_of_ok (get_ok.mpr ⟨rfl, rfl⟩)]
  by_cases hfirst : spec.super = []
  · have hnone : ∀ id, r.superOf? (spec.toClass id) = none := fun _ => if_pos hfirst
    have hlive : r.live.isEmpty = true := List.isEmpty_iff.mpr (hroot.mp hfirst)
    simp only [hnew, hfirst, hlive, hnone, Option.isSome_none, Bool.false_eq_true, if_false,
      if_true, Bool.not_true, Bool.and_false, ne_eq, not_true_eq_false, decide_false,
      Bool.false_and]
    rfl
  · obtain ⟨p, hp⟩ := hsuper hfirst
    have hsome : ∀ id, r.superOf? (spec.toClass id) = some p := fun _ => (if_neg hfirst).trans hp
    have hlive : r.live.isEmpty = false := by
      rw [List.isEmpty_eq_false_iff]
      exact fun hlive => hfirst (hroot.mpr hlive)
    simp only [hnew, hfirst, hlive, hp, hsome, Option.isSome_none, Bool.false_eq_true, if_false,
      decide_false, Bool.false_and, Bool.and_false]
    rfl

theorem createClass_of_not_registrable {spec : ClassSpec} (h : ¬ r.Registrable spec) :
    final (createClass spec r) = r := by
  unfold createClass
  by_cases hopen : r.closed = false
  · rw [bind_of_ok (a := ()) (checkOpen_ok.mpr ⟨hopen, rfl⟩), bind_of_ok (get_ok.mpr ⟨rfl, rfl⟩)]
    dsimp only
    split
    · rfl
    split
    · rfl
    split
    · rfl
    rename_i hnew hfirst hlater
    simp only [Bool.and_eq_true, decide_eq_true_eq, Bool.not_eq_true', List.isEmpty_iff,
      Option.not_isSome_iff_eq_none,
      List.isEmpty_eq_false_iff, not_and, not_not, ne_eq] at hnew hfirst hlater
    have hroot : spec.super = [] ↔ r.live = [] := ⟨hfirst, fun hlive => by
      by_contra hsuper
      exact hlater hsuper hlive⟩
    split
    · rename_i hsuper
      exact absurd ⟨hopen, hnew, hroot, fun hne => absurd hsuper hne⟩ h
    · cases hp : r.find? spec.super with
      | none => rfl
      | some p => exact absurd ⟨hopen, hnew, hroot, fun _ => ⟨p, hp⟩⟩ h
  · rw [bind_of_error (checkOpen_error.mpr ⟨by simpa using hopen, rfl, rfl⟩)]
    rfl

theorem Laid.registrable (h : r.Laid s) {spec : ClassSpec} (hr : r.Registrable spec) :
    s.Registrable spec := by
  obtain ⟨hopen, hnew, hroot, hsuper⟩ := hr
  exact ⟨h.closed_eq.trans hopen, (h.find?_eq _).trans hnew, by rw [hroot, h.live_eq],
    fun hne => by rw [h.find?_eq]; exact hsuper hne⟩

theorem AgreeBut.createClass (h : AgreeBut r.written r s) (spec : ClassSpec) :
    AgreeBut (final (createClass spec r)).written (final (createClass spec r))
      (final (createClass spec s)) := by
  by_cases hr : r.Registrable spec
  · have hs := h.laid.registrable hr
    have hsuper : s.superOf? (spec.toClass r.live.length) =
        r.superOf? (spec.toClass r.live.length) := by
      rw [superOf?, superOf?, h.laid.find?_eq]
    have hstored := (h.store (spec.toClass r.live.length)).adopt
      (r.superOf? (spec.toClass r.live.length)).toList r.rows.size
    -- Whether or not all interfaces are there, what was kept stays kept.
    have hwithin : ∀ {u t : Registry}, SameButChildren ((r.store (spec.toClass r.live.length)).adopt
        (r.superOf? (spec.toClass r.live.length)).toList r.rows.size) u →
        (∀ p ∈ u.live, p ∈ t.live) → t.rows = u.rows → ∀ row, (r.written row).Within (t.written row) := by
      intro u t hsame hlive hrows
      have hsame := (SameButChildren.adopt ..).trans hsame
      refine written_within (fun p hp => hlive p (hsame.live_eq ▸ hp)) fun {p c} hc hkept => ?_
      have hstore : (r.store (spec.toClass r.live.length)).classAt? p = some c := by
        rwa [classAt?_store, if_neg (Nat.ne_of_lt (classAt?_lt hc))]
      obtain ⟨children, hu⟩ := hsame.classes hstore
      exact ⟨{ c with children := children }, by rw [classAt?, hrows]; exact hu, hkept⟩
    rw [createClass_of_registrable hr, createClass_of_registrable hs, h.live_eq, h.laid.size_eq,
      hsuper]
    rcases hstored.addToInterfaces spec.name r.rows.size spec.interfaces with
      ⟨u, v, hu, hv, huv⟩ | ⟨e, u, v, hu, hv, huv⟩
    · rw [bind_of_ok hu, bind_of_ok hv]
      show AgreeBut (u.enlist r.rows.size spec.name).written (u.enlist r.rows.size spec.name)
        (v.enlist r.rows.size spec.name)
      exact (huv.enlist _ _).mono (hwithin (addToInterfaces_ok hu).2
        (fun p hp => List.mem_append_left _ hp) rfl)
    · rw [bind_of_error hu, bind_of_error hv]
      show AgreeBut u.written u v
      exact huv.mono (hwithin (addToInterfaces_error hu) (fun p hp => hp) rfl)
  · have hs : ¬ s.Registrable spec := fun hs => hr (h.laid.symm.registrable hs)
    rw [createClass_of_not_registrable hr, createClass_of_not_registrable hs]
    exact h

/-! ### Sequences of operations -/

/-- No operation but a link, a compaction and a relocation tells registries apart that agree but for
what a link writes. -/
theorem AgreeBut.apply (h : AgreeBut r.written r s) {op : Operation} (hlink : op ≠ .link)
    (hcompact : op ≠ .compact) (hrelocate : op ≠ .relocate) :
    AgreeBut (op.apply r).written (op.apply r) (op.apply s) := by
  unfold Operation.apply
  cases op with
  | link => exact absurd rfl hlink
  | compact => exact absurd rfl hcompact
  | relocate => exact absurd rfl hrelocate
  | createClass spec =>
      simp only [Operation.run, final_discard]
      exact h.createClass spec
  | createMethod row spec => exact h.createMethod row spec
  | createField row spec => exact h.createField row spec
  | createClassRef row slot target =>
      simp only [Operation.run, final_discard]
      exact h.createRef row slot _
  | createMemberRef row slot target =>
      simp only [Operation.run, final_discard]
      exact h.createRef row slot _
  | createLiteral row slot kind value =>
      simp only [Operation.run, final_discard]
      exact h.createLiteral row slot kind value
  | allocSlot row =>
      simp only [Operation.run, final_discard]
      exact h.allocSlot row
  | keepClass row =>
      simp only [Operation.run, final_discard]
      exact h.keepClass row
  | keepMember row sig =>
      simp only [Operation.run, final_discard]
      exact h.keepMember row sig
  | keepRef a =>
      simp only [Operation.run, final_discard]
      exact h.keepRef a
  | addClassDep row sig a =>
      exact h.modifyMethod row sig fun w m =>
        m.forget_ite w (f := fun m' => { m' with classDeps := m.classDeps ++ [a] }) fun _ => rfl
  | addMemberDep row sig a =>
      exact h.modifyMethod row sig fun w m =>
        m.forget_ite w (f := fun m' => { m' with memberDeps := m.memberDeps ++ [a] }) fun _ => rfl
  | addLiteralDep row sig a =>
      exact h.modifyMethod row sig fun w m =>
        m.forget_ite w (f := fun m' => { m' with literalDeps := m.literalDeps ++ [a] }) fun _ => rfl
  | addArrayDep row sig code =>
      exact h.modifyMethod row sig fun w m =>
        m.forget_ite w (f := fun m' => { m' with arrayDeps := m.arrayDeps ++ [code] }) fun _ => rfl
  | addBuiltin row sig id =>
      exact h.modifyMethod row sig fun w m =>
        m.forget_ite w (f := fun m' => { m' with builtins := m.builtins ++ [id] }) fun _ => rfl

theorem Laid.written_eq (h : r.Laid s) : s.written = r.written := by
  funext row
  rw [written, written, h.keptRows_eq, h.live_eq]

/-- The links among some operations do not show but in what a link writes. -/
theorem AgreeBut.foldl (h : AgreeBut r.written r s) {ops : List Operation} (hcompact : .compact ∉ ops)
    (hrelocate : .relocate ∉ ops) :
    AgreeBut (ops.foldl Operation.apply r).written (ops.foldl Operation.apply r)
      ((ops.filter (· ≠ .link)).foldl Operation.apply s) := by
  induction ops generalizing r s with
  | nil => exact h
  | cons op ops ih =>
      rw [List.mem_cons, not_or] at hcompact hrelocate
      by_cases hlink : op = .link
      · subst hlink
        have hrelinked : AgreeBut (Operation.link.apply r).written (Operation.link.apply r) s := by
          have hwritten : AgreeBut r.written r (Operation.link.apply r) := link_written r
          rw [hwritten.laid.written_eq]
          exact hwritten.symm.trans h
        exact ih hrelinked hcompact.2 hrelocate.2
      · rw [List.filter_cons_of_pos (by simpa using hlink)]
        exact ih (h.apply hlink (Ne.symm hcompact.1) (Ne.symm hrelocate.1)) hcompact.2 hrelocate.2

theorem AgreeBut.link_eq_of_reachable (h : AgreeBut r.written r s) (hr : r.Reachable)
    (hok : link r = .ok () l) : link s = .ok () l := by
  rcases hr.open_or_closed with ⟨hclosed, -⟩ | ⟨hsound, hh⟩
  · rw [(link_ok.mp hok).1] at hclosed
    cases hclosed
  · exact h.link_eq hsound.wellFormed hh hok

/-- A link forgets earlier links, in a registry in which no compaction failed: after any operations that
create and keep, with links among them that may succeed or fail, it yields the very registry that it
yields without those links. -/
theorem link_forgets (r r' : Registry) (h : r.Reachable) (ops : List Operation)
    (hcompact : .compact ∉ ops) (hrelocate : .relocate ∉ ops) :
    link (ops.foldl Operation.apply r) = .ok () r' ↔
      link ((ops.filter (· ≠ .link)).foldl Operation.apply r) = .ok () r' := by
  have hagree := (AgreeBut.refl r.written r).foldl hcompact hrelocate
  constructor
  · exact hagree.link_eq_of_reachable (h.foldl ops hcompact)
  · refine AgreeBut.link_eq_of_reachable ?_ (h.foldl _ fun hmem => hcompact (List.mem_of_mem_filter hmem))
    rw [hagree.laid.written_eq]
    exact hagree.symm

/-- Linking the root alone succeeds. Then a reference to a member that is not kept stops a link
halfway, until the member is kept too. -/
def relinkedOps : List Operation := [
  .bareClass "R" [], .bareClass "C" "R", .bareField 0 "f" true 2, .bareField 0 "g" false 1,
  .bareMethod 1 "a" [0xB1], .createMemberRef 0 1 ⟨"C", "a", "()V"⟩, .keepClass 0,
  .keepMember 0 ⟨"g", "I"⟩, .link, .keepMember 0 ⟨"f", "I"⟩, .keepClass 1, .keepRef ⟨0, 0⟩, .link,
  .keepMember 1 ⟨"a", "()V"⟩]

theorem link_forgets_relinked : ∃ r',
    ((relinkedOps.take 8).foldl Operation.apply {}).linksTo (fun _ => true) = true ∧
    ((relinkedOps.take 12).foldl Operation.apply {}).linksTo (fun _ => true) = false ∧
    link (relinkedOps.foldl Operation.apply {}) = .ok () r' ∧
    link ((relinkedOps.filter (· ≠ .link)).foldl Operation.apply {}) = .ok () r' ∧
    r'.signatures = [⟨"f", "I"⟩, ⟨"g", "I"⟩, ⟨"a", "()V"⟩] ∧ r'.staticSize = 2 := by
  have hcheck : (relinkedOps.foldl Operation.apply {}).linksTo (fun r' =>
      r'.signatures = [⟨"f", "I"⟩, ⟨"g", "I"⟩, ⟨"a", "()V"⟩] ∧ r'.staticSize = 2) = true := by
    decide +kernel
  obtain ⟨r', hlink, hcheck⟩ := exists_of_linksTo hcheck
  exact ⟨r', by decide +kernel, by decide +kernel, hlink,
    (link_forgets {} r' .empty relinkedOps (by decide +kernel) (by decide +kernel)).mp hlink,
    of_decide_eq_true hcheck⟩

/-- A registry in which a compaction failed, which is open again. -/
def reopened : Registry := overlappingOps.dropLast.foldl Operation.apply {}

/-- After a compaction that failed, a link shows in the next one: where the superclass is registered
anew and comes after its subclass, the field of the subclass goes behind what the superclass took up
when it was linked before. -/
theorem link_shows_after_failure : ∃ r₁ r₂, reopened.closed = false ∧
    link ([Operation.bareClass "D" "R", .link].foldl Operation.apply reopened) = .ok () r₁ ∧
    link (([Operation.bareClass "D" "R", .link].filter (· ≠ .link)).foldl Operation.apply reopened) =
      .ok () r₂ ∧
    (r₁.classAt? 2).map (fun c => c.fields.map Field.address) = some [1] ∧
    (r₂.classAt? 2).map (fun c => c.fields.map Field.address) = some [0] := by
  have htwice : ([Operation.bareClass "D" "R", .link].foldl Operation.apply reopened).linksTo
      (fun r => (r.classAt? 2).map (fun c => c.fields.map Field.address) = some [1]) = true := by
    decide +kernel
  have honce : (([Operation.bareClass "D" "R", .link].filter (· ≠ .link)).foldl
      Operation.apply reopened).linksTo
      (fun r => (r.classAt? 2).map (fun c => c.fields.map Field.address) = some [0]) = true := by
    decide +kernel
  obtain ⟨r₁, hlink₁, hbehind⟩ := exists_of_linksTo htwice
  obtain ⟨r₂, hlink₂, hfront⟩ := exists_of_linksTo honce
  exact ⟨r₁, r₂, by decide +kernel, hlink₁, hlink₂, of_decide_eq_true hbehind,
    of_decide_eq_true hfront⟩

end Registry

end ClassLinker
