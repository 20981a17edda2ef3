import ClassLinker.Registry.Layout
import ClassLinker.Proofs.Registry.Growth

/-! Layout. Laying a program out gives places and numbers to what is there and resolves kept
references; names, members, slots and targets stay what they were. -/

namespace ClassLinker

/-- `m'` is `m` in another place. -/
def Method.Laid (m m' : Method) : Prop :=
  m' = { m with
    linkId := m'.linkId, codeOffset := m'.codeOffset, nativeIndex := m'.nativeIndex }

/-- `f'` is `f` in another place. -/
def Field.Laid (f f' : Field) : Prop := f' = { f with linkId := f'.linkId, address := f'.address }

/-- What a reference names, without the ids that were found for it. -/
def RefBody.bare : RefBody → RefBody
  | .classRef target _ => .classRef target none
  | .memberRef m _ _ _ index => .memberRef m none none none index
  | .literal v => .literal v

/-- `ref'` is `ref`, possibly resolved. -/
structure Reference.Laid (ref ref' : Reference) : Prop where
  frame : ref' = { ref with body := ref'.body }
  body : ref'.body.bare = ref.body.bare

/-- A declaration in another place. -/
def Declaration.Laid : Declaration → Declaration → Prop := Declaration.Rel Method.Laid Field.Laid

theorem Method.Laid.refl (m : Method) : m.Laid m := rfl

theorem Method.Laid.symm {m m' : Method} (h : m.Laid m') : m'.Laid m := by rw [Method.Laid, h]

theorem Method.Laid.trans {m m' m'' : Method} (h : m.Laid m') (h' : m'.Laid m'') : m.Laid m'' := by
  rw [Method.Laid, h', h]

theorem Method.Laid.sig_eq {m m' : Method} (h : m.Laid m') : m'.sig = m.sig := by rw [h]

theorem Method.Laid.kept_eq {m m' : Method} (h : m.Laid m') : m'.kept = m.kept := by rw [h]

theorem Field.Laid.refl (f : Field) : f.Laid f := rfl

theorem Field.Laid.symm {f f' : Field} (h : f.Laid f') : f'.Laid f := by rw [Field.Laid, h]

theorem Field.Laid.trans {f f' f'' : Field} (h : f.Laid f') (h' : f'.Laid f'') : f.Laid f'' := by
  rw [Field.Laid, h', h]

theorem Field.Laid.sig_eq {f f' : Field} (h : f.Laid f') : f'.sig = f.sig := by rw [h]

theorem Field.Laid.kept_eq {f f' : Field} (h : f.Laid f') : f'.kept = f.kept := by rw [h]

theorem Declaration.Laid.kept_eq {d d' : Declaration} (h : d.Laid d') : d'.kept = d.kept := by
  cases d <;> cases d'
  · exact Method.Laid.kept_eq h
  · exact h.elim
  · exact h.elim
  · exact Field.Laid.kept_eq h

namespace Reference.Laid

variable {ref ref' ref'' : Reference}

theorem refl (ref : Reference) : ref.Laid ref := ⟨rfl, rfl⟩

theorem symm (h : ref.Laid ref') : ref'.Laid ref := ⟨by rw [h.frame], h.body.symm⟩

theorem trans (h : ref.Laid ref') (h' : ref'.Laid ref'') : ref.Laid ref'' :=
  ⟨by rw [h'.frame, h.frame], h'.body.trans h.body⟩

theorem slot_eq (h : ref.Laid ref') : ref'.slot = ref.slot := by rw [h.frame]

theorem kept_eq (h : ref.Laid ref') : ref'.kept = ref.kept := by rw [h.frame]

theorem owner_eq (h : ref.Laid ref') : ref'.owner = ref.owner := by rw [h.frame]

theorem member (h : ref.Laid ref') {m : Member} {t d k i : Option Nat}
    (hbody : ref.body = .memberRef m t d k i) :
    ∃ t' d' k', ref'.body = .memberRef m t' d' k' i := by
  have hbare := h.body
  rw [hbody] at hbare
  cases hbody' : ref'.body with
  | classRef _ _ => simp [hbody', RefBody.bare] at hbare
  | literal _ => simp [hbody', RefBody.bare] at hbare
  | memberRef m' t' d' k' i' =>
      rw [hbody'] at hbare
      cases hbare
      exact ⟨t', d', k', rfl⟩

end Reference.Laid

namespace Class

/-- `c'` is `c` with its members in other places and its references possibly resolved. -/
structure Laid (c c' : Class) : Prop where
  frame : c' = { c with
    methods := c'.methods, fields := c'.fields, pool := c'.pool
    ownSize := c'.ownSize, totalSize := c'.totalSize }
  methods : List.Forall₂ Method.Laid c.methods c'.methods
  fields : List.Forall₂ Field.Laid c.fields c'.fields
  pool_size : c'.pool.size = c.pool.size
  pool : ∀ {pos : Nat} {ref}, c.pool[pos]? = some ref →
    ∃ ref', c'.pool[pos]? = some ref' ∧ ref.Laid ref'

namespace Laid

variable {c c' c'' : Class}

theorem refl (c : Class) : c.Laid c where
  frame := rfl
  methods := List.forall₂_same.mpr fun m _ => .refl m
  fields := List.forall₂_same.mpr fun f _ => .refl f
  pool_size := rfl
  pool {_ ref} href := ⟨ref, href, .refl ref⟩

theorem trans (h : c.Laid c') (h' : c'.Laid c'') : c.Laid c'' := by
  refine ⟨by rw [h'.frame, h.frame],
    forall₂_trans (fun _ _ _ hm hm' => hm.trans hm') h.methods h'.methods,
    forall₂_trans (fun _ _ _ hf hf' => hf.trans hf') h.fields h'.fields,
    h'.pool_size.trans h.pool_size, ?_⟩
  intro pos ref href
  obtain ⟨ref', href', hlaid⟩ := h.pool href
  obtain ⟨ref'', href'', hlaid'⟩ := h'.pool href'
  exact ⟨ref'', href'', hlaid.trans hlaid'⟩

theorem pool_old (h : c.Laid c') {pos : Nat} {ref' : Reference} (href' : c'.pool[pos]? = some ref') :
    ∃ ref, c.pool[pos]? = some ref ∧ ref.Laid ref' := by
  obtain ⟨hlt, -⟩ := Array.getElem?_eq_some_iff.mp href'
  obtain ⟨ref'', href'', hlaid⟩ := h.pool (Array.getElem?_eq_getElem (h.pool_size ▸ hlt))
  cases href'.symm.trans href''
  exact ⟨_, Array.getElem?_eq_getElem _, hlaid⟩

theorem symm (h : c.Laid c') : c'.Laid c := by
  refine ⟨by rw [h.frame], (h.methods.imp fun _ _ hm => hm.symm).flip,
    (h.fields.imp fun _ _ hf => hf.symm).flip, h.pool_size.symm, ?_⟩
  intro pos ref' href'
  obtain ⟨ref, href, hlaid⟩ := h.pool_old href'
  exact ⟨ref, href, hlaid.symm⟩

theorem signatures_eq (h : c.Laid c') : c'.signatures = c.signatures := by
  rw [signatures, signatures, map_eq_of_forall₂ (fun hm => hm.sig_eq) h.methods,
    map_eq_of_forall₂ (fun hf => hf.sig_eq) h.fields]

theorem declared?_some (h : c.Laid c') {sig : Signature} {d : Declaration}
    (hd : c.declared? sig = some d) : ∃ d', c'.declared? sig = some d' ∧ d.Laid d' := by
  have hrel := declared?_rel (fun hm => hm.sig_eq) (fun hf => hf.sig_eq) h.methods h.fields sig
  rw [hd] at hrel
  exact rel_some hrel

theorem name_eq (h : c.Laid c') : c'.name = c.name := by rw [h.frame]

theorem id_eq (h : c.Laid c') : c'.id = c.id := by rw [h.frame]

theorem kept_eq (h : c.Laid c') : c'.kept = c.kept := by rw [h.frame]

theorem super_eq (h : c.Laid c') : c'.super = c.super := by rw [h.frame]

theorem interfaces_eq (h : c.Laid c') : c'.interfaces = c.interfaces := by rw [h.frame]

theorem listed_eq (h : c.Laid c') : c'.listed = c.listed := by rw [h.frame]

theorem slots_eq (h : c.Laid c') : c'.slots = c.slots := by rw [h.frame]

/-- The references of a class and of the class laid out stand at the same positions. -/
theorem references (h : c.Laid c') :
    List.Forall₂ (fun p p' => p'.1 = p.1 ∧ Reference.Laid p.2 p'.2) c.references c'.references := by
  unfold Class.references
  rw [h.listed_eq]
  generalize c.listed = positions
  induction positions with
  | nil => exact .nil
  | cons pos positions ih =>
      cases hpos : c.pool[pos]? with
      | none =>
          have hpos' : c'.pool[pos]? = none := getElem?_eq_none_of_size_eq h.pool_size hpos
          simpa [hpos, hpos'] using ih
      | some ref =>
          obtain ⟨ref', href', hlaid⟩ := h.pool hpos
          simpa [hpos, href'] using ⟨hlaid, ih⟩

end Laid

end Class

namespace Registry

/-- `r'` is `r` laid out. -/
structure Laid (r r' : Registry) : Prop where
  names_eq : r'.names = r.names
  live_eq : r'.live = r.live
  closed_eq : r'.closed = r.closed
  size_eq : r'.rows.size = r.rows.size
  classes : ∀ {row c}, r.classAt? row = some c → ∃ c', r'.classAt? row = some c' ∧ c.Laid c'

namespace Laid

variable {r r' r'' : Registry}

theorem refl (r : Registry) : r.Laid r := ⟨rfl, rfl, rfl, rfl, fun {_ c} hc => ⟨c, hc, .refl c⟩⟩

theorem trans (h : r.Laid r') (h' : r'.Laid r'') : r.Laid r'' := by
  refine ⟨h'.names_eq.trans h.names_eq, h'.live_eq.trans h.live_eq,
    h'.closed_eq.trans h.closed_eq, h'.size_eq.trans h.size_eq, ?_⟩
  intro row c hc
  obtain ⟨c', hc', hlaid⟩ := h.classes hc
  obtain ⟨c'', hc'', hlaid'⟩ := h'.classes hc'
  exact ⟨c'', hc'', hlaid.trans hlaid'⟩

theorem modifyClass (r : Registry) {row : Nat} {f : Class → Class}
    (hf : ∀ {c}, r.classAt? row = some c → c.Laid (f c)) : r.Laid (r.modifyClass row f) := by
  refine ⟨rfl, rfl, rfl, size_modifyClass .., ?_⟩
  intro row' c hc
  rw [classAt?_modifyClass, hc]
  split
  · rename_i heq
    subst heq
    exact ⟨f c, rfl, hf hc⟩
  · exact ⟨c, rfl, .refl c⟩

theorem withSignatures (h : r.Laid r') (sigs : List Signature) :
    r.Laid { r' with signatures := sigs } :=
  ⟨h.names_eq, h.live_eq, h.closed_eq, h.size_eq, h.classes⟩

theorem withStaticSize (h : r.Laid r') (size : Int) : r.Laid { r' with staticSize := size } :=
  ⟨h.names_eq, h.live_eq, h.closed_eq, h.size_eq, h.classes⟩

theorem find?_eq (h : r.Laid r') (name : Text) : r'.find? name = r.find? name := by
  rw [Registry.find?, Registry.find?, h.names_eq]

theorem exists_old (h : r.Laid r') {row : Nat} {c' : Class} (hc' : r'.classAt? row = some c') :
    ∃ c, r.classAt? row = some c ∧ c.Laid c' := by
  obtain ⟨c, hc⟩ := exists_classAt? (h.size_eq ▸ classAt?_lt hc')
  obtain ⟨c'', hc'', hlaid⟩ := h.classes hc
  cases hc'.symm.trans hc''
  exact ⟨c, hc, hlaid⟩

theorem symm (h : r.Laid r') : r'.Laid r := by
  refine ⟨h.names_eq.symm, h.live_eq.symm, h.closed_eq.symm, h.size_eq.symm, ?_⟩
  intro row c' hc'
  obtain ⟨c, hc, hlaid⟩ := h.exists_old hc'
  exact ⟨c, hc, hlaid.symm⟩

theorem refAt? (h : r.Laid r') {a : RefAddr} {ref : Reference} (href : r.refAt? a = some ref) :
    ∃ ref', r'.refAt? a = some ref' ∧ ref.Laid ref' := by
  obtain ⟨c, hc, hpool⟩ := refAt?_eq_some.mp href
  obtain ⟨c', hc', hlaid⟩ := h.classes hc
  obtain ⟨ref', href', hlaid'⟩ := hlaid.pool hpool
  exact ⟨ref', refAt?_eq_some.mpr ⟨c', hc', href'⟩, hlaid'⟩

/-- A lookup finds the same declaration in the registry laid out. -/
theorem findMember (h : r.Laid r') {m : Member} {row : Nat} {d : Declaration}
    (hok : r.findMember m = .ok (row, d)) : ∃ d', r'.findMember m = .ok (row, d') ∧ d.Laid d' := by
  have haligned : Aligned m.sig (fun _ => False) r r' := by
    refine ⟨fun hp => by rw [h.find?_eq, hp], ?_⟩
    intro row c hc
    obtain ⟨c', hc', hlaid⟩ := h.classes hc
    exact ⟨c', hc', hlaid.super_eq, hlaid.interfaces_eq, fun hsig => hlaid.signatures_eq ▸ hsig,
      fun hsig => Or.inl (hlaid.signatures_eq ▸ hsig)⟩
  have hnone : ∀ {row}, r.classAt? row = none → r'.classAt? row = none :=
    fun hrow => classAt?_eq_none_of_size_eq h.size_eq hrow
  obtain ⟨row', d', hok', rfl | hfalse⟩ := haligned.findMember_of_chain (fun {start} _ => by
    unfold chain
    rw [h.size_eq]
    exact haligned.chainFrom_of_find_eq h.find?_eq hnone _ start) hok
  · obtain ⟨-, c, -, hc, hd⟩ := findMember_ok hok
    obtain ⟨-, c', -, hc', hd'⟩ := findMember_ok hok'
    obtain ⟨c'', hc'', hlaid⟩ := h.classes hc
    cases hc'.symm.trans hc''
    obtain ⟨d'', hd'', hdlaid⟩ := hlaid.declared?_some hd
    cases hd'.symm.trans hd''
    exact ⟨d', hok', hdlaid⟩
  · exact hfalse.elim

theorem wellFormed (h : r.Laid r') (hr : r.WellFormed) : r'.WellFormed := by
  refine hr.of_sameIndex h.live_eq h.find?_eq h.size_eq ?_
  intro row c' hc'
  obtain ⟨c, hc, hlaid⟩ := h.exists_old hc'
  refine ⟨c, hc, hlaid.id_eq, hlaid.name_eq, hlaid.signatures_eq, ?_, hlaid.listed_eq,
    hlaid.slots_eq, Int.le_of_eq (by rw [hlaid.frame])⟩
  intro pos
  cases href : c.pool[pos]? with
  | none =>
      rw [getElem?_eq_none_of_size_eq hlaid.pool_size href]
  | some ref =>
      obtain ⟨ref', href', hreflaid⟩ := hlaid.pool href
      rw [href', Option.map_some, Option.map_some, Reference.key, Reference.key, hreflaid.owner_eq,
        hreflaid.slot_eq]

theorem selfNamed (h : r.Laid r') (hr : r.SelfNamed) : r'.SelfNamed := by
  refine hr.of_names h.live_eq h.find?_eq ?_
  intro row c' hc'
  obtain ⟨c, hc, hlaid⟩ := h.exists_old hc'
  exact ⟨c, hc, hlaid.name_eq⟩

end Laid

end Registry

/-! ### The places of members -/

namespace Layout

theorem placeCode_laid (offset native : Nat) (ms : List Method) :
    List.Forall₂ Method.Laid ms (placeCode offset native ms).1 := by
  induction ms generalizing offset native with
  | nil => exact .nil
  | cons m ms ih =>
      unfold placeCode
      split
      · exact .cons rfl (ih _ _)
      · exact .cons rfl (ih _ _)

theorem placeFields_laid (isStatic : Bool) (address : Int) (fs : List Field) :
    List.Forall₂ Field.Laid fs (placeFields isStatic address fs).1 := by
  induction fs generalizing address with
  | nil => exact .nil
  | cons f fs ih =>
      unfold placeFields
      split
      · exact .cons rfl (ih _)
      · exact .cons rfl (ih _)

theorem placeInstance_laid (base own : Int) (fs : List Field) :
    List.Forall₂ Field.Laid fs (placeInstance base own fs).1 := by
  induction fs generalizing own with
  | nil => exact .nil
  | cons f fs ih =>
      unfold placeInstance
      split
      · exact .cons rfl (ih _)
      · exact .cons rfl (ih _)

end Layout

namespace Registry

open Layout

theorem layCode_laid (offset native : Nat) (rows : List Nat) (r : Registry) :
    r.Laid (layCode offset native rows r) := by
  induction rows generalizing offset native r with
  | nil => exact .refl r
  | cons row rows ih =>
      unfold layCode
      cases hc : r.classAt? row with
      | none => exact ih _ _ _
      | some c =>
          refine (Laid.modifyClass r fun hc' => ?_).trans (ih _ _ _)
          cases hc.symm.trans hc'
          exact { Class.Laid.refl c with frame := rfl, methods := placeCode_laid _ _ _ }

theorem layStatics_laid (rows : List Nat) (r : Registry) : r.Laid (layStatics rows r) := by
  induction rows generalizing r with
  | nil => exact .refl r
  | cons row rows ih =>
      unfold layStatics
      cases hc : r.classAt? row with
      | none => exact ih _
      | some c =>
          refine ((Laid.modifyClass r fun hc' => ?_).withStaticSize _).trans (ih _)
          cases hc.symm.trans hc'
          exact { Class.Laid.refl c with frame := rfl, fields := placeFields_laid _ _ _ }

theorem layInstances_laid (rows : List Nat) (r : Registry) : r.Laid (layInstances rows r) := by
  induction rows generalizing r with
  | nil => exact .refl r
  | cons row rows ih =>
      unfold layInstances
      cases hc : r.classAt? row with
      | none => exact ih _
      | some c =>
          refine (Laid.modifyClass r fun hc' => ?_).trans (ih _)
          cases hc.symm.trans hc'
          exact { Class.Laid.refl c with frame := rfl, fields := placeInstance_laid _ _ _ }

end Registry

/-! ### Link ids -/

namespace Layout

variable {sigs sigs' : List Signature}

theorem intern_spec (sigs : List Signature) (sig : Signature) :
    sigs <+: (intern sigs sig).2 ∧ (intern sigs sig).2[(intern sigs sig).1]? = some sig ∧
      (sigs.Nodup → (intern sigs sig).2.Nodup) := by
  unfold intern
  cases hid : sigs.idxOf? sig with
  | some id =>
      obtain ⟨hlt, heq, -⟩ := List.idxOf?_eq_some_iff.mp hid
      exact ⟨List.prefix_rfl, List.getElem?_eq_some_iff.mpr ⟨hlt, heq⟩, fun h => h⟩
  | none =>
      refine ⟨List.prefix_append _ _, by simp, fun hnodup => ?_⟩
      have hnew : sig ∉ sigs := by simpa using hid
      exact List.nodup_append.mpr ⟨hnodup, by simp, fun a ha b hb heq =>
        hnew (List.mem_singleton.mp hb ▸ heq ▸ ha)⟩

theorem getElem?_of_prefix (h : sigs <+: sigs') {n : Nat} {sig : Signature}
    (hn : sigs[n]? = some sig) : sigs'[n]? = some sig := by
  obtain ⟨rest, rfl⟩ := h
  obtain ⟨hlt, -⟩ := List.getElem?_eq_some_iff.mp hn
  rw [List.getElem?_append_left hlt, hn]

/-- Gives the kept ones among some members of one sort their link ids. -/
def numberAll {α : Type} (isKept : α → Bool) (sig : α → Signature) (setId : Nat → α → α) :
    List Signature → List α → List α × List Signature
  | sigs, [] => ([], sigs)
  | sigs, x :: xs =>
    if isKept x then
      let (id, sigs) := intern sigs (sig x)
      let (rest, sigs) := numberAll isKept sig setId sigs xs
      (setId id x :: rest, sigs)
    else
      let (rest, sigs) := numberAll isKept sig setId sigs xs
      (x :: rest, sigs)

theorem numberAll_spec {α : Type} (isKept : α → Bool) (sig : α → Signature) (setId : Nat → α → α)
    (sigs : List Signature) (xs : List α) :
    sigs <+: (numberAll isKept sig setId sigs xs).2 ∧
      (sigs.Nodup → (numberAll isKept sig setId sigs xs).2.Nodup) ∧
      List.Forall₂ (fun x y => (isKept x = false ∧ y = x) ∨ ∃ n, y = setId n x ∧
        (numberAll isKept sig setId sigs xs).2[n]? = some (sig x)) xs
        (numberAll isKept sig setId sigs xs).1 := by
  induction xs generalizing sigs with
  | nil => exact ⟨List.prefix_rfl, fun h => h, .nil⟩
  | cons x xs ih =>
      unfold numberAll
      split
      · obtain ⟨hpre, hid, hnodup⟩ := intern_spec sigs (sig x)
        obtain ⟨hpre', hnodup', hall⟩ := ih (intern sigs (sig x)).2
        exact ⟨hpre.trans hpre', fun h => hnodup' (hnodup h),
          .cons (Or.inr ⟨_, rfl, getElem?_of_prefix hpre' hid⟩) hall⟩
      · rename_i hdropped
        obtain ⟨hpre, hnodup, hall⟩ := ih sigs
        exact ⟨hpre, hnodup, .cons (Or.inl ⟨Bool.not_eq_true _ ▸ hdropped, rfl⟩) hall⟩

theorem numberMethods_eq (sigs : List Signature) (ms : List Method) : numberMethods sigs ms =
    numberAll Method.kept Method.sig (fun n m => { m with linkId := some n }) sigs ms := by
  induction ms generalizing sigs with
  | nil => rfl
  | cons m ms ih => simp only [numberMethods, numberAll, ih]

theorem numberFields_eq (sigs : List Signature) (fs : List Field) : numberFields sigs fs =
    numberAll Field.kept Field.sig (fun n f => { f with linkId := some n }) sigs fs := by
  induction fs generalizing sigs with
  | nil => rfl
  | cons f fs ih => simp only [numberFields, numberAll, ih]

end Layout

/-- The kept members of a class have the link ids of their signatures. -/
structure Class.Numbered (sigs : List Signature) (c : Class) : Prop where
  methods : ∀ m ∈ c.methods, m.kept = true → ∃ n, m.linkId = some n ∧ sigs[n]? = some m.sig
  fields : ∀ f ∈ c.fields, f.kept = true → ∃ n, f.linkId = some n ∧ sigs[n]? = some f.sig

theorem Class.Numbered.mono {sigs sigs' : List Signature} {c : Class} (h : c.Numbered sigs)
    (hpre : sigs <+: sigs') : c.Numbered sigs' := by
  refine ⟨fun m hm hkept => ?_, fun f hf hkept => ?_⟩
  · obtain ⟨n, hn, hsig⟩ := h.methods m hm hkept
    exact ⟨n, hn, Layout.getElem?_of_prefix hpre hsig⟩
  · obtain ⟨n, hn, hsig⟩ := h.fields f hf hkept
    exact ⟨n, hn, Layout.getElem?_of_prefix hpre hsig⟩

namespace Registry

open Layout

/-- The class with its kept members numbered after some signatures. -/
def numbered (sigs : List Signature) (c : Class) : Class :=
  { c with
    methods := (numberMethods sigs c.methods).1
    fields := (numberFields (numberMethods sigs c.methods).2 c.fields).1 }

theorem numbered_spec (sigs : List Signature) (c : Class) :
    let sigs' := (numberFields (numberMethods sigs c.methods).2 c.fields).2
    c.Laid (numbered sigs c) ∧ (numbered sigs c).Numbered sigs' ∧ sigs <+: sigs' ∧
      (sigs.Nodup → sigs'.Nodup) := by
  obtain ⟨hpre, hnodup, hmethods⟩ := numberAll_spec Method.kept Method.sig
    (fun n m => { m with linkId := some n }) sigs c.methods
  rw [← numberMethods_eq] at hpre hnodup hmethods
  obtain ⟨hpre', hnodup', hfields⟩ := numberAll_spec Field.kept Field.sig
    (fun n f => { f with linkId := some n }) (numberMethods sigs c.methods).2 c.fields
  rw [← numberFields_eq] at hpre' hnodup' hfields
  refine ⟨⟨rfl, hmethods.imp ?_, hfields.imp ?_, rfl, fun {_ ref} href => ⟨ref, href, .refl ref⟩⟩,
    ⟨?_, ?_⟩, hpre.trans hpre', fun h => hnodup' (hnodup h)⟩
  · rintro m m' (⟨-, rfl⟩ | ⟨n, rfl, -⟩)
    · rfl
    · rfl
  · rintro f f' (⟨-, rfl⟩ | ⟨n, rfl, -⟩)
    · rfl
    · rfl
  · intro m' hm' hkept
    obtain ⟨m, -, ⟨hdropped, rfl⟩ | ⟨n, rfl, hn⟩⟩ := forall₂_mem_right hmethods hm'
    · rw [hdropped] at hkept
      cases hkept
    · exact ⟨n, rfl, getElem?_of_prefix hpre' hn⟩
  · intro f' hf' hkept
    obtain ⟨f, -, ⟨hdropped, rfl⟩ | ⟨n, rfl, hn⟩⟩ := forall₂_mem_right hfields hf'
    · rw [hdropped] at hkept
      cases hkept
    · exact ⟨n, rfl, hn⟩

/-- Numbering the members of the classes in some rows. -/
theorem numberMembers_spec (done : List Nat) (rows : List Nat) (r : Registry)
    (hdone : ∀ row ∈ done, ∀ {c}, r.classAt? row = some c → c.Numbered r.signatures) :
    r.Laid (numberMembers rows r) ∧ (r.signatures.Nodup → (numberMembers rows r).signatures.Nodup) ∧
      ∀ row ∈ done ++ rows, ∀ {c}, (numberMembers rows r).classAt? row = some c →
        c.Numbered (numberMembers rows r).signatures := by
  induction rows generalizing done r with
  | nil =>
      rw [List.append_nil]
      exact ⟨.refl r, fun h => h, hdone⟩
  | cons row rows ih =>
      rw [List.append_cons done row rows]
      unfold numberMembers
      cases hc : r.classAt? row with
      | none =>
          refine ih (done ++ [row]) r ?_
          intro p hp c hc'
          rcases List.mem_append.mp hp with hp | hp
          · exact hdone p hp hc'
          · rw [List.mem_singleton.mp hp, hc] at hc'
            cases hc'
      | some c =>
          obtain ⟨hlaid, hnumbered, hpre, hnodup⟩ := numbered_spec r.signatures c
          have hstep : r.Laid (r.modifyClass row fun c' =>
              { c' with methods := (numbered r.signatures c).methods
                        fields := (numbered r.signatures c).fields }) := by
            refine Laid.modifyClass r fun hc' => ?_
            cases hc.symm.trans hc'
            exact hlaid
          have hnext : ∀ p ∈ done ++ [row], ∀ {c'}, (r.modifyClass row fun c' =>
              { c' with methods := (numbered r.signatures c).methods
                        fields := (numbered r.signatures c).fields }).classAt? p = some c' →
              c'.Numbered (numberFields (numberMethods r.signatures c.methods).2 c.fields).2 := by
            intro p hp c' hc'
            obtain ⟨c₀, hc₀, ⟨rfl, rfl⟩ | ⟨hne, rfl⟩⟩ := classAt?_of_modifyClass hc'
            · exact ⟨hnumbered.methods, hnumbered.fields⟩
            · rcases List.mem_append.mp hp with hp | hp
              · exact (hdone p hp hc₀).mono hpre
              · exact absurd (List.mem_singleton.mp hp) hne
          obtain ⟨hlaid', hnodup', hall⟩ := ih (done ++ [row])
            { r.modifyClass row (fun c' =>
              { c' with methods := (numbered r.signatures c).methods
                        fields := (numbered r.signatures c).fields }) with
              signatures := (numberFields (numberMethods r.signatures c.methods).2 c.fields).2 } hnext
          exact ⟨(hstep.withSignatures _).trans hlaid',
            fun h => hnodup' (hnodup h), hall⟩

end Registry

end ClassLinker
