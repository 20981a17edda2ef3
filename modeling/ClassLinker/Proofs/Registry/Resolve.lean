import ClassLinker.Proofs.Registry.Layout

/-! Resolving references. Linking succeeds when every kept reference of a kept class names a kept
class or member, and then each of them has the ids of its target, of the class that declares it and
of its signature. -/

namespace ClassLinker

/-- A reference was given the ids of what it names in a registry. -/
def RefBody.ResolvedIn (r : Registry) (sigs : List Signature) : RefBody → Prop
  | .classRef name id => ∃ row c, r.find? name = some row ∧ r.classAt? row = some c ∧
      c.kept = true ∧ id = some c.id
  | .memberRef m target declaring link _ => ∃ row c row' c' d n,
      r.find? m.className = some row ∧ r.classAt? row = some c ∧ c.kept = true ∧
      target = some c.id ∧ r.findMember m = .ok (row', d) ∧ r.classAt? row' = some c' ∧
      d.kept = true ∧ declaring = some c'.id ∧ link = some n ∧ sigs[n]? = some m.sig
  | .literal _ => True

theorem RefBody.ResolvedIn.mono {r : Registry} {sigs sigs' : List Signature} {body : RefBody}
    (h : body.ResolvedIn r sigs) (hpre : sigs <+: sigs') : body.ResolvedIn r sigs' := by
  cases body with
  | classRef name id => exact h
  | literal v => trivial
  | memberRef m target declaring link index =>
      obtain ⟨row, c, row', c', d, n, hrow, hc, hkept, ht, hfind, hc', hd, hdecl, hlink, hn⟩ := h
      exact ⟨row, c, row', c', d, n, hrow, hc, hkept, ht, hfind, hc', hd, hdecl, hlink,
        Layout.getElem?_of_prefix hpre hn⟩

namespace Registry

open RegistryM Step Layout

/-- What a reference names is kept. -/
def Resolvable (r : Registry) : RefBody → Prop
  | .classRef name _ => ∃ row c, r.find? name = some row ∧ r.classAt? row = some c ∧ c.kept = true
  | .memberRef m _ _ _ _ =>
      (∃ row c, r.find? m.className = some row ∧ r.classAt? row = some c ∧ c.kept = true) ∧
      ∃ row d, r.findMember m = .ok (row, d) ∧ d.kept = true
  | .literal _ => True

theorem Resolvable.congr {r : Registry} {body body' : RefBody} (h : r.Resolvable body)
    (hbare : body'.bare = body.bare) : r.Resolvable body' := by
  cases body <;> cases body' <;> simp_all [RefBody.bare, Resolvable]

theorem keptTarget_ok {owner c : Class} {name : Text} {r r' : Registry} :
    keptTarget owner name r = .ok c r' ↔
      (∃ row, r.find? name = some row ∧ r.classAt? row = some c) ∧ c.kept = true ∧ r = r' := by
  simp only [keptTarget, bind_ok, get_ok]
  constructor
  · rintro ⟨_, _, ⟨rfl, rfl⟩, h⟩
    cases hrow : r.find? name with
    | none => simp [hrow] at h
    | some row =>
        cases hc : r.classAt? row with
        | none => simp [hrow, hc] at h
        | some c' =>
            simp only [hrow, hc, Option.bind_some, ite_ok, pure_ok, inconsistent_ok, and_false,
              or_false] at h
            obtain ⟨hkept, rfl, rfl⟩ := h
            exact ⟨⟨row, rfl, hc⟩, hkept, rfl⟩
  · rintro ⟨⟨row, hrow, hc⟩, hkept, rfl⟩
    refine ⟨r, r, ⟨rfl, rfl⟩, ?_⟩
    simp only [hrow, Option.bind_some, hc, hkept, if_true, pure_ok, and_self]

/-- The reference with the ids of a class. -/
def setClass (name : Text) (target : Nat) (ref : Reference) : Reference :=
  { ref with body := .classRef name (some target) }

/-- The reference with the ids of a member. -/
def setMember (m : Member) (target declaring link : Nat) (index : Option Nat) (ref : Reference) :
    Reference := { ref with body := .memberRef m (some target) (some declaring) (some link) index }

theorem resolveRef_class {owner : Class} {a : RefAddr} {ref : Reference} {name : Text}
    {id : Option Nat} {r r' : Registry} (hbody : ref.body = .classRef name id) :
    resolveRef owner a ref r = .ok () r' ↔ ∃ row c, r.find? name = some row ∧
      r.classAt? row = some c ∧ c.kept = true ∧ r.modifyRef a (setClass name c.id) = r' := by
  simp only [resolveRef, hbody, bind_ok, keptTarget_ok, modify_ok]
  constructor
  · rintro ⟨c, _, ⟨⟨row, hrow, hc⟩, hkept, rfl⟩, rfl⟩
    exact ⟨row, c, hrow, hc, hkept, rfl⟩
  · rintro ⟨row, c, hrow, hc, hkept, rfl⟩
    exact ⟨c, r, ⟨⟨row, hrow, hc⟩, hkept, rfl⟩, rfl⟩

theorem resolveRef_member {owner : Class} {a : RefAddr} {ref : Reference} {m : Member}
    {t d k i : Option Nat} {r r' : Registry} (hbody : ref.body = .memberRef m t d k i) :
    resolveRef owner a ref r = .ok () r' ↔ ∃ row c row' c' d, r.find? m.className = some row ∧
      r.classAt? row = some c ∧ c.kept = true ∧ r.findMember m = .ok (row', d) ∧
      r.classAt? row' = some c' ∧ d.kept = true ∧
      ({ r with signatures := (intern r.signatures m.sig).2 } : Registry).modifyRef a
        (setMember m c.id c'.id (intern r.signatures m.sig).1 i) = r' := by
  simp only [resolveRef, hbody, bind_ok, keptTarget_ok, get_ok]
  constructor
  · rintro ⟨c, _, ⟨⟨row, hrow, hc⟩, hkept, rfl⟩, _, _, ⟨rfl, rfl⟩, h⟩
    cases hfind : r.findMember m with
    | error e => simp [hfind] at h
    | ok found =>
        obtain ⟨row', d⟩ := found
        simp only [hfind, bind_ok, classAt_ok] at h
        obtain ⟨c', _, ⟨hc', rfl⟩, h⟩ := h
        cases hd : d.kept with
        | false => simp [hd] at h
        | true =>
            simp only [hd, Bool.not_true, Bool.false_eq_true, if_false, bind_ok, set_ok, modify_ok,
              exists_eq_left', exists_const] at h
            exact ⟨row, c, row', c', d, hrow, hc, hkept, rfl, hc', hd, h⟩
  · rintro ⟨row, c, row', c', d, hrow, hc, hkept, hfind, hc', hd, rfl⟩
    refine ⟨c, r, ⟨⟨row, hrow, hc⟩, hkept, rfl⟩, r, r, ⟨rfl, rfl⟩, ?_⟩
    simp [hfind, hc', hd]
    rfl

/-- Resolving references, one after the other: the ids that were found before stay. -/
structure Resolves (r l l' : Registry) : Prop where
  laid : l.Laid l'
  signatures : l.signatures <+: l'.signatures
  nodup : l.signatures.Nodup → l'.signatures.Nodup
  members : ∀ {row c'}, l'.classAt? row = some c' →
    ∃ c, l.classAt? row = some c ∧ c'.methods = c.methods ∧ c'.fields = c.fields
  resolved : ∀ {a ref}, l.refAt? a = some ref → ref.body.ResolvedIn r l.signatures →
    ∃ ref', l'.refAt? a = some ref' ∧ ref'.body.ResolvedIn r l'.signatures

namespace Resolves

variable {r l l' l'' : Registry}

theorem refl (r l : Registry) : Resolves r l l where
  laid := .refl l
  signatures := List.prefix_rfl
  nodup h := h
  members {_ c} hc := ⟨c, hc, rfl, rfl⟩
  resolved {_ ref} href h := ⟨ref, href, h⟩

theorem trans (h : Resolves r l l') (h' : Resolves r l' l'') : Resolves r l l'' := by
  refine ⟨h.laid.trans h'.laid, h.signatures.trans h'.signatures, fun hn => h'.nodup (h.nodup hn),
    ?_, ?_⟩
  · intro row c'' hc''
    obtain ⟨c', hc', hm', hf'⟩ := h'.members hc''
    obtain ⟨c, hc, hm, hf⟩ := h.members hc'
    exact ⟨c, hc, hm'.trans hm, hf'.trans hf⟩
  · intro a ref href hres
    obtain ⟨ref', href', hres'⟩ := h.resolved href hres
    exact h'.resolved href' hres'

/-- Writing the ids of one reference. -/
theorem modifyRef {sigs : List Signature} {a : RefAddr} {ref : Reference}
    {f : Reference → Reference} (href : l.refAt? a = some ref) (hf : ref.Laid (f ref))
    (hpre : l.signatures <+: sigs) (hnodup : l.signatures.Nodup → sigs.Nodup)
    (hres : (f ref).body.ResolvedIn r sigs) :
    Resolves r l (({ l with signatures := sigs } : Registry).modifyRef a f) := by
  obtain ⟨c, hc, hpool⟩ := refAt?_eq_some.mp href
  refine ⟨(Laid.refl l).withSignatures sigs |>.trans (Laid.modifyClass _ fun hc' => ?_), hpre,
    hnodup, ?_, ?_⟩
  · cases hc.symm.trans hc'
    refine { Class.Laid.refl c with frame := rfl, pool_size := Array.size_modify .., pool := ?_ }
    intro pos ref' href'
    rw [Array.getElem?_modify, href']
    split
    · rename_i heq
      subst heq
      cases hpool.symm.trans href'
      exact ⟨_, rfl, hf⟩
    · exact ⟨ref', rfl, .refl ref'⟩
  · intro row c' hc'
    obtain ⟨c₀, hc₀, ⟨-, rfl⟩ | ⟨-, rfl⟩⟩ := classAt?_of_modifyClass hc'
    · exact ⟨c₀, hc₀, rfl, rfl⟩
    · exact ⟨c', hc₀, rfl, rfl⟩
  · intro b ref' href' hres'
    rw [refAt?_modifyRef]
    change l.refAt? b = some ref' at href'
    split
    · rename_i heq
      subst heq
      cases href.symm.trans href'
      exact ⟨f ref, congrArg (Option.map f) href, hres⟩
    · exact ⟨ref', href', hres'.mono hpre⟩

end Resolves

/-- Resolving one reference gives it the ids of what it names. -/
theorem resolveRef_resolves {r l l' : Registry} {owner : Class} {a : RefAddr} {ref cur : Reference}
    (hr : r.Laid l) (hcur : l.refAt? a = some cur) (hbare : ref.body.bare = cur.body.bare)
    (hok : resolveRef owner a ref l = .ok () l') :
    Resolves r l l' ∧ ∃ ref', l'.refAt? a = some ref' ∧ ref'.body.ResolvedIn r l'.signatures := by
  have hback : ∀ {row c}, l.classAt? row = some c → ∃ c₀, r.classAt? row = some c₀ ∧
      c.id = c₀.id ∧ c.kept = c₀.kept := by
    intro row c hc
    obtain ⟨c₀, hc₀, hlaid⟩ := hr.exists_old hc
    exact ⟨c₀, hc₀, hlaid.id_eq, hlaid.kept_eq⟩
  have hwrite : ∀ {sigs : List Signature} {f : Reference → Reference}, cur.Laid (f cur) →
      l.signatures <+: sigs → (l.signatures.Nodup → sigs.Nodup) →
      (f cur).body.ResolvedIn r sigs →
      ({ l with signatures := sigs } : Registry).modifyRef a f = l' →
      Resolves r l l' ∧ ∃ ref', l'.refAt? a = some ref' ∧
        ref'.body.ResolvedIn r l'.signatures := by
    rintro sigs f hf hpre hnodup hres rfl
    refine ⟨.modifyRef hcur hf hpre hnodup hres, f cur, ?_, hres⟩
    rw [refAt?_modifyRef, if_pos rfl]
    exact congrArg (Option.map f) hcur
  cases hbody : ref.body with
  | literal v =>
      simp only [resolveRef, hbody, pure_ok, true_and] at hok
      obtain rfl := hok
      refine ⟨.refl r l, cur, hcur, ?_⟩
      cases hcurBody : cur.body with
      | literal _ => trivial
      | classRef _ _ => simp [hbody, hcurBody, RefBody.bare] at hbare
      | memberRef _ _ _ _ _ => simp [hbody, hcurBody, RefBody.bare] at hbare
  | classRef name id =>
      obtain ⟨row, c, hrow, hc, hkept, heq⟩ := (resolveRef_class hbody).mp hok
      obtain ⟨c₀, hc₀, hid, hk⟩ := hback hc
      refine hwrite ⟨rfl, ?_⟩ List.prefix_rfl (fun h => h) ?_ heq
      · rw [← hbare, hbody]
        rfl
      · exact ⟨row, c₀, hr.find?_eq name ▸ hrow, hc₀, hk ▸ hkept, by rw [hid]⟩
  | memberRef m t d k i =>
      obtain ⟨row, c, row', c', decl, hrow, hc, hkept, hfind, hc', hd, heq⟩ :=
        (resolveRef_member hbody).mp hok
      obtain ⟨hpre, hlink, hnodup⟩ := intern_spec l.signatures m.sig
      obtain ⟨c₀, hc₀, hid, hk⟩ := hback hc
      obtain ⟨c₀', hc₀', hid', -⟩ := hback hc'
      obtain ⟨d₀, hfind₀, hdlaid⟩ := hr.symm.findMember hfind
      refine hwrite ⟨rfl, ?_⟩ hpre hnodup ?_ heq
      · rw [← hbare, hbody]
        rfl
      · exact ⟨row, c₀, row', c₀', d₀, _, hr.find?_eq m.className ▸ hrow, hc₀, hk ▸ hkept,
          by rw [hid], hfind₀, hc₀', hdlaid.kept_eq.trans hd, by rw [hid'], rfl, hlink⟩

/-- Resolving succeeds when what a reference names is kept. -/
theorem exists_resolveRef {r l : Registry} {ref : Reference} (hr : r.Laid l)
    (hres : r.Resolvable ref.body) (owner : Class) (a : RefAddr) :
    ∃ l', resolveRef owner a ref l = .ok () l' := by
  have hforward : ∀ {name}, (∃ row c, r.find? name = some row ∧ r.classAt? row = some c ∧
      c.kept = true) → ∃ row c, l.find? name = some row ∧ l.classAt? row = some c ∧
      c.kept = true := by
    rintro name ⟨row, c, hrow, hc, hkept⟩
    obtain ⟨c', hc', hlaid⟩ := hr.classes hc
    exact ⟨row, c', (hr.find?_eq name).trans hrow, hc', hlaid.kept_eq.trans hkept⟩
  cases hbody : ref.body with
  | literal v => exact ⟨l, by simp [resolveRef, hbody]⟩
  | classRef name id =>
      rw [hbody] at hres
      obtain ⟨row, c, hrow, hc, hkept⟩ := hforward hres
      exact ⟨_, (resolveRef_class hbody).mpr ⟨row, c, hrow, hc, hkept, rfl⟩⟩
  | memberRef m t d k i =>
      rw [hbody] at hres
      obtain ⟨hclass, row', decl, hfind, hd⟩ := hres
      obtain ⟨row, c, hrow, hc, hkept⟩ := hforward hclass
      obtain ⟨decl', hfind', hdlaid⟩ := hr.findMember hfind
      obtain ⟨-, c', -, hc', -⟩ := findMember_ok hfind'
      exact ⟨_, (resolveRef_member hbody).mpr ⟨row, c, row', c', decl', hrow, hc, hkept, hfind',
        hc', hdlaid.kept_eq.trans hd, rfl⟩⟩

/-- Resolving the references of one class. -/
theorem resolveRefs_resolves {r l l' : Registry} {row : Nat} (hr : r.Laid l)
    (hok : resolveRefs row l = .ok () l') :
    Resolves r l l' ∧ ∀ {c pos ref}, l.classAt? row = some c → (pos, ref) ∈ c.references →
      ref.kept = true → ∃ ref', l'.refAt? ⟨row, pos⟩ = some ref' ∧
        ref'.body.ResolvedIn r l'.signatures := by
  simp only [resolveRefs, bind_ok, classAt_ok] at hok
  obtain ⟨c, _, ⟨hc, rfl⟩, hloop⟩ := hok
  have hrun : Resolves r l l' ∧ ∀ p ∈ c.references, p.2.kept = true →
      ∃ ref', l'.refAt? ⟨row, p.1⟩ = some ref' ∧ ref'.body.ResolvedIn r l'.signatures := by
    refine forM_collects (R := Resolves r) (Q := fun p u => p.2.kept = true →
        ∃ ref', u.refAt? ⟨row, p.1⟩ = some ref' ∧ ref'.body.ResolvedIn r u.signatures)
      (.refl r l) (fun h h' => h.trans h') ?_ ?_ hloop
    · intro p u v _ _ huv hQ hkept
      obtain ⟨ref', href', hres⟩ := hQ hkept
      exact huv.resolved href' hres
    · rintro ⟨pos, ref⟩ u v hmem hu hstep
      rw [ite_ok, pure_ok] at hstep
      rcases hstep with ⟨-, hstep⟩ | ⟨hdropped, -, rfl⟩
      · obtain ⟨cur, hcur, hlaid⟩ := hu.laid.refAt? (a := ⟨row, pos⟩)
          (refAt?_eq_some.mpr ⟨c, hc, (Class.mem_references.mp hmem).2⟩)
        obtain ⟨hstep, hres⟩ := resolveRef_resolves (hr.trans hu.laid) hcur hlaid.body.symm hstep
        exact ⟨hstep, fun _ => hres⟩
      · exact ⟨.refl r u, fun hkept => absurd hkept hdropped⟩
  refine ⟨hrun.1, ?_⟩
  intro c' pos ref hc' hmem hkept
  cases hc.symm.trans hc'
  exact hrun.2 (pos, ref) hmem hkept

theorem exists_resolveRefs {r l : Registry} {row : Nat} {c : Class} (hr : r.Laid l)
    (hc : r.classAt? row = some c)
    (hres : ∀ {pos ref}, (pos, ref) ∈ c.references → ref.kept = true → r.Resolvable ref.body) :
    ∃ l', resolveRefs row l = .ok () l' := by
  obtain ⟨c', hc', hlaid⟩ := hr.classes hc
  have hstep : ∀ p ∈ c'.references, ∀ u, r.Laid u →
      ∃ v, (if p.2.kept then resolveRef c' ⟨row, p.1⟩ p.2 else pure ()) u = .ok () v ∧
        r.Laid v := by
    rintro ⟨pos, ref'⟩ hmem u hu
    by_cases hkept : ref'.kept = true
    · obtain ⟨⟨pos₀, ref⟩, hmem₀, rfl, hreflaid⟩ := forall₂_mem_right hlaid.references hmem
      have hres' := (hres hmem₀ (hreflaid.kept_eq ▸ hkept)).congr hreflaid.body
      obtain ⟨v, hv⟩ := exists_resolveRef hu hres' c' ⟨row, pos⟩
      obtain ⟨cur, hcur, hcurlaid⟩ := hu.refAt? (a := ⟨row, pos⟩)
        (refAt?_eq_some.mpr ⟨c, hc, (Class.mem_references.mp hmem₀).2⟩)
      have hbare : ref'.body.bare = cur.body.bare := hreflaid.body.trans hcurlaid.body.symm
      obtain ⟨hresolves, -⟩ := resolveRef_resolves hu hcur hbare hv
      exact ⟨v, by rw [if_pos hkept]; exact hv, hu.trans hresolves.laid⟩
    · exact ⟨u, by rw [if_neg hkept, pure_ok]; exact ⟨rfl, rfl⟩, hu⟩
  obtain ⟨l', hrun, -⟩ := forM_succeeds hstep hr
  exact ⟨l', by
    simp only [resolveRefs, bind_ok, classAt_ok]
    exact ⟨c', l, ⟨hc', rfl⟩, hrun⟩⟩

/-! ### Linking -/

theorem mem_keptClasses {r : Registry} {row : Nat} {c : Class} :
    (row, c) ∈ r.keptClasses ↔ row ∈ r.live ∧ r.classAt? row = some c ∧ c.kept = true := by
  simp only [keptClasses, classes, List.mem_filter, List.mem_filterMap, Option.map_eq_some_iff,
    Prod.mk.injEq]
  constructor
  · rintro ⟨⟨row', hlive, c', hc, rfl, rfl⟩, hkept⟩
    exact ⟨hlive, hc, hkept⟩
  · rintro ⟨hlive, hc, hkept⟩
    exact ⟨⟨row, hlive, c, hc, rfl, rfl⟩, hkept⟩

/-- The rows of the kept classes. -/
def keptRows (r : Registry) : List Nat := r.keptClasses.map Prod.fst

theorem mem_keptRows {r : Registry} {row : Nat} :
    row ∈ r.keptRows ↔ row ∈ r.live ∧ ∃ c, r.classAt? row = some c ∧ c.kept = true := by
  simp only [keptRows, List.mem_map, Prod.exists, mem_keptClasses]
  constructor
  · rintro ⟨row', c, ⟨hlive, hc, hkept⟩, rfl⟩
    exact ⟨hlive, c, hc, hkept⟩
  · rintro ⟨hlive, c, hc, hkept⟩
    exact ⟨row, c, ⟨hlive, hc, hkept⟩, rfl⟩

theorem Laid.keptRows_eq {r r' : Registry} (h : r.Laid r') : r'.keptRows = r.keptRows := by
  have hclasses : r'.classes.map (fun p => (p.1, p.2.kept)) =
      r.classes.map fun p => (p.1, p.2.kept) := by
    have hmap : ∀ s : Registry, s.classes.map (fun p => (p.1, p.2.kept)) =
        s.live.filterMap fun row => ((s.classAt? row).map Class.kept).map (row, ·) := by
      intro s
      unfold Registry.classes
      rw [List.map_filterMap]
      refine List.filterMap_congr fun row _ => ?_
      rw [Option.map_map, Option.map_map]
      rfl
    rw [hmap, hmap, h.live_eq]
    refine List.filterMap_congr fun row _ => ?_
    cases hc : r.classAt? row with
    | none =>
        rw [classAt?_eq_none_of_size_eq h.size_eq hc]
    | some c =>
        obtain ⟨c', hc', hlaid⟩ := h.classes hc
        rw [hc', Option.map_some, Option.map_some, hlaid.kept_eq]
        rfl
  have hrows : ∀ s : Registry, s.keptRows =
      ((s.classes.map fun p => (p.1, p.2.kept)).filter fun p => p.2).map Prod.fst := by
    intro s
    unfold keptRows keptClasses
    rw [List.filter_map, List.map_map]
    rfl
  rw [hrows, hrows, hclasses]

/-- What a reference was resolved to is still there in the registry laid out. -/
theorem Laid.resolvedIn {r r' : Registry} (h : r.Laid r') {sigs : List Signature} {body : RefBody}
    (hres : body.ResolvedIn r sigs) : body.ResolvedIn r' sigs := by
  have hforward : ∀ {name row c}, r.find? name = some row → r.classAt? row = some c →
      ∃ c', r'.find? name = some row ∧ r'.classAt? row = some c' ∧ c'.id = c.id ∧
        c'.kept = c.kept := by
    intro name row c hrow hc
    obtain ⟨c', hc', hlaid⟩ := h.classes hc
    exact ⟨c', (h.find?_eq name).trans hrow, hc', hlaid.id_eq, hlaid.kept_eq⟩
  cases body with
  | literal v => trivial
  | classRef name id =>
      obtain ⟨row, c, hrow, hc, hkept, rfl⟩ := hres
      obtain ⟨c', hrow', hc', hid, hk⟩ := hforward hrow hc
      exact ⟨row, c', hrow', hc', hk.trans hkept, by rw [hid]⟩
  | memberRef m target declaring link index =>
      obtain ⟨row, c, row₁, c₁, d, n, hrow, hc, hkept, rfl, hfind, hc₁, hd, rfl, rfl, hn⟩ := hres
      obtain ⟨c', hrow', hc', hid, hk⟩ := hforward hrow hc
      obtain ⟨c₁', hc₁', hlaid₁⟩ := h.classes hc₁
      obtain ⟨d', hfind', hdlaid⟩ := h.findMember hfind
      exact ⟨row, c', row₁, c₁', d', n, hrow', hc', hk.trans hkept, by rw [hid], hfind', hc₁',
        hdlaid.kept_eq.trans hd, by rw [hlaid₁.id_eq], rfl, hn⟩

/-- The code and the fields of everything kept in their places. -/
def placed (r : Registry) : Registry :=
  let static := layStatics r.keptRows { layCode 0 0 r.keptRows r with staticSize := 0 }
  layInstances static.live static

/-- Everything kept in its place and numbered, and no reference resolved yet. -/
def layOut (r : Registry) : Registry :=
  numberMembers r.keptRows { r.placed with signatures := [] }

theorem placed_laid (r : Registry) : r.Laid r.placed :=
  ((layCode_laid 0 0 r.keptRows r).withStaticSize 0).trans
    ((layStatics_laid r.keptRows _).trans (layInstances_laid _ _))

theorem layOut_spec (r : Registry) : r.Laid r.layOut ∧ r.layOut.signatures.Nodup ∧
    ∀ row ∈ r.keptRows, ∀ {c}, r.layOut.classAt? row = some c → c.Numbered r.layOut.signatures := by
  obtain ⟨hlaid, hnodup, hnumbered⟩ := numberMembers_spec [] r.keptRows
    { r.placed with signatures := [] } (fun row hrow => by cases hrow)
  exact ⟨(r.placed_laid.withSignatures []).trans hlaid, hnodup List.nodup_nil, hnumbered⟩

theorem link_ok {r r' : Registry} : link r = .ok () r' ↔
    r.closed = false ∧ (r.keptClasses.head?.map fun p => p.2.id) = some 0 ∧
      ∃ l, r.keptRows.forM resolveRefs r.layOut = .ok () l ∧ { l with linked := true } = r' := by
  simp only [link, bind_ok, checkOpen_ok, get_ok]
  constructor
  · rintro ⟨_, _, ⟨hopen, rfl⟩, _, _, ⟨rfl, rfl⟩, h⟩
    rw [ite_ok] at h
    rcases h with ⟨-, h⟩ | ⟨hroot, h⟩
    · simp at h
    · rw [bind_ok] at h
      obtain ⟨_, l, hlay, h⟩ := h
      obtain rfl : r.layOut = l := modify_ok.mp hlay
      rw [bind_ok] at h
      obtain ⟨_, l', hrun, h⟩ := h
      exact ⟨hopen, not_not.mp hroot, l', hrun, modify_ok.mp h⟩
  · rintro ⟨hopen, hroot, l, hrun, h⟩
    refine ⟨(), r, ⟨hopen, rfl⟩, r, r, ⟨rfl, rfl⟩, ?_⟩
    rw [if_neg (not_not.mpr hroot), bind_ok]
    refine ⟨(), r.layOut, modify_ok.mpr rfl, ?_⟩
    rw [bind_ok]
    exact ⟨(), l, hrun, modify_ok.mpr h⟩

/-- `r'` is `r` linked: everything kept has its number and its place, and the kept references of the
kept classes are resolved. -/
structure LinkedTo (r r' : Registry) : Prop where
  laid : r.Laid r'
  nodup : r'.signatures.Nodup
  numbered : ∀ {row c}, row ∈ r.keptRows → r'.classAt? row = some c → c.Numbered r'.signatures
  resolved : ∀ {row c pos ref}, row ∈ r.keptRows → r.classAt? row = some c →
    (pos, ref) ∈ c.references → ref.kept = true →
    ∃ ref', r'.refAt? ⟨row, pos⟩ = some ref' ∧ ref'.body.ResolvedIn r r'.signatures
  root : (r.keptClasses.head?.map fun p => p.2.id) = some 0
  isOpen : r.closed = false
  linked : r'.linked = true

theorem link_spec {r r' : Registry} (hok : link r = .ok () r') : r.LinkedTo r' := by
  obtain ⟨hopen, hroot, l, hrun, rfl⟩ := link_ok.mp hok
  obtain ⟨hlaid, hnodup, hnumbered⟩ := layOut_spec r
  have hall : Resolves r r.layOut l ∧ ∀ row ∈ r.keptRows, ∀ {c pos ref},
      r.layOut.classAt? row = some c → (pos, ref) ∈ c.references → ref.kept = true →
      ∃ ref', l.refAt? ⟨row, pos⟩ = some ref' ∧ ref'.body.ResolvedIn r l.signatures := by
    refine forM_collects (R := Resolves r) (Q := fun row u => ∀ {c pos ref},
        r.layOut.classAt? row = some c → (pos, ref) ∈ c.references → ref.kept = true →
        ∃ ref', u.refAt? ⟨row, pos⟩ = some ref' ∧ ref'.body.ResolvedIn r u.signatures)
      (.refl r _) (fun h h' => h.trans h') ?_ ?_ hrun
    · intro row u v _ _ huv hQ c pos ref hc hmem hkept
      obtain ⟨ref', href', hres⟩ := hQ hc hmem hkept
      exact huv.resolved href' hres
    · intro row u v _ hu hstep
      obtain ⟨hresolves, hres⟩ := resolveRefs_resolves (hlaid.trans hu.laid) hstep
      refine ⟨hresolves, ?_⟩
      intro c pos ref hc hmem hkept
      obtain ⟨c', hc', hclaid⟩ := hu.laid.classes hc
      obtain ⟨⟨pos', ref'⟩, hmem', rfl, hreflaid⟩ := forall₂_mem_left hclaid.references hmem
      exact hres hc' hmem' (hreflaid.kept_eq.trans hkept)
  obtain ⟨hresolves, hresolved⟩ := hall
  have hl := hlaid.trans hresolves.laid
  refine ⟨⟨hl.names_eq, hl.live_eq, hl.closed_eq, hl.size_eq, hl.classes⟩, hresolves.nodup hnodup,
    ?_, ?_, hroot, hopen, rfl⟩
  · intro row c hrow hc
    obtain ⟨c₀, hc₀, hmethods, hfields⟩ := hresolves.members hc
    have hnum := (hnumbered row hrow hc₀).mono hresolves.signatures
    exact ⟨hmethods ▸ hnum.methods, hfields ▸ hnum.fields⟩
  · intro row c pos ref hrow hc hmem hkept
    obtain ⟨c', hc', hclaid⟩ := hlaid.classes hc
    obtain ⟨⟨pos', ref'⟩, hmem', rfl, hreflaid⟩ := forall₂_mem_left hclaid.references hmem
    exact hresolved row hrow hc' hmem' (hreflaid.kept_eq.trans hkept)

/-- Linking succeeds when the root is kept and every kept reference of a kept class names something
kept. -/
theorem exists_link {r : Registry} (hopen : r.closed = false)
    (hroot : (r.keptClasses.head?.map fun p => p.2.id) = some 0)
    (hres : ∀ {row c pos ref}, row ∈ r.keptRows → r.classAt? row = some c →
      (pos, ref) ∈ c.references → ref.kept = true → r.Resolvable ref.body) :
    ∃ r', link r = .ok () r' := by
  obtain ⟨hlaid, -, -⟩ := layOut_spec r
  have hstep : ∀ row ∈ r.keptRows, ∀ u, r.Laid u →
      ∃ v, resolveRefs row u = .ok () v ∧ r.Laid v := by
    intro row hrow u hu
    obtain ⟨-, c, hc, -⟩ := mem_keptRows.mp hrow
    obtain ⟨v, hv⟩ := exists_resolveRefs hu hc fun hmem hkept => hres hrow hc hmem hkept
    obtain ⟨hresolves, -⟩ := resolveRefs_resolves hu hv
    exact ⟨v, hv, hu.trans hresolves.laid⟩
  obtain ⟨l, hrun, -⟩ := forM_succeeds hstep hlaid
  exact ⟨_, link_ok.mpr ⟨hopen, hroot, l, hrun, rfl⟩⟩

end Registry

end ClassLinker
