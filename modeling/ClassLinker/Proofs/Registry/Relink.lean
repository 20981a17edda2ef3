import ClassLinker.Proofs.Registry.Stale

/-! Linking again. A link changes nothing but what it writes, whether it succeeds or stops halfway,
and registries that agree but for that are linked to the same registry. -/

namespace ClassLinker

namespace Step

variable {ε σ α β : Type}

/-- A list of steps that another one follows: each step that succeeds is followed by one that does,
and the states stay related. -/
theorem forM_follows {f : α → EStateM ε σ PUnit} {g : β → EStateM ε σ PUnit} {R : α → β → Prop}
    {A : σ → σ → Prop} {xs : List α} {ys : List β} {s s' t : σ} (hxy : List.Forall₂ R xs ys)
    (hstep : ∀ {x y u v u'}, x ∈ xs → R x y → A u v → f x u = .ok .unit u' →
      ∃ v', g y v = .ok .unit v' ∧ A u' v')
    (hst : A s t) (h : xs.forM f s = .ok .unit s') : ∃ t', ys.forM g t = .ok .unit t' ∧ A s' t' := by
  induction hxy generalizing s t with
  | nil =>
      rw [forM_nil_ok] at h
      exact ⟨t, rfl, h ▸ hst⟩
  | cons hR _ ih =>
      obtain ⟨u, hx, hrest⟩ := forM_cons_ok.mp h
      obtain ⟨v, hy, huv⟩ := hstep List.mem_cons_self hR hst hx
      obtain ⟨t', ht', hA⟩ := ih (fun hx => hstep (List.mem_cons_of_mem _ hx)) huv hrest
      exact ⟨t', forM_cons_ok.mpr ⟨v, hy, ht'⟩, hA⟩

end Step

theorem Reference.Laid.forget_eq {ref ref' : Reference} (h : ref.Laid ref') (hkept : ref.kept = true) :
    ref'.forget = ref.forget := by
  rw [Reference.forget, Reference.forget, if_pos hkept, if_pos (h.kept_eq.trans hkept), h.body]
  rw [h.frame]

theorem Class.forget_modifyPool {w : Stale} {c : Class} {pos : Nat} {f : Reference → Reference}
    (hw : w.targets = true) (hpos : pos ∈ c.listed)
    (hf : ∀ ref, c.pool[pos]? = some ref → (f ref).forget = ref.forget) :
    ({ c with pool := c.pool.modify pos f } : Class).forget w = c.forget w := by
  have hpool : (({ c with pool := c.pool.modify pos f } : Class).forget w).pool =
      (c.forget w).pool := by
    refine Array.ext_getElem? fun p => ?_
    rw [getElem?_pool_forget, getElem?_pool_forget, Array.getElem?_modify]
    by_cases hp : pos = p
    · subst hp
      cases href : c.pool[pos]? with
      | none => simp
      | some ref => simp [hw, hpos, hf ref href]
    · rw [if_neg hp]
  show ({ c.forget w with
    pool := (({ c with pool := c.pool.modify pos f } : Class).forget w).pool } : Class) = c.forget w
  rw [hpool]

/-- Classes that agree but for what was found for their references, and in that too. -/
theorem Class.eq_of_forget_found {c d : Class} (h : d.forget .found = c.forget .found)
    (hbody : ∀ {pos ref ref'}, pos ∈ c.listed → c.pool[pos]? = some ref →
      d.pool[pos]? = some ref' → ref.kept = true → ref'.body = ref.body) : d = c := by
  have hlisted : (d.forget .found).listed = (c.forget .found).listed := by rw [h]
  change d.listed = c.listed at hlisted
  have hpool : d.pool = c.pool := by
    refine Array.ext_getElem? fun pos => ?_
    have hpos : (d.forget .found).pool[pos]? = (c.forget .found).pool[pos]? := by rw [h]
    rw [getElem?_pool_forget, getElem?_pool_forget, hlisted] at hpos
    by_cases hmem : pos ∈ c.listed
    · simp only [Stale.found, Bool.true_and, List.contains_iff_mem.mpr hmem, if_true] at hpos
      cases href : c.pool[pos]? with
      | none =>
          rw [href] at hpos
          exact Option.map_eq_none_iff.mp hpos
      | some ref =>
          rw [href] at hpos
          obtain ⟨ref', href', heq⟩ := Option.map_eq_some_iff.mp hpos
          rw [href', Reference.eq_of_forget heq (hbody hmem href href')]
    · simpa [hmem] using hpos
  rw [← d.forget_found, h, hpool, c.forget_found]

namespace Registry

open RegistryM Step Layout

variable {stale : Nat → Stale} {r s l l' : Registry}

/-! ### Resolving -/

/-- Resolving one reference writes its ids, and may add a signature. -/
theorem resolveRef_run {owner : Class} {a : RefAddr} {ref cur : Reference}
    (hbare : ref.body.bare = cur.body.bare) (hok : resolveRef owner a ref l = .ok () l') :
    l' = l ∨ ∃ sigs f, l' = ({ l with signatures := sigs } : Registry).modifyRef a f ∧
      cur.Laid (f cur) := by
  cases hbody : ref.body with
  | literal v =>
      rw [resolveRef, hbody] at hok
      cases hok
      exact .inl rfl
  | classRef name id =>
      obtain ⟨_, c, -, -, -, rfl⟩ := (resolveRef_class hbody).mp hok
      exact .inr ⟨l.signatures, _, rfl, rfl, by rw [← hbare, hbody]; rfl⟩
  | memberRef m t d k i =>
      obtain ⟨_, _, _, _, _, -, -, -, -, -, -, rfl⟩ := (resolveRef_member hbody).mp hok
      exact .inr ⟨_, _, rfl, rfl, by rw [← hbare, hbody]; rfl⟩

/-- Resolving writes only the ids of kept references, wherever it stops. -/
theorem AgreeBut.resolveRefs_stale (h : AgreeBut stale r s) {row : Nat}
    (hrow : (stale row).targets = true) : AgreeBut stale r (final (resolveRefs row s)) := by
  unfold resolveRefs
  refine final_bind (by rwa [final_classAt]) fun {c t} ht => ?_
  obtain ⟨hc, rfl⟩ := classAt_ok.mp ht
  refine final_forM ?_ h
  rintro ⟨pos, ref⟩ hmem u hu
  have hlaid : s.Laid u := (h.symm.trans hu).laid
  obtain ⟨hlisted, href⟩ := Class.mem_references.mp hmem
  by_cases hkept : ref.kept = true
  · simp only [if_pos hkept]
    cases hstep : resolveRef c ⟨row, pos⟩ ref u with
    | error e v => exact resolveRef_error hstep ▸ hu
    | ok x v =>
        obtain ⟨cur, hcur, hreflaid⟩ := hlaid.refAt? (a := ⟨row, pos⟩)
          (refAt?_eq_some.mpr ⟨c, hc, href⟩)
        rcases resolveRef_run hreflaid.body.symm hstep with rfl | ⟨sigs, f, rfl, hf⟩
        · exact hu
        · obtain ⟨c', hc', hpool⟩ := refAt?_eq_some.mp hcur
          obtain ⟨c'', hc'', hl⟩ := hlaid.classes hc
          cases hc'.symm.trans hc''
          refine (hu.withSignatures r.signatures sigs).modify_stale fun {d} hd => ?_
          cases hc'.symm.trans hd
          refine Class.forget_modifyPool hrow (hl.listed_eq ▸ hlisted) fun ref' href' => ?_
          cases hpool.symm.trans href'
          exact hf.forget_eq (hreflaid.kept_eq.trans hkept)
  · simp only [if_neg hkept]
    exact hu

theorem AgreeBut.withLinked (h : AgreeBut stale r s) (b b' : Bool) :
    AgreeBut stale { r with linked := b } { s with linked := b' } :=
  ⟨h.names_eq, h.live_eq, h.compacted_eq, h.closed_eq, h.classes⟩

/-- A link changes nothing but what it writes, whether or not it succeeds. -/
theorem link_written (r : Registry) : AgreeBut r.written r (final (link r)) := by
  rw [link_eq]
  split
  · exact .refl _ r
  split
  · exact .refl _ r
  · refine final_seq (final_forM (fun row hrow {u} hu => ?_) r.layOut_written) fun {_ u} hu => ?_
    · exact hu.resolveRefs_stale (by rw [written_of_kept hrow]; rfl)
    · exact hu.withLinked r.linked true

/-! ### Lockstep -/

/-- What is resolved in a registry is resolved in the registry laid out, and gives the same
signature a link id. -/
theorem resolveRef_follows (hlaid : l.Laid s) (hsigs : s.signatures = l.signatures)
    {owner owner' : Class} {a : RefAddr} {ref ref' : Reference}
    (hbare : ref'.body.bare = ref.body.bare) (hok : resolveRef owner a ref l = .ok () l') :
    ∃ s', resolveRef owner' a ref' s = .ok () s' ∧ s'.signatures = l'.signatures := by
  have hclass : ∀ {name row c}, l.find? name = some row → l.classAt? row = some c →
      c.kept = true → ∃ d, s.find? name = some row ∧ s.classAt? row = some d ∧ d.kept = true := by
    intro name row c hrow hc hkept
    obtain ⟨d, hd, hl⟩ := hlaid.classes hc
    exact ⟨d, (hlaid.find?_eq name).trans hrow, hd, hl.kept_eq.trans hkept⟩
  cases hbody : ref.body with
  | literal v =>
      cases hbody' : ref'.body with
      | literal v' =>
          rw [resolveRef, hbody] at hok
          cases hok
          exact ⟨s, by simp [resolveRef, hbody'], hsigs⟩
      | classRef _ _ => simp [hbody, hbody', RefBody.bare] at hbare
      | memberRef _ _ _ _ _ => simp [hbody, hbody', RefBody.bare] at hbare
  | classRef name id =>
      cases hbody' : ref'.body with
      | literal _ => simp [hbody, hbody', RefBody.bare] at hbare
      | memberRef _ _ _ _ _ => simp [hbody, hbody', RefBody.bare] at hbare
      | classRef name' id' =>
          obtain rfl : name' = name := by simpa [hbody, hbody', RefBody.bare] using hbare
          obtain ⟨row, c, hrow, hc, hkept, rfl⟩ := (resolveRef_class hbody).mp hok
          obtain ⟨d, hrow', hd, hkept'⟩ := hclass hrow hc hkept
          exact ⟨_, (resolveRef_class hbody').mpr ⟨row, d, hrow', hd, hkept', rfl⟩, hsigs⟩
  | memberRef m t d k i =>
      cases hbody' : ref'.body with
      | literal _ => simp [hbody, hbody', RefBody.bare] at hbare
      | classRef _ _ => simp [hbody, hbody', RefBody.bare] at hbare
      | memberRef m' t' d' k' i' =>
          obtain ⟨rfl, -⟩ : m' = m ∧ i' = i := by simpa [hbody, hbody', RefBody.bare] using hbare
          obtain ⟨row, c, row₁, c₁, decl, hrow, hc, hkept, hfind, hc₁, hdecl, rfl⟩ :=
            (resolveRef_member hbody).mp hok
          obtain ⟨d, hrow', hd, hkept'⟩ := hclass hrow hc hkept
          obtain ⟨decl', hfind', hdlaid⟩ := hlaid.findMember hfind
          obtain ⟨d₁, hd₁, -⟩ := hlaid.classes hc₁
          refine ⟨_, (resolveRef_member hbody').mpr ⟨row, d, row₁, d₁, decl', hrow', hd, hkept',
            hfind', hd₁, hdlaid.kept_eq.trans hdecl, rfl⟩, ?_⟩
          show (intern s.signatures m'.sig).2 = (intern l.signatures m'.sig).2
          rw [hsigs]

/-- The references of a class are resolved in step with those of the class laid out. -/
theorem resolveRefs_follows {row : Nat} (hlaid : l.Laid s) (hsigs : s.signatures = l.signatures)
    (hok : resolveRefs row l = .ok () l') :
    ∃ s', resolveRefs row s = .ok () s' ∧ l'.Laid s' ∧ s'.signatures = l'.signatures := by
  simp only [resolveRefs, bind_ok, classAt_ok] at hok
  obtain ⟨c, _, ⟨hc, rfl⟩, hloop⟩ := hok
  obtain ⟨d, hd, hl⟩ := hlaid.classes hc
  have hcur : ∀ {p : Nat × Reference} {u}, p ∈ c.references → l.Laid u →
      ∃ cur, u.refAt? ⟨row, p.1⟩ = some cur ∧ p.2.Laid cur := by
    rintro ⟨pos, ref⟩ u hmem hu
    exact hu.refAt? (refAt?_eq_some.mpr ⟨c, hc, (Class.mem_references.mp hmem).2⟩)
  have hstep : ∀ {p q : Nat × Reference} {u v u'}, p ∈ c.references →
      (q.1 = p.1 ∧ p.2.Laid q.2) → (l.Laid u ∧ u.Laid v ∧ v.signatures = u.signatures) →
      (if p.2.kept then resolveRef c ⟨row, p.1⟩ p.2 else pure ()) u = .ok () u' →
      ∃ v', (if q.2.kept then resolveRef d ⟨row, q.1⟩ q.2 else pure ()) v = .ok () v' ∧
        l.Laid u' ∧ u'.Laid v' ∧ v'.signatures = u'.signatures := by
    rintro p q u v u' hmem ⟨hpos, hpq⟩ ⟨hlu, huv, hsigs⟩ hstep
    rw [hpos, hpq.kept_eq]
    by_cases hkept : p.2.kept = true
    · rw [if_pos hkept] at hstep ⊢
      obtain ⟨v', hstep', hsigs'⟩ : ∃ v', resolveRef d ⟨row, p.1⟩ q.2 v = .ok () v' ∧
          v'.signatures = u'.signatures := resolveRef_follows huv hsigs hpq.body hstep
      obtain ⟨cur, hcur, hcurlaid⟩ := hcur hmem hlu
      obtain ⟨cur', hcur', hcurlaid'⟩ := huv.refAt? hcur
      have hu' := (resolveRef_resolves (.refl u) hcur hcurlaid.body.symm hstep).1.laid
      have hv' := (resolveRef_resolves (.refl v) hcur'
        (hpq.body.trans (hcurlaid.trans hcurlaid').body.symm) hstep').1.laid
      exact ⟨v', hstep', hlu.trans hu', hu'.symm.trans (huv.trans hv'), hsigs'⟩
    · rw [if_neg hkept] at hstep ⊢
      cases hstep
      exact ⟨v, rfl, hlu, huv, hsigs⟩
  obtain ⟨s', hrun, -, hlaid', hsigs'⟩ := forM_follows
    (A := fun u v => l.Laid u ∧ u.Laid v ∧ v.signatures = u.signatures)
    (g := fun q => if q.2.kept then resolveRef d ⟨row, q.1⟩ q.2 else pure ()) hl.references hstep
    ⟨.refl l, hlaid, hsigs⟩ hloop
  refine ⟨s', ?_, hlaid', hsigs'⟩
  simp only [resolveRefs, bind_ok, classAt_ok]
  exact ⟨d, s, ⟨hd, rfl⟩, hrun⟩

/-! ### Linking -/

/-- What a reference names determines the ids that are found for it. -/
theorem resolvedIn_unique {sigs : List Signature} (hnodup : sigs.Nodup) {body body' : RefBody}
    (h : body.ResolvedIn r sigs) (h' : body'.ResolvedIn r sigs) (hbare : body'.bare = body.bare) :
    body' = body := by
  cases body <;> cases body' <;> simp [RefBody.bare] at hbare
  case classRef.classRef =>
    obtain ⟨row, c, hrow, hc, -, rfl⟩ := h
    obtain ⟨row', c', hrow', hc', -, rfl⟩ := h'
    subst hbare
    cases hrow.symm.trans hrow'
    cases hc.symm.trans hc'
    rfl
  case memberRef.memberRef =>
    obtain ⟨row, c, row₁, c₁, d, n, hrow, hc, -, rfl, hfind, hc₁, -, rfl, rfl, hn⟩ := h
    obtain ⟨row', c', row₁', c₁', d', n', hrow', hc', -, rfl, hfind', hc₁', -, rfl, rfl, hn'⟩ := h'
    obtain ⟨rfl, rfl⟩ := hbare
    cases hrow.symm.trans hrow'
    cases hc.symm.trans hc'
    cases hfind.symm.trans hfind'
    cases hc₁.symm.trans hc₁'
    obtain rfl : n' = n := by
      obtain ⟨hlt, heq⟩ := List.getElem?_eq_some_iff.mp hn
      obtain ⟨hlt', heq'⟩ := List.getElem?_eq_some_iff.mp hn'
      exact hnodup.getElem_inj_iff.mp (heq'.trans heq.symm)
    rfl
  case literal.literal => rw [hbare]

theorem LinkedTo.resolved_body (h : r.LinkedTo l) {row pos : Nat} {c : Class} {ref : Reference}
    (hrow : row ∈ r.keptRows) (hc : l.classAt? row = some c) (hpos : pos ∈ c.listed)
    (href : c.pool[pos]? = some ref) (hkept : ref.kept = true) :
    ref.body.ResolvedIn r l.signatures := by
  obtain ⟨c₀, hc₀, hlaid⟩ := h.laid.exists_old hc
  obtain ⟨ref₀, href₀, hreflaid⟩ := hlaid.pool_old href
  obtain ⟨ref', href', hres⟩ := h.resolved hrow hc₀
    (Class.mem_references.mpr ⟨hlaid.listed_eq ▸ hpos, href₀⟩) (hreflaid.kept_eq.symm.trans hkept)
  cases href'.symm.trans (refAt?_eq_some.mpr ⟨c, hc, href⟩)
  exact hres

/-- The first kept class stands first among the kept classes of the registry laid out. -/
theorem Laid.root_eq (h : r.Laid s) :
    (s.keptClasses.head?.map fun p => p.2.id) = r.keptClasses.head?.map fun p => p.2.id := by
  have hrows := h.keptRows_eq
  unfold keptRows at hrows
  have hhead := congrArg List.head? hrows
  rw [List.head?_map, List.head?_map] at hhead
  cases hp : r.keptClasses.head? with
  | none =>
      rw [hp] at hhead
      rw [Option.map_eq_none_iff.mp hhead]
  | some p =>
      obtain ⟨row, c⟩ := p
      rw [hp] at hhead
      obtain ⟨⟨row', d⟩, hq, rfl⟩ := Option.map_eq_some_iff.mp hhead
      obtain ⟨-, hc, -⟩ := mem_keptClasses.mp (List.mem_of_mem_head? hp)
      obtain ⟨-, hd, -⟩ := mem_keptClasses.mp (List.mem_of_mem_head? hq)
      obtain ⟨d', hd', hl⟩ := h.classes hc
      cases hd.symm.trans hd'
      rw [hq]
      exact congrArg some hl.id_eq

/-- Resolving in the registry laid out writes only what is still to be written. -/
theorem resolved_unresolved (hok : r.keptRows.forM resolveRefs r.layOut = .ok () l) :
    AgreeBut r.unresolved r.layOut l := by
  refine forM_preserves (P := AgreeBut r.unresolved r.layOut) (fun row hrow u v hu hstep => ?_)
    (.refl _ _) hok
  have htargets : (r.unresolved row).targets = true := by
    rw [unresolved, if_pos hrow]
    rfl
  have hstale := hu.resolveRefs_stale htargets
  rwa [hstep] at hstale

/-- Registries that agree but for what a link writes are linked to the same registry. -/
theorem AgreeBut.link_eq (h : AgreeBut r.written r s) (hr : r.WellFormed) (hh : r.Hierarchy)
    (hok : link r = .ok () l) : link s = .ok () l := by
  have hlinked := link_spec hok
  obtain ⟨hopen, hroot, t, hrun, rfl⟩ := link_ok.mp hok
  have hrows : s.keptRows = r.keptRows := h.laid.keptRows_eq
  have hunresolved : s.unresolved = r.unresolved := funext fun row => by
    rw [unresolved, unresolved, hrows]
  obtain ⟨hagree, hsigs, hsize⟩ := h.layOut hr hh
  obtain ⟨u, hrun', hlaid, hsigs'⟩ := forM_follows (R := Eq)
    (A := fun v w => v.Laid w ∧ w.signatures = v.signatures) (g := resolveRefs)
    (List.forall₂_same.mpr fun _ _ => rfl)
    (by rintro _ row v w v' - rfl ⟨hvw, hsigs⟩ hstep; exact resolveRefs_follows hvw hsigs hstep)
    ⟨hagree.laid, hsigs⟩ hrun
  rw [← hrows] at hrun'
  have hok' : link s = .ok () { u with linked := true } :=
    link_ok.mpr ⟨h.closed_eq.trans hopen, h.laid.root_eq.trans hroot, u, hrun', rfl⟩
  have hlinked' := link_spec hok'
  have hfinal : AgreeBut r.unresolved t u :=
    (resolved_unresolved hrun).symm.trans
      (hagree.trans (hunresolved ▸ resolved_unresolved hrun'))
  have hclasses : ∀ row, u.classAt? row = t.classAt? row := by
    intro row
    cases hc : t.classAt? row with
    | none => exact hfinal.classAt?_none hc
    | some c =>
        obtain ⟨d, hd, heq⟩ := hfinal.exists_class hc
        rw [hd]
        by_cases hrow : row ∈ r.keptRows
        · rw [unresolved, if_pos hrow] at heq
          refine congrArg some (Class.eq_of_forget_found heq fun hpos href href' hkept => ?_)
          obtain ⟨d', hd', hl⟩ := hfinal.laid.classes hc
          cases hd.symm.trans hd'
          obtain ⟨ref'', href'', hreflaid⟩ := hl.pool href
          cases href'.symm.trans href''
          have hres := hlinked.resolved_body hrow hc hpos href hkept
          have hres' := h.laid.symm.resolvedIn (hlinked'.resolved_body (hrows ▸ hrow) hd
            (hl.listed_eq ▸ hpos) href' (hreflaid.kept_eq.trans hkept))
          exact resolvedIn_unique hlinked.nodup hres (hsigs' ▸ hres') hreflaid.body
        · rw [unresolved, if_neg hrow, Class.forget_nothing, Class.forget_nothing] at heq
          rw [heq]
  have hstatics : u.staticSize = t.staticSize :=
    (link_sameStorage hok').1.trans (hsize.trans (link_sameStorage hok).1.symm)
  rw [hok', EStateM.Result.ok.injEq, Registry.mk.injEq]
  exact ⟨rfl, Array.ext_getElem? hclasses, hfinal.live_eq, hfinal.names_eq, hsigs', hstatics, rfl,
    hfinal.compacted_eq, hfinal.closed_eq⟩

end Registry

end ClassLinker
