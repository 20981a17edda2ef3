import ClassLinker.Proofs.Image.Build
import ClassLinker.Proofs.Registry.Listed
import ClassLinker.Proofs.Registry.Storage

/-! Link ids. Linking numbers the signatures of the kept members in the order in which they first
appear, and a reference has the signature of a kept member; so the link ids are the numbers of exactly
the kept signatures, each its own. -/

namespace ClassLinker

/-- A kept member of the class has the signature. -/
def Class.KeepsSignature (c : Class) (sig : Signature) : Prop :=
  (∃ m ∈ c.methods, m.kept = true ∧ m.sig = sig) ∨ ∃ f ∈ c.fields, f.kept = true ∧ f.sig = sig

namespace Class

variable {c c' : Class} {sig : Signature}

theorem Laid.keepsSignature (h : c.Laid c') (hkeeps : c'.KeepsSignature sig) :
    c.KeepsSignature sig := by
  rcases hkeeps with ⟨m', hm', hkept, rfl⟩ | ⟨f', hf', hkept, rfl⟩
  · obtain ⟨m, hm, hlaid⟩ := forall₂_mem_right h.methods hm'
    exact .inl ⟨m, hm, hlaid.kept_eq.symm.trans hkept, hlaid.sig_eq.symm⟩
  · obtain ⟨f, hf, hlaid⟩ := forall₂_mem_right h.fields hf'
    exact .inr ⟨f, hf, hlaid.kept_eq.symm.trans hkept, hlaid.sig_eq.symm⟩

theorem keepsSignature_of_declared {d : Declaration} (hd : c.declared? sig = some d)
    (hkept : d.kept = true) : c.KeepsSignature sig := by
  unfold declared? at hd
  split at hd
  · rename_i m hm
    cases hd
    exact .inl ⟨m, List.mem_of_find?_eq_some hm, hkept, by simpa using List.find?_some hm⟩
  · obtain ⟨f, hf, rfl⟩ := Option.map_eq_some_iff.mp hd
    exact .inr ⟨f, List.mem_of_find?_eq_some hf, hkept, by simpa using List.find?_some hf⟩

end Class

/-! ### What is numbered -/

namespace Layout

variable {sigs : List Signature} {sig x : Signature}

theorem mem_intern (h : x ∈ (intern sigs sig).2) : x ∈ sigs ∨ x = sig := by
  unfold intern at h
  split at h
  · exact .inl h
  · rwa [List.mem_append, List.mem_singleton] at h

theorem mem_numberAll {α : Type} {isKept : α → Bool} {sigOf : α → Signature} {setId : Nat → α → α}
    {as : List α} (h : x ∈ (numberAll isKept sigOf setId sigs as).2) :
    x ∈ sigs ∨ ∃ a ∈ as, isKept a = true ∧ sigOf a = x := by
  induction as generalizing sigs with
  | nil => exact .inl h
  | cons a as ih =>
      unfold numberAll at h
      split at h
      · rename_i hkept
        rcases ih h with h | ⟨b, hb, hkept⟩
        · rcases mem_intern h with h | rfl
          · exact .inl h
          · exact .inr ⟨a, List.mem_cons_self, hkept, rfl⟩
        · exact .inr ⟨b, List.mem_cons_of_mem a hb, hkept⟩
      · rcases ih h with h | ⟨b, hb, hkept⟩
        · exact .inl h
        · exact .inr ⟨b, List.mem_cons_of_mem a hb, hkept⟩

end Layout

namespace Registry

open RegistryM Step Layout

/-- A kept member of a kept class has the signature. -/
def KeepsSignature (r : Registry) (sig : Signature) : Prop :=
  ∃ p ∈ r.keptClasses, p.2.KeepsSignature sig

theorem keepsSignature_iff {r : Registry} {sig : Signature} : r.KeepsSignature sig ↔
    ∃ row ∈ r.keptRows, ∃ c, r.classAt? row = some c ∧ c.KeepsSignature sig := by
  constructor
  · rintro ⟨⟨row, c⟩, hmem, hsig⟩
    obtain ⟨hlive, hc, hkept⟩ := mem_keptClasses.mp hmem
    exact ⟨row, mem_keptRows.mpr ⟨hlive, c, hc, hkept⟩, c, hc, hsig⟩
  · rintro ⟨row, hrow, c, hc, hsig⟩
    obtain ⟨hlive, c', hc', hkept⟩ := mem_keptRows.mp hrow
    cases hc.symm.trans hc'
    exact ⟨(row, c), mem_keptClasses.mpr ⟨hlive, hc, hkept⟩, hsig⟩

theorem Laid.keepsSignature {r r' : Registry} (h : r.Laid r') {sig : Signature} :
    r'.KeepsSignature sig ↔ r.KeepsSignature sig := by
  have hforward : ∀ {s s' : Registry}, s.Laid s' → s'.KeepsSignature sig → s.KeepsSignature sig := by
    intro s s' hlaid hkeeps
    obtain ⟨row, hrow, c', hc', hsig⟩ := keepsSignature_iff.mp hkeeps
    obtain ⟨c, hc, hclass⟩ := hlaid.exists_old hc'
    exact keepsSignature_iff.mpr ⟨row, hlaid.keptRows_eq ▸ hrow, c, hc, hclass.keepsSignature hsig⟩
  exact ⟨hforward h, hforward h.symm⟩

variable {r : Registry} {sig : Signature}

/-- Numbering the members of some classes numbers no other signatures. -/
theorem mem_numberMembers {rows : List Nat} (h : sig ∈ (numberMembers rows r).signatures) :
    sig ∈ r.signatures ∨ ∃ row ∈ rows, ∃ c, r.classAt? row = some c ∧ c.KeepsSignature sig := by
  induction rows generalizing r with
  | nil => exact .inl h
  | cons row rows ih =>
      unfold numberMembers at h
      cases hc : r.classAt? row with
      | none =>
          rw [hc] at h
          rcases ih h with h | ⟨p, hp, hclass⟩
          · exact .inl h
          · exact .inr ⟨p, List.mem_cons_of_mem row hp, hclass⟩
      | some c =>
          rw [hc] at h
          have hlaid : r.Laid (r.modifyClass row fun c' => { c' with
              methods := (numberMethods r.signatures c.methods).1
              fields := (numberFields (numberMethods r.signatures c.methods).2 c.fields).1 }) := by
            refine Laid.modifyClass r fun hc' => ?_
            cases hc.symm.trans hc'
            exact (numbered_spec r.signatures c).1
          rcases ih h with h | ⟨p, hp, c', hc', hsig⟩
          · change sig ∈ (numberFields (numberMethods r.signatures c.methods).2 c.fields).2 at h
            rw [numberFields_eq] at h
            rcases mem_numberAll h with h | hfield
            · rw [numberMethods_eq] at h
              rcases mem_numberAll h with h | hmethod
              · exact .inl h
              · exact .inr ⟨row, List.mem_cons_self, c, hc, .inl hmethod⟩
            · exact .inr ⟨row, List.mem_cons_self, c, hc, .inr hfield⟩
          · obtain ⟨c₀, hc₀, hclass⟩ := hlaid.exists_old hc'
            exact .inr ⟨p, List.mem_cons_of_mem row hp, c₀, hc₀, hclass.keepsSignature hsig⟩

theorem mem_layOut (h : sig ∈ r.layOut.signatures) : r.KeepsSignature sig := by
  rcases mem_numberMembers h with h | ⟨row, hrow, c, hc, hsig⟩
  · cases h
  · rw [← r.placed_laid.keepsSignature]
    exact keepsSignature_iff.mpr ⟨row, r.placed_laid.keptRows_eq.symm ▸ hrow, c, hc, hsig⟩

/-- A reference is numbered when what it names is declared by a kept member of a kept class. -/
theorem Laid.keepsSignature_of_findMember {l : Registry} (h : r.Laid l) (hlisted : r.Listed)
    (hmarked : r.AllMarked) {m : Member} {row : Nat} {d : Declaration}
    (hfind : l.findMember m = .ok (row, d)) (hkept : d.kept = true) : r.KeepsSignature m.sig := by
  obtain ⟨name, c, hrow, hc, hd⟩ := findMember_ok hfind
  obtain ⟨c₀, hc₀, hclass⟩ := h.exists_old hc
  obtain ⟨d₀, hd₀, hdlaid⟩ := hclass.symm.declared?_some hd
  have hkept₀ : d₀.kept = true := hdlaid.kept_eq.trans hkept
  have hmark : d₀.mark.kept = true := by cases d₀ <;> exact hkept₀
  have howner := (hmarked row c₀ hc₀).owner _ (Class.mark_mem hd₀) hmark
  have hlive := (hlisted.named ((h.find?_eq name).symm.trans hrow)).1
  exact ⟨(row, c₀), mem_keptClasses.mpr ⟨hlive, hc₀, howner⟩,
    Class.keepsSignature_of_declared hd₀ hkept₀⟩

theorem mem_resolveRef {l l' : Registry} (h : r.Laid l) (hlisted : r.Listed) (hmarked : r.AllMarked)
    {owner : Class} {a : RefAddr} {ref : Reference} (hok : resolveRef owner a ref l = .ok () l')
    (hl : ∀ sig ∈ l.signatures, r.KeepsSignature sig) :
    ∀ sig ∈ l'.signatures, r.KeepsSignature sig := by
  cases hbody : ref.body with
  | literal v =>
      simp only [resolveRef, hbody, pure_ok, true_and] at hok
      exact hok ▸ hl
  | classRef name id =>
      obtain ⟨row, c, -, -, -, rfl⟩ := (resolveRef_class hbody).mp hok
      exact hl
  | memberRef m t d k i =>
      obtain ⟨-, -, row, -, decl, -, -, -, hfind, -, hkept, rfl⟩ := (resolveRef_member hbody).mp hok
      intro sig hsig
      rcases mem_intern hsig with hsig | rfl
      · exact hl sig hsig
      · exact h.keepsSignature_of_findMember hlisted hmarked hfind hkept

/-- Resolving references numbers signatures of kept members only. -/
theorem mem_resolveRefs {l l' : Registry} (h : r.Laid l) (hlisted : r.Listed) (hmarked : r.AllMarked)
    {row : Nat} (hok : resolveRefs row l = .ok () l')
    (hl : ∀ sig ∈ l.signatures, r.KeepsSignature sig) :
    ∀ sig ∈ l'.signatures, r.KeepsSignature sig := by
  simp only [resolveRefs, bind_ok, classAt_ok] at hok
  obtain ⟨c, _, ⟨hc, rfl⟩, hloop⟩ := hok
  refine (forM_preserves (P := fun u => Resolves r l u ∧ ∀ sig ∈ u.signatures, r.KeepsSignature sig)
    ?_ ⟨.refl r l, hl⟩ hloop).2
  rintro ⟨pos, ref⟩ hmem u v ⟨hu, hsigs⟩ hstep
  rw [ite_ok, pure_ok] at hstep
  rcases hstep with ⟨-, hstep⟩ | ⟨-, -, rfl⟩
  · obtain ⟨cur, hcur, hreflaid⟩ := hu.laid.refAt? (a := ⟨row, pos⟩)
      (refAt?_eq_some.mpr ⟨c, hc, (Class.mem_references.mp hmem).2⟩)
    have hlaid := h.trans hu.laid
    exact ⟨hu.trans (resolveRef_resolves hlaid hcur hreflaid.body.symm hstep).1,
      mem_resolveRef hlaid hlisted hmarked hstep hsigs⟩
  · exact ⟨hu, hsigs⟩

/-- Only the signatures of kept members of kept classes are numbered. -/
theorem mem_link {r' : Registry} (hlisted : r.Listed) (hmarked : r.AllMarked)
    (hok : link r = .ok () r') : ∀ sig ∈ r'.signatures, r.KeepsSignature sig := by
  obtain ⟨-, -, l, hrun, rfl⟩ := link_ok.mp hok
  refine (forM_preserves (P := fun u => Resolves r r.layOut u ∧
    ∀ sig ∈ u.signatures, r.KeepsSignature sig) ?_ ⟨.refl r _, fun _ => mem_layOut⟩ hrun).2
  rintro row - u v ⟨hu, hsigs⟩ hstep
  have hlaid := (layOut_spec r).1.trans hu.laid
  exact ⟨hu.trans (resolveRefs_resolves hlaid hstep).1,
    mem_resolveRefs hlaid hlisted hmarked hstep hsigs⟩

/-! ### Linked registries -/

/-- What has a signature and a link id: the kept members of the registered classes, and the kept
references to members. -/
inductive Numbers (r : Registry) : Signature → Option Nat → Prop
  | method {row : Nat} {c : Class} {m : Method} (hc : (row, c) ∈ r.classes) (hm : m ∈ c.methods)
      (hkept : m.kept = true) : Numbers r m.sig m.linkId
  | field {row : Nat} {c : Class} {f : Field} (hc : (row, c) ∈ r.classes) (hf : f ∈ c.fields)
      (hkept : f.kept = true) : Numbers r f.sig f.linkId
  | reference {row pos : Nat} {c : Class} {ref : Reference} {m : Member}
      {target declaring link index : Option Nat} (hc : (row, c) ∈ r.classes)
      (href : (pos, ref) ∈ c.references) (hkept : ref.kept = true)
      (hbody : ref.body = .memberRef m target declaring link index) : Numbers r m.sig link

/-- The link ids are the places of the kept signatures, each in one place, and everything kept has the
link id of its own signature. -/
structure Numbered (r : Registry) : Prop where
  nodup : r.signatures.Nodup
  mem_iff : ∀ {sig}, sig ∈ r.signatures ↔ r.KeepsSignature sig
  linkId_eq : ∀ {sig n}, r.linkId? sig = some n ↔ r.signatures[n]? = some sig
  own : ∀ {sig id}, r.Numbers sig id → ∃ n, id = some n ∧ r.linkId? sig = some n
  shared : ∀ {sig sig' id id'}, r.Numbers sig id → r.Numbers sig' id' → (id = id' ↔ sig = sig')

/-- A reference of a registered class is kept only when the class is. -/
theorem Listed.kept_of_reference (h : r.Listed) {row pos : Nat} {c : Class} {ref : Reference}
    (hc : (row, c) ∈ r.classes) (href : (pos, ref) ∈ c.references) (hkept : ref.kept = true) :
    c.kept = true := by
  by_contra hdropped
  obtain ⟨hlive, hclass⟩ := mem_classes.mp hc
  obtain ⟨i, hi⟩ := List.mem_iff_getElem?.mp hlive
  obtain ⟨-, hrefs⟩ := h.dropped hi hclass (Bool.not_eq_true _ ▸ hdropped)
  have hpool := Array.mem_of_getElem? (Class.mem_references.mp href).2
  rw [(hrefs ref hpool).2] at hkept
  cases hkept

theorem linkId?_eq_some (hnodup : r.signatures.Nodup) {n : Nat} :
    r.linkId? sig = some n ↔ r.signatures[n]? = some sig := by
  rw [linkId?, List.idxOf?_eq_some_iff, List.getElem?_eq_some_iff]
  constructor
  · rintro ⟨hlt, heq, -⟩
    exact ⟨hlt, heq⟩
  · rintro ⟨hlt, rfl⟩
    exact ⟨hlt, rfl, fun j hj heq => Nat.ne_of_lt hj (hnodup.getElem_inj_iff.mp heq)⟩

theorem LinkedTo.numbered_of_kept {r' : Registry} (h : r.LinkedTo r') {row : Nat} {c : Class}
    (hc : (row, c) ∈ r'.classes) (hkept : c.kept = true) : c.Numbered r'.signatures := by
  obtain ⟨hlive, hclass⟩ := mem_classes.mp hc
  exact h.numbered (h.laid.keptRows_eq ▸ mem_keptRows.mpr ⟨hlive, c, hclass, hkept⟩) hclass

/-- A reference that is kept was given the link id of its signature. -/
theorem LinkedTo.exists_link {r' : Registry} (h : r.LinkedTo r') {row pos : Nat} {c : Class}
    {ref : Reference} {m : Member} {target declaring link index : Option Nat}
    (hc : (row, c) ∈ r'.classes) (hkept : c.kept = true) (href : (pos, ref) ∈ c.references)
    (hrefKept : ref.kept = true) (hbody : ref.body = .memberRef m target declaring link index) :
    ∃ n, link = some n ∧ r'.signatures[n]? = some m.sig := by
  obtain ⟨hlive, hclass⟩ := mem_classes.mp hc
  obtain ⟨c₀, hc₀, hlaid⟩ := h.laid.exists_old hclass
  obtain ⟨⟨pos₀, ref₀⟩, hmem₀, hpos, hreflaid⟩ := forall₂_mem_right hlaid.references href
  obtain rfl : pos = pos₀ := hpos
  have hrow : row ∈ r.keptRows :=
    mem_keptRows.mpr ⟨h.laid.live_eq ▸ hlive, c₀, hc₀, hlaid.kept_eq.symm.trans hkept⟩
  obtain ⟨ref', href', hres⟩ := h.resolved hrow hc₀ hmem₀ (hreflaid.kept_eq.symm.trans hrefKept)
  obtain ⟨c', hc', hpool⟩ := refAt?_eq_some.mp href'
  cases hclass.symm.trans hc'
  cases hpool.symm.trans (Class.mem_references.mp href).2
  rw [hbody] at hres
  obtain ⟨-, -, -, -, -, n, -, -, -, -, -, -, -, -, hlink, hn⟩ := hres
  exact ⟨n, hlink, hn⟩

/-- What is kept has the link id of its own signature. -/
theorem LinkedTo.own {r' : Registry} (h : r.LinkedTo r') (hlisted : r'.Listed)
    (hmarked : r'.AllMarked) {id : Option Nat} (hid : r'.Numbers sig id) :
    ∃ n, id = some n ∧ r'.signatures[n]? = some sig := by
  cases hid with
  | @method row c m hc hm hkept =>
      have hclass := (mem_classes.mp hc).2
      have howner := (hmarked row c hclass).owner m.mark
        (List.mem_append_left _ (List.mem_map_of_mem hm)) hkept
      exact (h.numbered_of_kept hc howner).methods m hm hkept
  | @field row c f hc hf hkept =>
      have hclass := (mem_classes.mp hc).2
      have howner := (hmarked row c hclass).owner f.mark
        (List.mem_append_right _ (List.mem_map_of_mem hf)) hkept
      exact (h.numbered_of_kept hc howner).fields f hf hkept
  | reference hc href hkept hbody =>
      exact h.exists_link hc (hlisted.kept_of_reference hc href hkept) href hkept hbody

theorem LinkedTo.numbered_all {r' : Registry} (h : r.LinkedTo r') (hlisted : r'.Listed)
    (hmarked : r'.AllMarked) (hsource : ∀ sig ∈ r'.signatures, r.KeepsSignature sig) :
    r'.Numbered := by
  have hown : ∀ {sig id}, r'.Numbers sig id → ∃ n, id = some n ∧ r'.signatures[n]? = some sig :=
    fun hid => h.own hlisted hmarked hid
  refine ⟨h.nodup, fun {sig} => ⟨fun hsig => ?_, ?_⟩, linkId?_eq_some h.nodup, fun {sig id} hid => ?_,
    fun {sig sig' id id'} hid hid' => ?_⟩
  · exact h.laid.keepsSignature.mpr (hsource sig hsig)
  · rintro ⟨⟨row, c⟩, hmem, hsig⟩
    obtain ⟨hlive, hc, hkept⟩ := mem_keptClasses.mp hmem
    have hclass := mem_classes.mpr ⟨hlive, hc⟩
    rcases hsig with ⟨m, hm, hkeptMember, rfl⟩ | ⟨f, hf, hkeptMember, rfl⟩
    · obtain ⟨n, -, hn⟩ := hown (.method hclass hm hkeptMember)
      exact List.mem_of_getElem? hn
    · obtain ⟨n, -, hn⟩ := hown (.field hclass hf hkeptMember)
      exact List.mem_of_getElem? hn
  · obtain ⟨n, rfl, hn⟩ := hown hid
    exact ⟨n, rfl, (linkId?_eq_some h.nodup).mpr hn⟩
  · obtain ⟨n, rfl, hn⟩ := hown hid
    obtain ⟨n', rfl, hn'⟩ := hown hid'
    constructor
    · intro heq
      cases heq
      exact Option.some.inj (hn.symm.trans hn')
    · rintro rfl
      exact ((linkId?_eq_some h.nodup).mpr hn).symm.trans ((linkId?_eq_some h.nodup).mpr hn')

end Registry

/-! ### Method tables -/

namespace Image

theorem infos_of_build {plan : Plan} {image : Image} (hok : build plan = .ok image) :
    plan.registry.closed = true ∧
      List.Forall₂ (fun p info => classInfo plan.registry p.2 = .ok info)
        plan.registry.classes image.classes := by
  obtain ⟨hclosed, raw, builtins, hclasses, -, rfl⟩ := build_eq_ok.mp hok
  exact ⟨hclosed, List.forall₂_map_left_iff.mp (Assembled.of_foldlM hclasses).infos⟩

/-- Methods with different link ids, or both without one. -/
def Apart (a b : MethodInfo) : Prop := a.linkId ≠ b.linkId ∨ a.linkId = -1 ∧ b.linkId = -1

theorem Apart.symm {a b : MethodInfo} (h : Apart a b) : Apart b a :=
  h.imp Ne.symm And.symm

/-- The methods of a class are sorted by link id. -/
theorem methods_of_classInfo {r : Registry} {c : Class} {info : ClassInfo}
    (hok : classInfo r c = .ok info) (hapart : c.methods.Pairwise fun m m' =>
      Apart (methodInfo m) (methodInfo m')) :
    info.methods.Pairwise fun a b => a.linkId < b.linkId ∨ a.linkId = -1 ∧ b.linkId = -1 := by
  unfold classInfo at hok
  obtain ⟨element, -, hok⟩ := except_bind_ok.mp hok
  cases hok
  have hsorted : ((c.methods.map methodInfo).mergeSort fun a b => a.linkId ≤ b.linkId).Pairwise
      fun a b => a.linkId ≤ b.linkId := by
    refine (List.pairwise_mergeSort (fun a b d hab hbd => ?_) (fun a b => ?_) _).imp of_decide_eq_true
    · exact decide_eq_true (le_trans (of_decide_eq_true hab) (of_decide_eq_true hbd))
    · rw [Bool.or_eq_true, decide_eq_true_eq, decide_eq_true_eq]
      exact le_total _ _
  have hperm := List.mergeSort_perm (c.methods.map methodInfo) fun a b => a.linkId ≤ b.linkId
  have hall := (hperm.pairwise_iff Apart.symm).mpr ((List.pairwise_map (R := Apart)).mpr hapart)
  exact hsorted.imp₂ (fun a b hle hapart => hapart.imp_left fun hne => lt_of_le_of_ne hle hne) hall

end Image

namespace Registry

open RegistryM Step Layout

variable {r : Registry}

/-- The numbered methods of a class have the link ids of their signatures, which tell them apart. -/
theorem Settled.apart {stale : Bool} (h : r.Settled stale) (hlisted : r.Listed) {row : Nat} {c : Class}
    (hc : (row, c) ∈ r.classes) : c.methods.Pairwise fun m m' =>
      Image.Apart (Image.methodInfo m) (Image.methodInfo m') := by
  obtain ⟨hlive, hclass⟩ := mem_classes.mp hc
  have hid : ∀ m ∈ c.methods, ∀ n, m.linkId = some n → r.signatures[n]? = some m.sig := by
    intro m hm n hn
    refine h.ids (n, m.sig, m.mark.span) (mem_gather.mpr ⟨row, c, hlive, hclass, ?_⟩)
    refine List.mem_filterMap.mpr ⟨m.mark, List.mem_append_left _ (List.mem_map_of_mem hm), ?_⟩
    rw [Mark.number?, show m.mark.linkId = some n from hn]
    rfl
  have hsigs : c.methods.Pairwise fun m m' => m.sig ≠ m'.sig :=
    List.pairwise_map.mp (List.nodup_append.mp (hlisted.signatures_nodup hclass)).1
  refine hsigs.imp_of_mem fun {m m'} hm hm' hne => ?_
  cases hn : m.linkId with
  | none =>
      cases hn' : m'.linkId with
      | none => exact .inr ⟨by rw [Image.methodInfo, hn]; rfl, by rw [Image.methodInfo, hn']; rfl⟩
      | some n' =>
          refine .inl fun heq => ?_
          rw [Image.methodInfo, Image.methodInfo, hn, hn'] at heq
          exact absurd heq (by simp [Image.idOr])
  | some n =>
      refine .inl fun heq => hne ?_
      rw [Image.methodInfo, Image.methodInfo, hn] at heq
      obtain hn' := Image.eq_some_of_idOr heq.symm
      exact Option.some.inj ((hid m hm n hn).symm.trans (hid m' hm' n hn'))

/-- In a closed registry in which no member was kept late, every method has a link id. -/
theorem Settled.exists_linkId (h : r.Settled false) (hkept : ∀ row ∈ r.live, r.KeptAt row)
    {row : Nat} {c : Class} (hc : (row, c) ∈ r.classes) : ∀ m ∈ c.methods, ∃ n, m.linkId = some n := by
  intro m hm
  obtain ⟨n, hn, -⟩ := ((h.laidOut_iff hkept).mpr rfl).methods _ hc m hm
  exact ⟨n, hn⟩

/-- Linking numbers exactly the kept signatures, and gives everything kept the number of its own
signature. Whatever is done to the registry later, the method tables of an image are sorted by link
id: strictly, except that methods without a link id are possible, which come first, when members are
kept after the registry is linked for the last time. -/
theorem link_numbered (ops : List Operation) (r' : Registry)
    (hlink : link (ops.foldl Operation.apply {}) = .ok () r') : r'.Numbered ∧
      ∀ (more : List Operation) (plan : Image.Plan) (image : Image),
        plan.registry = more.foldl Operation.apply r' → Image.build plan = .ok image →
        ∀ info ∈ image.classes,
          (info.methods.Pairwise fun a b =>
            a.linkId < b.linkId ∨ a.linkId = -1 ∧ b.linkId = -1) ∧
          (staleAfter r' false more = false →
            info.methods.Pairwise fun a b => a.linkId < b.linkId) := by
  have hbefore := settled_empty.foldl ops
  have hlisted := listed_empty.foldl settled_empty ops
  generalize ops.foldl Operation.apply {} = r at hlink hbefore hlisted
  have hlinked := link_spec hlink
  have hlisted' := hlisted.laid hlinked.laid
  have hsettled : r'.Settled false := by
    have hfinal := link_settles hbefore hlinked.isOpen hlinked.root
    rwa [hlink] at hfinal
  have hopen : r'.closed = false := hlinked.laid.closed_eq.trans hlinked.isOpen
  refine ⟨hlinked.numbered_all hlisted' hsettled.held.marked (mem_link hlisted hbefore.held.marked hlink),
    fun more plan image hplan hbuild info hinfo => ?_⟩
  obtain ⟨hclosed, hinfos⟩ := Image.infos_of_build hbuild
  rw [hplan] at hclosed hinfos
  obtain ⟨⟨row, c⟩, hc, hclass⟩ := forall₂_mem_right hinfos hinfo
  have hafter := hsettled.foldl more
  have hsorted := Image.methods_of_classInfo hclass
    (hafter.apart (hlisted'.foldl hsettled more) hc)
  refine ⟨hsorted, fun hfresh => ?_⟩
  rw [hfresh] at hafter
  have hkept := hsettled.kept_foldl (fun hshut => absurd (hopen.symm.trans hshut) nofun) more hclosed
  have hids : ∀ a ∈ info.methods, a.linkId ≠ -1 := by
    intro a ha
    obtain ⟨m, hm, rfl⟩ := ((Image.classInfo_ok hclass).methods a).mp ha
    obtain ⟨n, hn⟩ := hafter.exists_linkId hkept hc m hm
    rw [Image.methodInfo, hn]
    simp [Image.idOr]
  exact hsorted.imp_of_mem fun ha _ h => h.resolve_right fun hnone => hids _ ha hnone.1

/-- Two classes that declare a member of one signature, to which one of them refers. -/
def sharingOps : List Operation := [
  .bareClass "R" [], .bareMethod 0 "b" [0xB1], .bareMethod 0 "a" [0xB1], .bareClass "S" "R",
  .bareMethod 1 "a" [0xB8, 0x00, 0x01, 0xB1], .createMemberRef 1 1 ⟨"R", "a", "()V"⟩,
  .keepClass 0, .keepClass 1, .keepMember 0 ⟨"b", "()V"⟩, .keepMember 0 ⟨"a", "()V"⟩,
  .keepMember 1 ⟨"a", "()V"⟩, .keepRef ⟨1, 0⟩]

/-- What an image of a registry alone is built from, once it is compacted. -/
def compactPlan (r : Registry) : Image.Plan where
  registry := [Operation.compact].foldl Operation.apply r
  entryOffset := 0
  main := ⟨"R", "a", "()V"⟩
  initOrder := []
  builtins := []

theorem link_numbered_sharing : ∃ r' image,
    link (sharingOps.foldl Operation.apply {}) = .ok () r' ∧
    r'.signatures = [⟨"b", "()V"⟩, ⟨"a", "()V"⟩] ∧ r'.Numbered ∧
    Image.build r'.compactPlan = .ok image ∧
    image.classes.length = 2 ∧ image.code.length = 6 ∧
    ∀ info ∈ image.classes, info.methods.Pairwise fun a b => a.linkId < b.linkId := by
  have hcheck : (sharingOps.foldl Operation.apply {}).linksTo (fun r' =>
      r'.signatures = [⟨"b", "()V"⟩, ⟨"a", "()V"⟩] ∧
      (Image.build r'.compactPlan).toOption.any fun image =>
        image.classes.length = 2 ∧ image.code.length = 6) = true := by decide +kernel
  obtain ⟨r', hlink, hcheck⟩ := exists_of_linksTo hcheck
  obtain ⟨hsigs, hbuilt⟩ := of_decide_eq_true hcheck
  cases hbuild : Image.build r'.compactPlan with
  | error e =>
      rw [hbuild] at hbuilt
      cases hbuilt
  | ok image =>
      rw [hbuild] at hbuilt
      obtain ⟨hclasses, hcode⟩ := of_decide_eq_true (p := _ ∧ _) hbuilt
      obtain ⟨hnumbered, htables⟩ := link_numbered sharingOps r' hlink
      exact ⟨r', image, hlink, hsigs, hnumbered, hbuild, hclasses, hcode, fun info hinfo =>
        (htables [.compact] _ image rfl hbuild info hinfo).2 rfl⟩

/-- A class with a kept method and two abstract methods. -/
def abstractOps : List Operation :=
  [.bareClass "R" [], .bareMethod 0 "a" [0xB1]] ++
  ["b", "c"].map (fun name => .createMethod 0
    { sig := ⟨name, "()V"⟩, isStatic := false, isNative := false, isAbstract := true, code := []
      argSlots := 1, maxLocals := 0, lines := [], handlers := [] }) ++
  [.keepClass 0, .keepMember 0 ⟨"a", "()V"⟩]

/-- What an image is built from when the abstract methods are kept after the registry is linked. -/
def lateAbstractPlan (r : Registry) : Image.Plan :=
  ([Operation.keepMember 0 ⟨"b", "()V"⟩, .keepMember 0 ⟨"c", "()V"⟩].foldl Operation.apply r).compactPlan

/-- The link ids of a method table need not increase strictly: abstract methods that are kept after the
registry is linked have none, and an image is built all the same. -/
theorem link_ids_missing : ∃ r' image,
    link (abstractOps.foldl Operation.apply {}) = .ok () r' ∧
    Image.build r'.lateAbstractPlan = .ok image ∧
    ∃ info ∈ image.classes, (info.methods.map Image.MethodInfo.linkId).Perm [0, -1, -1] ∧
      ¬ info.methods.Pairwise fun a b => a.linkId < b.linkId := by
  have hcheck : (abstractOps.foldl Operation.apply {}).linksTo (fun r' =>
      (Image.build r'.lateAbstractPlan).toOption.isSome ∧
      r'.lateAbstractPlan.registry.classes.map (fun p =>
        (p.2.methods.map Image.methodInfo).map Image.MethodInfo.linkId) = [[0, -1, -1]]) = true := by
    decide +kernel
  obtain ⟨r', hlink, hcheck⟩ := exists_of_linksTo hcheck
  obtain ⟨hbuilt, htables⟩ := of_decide_eq_true hcheck
  cases hbuild : Image.build r'.lateAbstractPlan with
  | error e =>
      rw [hbuild] at hbuilt
      cases hbuilt
  | ok image =>
      obtain ⟨⟨row, c⟩, hc, hids⟩ := List.mem_map.mp (htables ▸ List.mem_singleton_self [0, -1, -1])
      obtain ⟨info, hinfo, hclass⟩ := forall₂_mem_left (Image.infos_of_build hbuild).2 hc
      have hperm := (Image.classInfo_ok hclass).methods_perm.map Image.MethodInfo.linkId
      rw [hids] at hperm
      refine ⟨r', image, hlink, hbuild, info, hinfo, hperm, fun hstrict => ?_⟩
      have hnodup : (info.methods.map Image.MethodInfo.linkId).Nodup :=
        List.pairwise_map.mpr (hstrict.imp ne_of_lt)
      exact absurd (hperm.nodup_iff.mp hnodup) (by decide)

end Registry

end ClassLinker
