import ClassLinker.Proofs.Closure.Drain
import ClassLinker.Proofs.Closure.Inside

/-! Requiring again. A link that has nothing but what a finished link of the same source holds can be
asked for everything that the finished one holds: classes can be loaded, members are found where they
were found before, and the work comes to an end. -/

namespace ClassLinker.Closure

open LinkM RegistryM Step Registry Linker

/-- A finished link of a source whose classes extend no arrays. It says what another link of the
source may be asked for. -/
structure Guide (s : Source) (F : Linker) : Prop where
  settled : Settled s F
  noArrays : s.NoArrays
  plain : s.PlainSupertypes
  root_ne : F.root ≠ []

variable {s : Source} {F l l' u v : Linker}

namespace Guide

theorem closedUnder (h : Guide s F) (hl : l.Wired s) (heq : l.root = F.root) :
    ClosedUnder s l.root l.registry F.Holds := by
  rw [heq]
  exact closedUnder_holds h.settled h.noArrays hl heq

theorem loads {name : Text} (h : Guide s F) (hl : l.Wired s) (heq : l.root = F.root)
    (hhas : F.Has name) : ∃ row l', loadClass s name l = .ok row l' :=
  loadClass_succeeds h.settled.wired h.noArrays h.plain h.root_ne hl heq hhas

/-- A link that has a class has the root, which comes before all others. -/
theorem has_root {name : Text} (h : Guide s F) (hhas : F.Has name) : F.Has F.root := by
  obtain ⟨k, hk⟩ := hhas
  cases hroot : F.registry.find? F.root with
  | some p => exact ⟨p, hroot⟩
  | none =>
      have hmem := h.settled.wired.tidy.wellFormed.find_live hk
      rw [live_eq_nil h.settled.wired h.root_ne hroot] at hmem
      cases hmem

/-- A link inside a finished one that has some class is fit to be budgeted. -/
theorem fit {name : Text} (h : Guide s F) (hin : Inside s F l) (hcounted : l.Counted)
    (hhas : F.Has name) : l.Fit where
  orderly := ⟨hin.wired.tidy, hin.wired.kept, hcounted.expansions_eq.symm⟩
  sorted := hcounted.sorted
  catalog id hid := by
    obtain ⟨b, hb, -⟩ := h.settled.complete.builtins (hin.within.builtins hid)
    exact (List.getElem?_eq_some_iff.mp hb).1
  plain := by
    rw [hin.root_eq]
    exact root_plain h.settled.wired h.noArrays h.root_ne (h.has_root hhas)

end Guide

/-! ### Marking -/

theorem exists_keepRef {a : RefAddr} {c : Class} {ref : Reference} (hl : l.Wired s)
    (hc : l.registry.classAt? a.row = some c) (href : c.pool[a.pos]? = some ref) :
    ∃ fresh l', onRegistry (keepRef a) l = .ok fresh l' := by
  have hlisted : a.pos ∈ c.listed := by
    have hknown := Class.known?_eq_some.mp (known?_of_pool hl hc href)
    exact ((hl.tidy.indexed hc).lookup_iff.mp hknown.1).1
  have hid : ref.owner = a.row := by
    rw [(hl.tidy.indexed hc).owner_eq hlisted href, hl.tidy.id_eq hc]
  have howner : l.registry.byId? ref.owner = some a.row := by
    rw [hid, byId?, if_neg (by omega), Int.toNat_natCast, hl.tidy.live_eq,
      List.getElem?_range (classAt?_lt hc)]
  have hat : l.registry.refAt? a = some ref := refAt?_eq_some.mpr ⟨c, hc, href⟩
  have hclass : ∃ row c, l.registry.byId? ref.owner = some row ∧
      l.registry.classAt? row = some c ∧ c.kept = true := ⟨a.row, c, howner, hc, hl.kept hc⟩
  have hkeep : ∃ fresh r, keepRef a l.registry = .ok fresh r := by
    cases hkept : ref.kept with
    | true => exact ⟨_, _, keepRef_ok.mpr ⟨hl.tidy.isOpen, ref, hat, hclass, .inl ⟨hkept, rfl, rfl⟩⟩⟩
    | false =>
        exact ⟨_, _, keepRef_ok.mpr ⟨hl.tidy.isOpen, ref, hat, hclass, .inr ⟨hkept, rfl, rfl⟩⟩⟩
  obtain ⟨fresh, r, hr⟩ := hkeep
  exact ⟨fresh, _, onRegistry_ok.mpr ⟨r, hr, rfl⟩⟩

theorem exists_keepMember {row : Nat} {c : Class} (hl : l.Wired s)
    (hc : l.registry.classAt? row = some c) (sig : Signature) :
    ∃ fresh r, keepMember row sig l.registry = .ok fresh r := by
  by_cases hkept : ∃ d, c.declared? sig = some d ∧ d.kept = true
  · exact ⟨_, _, keepMember_ok.mpr ⟨hl.tidy.isOpen, c, hc, hl.kept hc, .inl ⟨hkept, rfl, rfl⟩⟩⟩
  · refine ⟨_, _, keepMember_ok.mpr ⟨hl.tidy.isOpen, c, hc, hl.kept hc, .inr ⟨?_, rfl, rfl⟩⟩⟩
    intro d hd
    exact Bool.eq_false_iff.mpr fun h => hkept ⟨d, hd, h⟩

/-! ### Catalog entries -/

/-- The class of a catalog entry can be loaded and its member be made pending. -/
theorem Guide.loadsEntry {b : Builtin} {n : Nat} (h : Guide s F) (hl : l.Wired s)
    (heq : l.root = F.root) (hb : Builtin.catalog[n]? = some b) (hn : F.Holds (.builtin n)) :
    ∃ l', (do
      discard (loadClass s b.className)
      if b.isMember then push ⟨b.className, b.member, b.descriptor⟩ : LinkM Unit) l = .ok () l' ∧
      l'.Wired s ∧ l'.root = F.root := by
  obtain ⟨row, l₁, hload⟩ := h.loads hl heq (h.closedUnder hl heq hn (.builtinClass hb))
  obtain ⟨hloads, -⟩ := loadClass_loads hl hload
  have heq₁ := hloads.loads.root_eq.trans heq
  by_cases hmember : b.isMember = true
  · refine ⟨{ l₁ with pending := b.target :: l₁.pending }, ?_, (push_follows hloads.wired).wired, heq₁⟩
    simp only [bind_ok, discard_ok, hmember, if_true, push_ok]
    exact ⟨.unit, l₁, ⟨row, hload⟩, rfl⟩
  · refine ⟨l₁, ?_, hloads.wired, heq₁⟩
    simp only [bind_ok, discard_ok, if_neg hmember, pure_ok]
    exact ⟨.unit, l₁, ⟨row, hload⟩, trivial, rfl⟩

/-- The entries of an expansion are handled one after the other. -/
theorem Guide.loadsEntries {ids : List Nat} (h : Guide s F) (hl : l.Wired s) (heq : l.root = F.root)
    (hids : ∀ e ∈ ids, F.Holds (.builtin e)) :
    ∃ l', (ids.filterMap fun e : Nat => Builtin.lookup? e).forM (fun e => do
      discard (loadClass s e.className)
      if e.isMember then push ⟨e.className, e.member, e.descriptor⟩ : Builtin → LinkM Unit) l =
        .ok .unit l' := by
  have hstep : ∀ b ∈ ids.filterMap fun e : Nat => Builtin.lookup? e, ∀ u : Linker,
      u.Wired s ∧ u.root = F.root → ∃ v, (do
        discard (loadClass s b.className)
        if b.isMember then push ⟨b.className, b.member, b.descriptor⟩ : LinkM Unit) u = .ok () v ∧
        v.Wired s ∧ v.root = F.root := by
    rintro b hb u ⟨hu, hequ⟩
    obtain ⟨e, he, hlookup⟩ := List.mem_filterMap.mp hb
    rw [Builtin.lookup?_natCast] at hlookup
    exact h.loadsEntry hu hequ hlookup (hids e he)
  obtain ⟨l', hok, -⟩ := forM_succeeds hstep ⟨hl, heq⟩
  exact ⟨l', hok⟩

/-- A catalog entry that the finished link holds can be kept. -/
theorem Guide.keepsBuiltin {n : Nat} (h : Guide s F) (hl : l.Wired s) (heq : l.root = F.root)
    (hn : F.Holds (.builtin n)) : ∃ l', keepBuiltin s n l = .ok () l' := by
  by_cases hold : n ∈ l.builtins
  · refine ⟨l, ?_⟩
    simp only [keepBuiltin, bind_ok, get_ok, ite_ok, pure_ok]
    refine ⟨l, l, ⟨rfl, rfl⟩, .inl ⟨?_, trivial, rfl⟩⟩
    exact List.any_eq_true.mpr ⟨n, hold, decide_eq_true rfl⟩
  · obtain ⟨b, hb, -⟩ := h.settled.complete.builtins hn
    have hlookup : Builtin.lookup? n = some b := by rw [Builtin.lookup?_natCast, hb]
    obtain ⟨ids, hexpand⟩ : ∃ ids, Builtin.expand? n = some ids := ⟨_, by
      rw [Builtin.expand?, hlookup, Option.map_some]⟩
    obtain ⟨kept, hkeep⟩ : ∃ kept, Builtin.keep? l.builtins n = some kept := ⟨_, by
      rw [Builtin.keep?, hexpand, Option.map_some]⟩
    obtain ⟨n', hcast, -, hids⟩ := Builtin.exists_of_expand? hexpand
    obtain rfl : n' = n := Int.ofNat_inj.mp hcast
    -- The steps of an entry are entries that the finished link holds.
    have hsteps : ∀ e ∈ ids, F.Holds (.builtin e) := by
      intro e he
      obtain ⟨-, -, -, rfl | ⟨a, ha, hmem⟩⟩ := hids e he
      · exact hn
      · exact h.closedUnder hl heq hn (.step ha hmem)
    have hw : ({ l with builtins := kept } : Linker).Wired s :=
      ⟨hl.tidy, hl.kept, hl.origin, hl.arrays_lt⟩
    obtain ⟨l', hloop⟩ := h.loadsEntries hw heq hsteps
    refine ⟨l', ?_⟩
    simp only [keepBuiltin, bind_ok, get_ok, ite_ok, pure_ok]
    refine ⟨l, l, ⟨rfl, rfl⟩, .inr ⟨?_, ?_⟩⟩
    · intro hany
      obtain ⟨k, hk, heq⟩ := List.any_eq_true.mp hany
      obtain rfl : k = n' := Int.ofNat_inj.mp (of_decide_eq_true heq)
      exact hold hk
    · simp only [hkeep, hexpand, bind_ok, set_ok]
      exact ⟨.unit, _, rfl, hloop⟩

/-! ### The dependencies of a method -/

section Expand

variable {row : Nat} {c : Class} {m : Method} {a : RefAddr}

/-- A reference that a method depends on can be kept, and what it needs is held. -/
theorem Guide.keepsDep (h : Guide s F) (hu : Expanding s c m l u) (heq : u.root = F.root)
    (hc : l.registry.classAt? row = some c) (hm : m ∈ c.methods)
    (hx : F.Holds (.member c.name m.sig)) (ha : m.DependsOn a) : ∃ v ref,
      discard (onRegistry (keepRef a)) u = .ok () v ∧ Expanding s c m u v ∧
      v.registry.refAt? a = some ref ∧ RefBrought F.Holds c.name ref := by
  obtain ⟨c₁, ref₁, hc₁, -, href₁, -⟩ := hu.dependency hc hm ha
  obtain ⟨fresh, v, hkeep⟩ := exists_keepRef hu.wired hc₁ href₁
  obtain ⟨hv, ref, href, -⟩ := hu.keepRef hc hm ha hkeep
  refine ⟨v, ref, discard_ok.mpr ⟨fresh, hkeep⟩, hv, href, ?_⟩
  exact Expanding.brought (hu.trans hv) hc hm ha href
    (h.closedUnder hv.wired (hv.root_eq.trans heq)) (.refl _) hx

theorem Guide.classDep (h : Guide s F) (heq : l.root = F.root)
    (hc : l.registry.classAt? row = some c) (hm : m ∈ c.methods)
    (hx : F.Holds (.member c.name m.sig)) (hu : Expanding s c m l u) (ha : a ∈ m.classDeps) :
    ∃ v, (do
      discard (onRegistry (keepRef a))
      match (← onRegistry (RegistryM.refAt a)).body with
      | .classRef target _ => discard (loadClass s target)
      | _ => throw .fault : LinkM Unit) u = .ok () v ∧ Expanding s c m l v := by
  have hequ := hu.root_eq.trans heq
  obtain ⟨v, ref, hkeep, hv, href, hbrought⟩ := h.keepsDep hu hequ hc hm hx (.inl ha)
  obtain ⟨target, id, hbody⟩ : ∃ target id, ref.body = .classRef target id := by
    obtain ⟨c₁, _, _, hc₁, -, -, -, hrecords⟩ := Expanding.records (hu.trans hv) hc hm
    obtain ⟨rfl, ref₁, target, id, href₁, hbody⟩ := hrecords.classes a ha
    cases href.symm.trans (refAt?_eq_some.mpr ⟨c₁, hc₁, href₁⟩)
    exact ⟨target, id, hbody⟩
  obtain ⟨p, w, hload⟩ := h.loads hv.wired (hv.root_eq.trans hequ) (hbrought.target hbody)
  have hok : (do
      discard (onRegistry (keepRef a))
      match (← onRegistry (RegistryM.refAt a)).body with
      | .classRef target _ => discard (loadClass s target)
      | _ => throw .fault : LinkM Unit) u = .ok () w := by
    simp only [bind_ok]
    refine ⟨.unit, v, hkeep, ref, v, readRef_ok.mpr ⟨href, rfl⟩, ?_⟩
    simp only [hbody, discard_ok]
    exact ⟨p, hload⟩
  exact ⟨w, hok, hu.trans (hu.classDep hc hm ha hok).1⟩

theorem Guide.literalDep (h : Guide s F) (heq : l.root = F.root)
    (hc : l.registry.classAt? row = some c) (hm : m ∈ c.methods)
    (hx : F.Holds (.member c.name m.sig)) (hu : Expanding s c m l u) (ha : a ∈ m.literalDeps) :
    ∃ v, (do
      discard (onRegistry (keepRef a))
      match (← onRegistry (RegistryM.refAt a)).body with
      | .literal (.string _) => discard (loadClass s stringClass)
      | _ => return () : LinkM Unit) u = .ok () v ∧ Expanding s c m l v := by
  have hequ := hu.root_eq.trans heq
  obtain ⟨v, ref, hkeep, hv, href, hbrought⟩ := h.keepsDep hu hequ hc hm hx (.inr (.inl ha))
  have hok : ∃ w, (do
      discard (onRegistry (keepRef a))
      match (← onRegistry (RegistryM.refAt a)).body with
      | .literal (.string _) => discard (loadClass s stringClass)
      | _ => return () : LinkM Unit) u = .ok () w := by
    simp only [bind_ok]
    cases hbody : ref.body with
    | literal value =>
        cases value with
        | string text =>
            obtain ⟨p, w, hload⟩ := h.loads hv.wired (hv.root_eq.trans hequ) (hbrought.string hbody)
            refine ⟨w, .unit, v, hkeep, ref, v, readRef_ok.mpr ⟨href, rfl⟩, ?_⟩
            simp only [hbody, discard_ok]
            exact ⟨p, hload⟩
        | int _ | float _ | long _ | double _ =>
            refine ⟨v, .unit, v, hkeep, ref, v, readRef_ok.mpr ⟨href, rfl⟩, ?_⟩
            simp only [hbody, pure_ok, and_self]
    | classRef _ _ | memberRef _ _ _ _ _ =>
        refine ⟨v, .unit, v, hkeep, ref, v, readRef_ok.mpr ⟨href, rfl⟩, ?_⟩
        simp only [hbody, pure_ok, and_self]
  obtain ⟨w, hok⟩ := hok
  exact ⟨w, hok, hu.trans (hu.literalDep hc hm ha hok).1⟩

theorem Guide.arrayDep (h : Guide s F) (heq : l.root = F.root)
    (hc : l.registry.classAt? row = some c) (hm : m ∈ c.methods)
    (hx : F.Holds (.member c.name m.sig)) (hu : Expanding s c m l u) {code : Int}
    (hcode : code ∈ m.arrayDeps) :
    ∃ v, discard (loadClass s (Primitive.arrayName code)) u = .ok () v ∧
      Expanding s c m l v := by
  have hequ := hu.root_eq.trans heq
  obtain ⟨_, d, decl, -, hd, hdecl, hsig, hrecords⟩ := hu.records hc hm
  have hhas : F.Holds (.cls (Primitive.arrayName code)) := h.closedUnder hu.wired hequ hx
    (hsig ▸ .primitives hd hdecl ((hrecords.arrays code).mp hcode))
  obtain ⟨p, v, hload⟩ := h.loads hu.wired hequ hhas
  have hok : discard (loadClass s (Primitive.arrayName code)) u = .ok () v :=
    discard_ok.mpr ⟨p, hload⟩
  exact ⟨v, hok, hu.trans (hu.arrayDep hc hm hcode hok).1⟩

/-- A method triggers entries by their places in the catalog. -/
theorem exists_of_builtin_use {code : Bytes} {handlers : List Handler} {throws : List Int} {id : Int}
    (h : .builtin id ∈ Use.ofMethod code handlers throws) : ∃ n : Nat, (n : Int) = id := by
  rw [Use.ofMethod, List.mem_append, List.mem_append] at h
  rcases h with (h | h) | h
  · obtain ⟨i, -, h⟩ := List.mem_flatMap.mp h
    rw [Use.ofInstruction, List.mem_append] at h
    rcases h with h | h
    · obtain ⟨n, -, hn⟩ := List.mem_map.mp h
      cases hn
      exact ⟨n, rfl⟩
    · cases hop : Opcode.operand i.op with
      | classSlot =>
          simp only [hop] at h
          rcases List.mem_cons.mp h with h | h
          · cases h
          · split at h
            · cases List.mem_singleton.mp h
            · cases h
      | none | dynamicSlot =>
          simp only [hop] at h
          cases h
      | memberSlot | constantSlot | arrayType =>
          simp only [hop] at h
          cases List.mem_singleton.mp h
  · obtain ⟨handler, -, h⟩ := List.mem_flatMap.mp h
    split at h
    · cases List.mem_singleton.mp h
    · cases h
  · obtain ⟨slot, -, h⟩ := List.mem_map.mp h
    cases h

theorem Guide.builtin (h : Guide s F) (heq : l.root = F.root)
    (hc : l.registry.classAt? row = some c) (hm : m ∈ c.methods)
    (hx : F.Holds (.member c.name m.sig)) (hu : Expanding s c m l u) {id : Int}
    (hid : id ∈ m.builtins) :
    ∃ v, keepBuiltin s id u = .ok () v ∧ Expanding s c m l v := by
  have hequ := hu.root_eq.trans heq
  obtain ⟨_, d, decl, -, hd, hdecl, hsig, hrecords⟩ := hu.records hc hm
  have huse := (hrecords.builtins id).mp hid
  obtain ⟨n, rfl⟩ := exists_of_builtin_use huse
  have hentry : F.Holds (.builtin n) :=
    h.closedUnder hu.wired hequ hx (hsig ▸ .triggered hd hdecl huse)
  obtain ⟨v, hok⟩ := h.keepsBuiltin hu.wired hequ hentry
  exact ⟨v, hok, hu.trans (hu.builtin hc hm hid hok).1⟩

theorem Guide.memberRefDep (h : Guide s F) (heq : l.root = F.root)
    (hc : l.registry.classAt? row = some c) (hm : m ∈ c.methods)
    (hx : F.Holds (.member c.name m.sig)) (hu : Expanding s c m l u) (ha : a ∈ m.memberDeps) :
    ∃ v, discard (onRegistry (keepRef a)) u = .ok () v ∧ Expanding s c m l v := by
  obtain ⟨v, ref, hkeep, hv, -⟩ :=
    h.keepsDep hu (hu.root_eq.trans heq) hc hm hx (.inr (.inr ha))
  exact ⟨v, hkeep, hu.trans hv⟩

/-- The members that a method refers to can be made pending. -/
theorem Expanding.pushes (hu : Expanding s c m l u) (hc : l.registry.classAt? row = some c)
    (hm : m ∈ c.methods) :
    ∃ v, m.memberDeps.reverse.forM (fun a => (do push (← memberAt a) : LinkM Unit)) u = .ok () v := by
  obtain ⟨c₁, _, _, hc₁, -, -, -, hrecords⟩ := hu.records hc hm
  have hstep : ∀ a ∈ m.memberDeps.reverse, ∀ v : Linker, v.registry = u.registry →
      ∃ w, (do push (← memberAt a) : LinkM Unit) v = .ok () w ∧ w.registry = u.registry := by
    intro a ha v hr
    obtain ⟨rfl, ref, target, t, d, k, i, href, hbody⟩ := hrecords.members a (List.mem_reverse.mp ha)
    have hread : v.registry.refAt? a = some ref := by
      rw [hr]
      exact refAt?_eq_some.mpr ⟨c₁, hc₁, href⟩
    refine ⟨{ v with pending := target :: v.pending }, ?_, hr⟩
    simp only [memberAt, bind_ok, push_ok]
    refine ⟨target, v, ⟨ref, v, readRef_ok.mpr ⟨hread, rfl⟩, ?_⟩, rfl⟩
    simp only [hbody, pure_ok, and_self]
  obtain ⟨v, hok, -⟩ := forM_succeeds hstep rfl
  exact ⟨v, hok⟩

/-- What a method depends on can be kept. -/
theorem Guide.expands (h : Guide s F) (hl : l.Wired s) (heq : l.root = F.root)
    (hc : l.registry.classAt? row = some c) (hm : m ∈ c.methods)
    (hx : F.Holds (.member c.name m.sig)) : ∃ l', expand s m l = .ok () l' := by
  -- Each list is followed from where the one before it ended.
  obtain ⟨l₁, hclasses, h₁⟩ := forM_succeeds (P := Expanding s c m l)
    (fun a ha u hu => h.classDep heq hc hm hx hu ha) (.refl hl _ _)
  obtain ⟨l₂, harrays, h₂⟩ := forM_succeeds (P := Expanding s c m l)
    (fun code hcode u hu => h.arrayDep heq hc hm hx hu hcode) h₁
  obtain ⟨l₃, hliterals, h₃⟩ := forM_succeeds (P := Expanding s c m l)
    (fun a ha u hu => h.literalDep heq hc hm hx hu ha) h₂
  obtain ⟨l₄, hbuiltins, h₄⟩ := forM_succeeds (P := Expanding s c m l)
    (fun id hid u hu => h.builtin heq hc hm hx hu hid) h₃
  obtain ⟨l₅, hmembers, h₅⟩ := forM_succeeds (P := Expanding s c m l)
    (fun a ha u hu => h.memberRefDep heq hc hm hx hu ha) h₄
  obtain ⟨l', hpush⟩ := h₅.pushes hc hm
  refine ⟨l', ?_⟩
  simp only [expand, bind_ok]
  exact ⟨.unit, l₁, hclasses, .unit, l₂, harrays, .unit, l₃, hliterals, .unit, l₄, hbuiltins,
    .unit, l₅, hmembers, hpush⟩

end Expand

/-! ### Requiring members -/

/-- A method that becomes kept can be expanded. -/
theorem Guide.expandsKept {row : Nat} {sig : Signature} {c : Class} {m : Method} {r : Registry}
    (h : Guide s F) (hl : l.Wired s) (heq : l.root = F.root)
    (hc : l.registry.classAt? row = some c) (hd : c.declared? sig = some (.method m))
    (hx : F.Holds (.member c.name sig)) (hkeep : keepMember row sig l.registry = .ok true r) :
    ∃ l', expand s m { l with registry := r, expansions := l.expansions + 1 } = .ok () l' := by
  obtain ⟨m₀, hm₀, hmethod, hsig⟩ | ⟨f, -, hfield, -⟩ := Class.mem_of_declared? hd
  · cases hmethod
    obtain ⟨htidy, hsize⟩ := keepMember_tidy hl.tidy hkeep
    have hgrows := keepMember_grows hkeep
    obtain ⟨c', hc', hcgrow⟩ := hgrows.classes hc
    obtain ⟨m', hm', hmgrow⟩ := forall₂_mem_left hcgrow.methods hm₀
    have hexpand : expand s m' = expand s m := by
      rw [hmgrow.frame]
      rfl
    have hw : ({ l with registry := r } : Linker).Wired s := wired_of_grows hl htidy hgrows hsize
    rw [← hcgrow.name_eq, ← hsig, ← hmgrow.sig_eq] at hx
    rw [← hexpand]
    exact h.expands (hw.congr l.pending (l.expansions + 1)) heq hc' hm' hx
  · cases hfield

/-- A member that the finished link has looked up and kept can be required. -/
theorem Guide.requiresOne {m : Member} (h : Guide s F) (hl : l.Wired s) (heq : l.root = F.root)
    (hm : F.Holds (.lookup m)) : ∃ l', requireOne s m l = .ok () l' := by
  obtain ⟨start, l₁, hload⟩ := h.loads hl heq (h.closedUnder hl heq hm .lookupClass)
  obtain ⟨hloads, hstart⟩ := loadClass_loads hl hload
  have heq₁ := hloads.loads.root_eq.trans heq
  -- The lookup goes as in the finished link.
  obtain ⟨q, dF, hfindF, -⟩ := holds_lookup.mp hm
  have halike := h.settled.wired.alike hloads.wired h.noArrays heq₁
  obtain ⟨⟨row, d⟩, hfind, -⟩ := halike.findMember hfindF hstart
  obtain ⟨-, c, -, hc, hd⟩ := findMember_ok hfind
  obtain ⟨fresh, r, hkeep⟩ := exists_keepMember hloads.wired hc m.sig
  have hstep : requireOne s m l =
      (if fresh then follow s d else pure () : LinkM Unit) { l₁ with registry := r } :=
    (bind_of_ok (discard_ok (b := ()).mpr ⟨start, hload⟩)).trans
      (requireLoaded_of_keepMember hfind (Class.sig_of_declared? hd ▸ hkeep))
  cases fresh with
  | false => exact ⟨_, hstep.trans (pure_ok.mpr ⟨rfl, rfl⟩)⟩
  | true =>
      cases d with
      | field f => exact ⟨_, hstep.trans (pure_ok.mpr ⟨rfl, rfl⟩)⟩
      | method method =>
          have hx : F.Holds (.member c.name m.sig) :=
            h.closedUnder hloads.wired heq₁ hm (.lookupMember hfind hc)
          obtain ⟨l', hok⟩ := h.expandsKept hloads.wired heq₁ hc hd hx hkeep
          refine ⟨l', hstep.trans ?_⟩
          rw [if_pos rfl, follow_method]
          exact hok

/-! ### Requiring all of them -/

theorem Inside.advances (h : Inside s F l) (hG : Guide s F) (hstep : Advances s l l') :
    Inside s F l' :=
  h.of_within hG.settled hG.noArrays hstep.wired hstep.root_eq fun hclosed hin =>
    hstep.within hclosed (.refl _) hin

/-- The members that are pending can be required one after the other: there is fuel for all that is
still to come. -/
theorem Guide.drains {fuel : Nat} (h : Guide s F) (hin : Inside s F l) (hcounted : l.Counted)
    (hl : l.Complete l.pending NoneExempt) (hfuel : l.callsLeft s ≤ fuel) :
    ∃ l', drainFrom s fuel l = .ok () l' := by
  induction fuel generalizing l with
  | zero =>
      unfold Linker.callsLeft at hfuel
      exact ⟨l, drainFrom_nil 0 (List.length_eq_zero_iff.mp (by omega))⟩
  | succ fuel ih =>
      cases hpending : l.pending with
      | nil => exact ⟨l, drainFrom_nil _ hpending⟩
      | cons m rest =>
          have hm : F.Holds (.lookup m) := hin.holds_pending (by rw [hpending]; exact List.mem_cons_self)
          have hw := hin.wired.congr rest l.expansions
          obtain ⟨l₁, hone⟩ := h.requiresOne (l := { l with pending := rest }) hw hin.root_eq hm
          -- What is required pays for what it makes pending.
          have hfit := h.fit hin hcounted (h.closedUnder hin.wired hin.root_eq hm .lookupClass)
          have hspent := (requireOne_metered (s := s) m).spends (hfit.repend rest)
          rw [hone] at hspent
          have hcalls : l₁.callsLeft s ≤ ({ l with pending := rest } : Linker).callsLeft s :=
            hspent.calls
          have hrest := callsLeft_cons (s := s) hpending
          have hstart : ({ l with pending := m :: rest } : Linker) = l := by rw [← hpending]
          rw [hpending] at hl
          obtain ⟨hadvance, hcomplete, -⟩ := requireOne_advances hw (hl.congr _ rest l.expansions id)
            hone
          replace hadvance : Advances s l l₁ := hstart ▸ hadvance
          obtain ⟨l', hdrain⟩ := ih (hin.advances h hadvance) (hadvance.counted hcounted) hcomplete
            (by omega)
          refine ⟨l', ?_⟩
          rw [drainFrom_cons hpending, hone]
          exact hdrain

theorem Guide.drain (h : Guide s F) (hin : Inside s F l) (hcounted : l.Counted)
    (hl : l.Complete l.pending NoneExempt) : ∃ l', Closure.drain s l = .ok () l' :=
  h.drains hin hcounted hl (callsLeft_le_workBound s l)

/-- A class that the finished link has can be loaded, with everything that it brings. -/
theorem load_succeeds {name : Text} (h : Guide s F) (hl : Settled s l) (hin : Inside s F l)
    (hcounted : l.Counted) (hname : F.Has name) : ∃ row l', load s name l = .ok row l' := by
  obtain ⟨row, l₁, hload⟩ := h.loads hin.wired hin.root_eq hname
  obtain ⟨hfollows, -⟩ := loadClass_follows hin.wired hload
  have hcomplete := loadClass_complete hin.wired hl.complete hload (fun hm => by cases hm) id
  obtain ⟨l', hdrain⟩ := h.drain (hin.follows h.settled h.noArrays hfollows hname)
    (hfollows.counted hcounted) hcomplete
  refine ⟨row, l', ?_⟩
  simp only [load, bind_ok, pure_ok]
  exact ⟨row, l₁, hload, .unit, l', hdrain, rfl, rfl⟩

/-- A member that the finished link has looked up can be required, with everything that it brings. -/
theorem require_succeeds {m : Member} (h : Guide s F) (hl : Settled s l) (hin : Inside s F l)
    (hcounted : l.Counted) (hm : F.Holds (.lookup m)) : ∃ l', require s m l = .ok () l' := by
  have hfollows := push_follows (m := m) hin.wired
  obtain ⟨l', hdrain⟩ := h.drain (hin.follows h.settled h.noArrays hfollows hm)
    (hfollows.counted hcounted) (push_complete hl m)
  refine ⟨l', ?_⟩
  simp only [require, bind_ok, push_ok]
  exact ⟨.unit, _, rfl, hdrain⟩

end ClassLinker.Closure
