import Mathlib.Data.List.Nodup
import ClassLinker.Proofs.Closure.Reach

/-! Completeness of a link under way. It is complete up to the members it still has to require: every
kept method has its dependencies kept, every kept reference leads to a registered class or to a
member that is kept or still to be required, and every kept catalog entry has what it stands for. A
step that loses nothing keeps a link complete when all that it adds is met. -/

namespace ClassLinker

namespace Builtin

/-- An expansion holds its entry and the steps of all it holds, and each of them is the entry or one
of its steps. -/
def isExpansion (id : Nat) (ids : List Nat) : Bool :=
  ids.contains id && ids.all fun e =>
    match catalog[e]? with
    | none => false
    | some b => b.steps.all ids.contains &&
        (e = id || ((catalog[id]?).map fun a => a.steps.contains e).getD false)

theorem isExpansion_expand : ∀ id < catalog.length,
    ((expand? id).map (isExpansion id)).getD false = true := by decide +kernel

/-- The class entry of an entry names the same class, and nothing else. -/
theorem classEntry_of_mem : ∀ b ∈ catalog, ∃ e, catalog[b.classEntry]? = some e ∧
    e.className = b.className ∧ e.isMember = false ∧ e.classEntry = b.classEntry ∧
    e.steps = [] := by
  have hall : catalog.all (fun b => ((catalog[b.classEntry]?).map fun e =>
      e.className = b.className && !e.isMember && e.classEntry = b.classEntry &&
        e.steps.isEmpty).getD false) = true := by decide +kernel
  intro b hb
  have hb := List.all_eq_true.mp hall b hb
  cases he : catalog[b.classEntry]? with
  | none => simp [he] at hb
  | some e =>
      simp only [he, Option.map_some, Option.getD_some, Bool.and_eq_true, decide_eq_true_eq,
        Bool.not_eq_true', List.isEmpty_iff] at hb
      obtain ⟨⟨⟨hclass, hmember⟩, hentry⟩, hsteps⟩ := hb
      exact ⟨e, rfl, hclass, hmember, hentry, hsteps⟩

theorem mem_insertId {k id : Nat} {ks : List Nat} : k ∈ insertId id ks ↔ k = id ∨ k ∈ ks := by
  induction ks with
  | nil => simp [insertId]
  | cons x xs ih =>
      unfold insertId
      split
      · simp
      · split
        · rename_i heq
          subst heq
          simp
        · rw [List.mem_cons, ih, List.mem_cons]
          exact or_left_comm

theorem sorted_insertId {id : Nat} {ks : List Nat} (h : ks.Pairwise (· < ·)) :
    (insertId id ks).Pairwise (· < ·) := by
  induction ks with
  | nil => exact List.pairwise_singleton _ _
  | cons k ks ih =>
      rw [List.pairwise_cons] at h
      rw [insertId]
      split
      · rename_i hlt
        refine List.pairwise_cons.mpr ⟨fun x hx => ?_, List.pairwise_cons.mpr h⟩
        rcases List.mem_cons.mp hx with rfl | hx
        · exact hlt
        · exact Nat.lt_trans hlt (h.1 x hx)
      · split
        · exact List.pairwise_cons.mpr h
        · refine List.pairwise_cons.mpr ⟨fun x hx => ?_, ih h.2⟩
          rcases mem_insertId.mp hx with rfl | hx
          · omega
          · exact h.1 x hx

theorem sorted_keep? {kept kept' : List Nat} {id : Int} (h : keep? kept id = some kept')
    (hsorted : kept.Pairwise (· < ·)) : kept'.Pairwise (· < ·) := by
  obtain ⟨ids, -, rfl⟩ := Option.map_eq_some_iff.mp h
  clear h
  induction ids generalizing kept with
  | nil => exact hsorted
  | cons e ids ih => exact ih (sorted_insertId (sorted_insertId hsorted))

/-- What is kept once an entry is kept: what was kept, its expansion and the entries of the classes
of those. -/
theorem keep?_eq_some {kept kept' : List Nat} {id : Int} (h : keep? kept id = some kept') :
    ∃ ids, expand? id = some ids ∧ ∀ k, k ∈ kept' ↔ k ∈ kept ∨ ∃ e ∈ ids, k = e ∨
      k = ((catalog[e]?).map Builtin.classEntry).getD e := by
  obtain ⟨ids, hids, rfl⟩ := Option.map_eq_some_iff.mp h
  refine ⟨ids, hids, fun k => ?_⟩
  clear h hids
  induction ids generalizing kept with
  | nil => simp
  | cons e ids ih =>
      rw [List.foldl_cons, ih]
      simp only [mem_insertId, List.mem_cons, exists_eq_or_imp]
      constructor
      · rintro ((h | h | h) | h)
        · exact Or.inr (Or.inl (Or.inr h))
        · exact Or.inr (Or.inl (Or.inl h))
        · exact Or.inl h
        · exact Or.inr (Or.inr h)
      · rintro (h | (h | h) | h)
        · exact Or.inl (Or.inr (Or.inr h))
        · exact Or.inl (Or.inr (Or.inl h))
        · exact Or.inl (Or.inl h)
        · exact Or.inr h

theorem lookup?_natCast (id : Nat) : lookup? id = catalog[id]? := by
  unfold lookup?
  rw [if_neg (by omega), Int.toNat_natCast]

theorem exists_of_expand? {id : Int} {ids : List Nat} (h : expand? id = some ids) :
    ∃ n : Nat, (n : Int) = id ∧ n ∈ ids ∧ ∀ e ∈ ids, ∃ b, catalog[e]? = some b ∧
      (∀ next ∈ b.steps, next ∈ ids) ∧ (e = n ∨ ∃ a, catalog[n]? = some a ∧ e ∈ a.steps) := by
  have hid : 0 ≤ id ∧ id.toNat < catalog.length := by
    obtain ⟨b, hb, -⟩ := Option.map_eq_some_iff.mp h
    unfold lookup? at hb
    split at hb
    · cases hb
    · obtain ⟨hlt, -⟩ := List.getElem?_eq_some_iff.mp hb
      exact ⟨by omega, hlt⟩
  obtain ⟨n, rfl⟩ := Int.eq_ofNat_of_zero_le hid.1
  have hall := isExpansion_expand n (by simpa using hid.2)
  rw [h, Option.map_some, Option.getD_some, isExpansion, Bool.and_eq_true,
    List.contains_iff_mem, List.all_eq_true] at hall
  refine ⟨n, rfl, hall.1, fun e he => ?_⟩
  have hentry := hall.2 e he
  cases hb : catalog[e]? with
  | none => simp [hb] at hentry
  | some b =>
      simp only [hb, Bool.and_eq_true, Bool.or_eq_true, decide_eq_true_eq, List.all_eq_true,
        List.contains_iff_mem] at hentry
      refine ⟨b, rfl, hentry.1, ?_⟩
      rcases hentry.2 with heq | hstep
      · exact Or.inl heq
      · cases ha : catalog[n]? with
        | none => simp [ha] at hstep
        | some a => exact Or.inr ⟨a, rfl, by simpa [ha] using hstep⟩

end Builtin

namespace Linker

/-- A member is met when it is still to be required or the member that a lookup finds is kept. -/
def Met (l : Linker) (todo : List Member) (m : Member) : Prop :=
  m ∈ todo ∨ ∃ row d, l.registry.findMember m = .ok (row, d) ∧ l.registry.KeepsMember row m.sig

/-- A class is registered. -/
def Has (l : Linker) (name : Text) : Prop := ∃ row, l.registry.find? name = some row

/-- What a kept catalog entry needs is there. -/
structure BuiltinMet (l : Linker) (todo : List Member) (b : Builtin) : Prop where
  className : l.Has b.className
  member : b.isMember = true → l.Met todo b.target
  classEntry : b.classEntry ∈ l.builtins
  steps : ∀ next ∈ b.steps, next ∈ l.builtins

/-- What a kept reference needs is there. -/
def RefMet (l : Linker) (todo : List Member) (ref : Reference) : Prop :=
  match ref.body with
  | .classRef target _ => l.Has target
  | .memberRef m _ _ _ _ => l.Met todo m
  | .literal (.string _) => l.Has Closure.stringClass
  | .literal _ => True

/-- What a kept method needs is there. -/
structure MethodMet (l : Linker) (m : Method) : Prop where
  refs : ∀ {a}, m.DependsOn a → l.registry.KeepsRef a
  arrays : ∀ code ∈ m.arrayDeps, l.Has (Primitive.arrayName code)
  builtins : ∀ id ∈ m.builtins, ∃ k ∈ l.builtins, (k : Int) = id

/-- A link is complete up to the members that are still to be required and the methods whose
dependencies are still to be followed. -/
structure Complete (l : Linker) (todo : List Member) (exempt : Nat → Signature → Prop) : Prop where
  initializers : ∀ {row c d}, l.registry.classAt? row = some c →
    c.declared? Signature.initializer = some d → l.Met todo (c.member Signature.initializer)
  methods : ∀ {row c m}, l.registry.classAt? row = some c → m ∈ c.methods → m.kept = true →
    exempt row m.sig ∨ l.MethodMet m
  refs : ∀ {a ref}, l.registry.refAt? a = some ref → ref.kept = true → l.RefMet todo ref
  builtins : ∀ {id}, id ∈ l.builtins → ∃ b, Builtin.catalog[id]? = some b ∧ l.BuiltinMet todo b

/-- No method has dependencies that are still to be followed. -/
abbrev NoneExempt : Nat → Signature → Prop := fun _ _ => False

theorem Complete.close {l : Linker} {todo : List Member} {exempt : Nat → Signature → Prop}
    (h : l.Complete todo exempt)
    (hmet : ∀ {row c m}, l.registry.classAt? row = some c → m ∈ c.methods → exempt row m.sig →
      l.MethodMet m) : l.Complete todo NoneExempt := by
  refine ⟨h.initializers, ?_, h.refs, h.builtins⟩
  intro row c m hc hm hkept
  rcases h.methods hc hm hkept with hexempt | hdone
  · exact Or.inr (hmet hc hm hexempt)
  · exact Or.inr hdone

/-- What is pending and what was counted does not matter for what is registered. -/
theorem Wired.congr {s : Source} {l : Linker} (h : l.Wired s) (pending : List Member)
    (expansions : Nat) :
    ({ l with pending := pending, expansions := expansions } : Linker).Wired s :=
  ⟨h.tidy, h.kept, h.origin, h.arrays_lt⟩

theorem Complete.congr {l : Linker} {todo : List Member} {exempt : Nat → Signature → Prop}
    (h : l.Complete todo exempt) (exempt' : Nat → Signature → Prop) (pending : List Member)
    (expansions : Nat)
    (hexempt : ∀ {row sig}, exempt row sig → exempt' row sig) :
    ({ l with pending := pending, expansions := expansions } : Linker).Complete todo exempt' := by
  refine ⟨h.initializers, ?_, h.refs, ?_⟩
  · intro row c m hc hm hkept
    rcases h.methods hc hm hkept with hex | hmet
    · exact Or.inl (hexempt hex)
    · exact Or.inr ⟨hmet.refs, hmet.arrays, hmet.builtins⟩
  · intro id hid
    obtain ⟨b, hb, hmet⟩ := h.builtins hid
    exact ⟨b, hb, hmet.className, hmet.member, hmet.classEntry, hmet.steps⟩

end Linker

section Growth

variable {s : Source} {l l' : Linker} {todo todo' : List Member}
  {exempt exempt' : Nat → Signature → Prop}

theorem Linker.Has.grows {name : Text} (h : l.Has name) (hgrows : l.registry.Grows l'.registry) :
    l'.Has name := by
  obtain ⟨row, hrow⟩ := h
  exact ⟨row, hgrows.find hrow⟩

theorem Linker.Met.grows {m : Member} (h : l.Met todo m) (hw : l.Wired s)
    (hgrows : l.registry.Grows l'.registry) (htodo : ∀ {m}, m ∈ todo → l'.Met todo' m) :
    l'.Met todo' m := by
  rcases h with hm | ⟨row, d, hfind, hkept⟩
  · exact htodo hm
  · obtain ⟨d', hfind', -⟩ := hgrows.findMember hw.tidy.wellFormed hw.tidy.hierarchy hfind
    exact Or.inr ⟨row, d', hfind', hgrows.keepsMember hkept⟩

theorem Linker.RefMet.grows {ref ref' : Reference} (h : l.RefMet todo ref) (hw : l.Wired s)
    (hgrows : l.registry.Grows l'.registry) (htodo : ∀ {m}, m ∈ todo → l'.Met todo' m)
    (href : ref.Grows ref') : l'.RefMet todo' ref' := by
  unfold Linker.RefMet at h ⊢
  rw [href.body_eq]
  split
  · rename_i heq
    rw [heq] at h
    exact Has.grows h hgrows
  · rename_i heq
    rw [heq] at h
    exact Met.grows h hw hgrows htodo
  · rename_i heq
    rw [heq] at h
    exact Has.grows h hgrows
  · trivial

theorem Linker.BuiltinMet.grows {b : Builtin} (h : l.BuiltinMet todo b) (hw : l.Wired s)
    (hgrows : l.registry.Grows l'.registry) (htodo : ∀ {m}, m ∈ todo → l'.Met todo' m)
    (hbuiltins : ∀ {id}, id ∈ l.builtins → id ∈ l'.builtins) : l'.BuiltinMet todo' b where
  className := h.className.grows hgrows
  member hm := (h.member hm).grows hw hgrows htodo
  classEntry := hbuiltins h.classEntry
  steps next hnext := hbuiltins (h.steps next hnext)

theorem Linker.MethodMet.grows {m m' : Method} (h : l.MethodMet m)
    (hgrows : l.registry.Grows l'.registry)
    (hbuiltins : ∀ {id}, id ∈ l.builtins → id ∈ l'.builtins) (hm : m.Grows m') :
    l'.MethodMet m' := by
  rw [hm.frame]
  refine ⟨?_, ?_, ?_⟩
  · intro a ha
    exact hgrows.keepsRef (h.refs ha)
  · intro code hcode
    exact (h.arrays code hcode).grows hgrows
  · intro id hid
    obtain ⟨k, hk, heq⟩ := h.builtins id hid
    exact ⟨k, hbuiltins hk, heq⟩

/-- A step that loses nothing keeps a link complete when all that it adds is met. -/
theorem Linker.Complete.grows (h : l.Complete todo exempt) (hw : l.Wired s) (hw' : l'.Wired s)
    (hgrows : l.registry.Grows l'.registry)
    (hold : ∀ {id}, id ∈ l.builtins → id ∈ l'.builtins)
    (htodo : ∀ {m}, m ∈ todo → l'.Met todo' m)
    (hinit : ∀ {row c d}, l.registry.rows.size ≤ row → l'.registry.classAt? row = some c →
      c.declared? Signature.initializer = some d → l'.Met todo' (c.member Signature.initializer))
    (hmembers : ∀ {row sig}, l'.registry.KeepsMember row sig →
      l.registry.KeepsMember row sig ∨ exempt' row sig)
    (hexempt : ∀ {row sig}, exempt row sig → exempt' row sig)
    (hrefs : ∀ {a ref}, l'.registry.refAt? a = some ref → ref.kept = true →
      l.registry.KeepsRef a ∨ l'.RefMet todo' ref)
    (hbuiltins : ∀ {id}, id ∈ l'.builtins → id ∈ l.builtins ∨
      ∃ b, Builtin.catalog[id]? = some b ∧ l'.BuiltinMet todo' b) :
    l'.Complete todo' exempt' where
  initializers {row c d} hc hd := by
    by_cases hlt : row < l.registry.rows.size
    · obtain ⟨c₀, d₀, hc₀, hd₀, hmember⟩ := hgrows.declared_old hc hd hlt
      rw [hmember]
      exact (h.initializers hc₀ hd₀).grows hw hgrows htodo
    · exact hinit (Nat.le_of_not_lt hlt) hc hd
  methods {row c m} hc hm hkept := by
    have hd := Class.declared?_method (hw'.tidy.wellFormed.signatures_nodup hc) hm
    rcases hmembers ⟨c, _, hc, hd, hkept⟩ with ⟨c₀, d₀, hc₀, hd₀, hkept₀⟩ | hnew
    · obtain ⟨c', hc', hgrow⟩ := hgrows.classes hc₀
      cases hc.symm.trans hc'
      obtain ⟨d', hd', hgrow'⟩ := hgrow.declared?_some hd₀
      cases hd.symm.trans hd'
      obtain ⟨m₀, hm₀, rfl, hsig⟩ | ⟨f, hf, rfl, hsig⟩ := Class.mem_of_declared? hd₀
      · rcases h.methods hc₀ hm₀ hkept₀ with hex | hmet
        · exact Or.inl (hexempt (hsig ▸ hex))
        · exact Or.inr (hmet.grows hgrows hold hgrow')
      · exact hgrow'.elim
    · exact Or.inl hnew
  refs {a ref} href hkept := by
    rcases hrefs href hkept with ⟨ref₀, href₀, hkept₀⟩ | hmet
    · obtain ⟨ref', href', hgrow⟩ := hgrows.refAt? href₀
      cases href.symm.trans href'
      exact (h.refs href₀ hkept₀).grows hw hgrows htodo hgrow
    · exact hmet
  builtins {id} hid := by
    rcases hbuiltins hid with hid | hmet
    · obtain ⟨b, hb, hmet⟩ := h.builtins hid
      exact ⟨b, hb, hmet.grows hw hgrows htodo hold⟩
    · exact hmet

end Growth

end ClassLinker
