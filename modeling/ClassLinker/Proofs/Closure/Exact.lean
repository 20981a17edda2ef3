import ClassLinker.Proofs.Closure.Require

/-! The closure is exact. After any calls that load classes and require members, a link has exactly
what is reached from what it was asked for: what a settled link holds is closed under the rules, and
no call adds anything that its own seed does not bring. -/

namespace ClassLinker

open Closure Registry Linker

/-- What a link holds of an item: the class is registered, what the lookup finds is kept, the
member, the reference or the catalog entry is kept. -/
def Linker.Holds (l : Linker) : Item → Prop
  | .cls name => l.Has name
  | .lookup m => l.Met [] m
  | .member owner sig => ∃ row, l.registry.find? owner = some row ∧ l.registry.KeepsMember row sig
  | .ref owner slot => ∃ ref, l.registry.reference? owner slot = some ref ∧ ref.kept = true
  | .builtin id => id ∈ l.builtins

/-- The source serves no array classes; those are made. -/
def Source.NoArrays (s : Source) : Prop :=
  ∀ {name d}, s.load name = .ok d → name.head? ≠ some (Text.byte '[')

namespace Closure

open LinkM RegistryM Step

variable {s : Source} {l l' : Linker}

/-- A name that the source serves and a link has registered belongs to a class of that
declaration. -/
theorem exists_described (h : l.Wired s) (hnames : s.NoArrays) {name : Text}
    {row : Nat} {d : ClassDecl} (hload : s.load name = .ok d)
    (hrow : l.registry.find? name = some row) :
    ∃ c, l.registry.classAt? row = some c ∧ c.name = name ∧
      c.Describes l.root d row (l.arraysOf row) := by
  obtain ⟨c, hc, rfl⟩ := h.tidy.exists_class hrow
  rcases h.origin hc with ⟨d', hload', hdesc⟩ | harray
  · cases hload.symm.trans hload'
    exact ⟨c, hc, rfl, hdesc⟩
  · exact absurd harray.bracket (hnames hload)

/-- A registered name of an array belongs to a class that was made from it. -/
theorem exists_array (h : l.Wired s) (hnames : s.NoArrays) {name : Text}
    (hbracket : name.head? = some (Text.byte '[')) (hhas : l.Has name) :
    ∃ row c, l.registry.classAt? row = some c ∧ c.name = name ∧ c.IsArray l.root l.registry row := by
  obtain ⟨row, hrow⟩ := hhas
  obtain ⟨c, hc, rfl⟩ := h.tidy.exists_class hrow
  rcases h.origin hc with ⟨d, hload, -⟩ | harray
  · exact absurd hbracket (hnames hload)
  · exact ⟨row, c, hc, rfl, harray⟩

/-- A kept member that the source declares as a method has all that it uses. -/
theorem exists_method (h : Settled s l) (hnames : s.NoArrays) {name : Text}
    {d : ClassDecl} {decl : MethodDecl} (hload : s.load name = .ok d) (hdecl : decl ∈ d.methods)
    (hkept : l.Holds (.member name decl.sig)) :
    ∃ row c m, l.registry.find? name = some row ∧ l.registry.classAt? row = some c ∧
      c.name = name ∧ c.Filled (d.pool.map PoolSlot.slot) row (l.arraysOf row) ∧
      m.Records c row (l.arraysOf row) (decl.uses l.root d) ∧ l.MethodMet m := by
  obtain ⟨row, hrow, hkeeps⟩ := hkept
  obtain ⟨c, hc, hname, hdesc⟩ := exists_described h.wired hnames hload hrow
  obtain ⟨m, hm, hdescm⟩ := forall₂_mem_left hdesc.methods hdecl
  have hmkept : m.kept = true := by
    obtain ⟨c', d', hc', hd', hk⟩ := hkeeps
    cases hc.symm.trans hc'
    rw [← hdescm.sig_eq, Class.declared?_method (h.wired.tidy.wellFormed.signatures_nodup hc) hm] at hd'
    cases hd'
    exact hk
  refine ⟨row, c, m, hrow, hc, hname, hdesc.filled, hdescm.recorded, ?_⟩
  exact (h.complete.methods hc hm hmkept).resolve_left id

/-- The reference at a slot of a registered class. -/
theorem reference?_eq_some {r : Registry} {owner : Text} {slot : Int} {ref : Reference} :
    r.reference? owner slot = some ref ↔ ∃ row c pos, r.find? owner = some row ∧
      r.classAt? row = some c ∧ c.known? slot = some (pos, ref) := by
  simp only [Registry.reference?, Option.bind_eq_bind, Option.bind_eq_some_iff, Option.pure_def,
    Option.some.injEq, Prod.exists]
  constructor
  · rintro ⟨row, hrow, c, hc, pos, ref', hknown, rfl⟩
    exact ⟨row, c, pos, hrow, hc, hknown⟩
  · rintro ⟨row, c, pos, hrow, hc, hknown⟩
    exact ⟨row, hrow, c, hc, pos, ref, hknown, rfl⟩

/-- A kept reference is met. -/
theorem refMet_of_holds (h : Settled s l) {owner : Text} {slot : Int} {ref : Reference}
    (href : l.registry.reference? owner slot = some ref) (hkept : l.Holds (.ref owner slot)) :
    l.RefMet [] ref := by
  obtain ⟨ref', href', hk⟩ := hkept
  cases href.symm.trans href'
  obtain ⟨row, c, pos, -, hc, hknown⟩ := reference?_eq_some.mp href
  obtain ⟨-, hpool⟩ := Class.known?_eq_some.mp hknown
  exact h.complete.refs (a := ⟨row, pos⟩) (refAt?_eq_some.mpr ⟨c, hc, hpool⟩) hk

/-- A kept reference of a class at a known slot is one that the link holds. -/
theorem holds_ref {row : Nat} {c : Class} {slot : Int} {pos : Nat} {ref : Reference}
    (hrow : l.registry.find? c.name = some row) (hc : l.registry.classAt? row = some c)
    (hknown : c.known? slot = some (pos, ref)) (hkept : l.registry.KeepsRef ⟨row, pos⟩) :
    l.Holds (.ref c.name slot) := by
  obtain ⟨ref', href', hk⟩ := hkept
  obtain ⟨c', hc', hpool'⟩ := refAt?_eq_some.mp href'
  cases hc.symm.trans hc'
  cases (Class.known?_eq_some.mp hknown).2.symm.trans hpool'
  exact ⟨ref, reference?_eq_some.mpr ⟨row, c, pos, hrow, hc, hknown⟩, hk⟩

/-- A use of a slot that fits stands for the reference that is known there. -/
theorem known?_of_fits {u : Use} {c : Class} (row : Nat) {arrays : Text → Option RefAddr}
    {slot : Int} (h : u.Fits c arrays) (hslot : u.slot? = some slot) :
    ∃ pos ref, c.known? slot = some (pos, ref) ∧ u.Names c row arrays ⟨row, pos⟩ := by
  cases u with
  | member slot =>
      cases hslot
      obtain ⟨pos, ref, m, t, d, k, i, hknown, -⟩ := h
      exact ⟨pos, ref, hknown, rfl, (Class.known?_eq_some.mp hknown).1⟩
  | classAt slot =>
      cases hslot
      obtain ⟨pos, ref, t, id, hknown, -⟩ := h
      exact ⟨pos, ref, hknown, rfl, (Class.known?_eq_some.mp hknown).1⟩
  | constant slot =>
      cases hslot
      obtain ⟨pos, ref, hknown, -⟩ := h
      exact ⟨pos, ref, hknown, rfl, (Class.known?_eq_some.mp hknown).1⟩
  | arrayAt slot => cases hslot
  | primitives code => cases hslot
  | builtin id => cases hslot

/-- The supertypes of a registered class are registered. -/
theorem holds_supertype (h : Settled s l) (hnames : s.NoArrays) {name t : Text} {d : ClassDecl}
    (hload : s.load name = .ok d) (ht : t ∈ supertypes d) (hx : l.Holds (.cls name)) :
    l.Holds (.cls t) := by
  obtain ⟨row, hrow⟩ := hx
  obtain ⟨c, hc, rfl, hdesc⟩ := exists_described h.wired hnames hload hrow
  have hlive := h.wired.tidy.live_of_class hc
  rcases List.mem_append.mp ht with ht | ht
  · split at ht
    · cases ht
    · rename_i hne
      rw [List.mem_singleton.mp ht, ← hdesc.super_eq]
      obtain ⟨p, hp, -⟩ := h.wired.tidy.hierarchy.super_lt hlive hc (hdesc.super_eq ▸ hne)
      exact ⟨p, hp⟩
  · rw [← hdesc.interfaces_eq] at ht
    obtain ⟨p, hp, -⟩ := h.wired.tidy.hierarchy.interface_lt hlive hc ht
    exact ⟨p, hp⟩

/-- The initializer of a registered class is kept. -/
theorem holds_initializer (h : Settled s l) (hnames : s.NoArrays) {name : Text} {d : ClassDecl}
    (hload : s.load name = .ok d) (hsig : Signature.initializer ∈ d.signatures)
    (hx : l.Holds (.cls name)) : l.Holds (.member name Signature.initializer) := by
  obtain ⟨row, hrow⟩ := hx
  obtain ⟨c, hc, rfl, hdesc⟩ := exists_described h.wired hnames hload hrow
  rw [← signatures_of_describes hdesc] at hsig
  obtain ⟨d, hd⟩ := Class.exists_declared?.mpr hsig
  obtain ⟨row', d', hfind, hkept⟩ := (h.complete.initializers hc hd).resolve_left List.not_mem_nil
  rw [findMember_of_declared (m := c.member Signature.initializer) hrow hc hd] at hfind
  cases hfind
  exact ⟨row, hrow, hkept⟩

section Arrays

variable {name target : Text} {d : ClassDecl} {decl : MethodDecl} {slot : Int} {ref : Reference}
  {id : Option Nat}

/-- The array class that a kept method makes of a class it refers to is registered. -/
theorem holds_arrayClass (h : Settled s l) (hnames : s.NoArrays) (hload : s.load name = .ok d)
    (hdecl : decl ∈ d.methods) (hu : .arrayAt slot ∈ decl.uses l.root d)
    (href : l.registry.reference? name slot = some ref) (hbody : ref.body = .classRef target id)
    (hx : l.Holds (.member name decl.sig)) : l.Holds (.cls (arrayOf target)) := by
  obtain ⟨row, c, m, hrow, hc, rfl, hfilled, hrecords, hmet⟩ :=
    exists_method h hnames hload hdecl hx
  obtain ⟨pos, ref₁, t, id₁, a, hknown, hbody₁, harray⟩ := hrecords.fits _ hu
  cases href.symm.trans (reference?_eq_some.mpr ⟨row, c, pos, hrow, hc, hknown⟩)
  cases hbody.symm.trans hbody₁
  obtain ⟨ref₂, href₂, hkept⟩ := hmet.refs
    ((hrecords.refs a).mpr ⟨_, hu, pos, ref, target, id, hknown, hbody, harray⟩)
  have hrefMet := h.complete.refs href₂ hkept
  obtain ⟨rfl, ref₃, id₃, href₃, hbody₃, -⟩ := hfilled.added harray
  cases href₂.symm.trans (refAt?_eq_some.mpr ⟨c, hc, href₃⟩)
  rw [Linker.RefMet, hbody₃] at hrefMet
  exact hrefMet

/-- The reference that was added for such an array class is kept. -/
theorem holds_arrayReference (h : Settled s l) (hnames : s.NoArrays) (hload : s.load name = .ok d)
    (hdecl : decl ∈ d.methods) (hu : .arrayAt slot ∈ decl.uses l.root d)
    (href : l.registry.reference? name slot = some ref) (hbody : ref.body = .classRef target id)
    {slot' : Int} {ref' : Reference} {id' : Option Nat} (hnew : slot' ∉ d.pool.map PoolSlot.slot)
    (href' : l.registry.reference? name slot' = some ref')
    (hbody' : ref'.body = .classRef (arrayOf target) id')
    (hx : l.Holds (.member name decl.sig)) : l.Holds (.ref name slot') := by
  obtain ⟨row, c, m, hrow, hc, rfl, hfilled, hrecords, hmet⟩ :=
    exists_method h hnames hload hdecl hx
  obtain ⟨row₁, c₁, pos₁, hrow₁, hc₁, hknown₁⟩ := reference?_eq_some.mp href
  cases hrow.symm.trans hrow₁
  cases hc.symm.trans hc₁
  obtain ⟨row₂, c₂, pos₂, hrow₂, hc₂, hknown₂⟩ := reference?_eq_some.mp href'
  cases hrow.symm.trans hrow₂
  cases hc.symm.trans hc₂
  -- The slot is not a declared one, so the reference was added for its array class.
  obtain ⟨hslot₂, hpool₂⟩ := Class.known?_eq_some.mp hknown₂
  have harray : l.arraysOf row (arrayOf target) = some ⟨row, pos₂⟩ := by
    obtain ⟨-, ref₃, href₃, rfl⟩ := (h.wired.tidy.indexed hc).lookup_iff.mp hslot₂
    cases hpool₂.symm.trans href₃
    rcases hfilled.origin hpool₂ with hdeclared | ⟨t, id₃, hbody₃, harray⟩
    · exact absurd hdeclared hnew
    · cases hbody'.symm.trans hbody₃
      exact harray
  exact holds_ref hrow hc hknown₂ (hmet.refs
    ((hrecords.refs _).mpr ⟨_, hu, pos₁, ref, target, id, hknown₁, hbody, harray⟩))

end Arrays

/-- A kept catalog entry is met. -/
theorem builtinMet_of_holds (h : Settled s l) {id : Nat} {b : Builtin}
    (hb : Builtin.catalog[id]? = some b) (hx : l.Holds (.builtin id)) : l.BuiltinMet [] b := by
  obtain ⟨b', hb', hmet⟩ := h.complete.builtins hx
  cases hb.symm.trans hb'
  exact hmet

/-- What a settled link holds is closed under the rules. -/
theorem holds_of_brings (h : Settled s l) (hnames : s.NoArrays) {x y : Item} (hx : l.Holds x)
    (hxy : Brings s l.root l.registry x y) : l.Holds y := by
  cases hxy with
  | supertype hload ht => exact holds_supertype h hnames hload ht hx
  | arrayRoot hbracket =>
      obtain ⟨row, c, -, -, harray⟩ := exists_array h.wired hnames hbracket hx
      exact harray.root_found
  | arrayElement hbracket helement =>
      obtain ⟨row, c, -, rfl, harray⟩ := exists_array h.wired hnames hbracket hx
      rcases harray.shape with ⟨p, -, -, -, hnone⟩ | ⟨-, hsome, p, hp, -⟩
      · rw [helement] at hnone
        cases hnone
      · cases helement.symm.trans hsome
        exact ⟨p, hp⟩
  | initializer hload hsig => exact holds_initializer h hnames hload hsig hx
  | lookupClass =>
      obtain ⟨row, d, hfind, -⟩ := hx.resolve_left List.not_mem_nil
      exact exists_find?_of_findMember hfind
  | lookupMember hfind hc =>
      obtain ⟨row, d, hfind', hkept⟩ := hx.resolve_left List.not_mem_nil
      cases hfind.symm.trans hfind'
      exact ⟨_, h.wired.tidy.find_self hc, hkept⟩
  | @reference name d decl u slot hload hdecl hu hslot =>
      obtain ⟨row, c, m, hrow, hc, rfl, -, hrecords, hmet⟩ := exists_method h hnames hload hdecl hx
      obtain ⟨pos, ref, hknown, hnames⟩ := known?_of_fits row (hrecords.fits u hu) hslot
      exact holds_ref hrow hc hknown (hmet.refs ((hrecords.refs _).mpr ⟨u, hu, hnames⟩))
  | arrayClass hload hdecl hu href hbody =>
      exact holds_arrayClass h hnames hload hdecl hu href hbody hx
  | arrayReference hload hdecl hu href hbody hnew href' hbody' =>
      exact holds_arrayReference h hnames hload hdecl hu href hbody hnew href' hbody' hx
  | primitives hload hdecl hu =>
      obtain ⟨row, c, m, -, -, -, -, hrecords, hmet⟩ := exists_method h hnames hload hdecl hx
      exact hmet.arrays _ ((hrecords.arrays _).mpr hu)
  | triggered hload hdecl hu =>
      obtain ⟨row, c, m, -, -, -, -, hrecords, hmet⟩ := exists_method h hnames hload hdecl hx
      obtain ⟨k, hk, heq⟩ := hmet.builtins _ ((hrecords.builtins _).mpr hu)
      rw [Int.ofNat_inj.mp heq] at hk
      exact hk
  | refClass href hbody | refMember href hbody | refString href hbody =>
      have hmet := refMet_of_holds h href hx
      rw [Linker.RefMet, hbody] at hmet
      exact hmet
  | builtinClass hb => exact (builtinMet_of_holds h hb hx).className
  | builtinMember hb hmember => exact (builtinMet_of_holds h hb hx).member hmember
  | classEntry hb => exact (builtinMet_of_holds h hb hx).classEntry
  | step hb hnext => exact (builtinMet_of_holds h hb hx).steps _ hnext

/-! ### Calls -/

/-- A call that asks a link for something. -/
inductive Call where
  | load (name : Text)
  | require (m : Member)
deriving DecidableEq

namespace Call

/-- Makes a call. -/
def run (s : Source) : Call → LinkM Unit
  | load name => discard (Closure.load s name)
  | require m => Closure.require s m

/-- What a call asks for. -/
def seed : Call → Item
  | load name => .cls name
  | require m => .lookup m

end Call

theorem run_answers {call : Call} (h : Settled s l) (hok : call.run s l = .ok () l') :
    Answers s call.seed l l' ∧ l'.Holds call.seed := by
  cases call with
  | load name =>
      obtain ⟨row, hload⟩ := discard_ok.mp hok
      obtain ⟨hanswers, hrow⟩ := load_answers h hload
      exact ⟨hanswers, row, hrow⟩
  | require m => exact require_answers h hok

/-- A held seed stays held. -/
theorem holds_seed_grows {call : Call} (h : Settled s l) (hgrows : l.registry.Grows l'.registry)
    (hseed : l.Holds call.seed) : l'.Holds call.seed := by
  cases call with
  | load name => exact Has.grows hseed hgrows
  | require m => exact Met.grows hseed h.wired hgrows fun hm => by cases hm

/-- A run of calls settles the link, holds all that was asked for and adds nothing that is not
reached from it. -/
theorem forM_answers {calls : List Call} (h : Settled s l)
    (hok : calls.forM (Call.run s) l = .ok () l') :
    Settled s l' ∧ l.registry.Grows l'.registry ∧ l'.root = l.root ∧
      (∀ call ∈ calls, l'.Holds call.seed) ∧
      ∀ {r : Registry} {Q : Item → Prop}, ClosedUnder s l.root r Q → l'.registry.Grows r →
        (∀ call ∈ calls, Q call.seed) → l.Within r Q → l'.Within r Q := by
  induction calls generalizing l with
  | nil =>
      obtain rfl := forM_nil_ok.mp hok
      exact ⟨h, .refl _, rfl, fun call hcall => (by cases hcall), fun _ _ _ hin => hin⟩
  | cons call calls ih =>
      obtain ⟨l₁, hcall, hrest⟩ := forM_cons_ok.mp hok
      obtain ⟨hanswers, hseed⟩ := run_answers h hcall
      obtain ⟨hsettled, hgrows, hroot, hseeds, hwithin⟩ := ih hanswers.settled hrest
      refine ⟨hsettled, hanswers.grows.trans hgrows, hroot.trans hanswers.root_eq, ?_, ?_⟩
      · intro x hx
        rcases List.mem_cons.mp hx with rfl | hx
        · exact holds_seed_grows hanswers.settled hgrows hseed
        · exact hseeds x hx
      · intro r Q hclosed hr hQ hin
        have hin₁ := hanswers.within hclosed (hgrows.trans hr) (hQ call List.mem_cons_self) hin
        exact hwithin (hanswers.root_eq ▸ hclosed) hr
          (fun x hx => hQ x (List.mem_cons_of_mem _ hx)) hin₁

/-- What a link holds beyond lookups is what it has within a set. -/
theorem within_of_holds {r : Registry} {Q : Item → Prop} (h : l.Wired s) (hin : l.Within r Q)
    {x : Item} (hlookup : ∀ m, x ≠ .lookup m) (hx : l.Holds x) : Q x := by
  cases x with
  | cls name =>
      obtain ⟨row, hrow⟩ := hx
      obtain ⟨c, hc, rfl⟩ := h.tidy.exists_class hrow
      exact hin.classes hc
  | lookup m => exact absurd rfl (hlookup m)
  | member owner sig =>
      obtain ⟨row, hrow, hkept⟩ := hx
      obtain ⟨c, hc, rfl⟩ := h.tidy.exists_class hrow
      exact hin.members hc hkept
  | ref owner slot =>
      obtain ⟨ref, href, hkept⟩ := hx
      obtain ⟨row, c, pos, hrow, hc, hknown⟩ := reference?_eq_some.mp href
      obtain ⟨c', hc', rfl⟩ := h.tidy.exists_class hrow
      cases hc.symm.trans hc'
      obtain ⟨hslot, hpool⟩ := Class.known?_eq_some.mp hknown
      obtain ⟨-, ref', href', rfl⟩ := (h.tidy.indexed hc).lookup_iff.mp hslot
      cases hpool.symm.trans href'
      exact hin.refs hc hpool hkept
  | builtin id => exact hin.builtins hx

/-- The closure is exact: after calls that all succeed, the registered classes, the kept members,
the kept references and the kept catalog entries are those that are reached from what the calls
asked for. -/
theorem calls_exact (s : Source) (hnames : s.NoArrays) (calls : List Call) (l : Linker)
    (hok : calls.forM (Call.run s) {} = .ok () l) :
    (∀ name, (∃ row, l.registry.find? name = some row) ↔
      Reached s RuntimeSeeds.defaultRoot l.registry (calls.map Call.seed) (.cls name)) ∧
    (∀ owner sig, (∃ row, l.registry.find? owner = some row ∧ l.registry.KeepsMember row sig) ↔
      Reached s RuntimeSeeds.defaultRoot l.registry (calls.map Call.seed) (.member owner sig)) ∧
    (∀ owner slot, (∃ ref, l.registry.reference? owner slot = some ref ∧ ref.kept = true) ↔
      Reached s RuntimeSeeds.defaultRoot l.registry (calls.map Call.seed) (.ref owner slot)) ∧
    ∀ id, id ∈ l.builtins ↔
      Reached s RuntimeSeeds.defaultRoot l.registry (calls.map Call.seed) (.builtin id) := by
  obtain ⟨hsettled, -, hroot, hseeds, hwithin⟩ :=
    forM_answers (settled_empty s RuntimeSeeds.defaultRoot) hok
  have hcomplete : ∀ {x}, Reached s RuntimeSeeds.defaultRoot l.registry (calls.map Call.seed) x →
      l.Holds x := by
    intro x hx
    induction hx with
    | seed hseed =>
        obtain ⟨call, hcall, rfl⟩ := List.mem_map.mp hseed
        exact hseeds call hcall
    | brought _ hbrings ih => exact holds_of_brings hsettled hnames ih (hroot ▸ hbrings)
  have hin : l.Within l.registry
      (Reached s RuntimeSeeds.defaultRoot l.registry (calls.map Call.seed)) := by
    refine hwithin (fun hx hbrings => .brought hx hbrings) (.refl _)
      (fun call hcall => .seed (List.mem_map.mpr ⟨call, hcall, rfl⟩)) (Linker.within_empty _ _ _)
  have hexact : ∀ x : Item, (∀ m, x ≠ .lookup m) → (l.Holds x ↔
      Reached s RuntimeSeeds.defaultRoot l.registry (calls.map Call.seed) x) := fun x hx =>
    ⟨within_of_holds hsettled.wired hin hx, hcomplete⟩
  refine ⟨fun name => hexact (.cls name) ?_, fun owner sig => hexact (.member owner sig) ?_,
    fun owner slot => hexact (.ref owner slot) ?_, fun id => hexact (.builtin id) ?_⟩
  all_goals
    intro m h
    cases h

/-- A program of two classes, whose entry method calls another method of its class. -/
def sampleSource : Source := .ofDecls [
  { name := RuntimeSeeds.defaultRoot, super := [], isInterface := false, interfaces := []
    fields := [], methods := [], pool := [], poolSize := 1 },
  { name := "Main", super := RuntimeSeeds.defaultRoot, isInterface := false, interfaces := []
    fields := []
    methods := [
      { name := "main", descriptor := "()V", isStatic := true, isNative := false
        isAbstract := false, code := [0xB8, 0x00, 0x01, 0xB1], maxLocals := 0, argSlots := 0
        lines := [], handlers := [], throws := [] },
      { name := "run", descriptor := "()V", isStatic := true, isNative := false
        isAbstract := false, code := [0xB1], maxLocals := 0, argSlots := 0
        lines := [], handlers := [], throws := [] }]
    pool := [⟨1, .member "Main" "run" "()V" false⟩], poolSize := 2 }]

theorem sampleSource_noArrays : sampleSource.NoArrays := by
  intro name d hload
  rw [← Source.name_of_load hload]
  have hall : sampleSource.decls.all (fun d => d.name.head? ≠ some (Text.byte '[')) = true := by
    decide +kernel
  simpa using List.all_eq_true.mp hall d (Source.mem_decls_of_load hload)

/-- The calls that link the sample. -/
def sampleCalls : List Call := [.load "Main", .require ⟨"Main", Signature.defaultEntry⟩]

/-- Requiring the entry method reaches the method that it calls. -/
theorem calls_exact_sample : ∃ l, sampleCalls.forM (Call.run sampleSource) {} = .ok () l ∧
    Reached sampleSource RuntimeSeeds.defaultRoot l.registry (sampleCalls.map Call.seed)
      (.member "Main" ⟨"run", "()V"⟩) := by
  have hcheck : (match sampleCalls.forM (Call.run sampleSource) {} with
      | .ok _ l => l.registry.find? "Main" = some 1 && (l.registry.classAt? 1).any fun c =>
          (c.declared? ⟨"run", "()V"⟩).any Declaration.kept
      | .error _ _ => false) = true := by decide +kernel
  cases hrun : sampleCalls.forM (Call.run sampleSource) {} with
  | error e l => simp [hrun] at hcheck
  | ok u l =>
      simp only [hrun, Bool.and_eq_true, decide_eq_true_eq, Option.any_eq_true] at hcheck
      obtain ⟨hrow, c, hc, d, hd, hkept⟩ := hcheck
      obtain ⟨-, hmembers, -⟩ := calls_exact sampleSource sampleSource_noArrays sampleCalls l hrun
      exact ⟨l, rfl, (hmembers "Main" ⟨"run", "()V"⟩).mp ⟨1, hrow, c, d, hc, hd, hkept⟩⟩

end Closure

end ClassLinker
