import Mathlib.Logic.Relation
import ClassLinker.Proofs.Closure.Overrides

/-! What dispatch can reach is kept. A class passes a signature on to its children when it declares
a dispatched method with it, when one of its direct interfaces does, or when the nearest superclass
with such a method does. Once all overrides have been required, every child of such a class has its
own method kept; so an override of a kept method is kept however far down the superclasses it is. For
interfaces this takes every class on the way to pass the signature on: what lies two links below the
nearest declaration, across an interface, is missed, though it can be called through the interface. -/

namespace ClassLinker

namespace Registry

variable {r : Registry}

/-! ### Superclass chains -/

/-- The class in a row has the one in another row as its superclass. -/
def Extends (r : Registry) (row parent : Nat) : Prop :=
  (r.classAt? row).bind r.superOf? = some parent

theorem Tidy.superOf?_lt (h : r.Tidy) {row parent : Nat} {c : Class} (hc : r.classAt? row = some c)
    (hp : r.superOf? c = some parent) : parent < row := by
  obtain ⟨hne, hp⟩ := Option.ite_none_left_eq_some.mp hp
  obtain ⟨q, hq, hlt⟩ := h.hierarchy.super_lt (h.live_of_class hc) hc hne
  cases hp.symm.trans hq
  exact hlt

theorem Tidy.lt_of_extends (h : r.Tidy) {row parent : Nat} (he : r.Extends row parent) :
    parent < row := by
  obtain ⟨c, hc, hp⟩ := Option.bind_eq_some_iff.mp he
  exact h.superOf?_lt hc hp

theorem Tidy.lt_of_transGen (h : r.Tidy) {row parent : Nat}
    (he : Relation.TransGen r.Extends row parent) : parent < row := by
  induction he with
  | single he => exact h.lt_of_extends he
  | tail _ he ih => exact Nat.lt_trans (h.lt_of_extends he) ih

/-- Superclasses come first, so a chain does not depend on the fuel. -/
theorem Tidy.chainFrom_eq (h : r.Tidy) {row fuel fuel' : Nat} (hfuel : row < fuel)
    (hfuel' : row < fuel') : r.chainFrom fuel row = r.chainFrom fuel' row := by
  induction fuel generalizing row fuel' with
  | zero => omega
  | succ fuel ih =>
      obtain ⟨fuel', rfl⟩ : ∃ k, fuel' = k + 1 := ⟨fuel' - 1, by omega⟩
      unfold chainFrom
      cases hc : r.classAt? row with
      | none => rfl
      | some c =>
          cases hp : r.superOf? c with
          | none => simp only [hp]
          | some parent =>
              have hlt := h.superOf?_lt hc hp
              have hparent : r.chainFrom fuel parent = r.chainFrom fuel' parent :=
                ih (by omega) (by omega)
              simp only [hp, hparent]

/-- A chain is a class and the chain of its superclass. -/
theorem Tidy.chain_eq (h : r.Tidy) {row : Nat} {c : Class} (hc : r.classAt? row = some c) :
    r.chain row = (row, c) :: ((r.superOf? c).map r.chain).getD [] := by
  have hlt := classAt?_lt hc
  obtain ⟨k, hk⟩ : ∃ k, r.rows.size = k + 1 := ⟨r.rows.size - 1, by omega⟩
  rw [chain, hk, chainFrom, hc]
  cases hp : r.superOf? c with
  | none => simp only [hp, Option.map_none, Option.getD_none]
  | some parent =>
      have hplt := h.superOf?_lt hc hp
      have hparent : r.chainFrom k parent = r.chain parent :=
        h.chainFrom_eq (by omega) (by omega)
      simp only [hp, hparent, Option.map_some, Option.getD_some]

end Registry

namespace Closure

open LinkM Registry Linker

/-! ### The signatures that a class passes on -/

/-- A fold of steps that each may add an element. -/
theorem mem_foldl_adds {α β : Type} {f : List α → β → List α} {a : α} {P : β → Prop}
    (hf : ∀ xs b, a ∈ f xs b ↔ a ∈ xs ∨ P b) {bs : List β} {xs : List α} :
    a ∈ bs.foldl f xs ↔ a ∈ xs ∨ ∃ b ∈ bs, P b := by
  induction bs generalizing xs with
  | nil => simp
  | cons b bs ih => rw [List.foldl_cons, ih, hf, or_assoc, List.exists_mem_cons_iff]

theorem mem_addNew {sigs more : List Signature} {sig : Signature} :
    sig ∈ addNew sigs more ↔ sig ∈ sigs ∨ sig ∈ more := by
  have hstep : ∀ (sigs : List Signature) s,
      sig ∈ (if sigs.contains s then sigs else sigs ++ [s]) ↔ sig ∈ sigs ∨ sig = s := by
    intro sigs s
    by_cases hmem : s ∈ sigs
    · rw [if_pos (List.contains_iff_mem.mpr hmem)]
      exact ⟨.inl, fun h => h.elim id fun h => h ▸ hmem⟩
    · rw [if_neg (by simpa using hmem), List.mem_append, List.mem_singleton]
  rw [addNew, mem_foldl_adds hstep]
  simp

/-- A class declares a method with a signature that can be called through dispatch. -/
def Dispatches (c : Class) (sig : Signature) : Prop :=
  ∃ m ∈ c.methods, m.sig = sig ∧ isDispatched m = true

theorem mem_dispatched {c : Class} {sig : Signature} :
    sig ∈ (c.methods.filter isDispatched).map Method.sig ↔ Dispatches c sig := by
  simp only [List.mem_map, List.mem_filter, Dispatches]
  exact ⟨fun ⟨m, ⟨hm, hd⟩, hs⟩ => ⟨m, hm, hs, hd⟩, fun ⟨m, hm, hs, hd⟩ => ⟨m, ⟨hm, hd⟩, hs⟩⟩

/-- The nearest method with a signature in a list of classes. -/
def nearest? (cs : List (Nat × Class)) (sig : Signature) : Option Method :=
  cs.findSome? fun p => p.2.methods.find? fun m => m.sig = sig

/-- What a class inherits from the methods of another one, and what these shadow. -/
theorem mem_addInherited {found : List Signature × List Signature} {methods : List Method}
    {sig : Signature} :
    (sig ∈ (addInherited found methods).1 ↔ sig ∈ found.1 ∨ sig ∉ found.2 ∧
      ∃ m, (methods.find? fun m => m.sig = sig) = some m ∧ isDispatched m = true) ∧
    (sig ∈ (addInherited found methods).2 ↔ sig ∈ found.2 ∨
      (methods.find? fun m => m.sig = sig) ≠ none) := by
  induction methods generalizing found with
  | nil => simp [addInherited]
  | cons m methods ih =>
      have hcons : addInherited found (m :: methods) = addInherited
          (if found.2.contains m.sig then found
          else (if isDispatched m then addNew found.1 [m.sig] else found.1, m.sig :: found.2))
          methods := rfl
      rw [hcons, ih.1, ih.2]
      by_cases hshadow : m.sig ∈ found.2
      · rw [if_pos (List.contains_iff_mem.mpr hshadow)]
        by_cases hsig : m.sig = sig
        · subst hsig
          simp [hshadow]
        · simp [hsig]
      · rw [if_neg (by simpa using hshadow)]
        by_cases hsig : m.sig = sig
        · subst hsig
          by_cases hd : isDispatched m = true
          · simp [hshadow, hd, mem_addNew]
          · simp [hshadow, hd]
        · have hne : sig ≠ m.sig := Ne.symm hsig
          by_cases hd : isDispatched m = true
          · simp [hsig, hne, hd, mem_addNew]
          · simp [hsig, hne, hd]

/-- What a class inherits from its superclasses: the nearest declaration shadows the ones above
it. -/
theorem mem_foldl_addInherited {supers : List (Nat × Class)}
    {found : List Signature × List Signature} {sig : Signature} :
    sig ∈ (supers.foldl (fun found p => addInherited found p.2.methods) found).1 ↔
      sig ∈ found.1 ∨ sig ∉ found.2 ∧ ∃ m, nearest? supers sig = some m ∧ isDispatched m = true := by
  induction supers generalizing found with
  | nil => simp [nearest?]
  | cons p supers ih =>
      rw [List.foldl_cons, ih, mem_addInherited.1, mem_addInherited.2]
      unfold nearest?
      rw [List.findSome?_cons]
      cases hfind : p.2.methods.find? fun m => m.sig = sig with
      | none => simp
      | some m => simp

/-- The signatures that a class passes on to its children. -/
theorem mem_keptSignatures {r : Registry} {row : Nat} {c : Class} {sig : Signature} :
    sig ∈ keptSignatures r row c ↔ Dispatches c sig ∨
      (∃ name ∈ c.interfaces, ∃ p i, r.find? name = some p ∧ r.classAt? p = some i ∧
        Dispatches i sig) ∨
      sig ∉ c.methods.map Method.sig ∧
        ∃ m, nearest? ((r.chain row).drop 1) sig = some m ∧ isDispatched m = true := by
  unfold keptSignatures
  rw [mem_foldl_addInherited]
  dsimp only
  rw [mem_foldl_adds (P := fun name => ∃ p i, r.find? name = some p ∧ r.classAt? p = some i ∧
    Dispatches i sig)]
  · rw [mem_addNew, mem_dispatched]
    simp only [List.not_mem_nil, false_or, or_assoc]
  -- What one interface adds.
  intro sigs name
  cases hi : (r.find? name).bind r.classAt? with
  | none =>
      refine ⟨.inl, fun h => h.elim id ?_⟩
      rintro ⟨p, i, hp, hc, -⟩
      rw [hp, Option.bind_some, hc] at hi
      cases hi
  | some i =>
      obtain ⟨p, hp, hc⟩ := Option.bind_eq_some_iff.mp hi
      dsimp only
      rw [mem_addNew, mem_dispatched]
      refine or_congr_right ⟨fun h => ⟨p, i, hp, hc, h⟩, ?_⟩
      rintro ⟨p', i', hp', hc', h⟩
      cases hp.symm.trans hp'
      cases hc.symm.trans hc'
      exact h

variable {r : Registry}

theorem dispatches_of_method? {row : Nat} {c : Class} {sig : Signature} {m : Method}
    (hc : r.classAt? row = some c) (hm : r.method? row sig = some m) (hd : isDispatched m = true) :
    Dispatches c sig := by
  rw [method?_eq hc] at hm
  exact ⟨m, List.mem_of_find?_eq_some hm, by simpa using List.find?_some hm, hd⟩

/-- The nearest method is that of the class itself or that of its superclass. -/
theorem nearest?_chain (h : r.Tidy) {row : Nat} {c : Class} {sig : Signature}
    (hc : r.classAt? row = some c) : nearest? (r.chain row) sig =
      match r.method? row sig with
      | some m => some m
      | none => nearest? ((r.chain row).drop 1) sig := by
  rw [h.chain_eq hc, nearest?, List.findSome?_cons, method?_eq hc]
  cases c.methods.find? fun m => m.sig = sig <;> rfl

/-- A class passes on the signature of the nearest method, its own or an inherited one. -/
theorem mem_keptSignatures_of_nearest (h : r.Tidy) {row : Nat} {c : Class} {sig : Signature}
    {m : Method} (hc : r.classAt? row = some c) (hm : nearest? (r.chain row) sig = some m)
    (hd : isDispatched m = true) : sig ∈ keptSignatures r row c := by
  rw [mem_keptSignatures]
  rw [nearest?_chain h hc] at hm
  cases hown : r.method? row sig with
  | some m' =>
      rw [hown] at hm
      cases hm
      exact .inl (dispatches_of_method? hc hown hd)
  | none =>
      rw [hown] at hm
      rw [method?_eq hc] at hown
      exact .inr (.inr ⟨by simpa using hown, m, hm, hd⟩)

/-- A class below one that declares a method finds it, or a nearer one on the way to it. -/
theorem exists_nearest (h : r.Tidy) {row base : Nat} {sig : Signature} {m : Method}
    (hm : r.method? base sig = some m) (hpath : Relation.ReflTransGen r.Extends row base) :
    ∃ near mn, nearest? (r.chain row) sig = some mn ∧ r.method? near sig = some mn ∧
      Relation.ReflTransGen r.Extends row near ∧ Relation.ReflTransGen r.Extends near base := by
  induction hpath using Relation.ReflTransGen.head_induction_on with
  | refl =>
      obtain ⟨c, hc, -⟩ := method?_eq_some.mp hm
      exact ⟨base, m, by rw [nearest?_chain h hc, hm], hm, .refl, .refl⟩
  | @head row parent hstep hrest ih =>
      obtain ⟨c, hc, hp⟩ := Option.bind_eq_some_iff.mp hstep
      obtain ⟨near, mn, hnear, hmn, habove, hbelow⟩ := ih
      cases hown : r.method? row sig with
      | some m' => exact ⟨row, m', by rw [nearest?_chain h hc, hown], hown, .refl, .head hstep hrest⟩
      | none =>
          refine ⟨near, mn, ?_, hmn, .head hstep habove, hbelow⟩
          rw [nearest?_chain h hc, hown, h.chain_eq hc, hp]
          exact hnear

theorem isDispatched_iff {m : Method} : isDispatched m = true ↔
    m.kept = true ∧ m.isStatic = false ∧ m.kind ≠ .constructor := by
  simp [isDispatched, and_assoc]

/-! ### Superclasses -/

/-- A link that has kept every override of what its classes pass on. -/
structure OverridesKept (r : Registry) : Prop where
  tidy : r.Tidy
  kept : ∀ {row c}, r.classAt? row = some c → c.kept = true
  pushed : ∀ {row}, row < r.rows.size → PushedDown r row

namespace OverridesKept

/-- A class below one that passes a signature on has its own method kept. -/
theorem override (h : OverridesKept r) {row parent : Nat} {c cp : Class} {sig : Signature}
    {m : Method} (hc : r.classAt? row = some c) (hsuper : r.Supertype c parent)
    (hp : r.classAt? parent = some cp) (hpasses : sig ∈ keptSignatures r parent cp)
    (hm : r.method? row sig = some m) (hkind : m.kind ≠ .constructor) : m.kept = true :=
  h.pushed (classAt?_lt hp) cp row c sig hp hpasses (h.tidy.parented.mem_children hc hsuper hp) hc
    (h.kept hc) m hm hkind

/-- An override of a kept method is kept, any number of classes below it. -/
theorem descendant (h : OverridesKept r) {base : Nat} {sig : Signature} {mb : Method}
    (hmb : r.method? base sig = some mb) (hdispatched : isDispatched mb = true) {row : Nat}
    {m : Method} (hpath : Relation.TransGen r.Extends row base)
    (hbetween : ∀ mid mm, Relation.TransGen r.Extends row mid →
      Relation.TransGen r.Extends mid base → r.method? mid sig = some mm →
      mm.isStatic = false ∧ mm.kind ≠ .constructor)
    (hm : r.method? row sig = some m) (hkind : m.kind ≠ .constructor) : m.kept = true := by
  induction row using Nat.strongRecOn generalizing m with
  | _ row ih =>
      obtain ⟨parent, hstep, hrest⟩ := Relation.TransGen.head'_iff.mp hpath
      obtain ⟨c, hc, hsuper⟩ := Option.bind_eq_some_iff.mp hstep
      obtain ⟨near, mn, hnear, hmn, habove, hbelow⟩ := exists_nearest h.tidy hmb hrest
      have hrow : Relation.TransGen r.Extends row near := .head' hstep habove
      -- The nearest method is that of the base, or an override that is kept by induction.
      have hd : isDispatched mn = true := by
        rcases Relation.reflTransGen_iff_eq_or_transGen.mp hbelow with rfl | hbelow
        · cases hmb.symm.trans hmn
          exact hdispatched
        · obtain ⟨hstatic, hctor⟩ := hbetween near mn hrow hbelow hmn
          refine isDispatched_iff.mpr ⟨?_, hstatic, hctor⟩
          exact ih near (h.tidy.lt_of_transGen hrow) hbelow
            (fun mid mm hmid => hbetween mid mm (hrow.trans hmid)) hmn hctor
      obtain ⟨cp, hcp⟩ := exists_classAt?
        (Nat.lt_trans (h.tidy.lt_of_extends hstep) (classAt?_lt hc))
      exact h.override hc (.inl hsuper) hcp (mem_keptSignatures_of_nearest h.tidy hcp hnear hd)
        hm hkind

end OverridesKept

variable {s : Source} {l l' : Linker}

theorem overridesKept_of_requireOverrides (h : Settled s l)
    (hok : requireOverrides s l = .ok () l') : OverridesKept l'.registry := by
  obtain ⟨hcontinues, -, hpushed⟩ := requireOverrides_ok h hok
  exact ⟨hcontinues.settled.wired.tidy, hcontinues.settled.wired.kept, hpushed⟩

/-- Overrides are kept along superclass chains of any length, and requiring them once more changes
nothing. -/
theorem superclass_overrides_kept (s : Source) (root : Text) (calls : List Call) (l l' : Linker)
    (hrun : calls.forM (Call.run s) { root := root } = .ok () l)
    (hok : requireOverrides s l = .ok () l') :
    (∀ (base row : Nat) (sig : Signature) (mb m : Method),
      Relation.TransGen l'.registry.Extends row base →
      l'.registry.method? base sig = some mb → mb.kept = true → mb.isStatic = false →
      mb.kind ≠ .constructor →
      (∀ mid mm, Relation.TransGen l'.registry.Extends row mid →
        Relation.TransGen l'.registry.Extends mid base → l'.registry.method? mid sig = some mm →
        mm.isStatic = false ∧ mm.kind ≠ .constructor) →
      l'.registry.method? row sig = some m → m.kind ≠ .constructor → m.kept = true) ∧
    requireOverrides s l' = .ok () l' := by
  have hsettled := (forM_answers (settled_empty s root) hrun).1
  refine ⟨?_, (requireOverrides_ok hsettled hok).2.1⟩
  intro base row sig mb m hpath hmb hkept hstatic hctor hbetween hm hkind
  exact (overridesKept_of_requireOverrides hsettled hok).descendant hmb
    (isDispatched_iff.mpr ⟨hkept, hstatic, hctor⟩) hpath hbetween hm hkind

/-- A program in which `Leaf` overrides a method of `Base` that `Mid` inherits. -/
def overrideSource : Source := .ofDecls [
  .bareRoot,
  .simple false "Base" RuntimeSeeds.defaultRoot [] [.simple "run" false [0xB1]] [],
  .simple false "Mid" "Base" [] [] [],
  .simple false "Leaf" "Mid" [] [.simple "run" false [0xB1]] []]

/-- The calls that register all classes of the program and keep the method of `Base`. -/
def overrideCalls : List Call := [.load "Leaf", .require ⟨"Base", "run", "()V"⟩]

/-- The links of the program, and the methods that it declares. -/
def isOverrideProgram (r : Registry) : Bool :=
  (r.classAt? 3).bind r.superOf? = some 2 && (r.classAt? 2).bind r.superOf? = some 1 &&
    (r.method? 2 ⟨"run", "()V"⟩).isNone &&
    (r.method? 1 ⟨"run", "()V"⟩).any isDispatched &&
    (r.method? 3 ⟨"run", "()V"⟩).any fun m => m.kind ≠ .constructor

theorem superclass_overrides_kept_leaf : ∃ l l' m,
    overrideCalls.forM (Call.run overrideSource) { root := RuntimeSeeds.defaultRoot } = .ok () l ∧
    requireOverrides overrideSource l = .ok () l' ∧
    l'.registry.method? 3 ⟨"run", "()V"⟩ = some m ∧ m.kept = true := by
  have hcheck : (match overrideCalls.forM (Call.run overrideSource)
        { root := RuntimeSeeds.defaultRoot } with
      | .ok _ l =>
        match requireOverrides overrideSource l with
        | .ok _ l' => isOverrideProgram l'.registry
        | .error _ _ => false
      | .error _ _ => false) = true := by decide +kernel
  cases hrun : overrideCalls.forM (Call.run overrideSource)
      { root := RuntimeSeeds.defaultRoot } with
  | error e l => simp [hrun] at hcheck
  | ok _ l =>
      simp only [hrun] at hcheck
      cases hok : requireOverrides overrideSource l with
      | error e l' => simp [hok] at hcheck
      | ok _ l' =>
          simp only [hok, isOverrideProgram, Bool.and_eq_true, decide_eq_true_eq, Option.any_eq_true,
            Option.isNone_iff_eq_none] at hcheck
          obtain ⟨⟨⟨⟨hleaf, hmid⟩, hnone⟩, mb, hmb, hd⟩, m, hm, hkind⟩ := hcheck
          obtain ⟨hkept, hstatic, hctor⟩ := isDispatched_iff.mp hd
          obtain ⟨hall, -⟩ := superclass_overrides_kept overrideSource RuntimeSeeds.defaultRoot
            overrideCalls l l' hrun hok
          refine ⟨l, l', m, rfl, hok, hm, hall 1 3 _ mb m (.tail (.single hleaf) hmid) hmb hkept
            hstatic hctor ?_ hm (by simpa using hkind)⟩
          intro mid mm habove hbelow hmm
          -- Superclasses have smaller rows, so only the class in row 2 is in between.
          have htidy := (overridesKept_of_requireOverrides
            (forM_answers (settled_empty _ _) hrun).1 hok).tidy
          have hlt := htidy.lt_of_transGen habove
          have hgt := htidy.lt_of_transGen hbelow
          obtain rfl : mid = 2 := by omega
          cases hnone.symm.trans hmm

/-! ### Interfaces -/

/-- A method that dispatch can choose once it is kept. -/
def Overridable (m : Method) : Prop := m.isStatic = false ∧ m.kind ≠ .constructor

/-- The classes that pass the signature of a method of the class in row `start` on to their
children: that class itself; a class directly below one of them that declares an overridable method
itself; a class that lists one of them as an interface, if that one declares an overridable method;
and a class whose nearest method is the overridable one that one of them declares. -/
inductive PassesOn (r : Registry) (sig : Signature) (start : Nat) : Nat → Prop
  | self : PassesOn r sig start start
  | override {parent row c m} : PassesOn r sig start parent → r.classAt? row = some c →
      r.Supertype c parent → r.method? row sig = some m → Overridable m → PassesOn r sig start row
  | implement {parent row c name m} : PassesOn r sig start parent →
      r.method? parent sig = some m → Overridable m → r.classAt? row = some c →
      name ∈ c.interfaces → r.find? name = some parent → PassesOn r sig start row
  | inherit {parent row c m} : PassesOn r sig start parent → r.method? parent sig = some m →
      Overridable m → r.classAt? row = some c → nearest? (r.chain row) sig = some m →
      PassesOn r sig start row

/-- The classes that pass a signature on have it among their kept ones, and what they declare
themselves is kept. -/
theorem PassesOn.kept (h : OverridesKept r) {sig : Signature} {start : Nat} {cs : Class}
    {ms : Method} (hcs : r.classAt? start = some cs) (hms : r.method? start sig = some ms)
    (hkept : ms.kept = true) (hoverridable : Overridable ms) {row : Nat}
    (hrow : PassesOn r sig start row) :
    (∃ c, r.classAt? row = some c ∧ sig ∈ keptSignatures r row c) ∧
      ∀ {m}, r.method? row sig = some m → Overridable m → m.kept = true := by
  induction hrow with
  | self =>
      refine ⟨⟨cs, hcs, ?_⟩, fun hm _ => ?_⟩
      · exact mem_keptSignatures.mpr
          (.inl (dispatches_of_method? hcs hms (isDispatched_iff.mpr ⟨hkept, hoverridable⟩)))
      · cases hms.symm.trans hm
        exact hkept
  | @override parent row c m _ hc hsuper hm ho ih =>
      obtain ⟨⟨cp, hcp, hpasses⟩, -⟩ := ih
      have hk := h.override hc hsuper hcp hpasses hm ho.2
      refine ⟨⟨c, hc, ?_⟩, fun hm' _ => ?_⟩
      · exact mem_keptSignatures.mpr
          (.inl (dispatches_of_method? hc hm (isDispatched_iff.mpr ⟨hk, ho⟩)))
      · cases hm.symm.trans hm'
        exact hk
  | @implement parent row c name m _ hm ho hc hname hfind ih =>
      obtain ⟨⟨cp, hcp, hpasses⟩, hk⟩ := ih
      have hd := dispatches_of_method? hcp hm (isDispatched_iff.mpr ⟨hk hm ho, ho⟩)
      refine ⟨⟨c, hc, ?_⟩, fun hm' ho' => ?_⟩
      · exact mem_keptSignatures.mpr (.inr (.inl ⟨name, hname, parent, cp, hfind, hcp, hd⟩))
      · exact h.override hc (.inr ⟨name, hname, hfind⟩) hcp hpasses hm' ho'.2
  | @inherit parent row c m _ hm ho hc hnear ih =>
      have hk := ih.2 hm ho
      refine ⟨⟨c, hc, ?_⟩, fun hm' _ => ?_⟩
      · exact mem_keptSignatures_of_nearest h.tidy hc hnear (isDispatched_iff.mpr ⟨hk, ho⟩)
      · rw [nearest?_chain h.tidy hc, hm'] at hnear
        cases hnear
        exact hk

/-- The method that dispatch of a kept interface method finds is kept, if the class that declares it
is the interface itself or directly below a class that passes the signature on. -/
theorem interface_overrides_kept (s : Source) (root : Text) (calls : List Call) (l l' : Linker)
    (hrun : calls.forM (Call.run s) { root := root } = .ok () l)
    (hok : requireOverrides s l = .ok () l') (start owner : Nat) (sig : Signature) (name : Text)
    (co : Class) (ms m : Method) (hms : l'.registry.method? start sig = some ms)
    (hkept : ms.kept = true) (hoverridable : Overridable ms)
    (hfind : l'.registry.findMember ⟨name, sig⟩ = .ok (owner, .method m))
    (hkind : m.kind ≠ .constructor) (hco : l'.registry.classAt? owner = some co)
    (hbelow : owner = start ∨ ∃ parent, l'.registry.Supertype co parent ∧
      PassesOn l'.registry sig start parent) : m.kept = true := by
  have h := overridesKept_of_requireOverrides (forM_answers (settled_empty s root) hrun).1 hok
  obtain ⟨-, co', -, hco', hd⟩ := findMember_ok hfind
  have hm : l'.registry.method? owner sig = some m := method?_eq_some.mpr ⟨co', hco', hd⟩
  rcases hbelow with rfl | ⟨parent, hsuper, hpasses⟩
  · cases hms.symm.trans hm
    exact hkept
  · obtain ⟨cs, hcs, -⟩ := method?_eq_some.mp hms
    obtain ⟨⟨cp, hcp, hsig⟩, -⟩ := hpasses.kept h hcs hms hkept hoverridable
    exact h.override hco hsuper hcp hsig hm hkind

/-- Programs in which `C` implements the interface `I` and `E` extends `C`, both without declaring
the method of `I`, and `D` declares it. -/
def interfaceSource (super : Text) : Source := .ofDecls [
  .bareRoot,
  .simple true "I" RuntimeSeeds.defaultRoot [] [.simple "run" false []] [],
  .simple false "C" RuntimeSeeds.defaultRoot ["I"] [] [],
  .simple false "E" "C" [] [] [],
  .simple false "D" super [] [.simple "run" false [0xB1]] []]

/-- The calls that register `D` and what is above it, and keep the method of `I`. -/
def interfaceCalls : List Call := [.load "D", .require ⟨"I", "run", "()V"⟩]

/-- The registry after the calls and all overrides. -/
def interfaceResult? (super : Text) : Option Registry :=
  match interfaceCalls.forM (Call.run (interfaceSource super))
      { root := RuntimeSeeds.defaultRoot } with
  | .ok _ l =>
    match requireOverrides (interfaceSource super) l with
    | .ok _ l' => some l'.registry
    | .error _ _ => none
  | .error _ _ => none

theorem exists_of_interfaceResult? {super : Text} {r : Registry}
    (h : interfaceResult? super = some r) : ∃ l l',
      interfaceCalls.forM (Call.run (interfaceSource super)) { root := RuntimeSeeds.defaultRoot } =
        .ok () l ∧ requireOverrides (interfaceSource super) l = .ok () l' ∧ l'.registry = r := by
  unfold interfaceResult? at h
  split at h
  · rename_i l hrun
    split at h
    · rename_i l' hok
      cases h
      exact ⟨l, l', hrun, hok, rfl⟩
    · cases h
  · cases h

/-- The method that a lookup in a class finds, if it is a method. -/
def foundMethod? (r : Registry) (m : Member) : Option (Nat × Method) :=
  match r.findMember m with
  | .ok (row, .method m) => some (row, m)
  | _ => none

theorem findMember_of_foundMethod? {r : Registry} {m : Member} {row : Nat} {found : Method}
    (h : foundMethod? r m = some (row, found)) : r.findMember m = .ok (row, .method found) := by
  unfold foundMethod? at h
  split at h
  · rename_i hfind
    cases h
    exact hfind
  · cases h

/-- What is directly below `C` is reached: `C` passes on what its interface declares. -/
theorem interface_overrides_kept_below : ∃ r m, interfaceResult? "C" = some r ∧
    r.findMember ⟨"D", "run", "()V"⟩ = .ok (3, .method m) ∧ m.kept = true := by
  have hcheck : (interfaceResult? "C").any (fun r =>
      (r.method? 1 ⟨"run", "()V"⟩).any isDispatched && r.find? "I" = some 1 &&
      (r.classAt? 2).any (fun c => c.interfaces.contains (Text.ofString "I")) &&
      (r.classAt? 3).any (fun c => r.superOf? c = some 2) &&
      (foundMethod? r ⟨"D", "run", "()V"⟩).any fun p => p.1 = 3 && p.2.kind ≠ .constructor) = true := by
    decide +kernel
  simp only [Option.any_eq_true, Bool.and_eq_true, decide_eq_true_eq, List.contains_iff_mem] at hcheck
  obtain ⟨r, hr, ⟨⟨⟨⟨ms, hms, hd⟩, hI⟩, cC, hcC, hlists⟩, cD, hcD, hsuper⟩, ⟨owner, m⟩, hfound, hrow,
    hkind⟩ := hcheck
  obtain ⟨l, l', hrun, hok, rfl⟩ := exists_of_interfaceResult? hr
  obtain ⟨hkept, hoverridable⟩ := isDispatched_iff.mp hd
  have hfind := findMember_of_foundMethod? hfound
  obtain rfl : owner = 3 := hrow
  exact ⟨_, m, hr, hfind, interface_overrides_kept (interfaceSource "C") RuntimeSeeds.defaultRoot
    interfaceCalls l l' hrun hok 1 3 _ "D" cD ms m hms hkept hoverridable hfind (by simpa using hkind)
    hcD (.inr ⟨2, .inl hsuper, .implement .self hms hoverridable hcC hlists hI⟩)⟩

/-- The class in a row has the one in another row as its superclass or as an interface. -/
def HasSupertype (r : Registry) (row parent : Nat) : Prop :=
  ∃ c, r.classAt? row = some c ∧ r.Supertype c parent

/-- What is further below is missed: `E` neither declares the method nor lists the interface, so it does
not pass the signature on to `D`, whose method a call through `I` would run. -/
theorem interface_overrides_incomplete : ¬ ∀ (s : Source) (root : Text) (calls : List Call)
    (l l' : Linker), calls.forM (Call.run s) { root := root } = .ok () l →
    requireOverrides s l = .ok () l' → ∀ (start row : Nat) (sig : Signature) (cs c : Class)
      (ms : Method), l'.registry.classAt? start = some cs → cs.kind = .interface →
      l'.registry.method? start sig = some ms → ms.kept = true → ms.isStatic = false →
      l'.registry.classAt? row = some c → c.kind = .ordinary →
      Relation.TransGen (HasSupertype l'.registry) row start →
      ∀ owner d, l'.registry.findMember (c.member sig) = .ok (owner, d) → d.kept = true := by
  intro hcomplete
  have hcheck : (interfaceResult? "E").any (fun r =>
      (r.method? 1 ⟨"run", "()V"⟩).any isDispatched && r.find? "I" = some 1 &&
      (r.classAt? 1).any (fun c => c.kind = .interface) &&
      (r.classAt? 2).any (fun c => c.interfaces.contains (Text.ofString "I")) &&
      (r.classAt? 3).any (fun c => r.superOf? c = some 2) &&
      (r.classAt? 4).any (fun c => r.superOf? c = some 3 && c.kind = .ordinary &&
        (foundMethod? r (c.member ⟨"run", "()V"⟩)).any fun p => !p.2.kept)) = true := by
    decide +kernel
  simp only [Option.any_eq_true, Bool.and_eq_true, decide_eq_true_eq, List.contains_iff_mem,
    Bool.not_eq_true'] at hcheck
  obtain ⟨r, hr, ⟨⟨⟨⟨⟨ms, hms, hd⟩, hI⟩, cI, hcI, hkindI⟩, cC, hcC, hlists⟩, cE, hcE, hsuperE⟩,
    cD, hcD, ⟨hsuperD, hkindD⟩, ⟨owner, m⟩, hfound, hdropped⟩ := hcheck
  obtain ⟨l, l', hrun, hok, rfl⟩ := exists_of_interfaceResult? hr
  obtain ⟨hkept, hstatic, -⟩ := isDispatched_iff.mp hd
  have hC : HasSupertype l'.registry 2 1 := ⟨cC, hcC, .inr ⟨_, hlists, hI⟩⟩
  have hE : HasSupertype l'.registry 3 2 := ⟨cE, hcE, .inl hsuperE⟩
  have hD : HasSupertype l'.registry 4 3 := ⟨cD, hcD, .inl hsuperD⟩
  have hm : m.kept = true := hcomplete (interfaceSource "E") RuntimeSeeds.defaultRoot interfaceCalls l l'
    hrun hok 1 4 _ cI cD ms hcI hkindI hms hkept hstatic hcD hkindD
    (.tail (.tail (.single hD) hE) hC) owner (.method m) (findMember_of_foundMethod? hfound)
  rw [hm] at hdropped
  cases hdropped

end Closure

end ClassLinker
