import ClassLinker.Proofs.InitOrder.Cycle
import ClassLinker.Proofs.InitOrder.Guided
import ClassLinker.Proofs.InitOrder.Schedule

/-! When there is an initialization graph. Whatever a kept method of a settled link refers to is found
and kept, so the traversal of a kept initializer never fails, and all initializers are kept. What is
left to go wrong is a field with the name and the descriptor of a static initializer: nothing ties a
name to a kind of member when a class is read or registered, so such a field stands where a method is
expected. -/

namespace ClassLinker

open Registry Closure Linker

/-- A class declares a field with the name and the descriptor of a static initializer. -/
def ClassDecl.HasInitializerField (d : ClassDecl) : Prop :=
  ∃ f ∈ d.fields, f.spec.sig = Signature.initializer

namespace InitOrder

section Settled

variable {s : Source} {l : Linker} {row : Nat} {c : Class}

/-- What a kept method of a settled link refers to is found and kept. -/
theorem exists_keptMember (hs : Closure.Settled s l) (hc : l.registry.classAt? row = some c)
    {m : Method} (hm : m ∈ c.methods) (hkept : m.kept = true) {member : Member}
    (hmember : member ∈ membersOf l.registry m) :
    ∃ p d, l.registry.findMember member = .ok (p, d) ∧ l.registry.KeepsMember p member.sig := by
  obtain ⟨a, ha, ref, t, dc, k, i, href, hbody⟩ := mem_membersOf.mp hmember
  have hmet : l.MethodMet m := (hs.complete.methods hc hm hkept).resolve_left id
  obtain ⟨ref', href', hkeptRef⟩ := hmet.refs (a := a) (.inr (.inr ha))
  cases href.symm.trans href'
  have hneeds := hs.complete.refs href hkeptRef
  rw [RefMet, hbody] at hneeds
  exact hneeds.resolve_left List.not_mem_nil

/-- Every declared initializer of a settled link is kept. -/
theorem kept_initializer (hs : Closure.Settled s l) (hc : l.registry.classAt? row = some c)
    {d : Declaration} (hd : c.declared? Signature.initializer = some d) : d.kept = true := by
  obtain ⟨p, d', hfind, c', d'', hc', hd'', hkept⟩ :=
    (hs.complete.initializers hc hd).resolve_left List.not_mem_nil
  have hself : l.registry.findMember (c.member Signature.initializer) = .ok (row, d) :=
    findMember_of_declared (hs.wired.tidy.find_self hc) hc hd
  cases hfind.symm.trans hself
  cases hc.symm.trans hc'
  cases hd.symm.trans hd''
  exact hkept

/-! ### Traversals -/

/-- The methods that are still to be traversed are kept. -/
def PendingKept (r : Registry) (t : Traversal) : Prop :=
  ∀ key ∈ t.pending, r.KeepsMember key.1 key.2

/-- Following a member that is found and kept succeeds. -/
theorem exists_follow_kept {r : Registry} {t : Traversal} (ht : PendingKept r t) (self : Text)
    {m : Member} {p : Nat} {d : Declaration} (hfind : r.findMember m = .ok (p, d))
    (hkept : r.KeepsMember p m.sig) : ∃ t', follow r self t m = .ok t' ∧ PendingKept r t' := by
  obtain ⟨-, c, -, hc, hd⟩ := findMember_ok hfind
  refine ⟨_, follow_eq hfind hc, ?_⟩
  cases d with
  | field f => exact ht
  | method callee =>
      have hsig : callee.sig = m.sig := Class.sig_of_declared? hd
      rw [withFound]
      split
      · intro key hkey
        rcases List.mem_cons.mp hkey with rfl | hkey
        · exact hsig.symm ▸ hkept
        · exact ht key hkey
      · exact ht

/-- A traversal of kept methods of a settled link succeeds. -/
theorem exists_traverse_kept (hs : Closure.Settled s l) (fuel : Nat) {t : Traversal}
    (ht : PendingKept l.registry t) : ∃ t', traverse l.registry fuel t = .ok t' := by
  fun_induction traverse l.registry fuel t with
  | case1 t => exact ⟨t, rfl⟩
  | case2 fuel t hpending => exact ⟨t, rfl⟩
  | case3 fuel t p sig rest hpending t₀ hc ih =>
      exact ih fun key hkey => ht key (hpending ▸ List.mem_cons_of_mem _ hkey)
  | case4 fuel t p sig rest hpending t₀ c hc hm ih =>
      exact ih fun key hkey => ht key (hpending ▸ List.mem_cons_of_mem _ hkey)
  | case5 fuel t p sig rest hpending t₀ c hc m hm ih =>
      have hrest : PendingKept l.registry { t with pending := rest } := fun key hkey =>
        ht key (hpending ▸ List.mem_cons_of_mem _ hkey)
      -- The method that is traversed was pending, so it is kept.
      obtain ⟨c', d, hc', hd, hkept⟩ := ht (p, sig) (hpending ▸ List.mem_cons_self)
      cases hc.symm.trans hc'
      have hmem := List.mem_of_find?_eq_some hm
      have hsig : m.sig = sig := by simpa using List.find?_some hm
      have hdecl := Class.declared?_method (hs.wired.tidy.wellFormed.signatures_nodup hc) hmem
      rw [hsig] at hdecl
      cases hd.symm.trans hdecl
      have hsteps : ∀ member ∈ (membersOf l.registry m).reverse, ∀ u, PendingKept l.registry u →
          ∃ u', follow l.registry c.name u member = .ok u' ∧ PendingKept l.registry u' := by
        intro member hmember u hu
        obtain ⟨q, d', hfind, hkept'⟩ :=
          exists_keptMember hs hc hmem hkept (List.mem_reverse.mp hmember)
        exact exists_follow_kept hu c.name hfind hkept'
      obtain ⟨t₁, hfold, ht₁⟩ := foldlM_succeeds hsteps hrest
      rw [hfold]
      exact ih t₁ ht₁

/-! ### Initializers -/

/-- The initializer of a class of a settled link is added, unless it is a field. -/
theorem exists_addInitializer_kept (hs : Closure.Settled s l)
    (hc : l.registry.classAt? row = some c) (t : Traversal)
    (hmethod : ∀ f, c.declared? Signature.initializer ≠ some (.field f)) :
    ∃ t', addInitializer l.registry t row c = .ok t' := by
  unfold addInitializer
  cases hd : c.declared? Signature.initializer with
  | none => exact ⟨t, rfl⟩
  | some d =>
      have hkept := kept_initializer hs hc hd
      cases d with
      | field f => exact absurd hd (hmethod f)
      | method m =>
          have hsig : m.sig = Signature.initializer := Class.sig_of_declared? hd
          have hstart : PendingKept l.registry
              { graph := t.graph.addNode c.name, found := (row, m.sig) :: t.found
                pending := [(row, m.sig)] } := by
            intro key hkey
            cases List.mem_singleton.mp hkey
            exact ⟨c, .method m, hc, hsig.symm ▸ hd, hkept⟩
          obtain ⟨t', ht'⟩ := exists_traverse_kept hs (methodCount l.registry + 1) hstart
          refine ⟨t', ?_⟩
          simp only [hkept, Bool.not_true, Bool.false_eq_true, if_false, ht']
          rfl

theorem addInitializer_field (hs : Closure.Settled s l) (hc : l.registry.classAt? row = some c)
    (t : Traversal) {f : Field} (hd : c.declared? Signature.initializer = some (.field f)) :
    addInitializer l.registry t row c = .error .fault := by
  have hkept := kept_initializer hs hc hd
  unfold addInitializer
  simp only [hd, hkept, Bool.not_true, Bool.false_eq_true, if_false]

/-- Building the graph of a settled link fails only with a fault. -/
theorem graphOf_error (hs : Closure.Settled s l) {e : Failure}
    (herror : graphOf l.registry = .error e) : e = .fault := by
  unfold graphOf at herror
  cases hfold : l.registry.keptClasses.foldlM
    (fun t p => addInitializer l.registry t p.1 p.2) ({} : Traversal) with
  | ok t => rw [hfold] at herror; cases herror
  | error e' =>
      rw [hfold] at herror
      cases herror
      obtain ⟨p, hp, t, hstep⟩ := exists_error_of_foldlM hfold
      have hc := (mem_keptClasses.mp hp).2.1
      by_cases hfield : ∃ f, p.2.declared? Signature.initializer = some (.field f)
      · obtain ⟨f, hd⟩ := hfield
        rw [addInitializer_field hs hc t hd] at hstep
        cases hstep
        rfl
      · obtain ⟨t', ht'⟩ := exists_addInitializer_kept hs hc t (not_exists.mp hfield)
        rw [ht'] at hstep
        cases hstep

/-- Building the graph of a settled link fails when and only when some class has a field for an
initializer. -/
theorem graphOf_fault_iff (hs : Closure.Settled s l) : graphOf l.registry = .error .fault ↔
    ∃ row c f, l.registry.classAt? row = some c ∧
      c.declared? Signature.initializer = some (.field f) := by
  constructor
  · intro hfault
    by_contra hnone
    have hsteps : ∀ p ∈ l.registry.keptClasses, ∀ t : Traversal, True →
        ∃ t', addInitializer l.registry t p.1 p.2 = .ok t' ∧ True := by
      intro p hp t _
      have hc := (mem_keptClasses.mp hp).2.1
      obtain ⟨t', ht'⟩ := exists_addInitializer_kept hs hc t fun f hd => hnone ⟨_, _, f, hc, hd⟩
      exact ⟨t', ht', trivial⟩
    obtain ⟨t, hfold, -⟩ := foldlM_succeeds hsteps (b := {}) trivial
    cases (graphOf_ok.mpr ⟨t, hfold, rfl⟩).symm.trans hfault
  · rintro ⟨row, c, f, hc, hd⟩
    cases hgraph : graphOf l.registry with
    | error e => rw [graphOf_error hs hgraph]
    | ok g =>
        have hmem : (row, c) ∈ l.registry.keptClasses :=
          mem_keptClasses.mpr ⟨hs.wired.tidy.live_of_class hc, hc, hs.wired.kept hc⟩
        obtain ⟨m, hm⟩ := exists_initializer hgraph hmem hd (kept_initializer hs hc hd)
        cases hm

/-- A registered class has a field for an initializer when and only when it is no array and its
declaration has one. -/
theorem declares_field_iff (hw : l.Wired s) (hc : l.registry.classAt? row = some c) :
    (∃ f, c.declared? Signature.initializer = some (.field f)) ↔
      c.kind.isArray = false ∧ ∃ d, s.load c.name = .ok d ∧ d.HasInitializerField := by
  constructor
  · rintro ⟨f, hd⟩
    obtain ⟨m, -, heq, -⟩ | ⟨f', hf, heq, hsig⟩ := Class.mem_of_declared? hd
    · cases heq
    · cases heq
      rcases hw.origin hc with ⟨d, hload, hdesc⟩ | harray
      · obtain ⟨decl, hdecl, hfield⟩ := forall₂_mem_right hdesc.fields hf
        have hspec : f.sig = decl.spec.sig := by
          rw [hfield]
          rfl
        refine ⟨?_, d, hload, decl, hdecl, hspec.symm.trans hsig⟩
        rw [hdesc.kind_eq]
        split <;> rfl
      · rw [harray.fields_eq] at hf
        cases hf
  · rintro ⟨hkind, d, hload, decl, hdecl, hsig⟩
    rcases hw.origin hc with ⟨d', hload', hdesc⟩ | harray
    · cases hload.symm.trans hload'
      obtain ⟨f, hf, hfield⟩ := forall₂_mem_left hdesc.fields hdecl
      have hspec : f.sig = decl.spec.sig := by
        rw [hfield]
        rfl
      have hd := Class.declared?_field (hw.tidy.wellFormed.signatures_nodup hc) hf
      rw [hspec, hsig] at hd
      exact ⟨f, hd⟩
    · rcases harray.shape with ⟨p, hprimitive, -⟩ | ⟨hobject, -⟩
      · simp [hprimitive, ClassKind.isArray] at hkind
      · simp [hobject, ClassKind.isArray] at hkind

end Settled

/-- The kept initializers of a link have a graph, whatever it was asked to do, unless it registered
a class whose declaration has a field with the name and the descriptor of a static initializer; then
building the graph ends in a fault. -/
theorem graphOf_total (s : Source) (root : Text) (actions : List Action) (l : Linker)
    (hrun : actions.forM (Action.run s) { root := root } = .ok () l) :
    ((∃ g, graphOf l.registry = .ok g) ∨ graphOf l.registry = .error .fault) ∧
      (graphOf l.registry = .error .fault ↔ ∃ row c d, l.registry.classAt? row = some c ∧
        c.kind.isArray = false ∧ s.load c.name = .ok d ∧ d.HasInitializerField) := by
  have hs := (forM_continues (settled_empty s root) hrun).settled
  constructor
  · cases hgraph : graphOf l.registry with
    | ok g => exact .inl ⟨g, rfl⟩
    | error e =>
        rw [graphOf_error hs hgraph]
        exact .inr rfl
  · rw [graphOf_fault_iff hs]
    refine exists_congr fun row => exists_congr fun c => ?_
    constructor
    · rintro ⟨f, hc, hd⟩
      obtain ⟨hkind, d, hload, hfield⟩ := (declares_field_iff hs.wired hc).mp ⟨f, hd⟩
      exact ⟨d, hc, hkind, hload, hfield⟩
    · rintro ⟨d, hc, hkind, hload, hfield⟩
      obtain ⟨f, hd⟩ := (declares_field_iff hs.wired hc).mpr ⟨hkind, d, hload, hfield⟩
      exact ⟨f, hc, hd⟩

/-- No class of the program has a field, so its initializers have a graph. -/
theorem graphOf_total_inherited : ∃ l,
    [Action.call (.load "A"), .overrides].forM (Action.run inheritedSource)
      { root := RuntimeSeeds.defaultRoot } = .ok () l ∧ ∃ g, graphOf l.registry = .ok g := by
  have hcheck : Step.yields ([Action.call (.load "A"), .overrides].forM
      (Action.run inheritedSource) { root := RuntimeSeeds.defaultRoot }) (fun _ _ => true) = true := by
    decide +kernel
  obtain ⟨⟨⟩, l, hrun, -⟩ := Step.exists_of_yields hcheck
  obtain ⟨hends, hfault⟩ := graphOf_total inheritedSource RuntimeSeeds.defaultRoot
    [.call (.load "A"), .overrides] l hrun
  refine ⟨l, hrun, hends.resolve_right fun h => ?_⟩
  obtain ⟨row, c, d, -, -, hload, f, hf, -⟩ := hfault.mp h
  have hnone : ∀ d ∈ inheritedSource.decls, d.fields = [] := by decide +kernel
  rw [hnone d (Source.mem_decls_of_load hload)] at hf
  cases hf

/-- The class files of a root and of a class `A` with a static field named like an initializer. -/
def clashFiles : List Bytes := [
  [0xCA, 0xFE, 0xBA, 0xBE, 0, 0, 0, 52, 0, 3, 1, 0, 16] ++ RuntimeSeeds.defaultRoot ++
    [7, 0, 1, 0, 0x21, 0, 2, 0, 0, 0, 0, 0, 0, 0, 0, 0, 0],
  [0xCA, 0xFE, 0xBA, 0xBE, 0, 0, 0, 52, 0, 7, 1, 0, 1, 0x41, 7, 0, 1,
    1, 0, 16] ++ RuntimeSeeds.defaultRoot ++ [7, 0, 3, 1, 0, 8] ++ Signature.initializerName ++
    [1, 0, 3, 0x28, 0x29, 0x56,
    0, 0x21, 0, 2, 0, 4, 0, 0, 0, 1, 0, 8, 0, 5, 0, 6, 0, 0, 0, 0, 0, 0]]

/-- The declarations of these class files. -/
def clashDecls : List ClassDecl := [
  { ClassDecl.bareRoot with pool := [⟨2, .classRef RuntimeSeeds.defaultRoot⟩], poolSize := 3 },
  { name := "A", super := RuntimeSeeds.defaultRoot, isInterface := false, interfaces := []
    fields := [⟨Signature.initializerName, "()V", true, 1⟩], methods := []
    pool := [⟨2, .classRef "A"⟩, ⟨4, .classRef RuntimeSeeds.defaultRoot⟩], poolSize := 7 }]

/-- The class files are read and `A` is loaded, and then there is no graph. -/
theorem graphOf_clash : ∃ decls l, clashFiles.mapM ClassDecl.read = .ok decls ∧
    [Action.call (.load "A")].forM (Action.run (.ofDecls decls))
      { root := RuntimeSeeds.defaultRoot } = .ok () l ∧
    graphOf l.registry = .error .fault := by
  have hread : clashFiles.mapM ClassDecl.read = .ok clashDecls := by decide +kernel
  have hcheck : Step.yields ([Action.call (.load "A")].forM (Action.run (.ofDecls clashDecls))
      { root := RuntimeSeeds.defaultRoot })
      (fun _ l => graphOf l.registry = .error .fault) = true := by
    decide +kernel
  obtain ⟨⟨⟩, l, hrun, hgraph⟩ := Step.exists_of_yields hcheck
  exact ⟨clashDecls, l, hread, hrun, of_decide_eq_true hgraph⟩

end InitOrder

end ClassLinker
