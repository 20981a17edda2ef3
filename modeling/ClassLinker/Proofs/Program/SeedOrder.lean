import ClassLinker.Proofs.InitOrder.Guided
import ClassLinker.Proofs.Program.Kept
import ClassLinker.Proofs.Program.Reseed

/-! The order of seeds does not matter. Two links with the same seeds in another order resolve the
same program, up to the rows and ids of its classes, and go on alike from there. Where no class has
an array as a supertype, one of them succeeds when the other one does: arrays are made, not loaded,
so a class that names one as a supertype can only be loaded after something else has made it. -/

namespace ClassLinker

open Registry InitOrder Closure Linker

/-- The same options but for the order of the seeds of each kind. -/
structure LinkOptions.Reordered (o o' : LinkOptions) : Prop where
  entry_eq : o'.entry = o.entry
  entryMethod_eq : o'.entryMethod = o.entryMethod
  root_eq : o'.runtime.root = o.runtime.root
  bootstrap_eq : o'.runtime.bootstrap = o.runtime.bootstrap
  required : o.required.Perm o'.required
  classes : o.runtime.classes.Perm o'.runtime.classes
  arrays : o.runtime.arrays.Perm o'.runtime.arrays
  members : o.runtime.members.Perm o'.runtime.members

/-- Two programs with the same outcome: the same initialization order, catalog entries and counts,
and classes of the same names that keep the same members and the same references. -/
structure Program.SameOutcome (p p' : Program) : Prop where
  initOrder_eq : p'.initOrder = p.initOrder
  builtins_eq : p'.builtins = p.builtins
  stats_eq : p'.stats = p.stats
  names : ∀ name, (∃ row c, (row, c) ∈ p.registry.classes ∧ c.name = name) ↔
    ∃ row c, (row, c) ∈ p'.registry.classes ∧ c.name = name
  members : ∀ {row row' c c'}, (row, c) ∈ p.registry.classes → (row', c') ∈ p'.registry.classes →
    c'.name = c.name → ∀ sig, c.Keeps sig ↔ c'.Keeps sig
  slots : ∀ {row row' c c'}, (row, c) ∈ p.registry.classes → (row', c') ∈ p'.registry.classes →
    c'.name = c.name → ∀ slot sort, c.KeepsAt slot sort ↔ c'.KeepsAt slot sort

namespace LinkOptions

variable {o o' : LinkOptions}

theorem Reordered.symm (h : o.Reordered o') : o'.Reordered o :=
  ⟨h.entry_eq.symm, h.entryMethod_eq.symm, h.root_eq.symm, h.bootstrap_eq.symm, h.required.symm,
    h.classes.symm, h.arrays.symm, h.members.symm⟩

theorem Reordered.withDefaults (h : o.Reordered o') : o.withDefaults.Reordered o'.withDefaults where
  entry_eq := h.entry_eq
  entryMethod_eq := by simp [LinkOptions.withDefaults, h.entryMethod_eq]
  root_eq := by simp [LinkOptions.withDefaults, h.root_eq]
  bootstrap_eq := h.bootstrap_eq
  required := h.required
  classes := h.classes
  arrays := h.arrays
  members := h.members

theorem Reordered.main_eq (h : o.Reordered o') : o'.main = o.main := by
  rw [main, main, h.entry_eq, h.entryMethod_eq]

theorem Reordered.calls_perm (h : o.Reordered o') : o.calls.Perm o'.calls := by
  unfold calls
  rw [h.root_eq]
  exact ((((h.arrays.map _).append (h.classes.map _)).append (h.required.map _)).append
    (h.members.map _)).cons _

/-- What answers a program answers one with its seeds in another order. -/
theorem Answered.reordered {l : Linker} (h : o.Answered l) (hreordered : o.Reordered o') :
    o'.Answered l where
  calls call hcall := h.calls call (hreordered.calls_perm.mem_iff.mpr hcall)
  entry := hreordered.main_eq ▸ h.entry
  isMethod := hreordered.main_eq ▸ h.isMethod

theorem withDefaults_root_ne (o : LinkOptions) : o.withDefaults.runtime.root ≠ [] := by
  unfold withDefaults
  dsimp only
  split
  · decide
  · assumption

end LinkOptions

namespace Program

variable {s : Source} {o o' : LinkOptions} {l l' : Linker}

/-! ### Resolving -/

theorem finished_of_resolve (hnames : s.NoArrays) (hroot : o.runtime.root ≠ [])
    (hok : resolve s o { root := o.runtime.root } = .ok () l) :
    Finished s l ∧ o.Answered l ∧ l.root = o.runtime.root := by
  obtain ⟨hcontinues, hanswered, hoverrides⟩ := resolve_answered (settled_empty s _) hok
  exact ⟨⟨hcontinues.settled, hnames, hcontinues.root_eq ▸ hroot, hoverrides⟩, hanswered,
    hcontinues.root_eq⟩

/-- Resolving in another order stays inside what was resolved. -/
theorem resolve_reordered (hnames : s.NoArrays) (hroot : o.runtime.root ≠ [])
    (hreordered : o.Reordered o') (hok : resolve s o { root := o.runtime.root } = .ok () l) :
    Reliable s (· = { root := o'.runtime.root }) (resolve s o') fun _ => Ready s l := by
  obtain ⟨hfinished, hanswered, hroot'⟩ := finished_of_resolve hnames hroot hok
  refine (resolve_reliable hfinished (hanswered.reordered hreordered)).imp ?_ fun _ _ h => h
  rintro _ rfl
  rw [hreordered.root_eq, ← hroot']
  exact ready_empty s l

theorem resolve_agree (hnames : s.NoArrays) (hroot : o.runtime.root ≠ [])
    (hreordered : o.Reordered o') (hok : resolve s o { root := o.runtime.root } = .ok () l)
    (hok' : resolve s o' { root := o'.runtime.root } = .ok () l') : Agree s l l' := by
  have hroot' : o'.runtime.root ≠ [] := hreordered.root_eq ▸ hroot
  exact agree_of_inside hnames
    ((resolve_reordered hnames hroot' hreordered.symm hok').ends rfl hok)
    ((resolve_reordered hnames hroot hreordered hok).ends rfl hok')

/-! ### Starting up -/

theorem declaresKept_agree (h : Agree s l l') (m : Member) :
    l.registry.DeclaresKept m ↔ l'.registry.DeclaresKept m := by
  have hholds : ∀ {l : Linker}, l.registry.DeclaresKept m ↔ l.Holds (.member m.className m.sig) := by
    intro l
    constructor
    · rintro ⟨row, c, d, hrow, hc, hd, hkept⟩
      exact ⟨row, hrow, c, d, hc, hd, hkept⟩
    · rintro ⟨row, hrow, c, d, hc, hd, hkept⟩
      exact ⟨row, c, d, hrow, hc, hd, hkept⟩
  rw [hholds, hholds]
  exact h.holds_iff (by simp)

theorem length_startupCalls_agree (h : Agree s l l') (main : Member) (order : List Text) :
    (startupCalls l'.registry main order).length = (startupCalls l.registry main order).length := by
  rw [length_startupCalls, length_startupCalls,
    initializedClasses_congr (fun name => declaresKept_agree h ⟨name, Signature.initializer⟩)]

/-- The startup method can be added where it could be added before. -/
theorem exists_addStartup (h : Agree s l l') {main : Member} (hmain : l'.registry.DeclaresEntry main)
    {order : List Text} {row : Nat} {c : Class} (hrow : l.registry.find? main.className = some row)
    (hc : l.registry.classAt? row = some c)
    (hroom : c.maxSlot + (startupCalls l.registry main order).length ≤ lastSlot)
    (hfresh : c.declared? Signature.startup = none) :
    ∃ row' r', addStartup main.className main.sig order l'.registry = .ok row' r' := by
  obtain ⟨row', c', hrow', hc', hcases⟩ := addStartup_cases h.settled' hmain order
  have hname : c'.name = c.name :=
    (h.settled'.wired.tidy.wellFormed.find_name hrow' hc').trans
      (h.settled.wired.tidy.wellFormed.find_name hrow hc).symm
  obtain ⟨_, c₁, m, hrow₁, hc₁, hm, -⟩ := hmain
  cases hrow'.symm.trans hrow₁
  cases hc'.symm.trans hc₁
  rcases hcases with ⟨deps, -, -, hok, -⟩ | ⟨hfull, -⟩ | ⟨htwice, -⟩
  · exact ⟨row', _, hok⟩
  · have hlength := length_startupCalls_agree h main order
    rw [length_startupCalls] at hlength
    rw [h.symm.maxSlot_eq hc' hc hname.symm hm, ← hlength] at hroom
    omega
  · obtain ⟨d, hd⟩ := Class.exists_declared?.mpr htwice
    have hrel := (h.class_alike hc hc' hname).declared? Signature.startup
    rw [hfresh, hd] at hrel
    cases hrel

/-! ### Linked programs -/

/-- Programs that were built from links that hold the same have the same outcome. -/
theorem sameOutcome_of_agree {p p' : Program} {c₀ c₀' : Class} {deps deps' : List RefAddr}
    {r₁ r₁' : Registry} (h : Agree s l l') (hbuilt : Built s o p l c₀ deps r₁)
    (hbuilt' : Built s o' p' l' c₀' deps' r₁') (hreordered : o.Reordered o')
    (hstats : p.stats = l.stats) (hstats' : p'.stats = l'.stats) : p.SameOutcome p' := by
  have hdefaults := hreordered.withDefaults
  have hmain : p'.main = p.main := by
    rw [hbuilt'.main_eq, hbuilt.main_eq, hdefaults.main_eq]
  have horder : p'.initOrder = p.initOrder := by
    have hscheduled := schedule_agree h hbuilt.scheduled
    rw [← hdefaults.bootstrap_eq, hbuilt'.scheduled] at hscheduled
    exact Except.ok.inj hscheduled
  have hentry : c₀'.name = c₀.name := by
    rw [(hbuilt'.entryRow_iff hbuilt'.entryClass).mp rfl,
      (hbuilt.entryRow_iff hbuilt.entryClass).mp rfl, hmain]
  have hcalls : (Built.calls l' p').length = (Built.calls l p).length := by
    rw [Built.calls, Built.calls, hmain, horder, length_startupCalls_agree h]
  have hmax : c₀'.maxSlot = c₀.maxSlot := by
    obtain ⟨row, c, m, hrow, hc, hm, -⟩ := hbuilt.entry
    cases hbuilt.row_eq.symm.trans hrow
    cases hbuilt.entryClass.symm.trans hc
    exact h.maxSlot_eq hbuilt.entryClass hbuilt'.entryClass hentry hm
  refine ⟨horder, ?_, ?_, fun name => ?_, fun {row row' c c'} hc hc' hname sig => ?_,
    fun {row row' c c'} hc hc' hname slot sort => ?_⟩
  · rw [hbuilt'.builtins_eq, hbuilt.builtins_eq, h.builtins_eq]
  · rw [hstats', hstats, h.stats_eq]
  · rw [hbuilt.exists_named, hbuilt'.exists_named]
    exact h.has_iff
  · obtain ⟨cl, hcl, hclname, hkeeps, -⟩ := hbuilt.exists_kept hc
    obtain ⟨cl', hcl', hclname', hkeeps', -⟩ := hbuilt'.exists_kept hc'
    have hsame : cl'.name = cl.name := hclname'.symm.trans (hname.trans hclname)
    rw [hkeeps, hkeeps', hbuilt.entryRow_iff hcl, hbuilt'.entryRow_iff hcl', hsame, hmain,
      h.keeps_iff hcl hcl' hsame]
  · obtain ⟨cl, hcl, hclname, -, hkeeps⟩ := hbuilt.exists_kept hc
    obtain ⟨cl', hcl', hclname', -, hkeeps'⟩ := hbuilt'.exists_kept hc'
    have hsame : cl'.name = cl.name := hclname'.symm.trans (hname.trans hclname)
    rw [hkeeps, hkeeps', hbuilt.entryRow_iff hcl, hbuilt'.entryRow_iff hcl', hsame, hmain, hcalls,
      hmax, h.keepsAt_iff hcl hcl' hsame]

/-- A program can be linked when it can be linked with its seeds in another order, in a source whose
classes extend no arrays. -/
theorem exists_link_reordered (hnames : s.NoArrays) (hplain : s.PlainSupertypes)
    (hreordered : o.Reordered o') (hok : ∃ p, link s o = .ok p) : ∃ p', link s o' = .ok p' := by
  obtain ⟨p, hp⟩ := hok
  obtain ⟨l, c, deps, r₁, hresolve, -, hbuilt⟩ := link_resolved hp
  have hdefaults := hreordered.withDefaults
  have hroot := o.withDefaults_root_ne
  obtain ⟨_, l', hresolve'⟩ :=
    (resolve_reordered hnames hroot hdefaults hresolve).succeeds hplain rfl
  have hagree := resolve_agree hnames hroot hdefaults hresolve hresolve'
  obtain ⟨-, hmain'⟩ := resolve_ok (settled_empty s _) hresolve'
  have hmain : o'.withDefaults.main = p.main := hdefaults.main_eq.trans hbuilt.main_eq.symm
  obtain ⟨row', r', hadded⟩ := exists_addStartup hagree (hmain ▸ hmain') hbuilt.row_eq
    hbuilt.entryClass hbuilt.room hbuilt.fresh
  have hscheduled := schedule_agree hagree hbuilt.scheduled
  rw [← hdefaults.bootstrap_eq] at hscheduled
  have hentry : o'.entry ≠ [] := hreordered.entry_eq ▸ (link_eq_ok.mp hp).1
  rw [← hmain] at hadded
  obtain ⟨p', -, -, -, hok', -⟩ := exists_link hentry hresolve' hscheduled hadded
  exact ⟨p', hok'⟩

/-- Links do not depend on the order of their seeds, for a source that serves no array classes. Two
links with the same seeds in another order have the same outcome when both succeed; and where no
class has an array as a supertype, both succeed or none does. -/
theorem link_reordered (s : Source) (hnames : s.NoArrays) (o o' : LinkOptions)
    (hreordered : o.Reordered o') :
    (s.PlainSupertypes → ((∃ p, link s o = .ok p) ↔ ∃ p', link s o' = .ok p')) ∧
      ∀ p p', link s o = .ok p → link s o' = .ok p' → p.SameOutcome p' := by
  refine ⟨fun hplain => ⟨exists_link_reordered hnames hplain hreordered,
    exists_link_reordered hnames hplain hreordered.symm⟩, fun p p' hok hok' => ?_⟩
  obtain ⟨l, c, deps, r₁, hresolve, hstats, hbuilt⟩ := link_resolved hok
  obtain ⟨l', c', deps', r₁', hresolve', hstats', hbuilt'⟩ := link_resolved hok'
  have hagree := resolve_agree hnames o.withDefaults_root_ne hreordered.withDefaults hresolve
    hresolve'
  exact sameOutcome_of_agree hagree hbuilt hbuilt' hreordered hstats hstats'

/-- A program with a method that is overridden. -/
def seededSource : Source := .ofDecls [
  .bareRoot,
  .simple false "A" RuntimeSeeds.defaultRoot [] [.simple "run" false [0xB1]] [],
  .simple false "B" "A" [] [.simple "start" true [0xB1], .simple "run" false [0xB1]] [],
  .simple false "C" RuntimeSeeds.defaultRoot [] [.simple "run" false [0xB1]] [],
  .simple false "Main" RuntimeSeeds.defaultRoot [] [.simple "main" true [0xB1]] []]

/-- Options with two seeds of each kind, in an order or its reverse. -/
def seededOptions (inOrder : Bool) : LinkOptions :=
  let arrange {α : Type} (x y : α) : List α := if inOrder then [x, y] else [y, x]
  { entry := "Main"
    entryMethod := Signature.defaultEntry
    required := arrange ⟨"A", "run", "()V"⟩ ⟨"B", "start", "()V"⟩
    runtime :=
      { root := RuntimeSeeds.defaultRoot
        bootstrap := []
        classes := arrange "A" "C"
        members := arrange ⟨"Main", "main", "()V"⟩ ⟨"C", "run", "()V"⟩
        arrays := arrange "[I" "[[LB;" } }

theorem seededOptions_reordered : (seededOptions true).Reordered (seededOptions false) :=
  ⟨rfl, rfl, rfl, rfl, .swap _ _ _, .swap _ _ _, .swap _ _ _, .swap _ _ _⟩

theorem noArrays_of_decls (h : ∀ d ∈ s.decls, d.name.head? ≠ some (Text.byte '[')) :
    s.NoArrays := by
  intro name d hload
  exact Source.name_of_load hload ▸ h d (Source.mem_decls_of_load hload)

theorem link_reordered_seeded : seededSource.NoArrays ∧ seededSource.PlainSupertypes ∧
    (seededOptions true).Reordered (seededOptions false) ∧ ∃ p p',
      link seededSource (seededOptions true) = .ok p ∧
      link seededSource (seededOptions false) = .ok p' ∧
      p.registry.classes.map (fun x => x.2.name) ≠ p'.registry.classes.map (fun x => x.2.name) ∧
      p.SameOutcome p' := by
  have hnames : seededSource.NoArrays := noArrays_of_decls (by decide +kernel)
  have hplain : seededSource.PlainSupertypes := by
    intro name d t hload ht
    have hall : ∀ d ∈ seededSource.decls, ∀ t ∈ supertypes d,
        t.head? ≠ some (Text.byte '[') := by decide +kernel
    exact hall d (Source.mem_decls_of_load hload) t ht
  obtain ⟨hiff, hsame⟩ := link_reordered _ hnames _ _ seededOptions_reordered
  refine ⟨hnames, hplain, seededOptions_reordered, ?_⟩
  have hcheck : (link seededSource (seededOptions true)).toOption.any (fun p =>
      (link seededSource (seededOptions false)).toOption.any fun p' =>
        decide (p.registry.classes.map (fun x => x.2.name) ≠
          p'.registry.classes.map (fun x => x.2.name))) = true := by decide +kernel
  cases hlink : link seededSource (seededOptions true) with
  | error e => simp [hlink, Except.toOption] at hcheck
  | ok p =>
      obtain ⟨p', hlink'⟩ := (hiff hplain).mp ⟨p, hlink⟩
      simp only [hlink, hlink', Except.toOption, Option.any_some, decide_eq_true_eq] at hcheck
      exact ⟨p, p', rfl, hlink', hcheck, hsame p p' hlink hlink'⟩

/-- A program with a class that has an array as an interface. -/
def arrayInterfaceSource : Source := .ofDecls [
  .bareRoot,
  .simple false "A" RuntimeSeeds.defaultRoot ["[I"] [] [],
  .simple false "Main" RuntimeSeeds.defaultRoot [] [.simple "main" true [0xB1]] []]

/-- Options with some arrays as seeds. -/
def arrayOptions (arrays : List Text) : LinkOptions :=
  { bareOptions with runtime := { bareOptions.runtime with arrays } }

/-- The class can be loaded after its array was made, and not before. -/
theorem link_order_dependent : ¬ ∀ s : Source, s.NoArrays → ∀ o o', o.Reordered o' →
    ((∃ p, link s o = .ok p) ↔ ∃ p', link s o' = .ok p') ∧
      ∀ p p', link s o = .ok p → link s o' = .ok p' → p.SameOutcome p' := by
  intro hindependent
  have hnames : arrayInterfaceSource.NoArrays := noArrays_of_decls (by decide +kernel)
  have hreordered : (arrayOptions ["[I", "[LA;"]).Reordered (arrayOptions ["[LA;", "[I"]) :=
    ⟨rfl, rfl, rfl, rfl, .refl _, .refl _, .swap _ _ _, .refl _⟩
  have hfirst : (link arrayInterfaceSource (arrayOptions ["[I", "[LA;"])).isOk = true := by
    decide +kernel
  have hlast : (link arrayInterfaceSource (arrayOptions ["[LA;", "[I"])).isOk = false := by
    decide +kernel
  cases hlink : link arrayInterfaceSource (arrayOptions ["[I", "[LA;"]) with
  | error e => rw [hlink] at hfirst; cases hfirst
  | ok p =>
      obtain ⟨p', hlink'⟩ := (hindependent _ hnames _ _ hreordered).1.mp ⟨p, hlink⟩
      rw [hlink'] at hlast
      cases hlast

end Program

end ClassLinker
