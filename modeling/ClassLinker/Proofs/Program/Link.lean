import ClassLinker.Proofs.Program.Linkable
import ClassLinker.Proofs.Registry.Placement

/-! Linking a program after its members are resolved. Adding the startup method can fail, and only
for want of slots or because the entry class has such a method; the layout and the compaction that
follow do not fail. -/

namespace ClassLinker

open Registry InitOrder Closure Step LinkM

section

variable {s : Source} {l : Linker} {main : Member}

/-- What adding the startup method comes to, for the entry class `c` in its row. -/
def StartupAdded (r : Registry) (main : Member) (order : List Text) (row : Nat) (c : Class) : Prop :=
  ∃ deps, c.maxSlot + (startupCalls r main order).length ≤ lastSlot ∧
    c.declared? Signature.startup = none ∧
    addStartup main.className main.sig order r =
      .ok row (r.started row (startupCalls r main order) deps) ∧
    (r.started row (startupCalls r main order) deps).Tidy

/-- Adding the startup method of a settled link. -/
theorem addStartup_cases (hs : Settled s l) (hmain : l.registry.DeclaresEntry main)
    (order : List Text) : ∃ row c, l.registry.find? main.className = some row ∧
      l.registry.classAt? row = some c ∧
      (StartupAdded l.registry main order row c ∨
        (lastSlot < c.maxSlot + ((initializedClasses l.registry order).length + 1 : Nat) ∧
          ∃ r', addStartup main.className main.sig order l.registry =
            .error (.internal (.poolExhausted main.className)) r') ∨
        (Signature.startup ∈ c.signatures ∧
          ∃ r', addStartup main.className main.sig order l.registry =
            .error (.internal (.declaredTwice main.className Signature.startup)) r')) := by
  obtain ⟨row, c, m, hrow, hc, hm, -⟩ := hmain
  have hkept := hs.wired.kept hc
  have htidy := hs.wired.tidy
  have hname : c.name = main.className := htidy.wellFormed.find_name hrow hc
  have hnil : startupCalls l.registry main order ≠ [] := List.append_ne_nil_of_right_ne_nil _
    (List.cons_ne_nil _ _)
  refine ⟨row, c, hrow, hc, ?_⟩
  rw [addStartup_eq hrow hc hkept main.sig order]
  have hcases := addCallsAndStartup_cases htidy hc hkept hnil
  rw [hname] at hcases
  rcases hcases with
    ⟨hroom, hnew, deps, hok, htidy'⟩ | ⟨hfull, herror⟩ | ⟨htwice, herror⟩
  · exact .inl ⟨deps, hroom, hnew, (addStartup_eq hrow hc hkept main.sig order).trans hok, htidy'⟩
  · rw [length_startupCalls] at hfull
    exact .inr (.inl ⟨hfull, herror⟩)
  · obtain ⟨d, hd⟩ := Option.isSome_iff_exists.mp htwice
    exact .inr (.inr ⟨Class.exists_declared?.mp ⟨d, hd⟩, herror⟩)

/-- Once the startup method is added, linking and compacting succeed. -/
theorem exists_linked (hs : Settled s l) (hmain : l.registry.DeclaresEntry main)
    {order : List Text} {row : Nat} {c : Class} (hc : l.registry.classAt? row = some c)
    (hadded : StartupAdded l.registry main order row c) : ∃ r r₁ r₂,
      addStartup main.className main.sig order l.registry = .ok row r ∧
      link r = .ok () r₁ ∧ compact r₁ = .ok () r₂ := by
  obtain ⟨deps, hroom, hnew, hok, htidy⟩ := hadded
  obtain ⟨r₁, hlink⟩ := exists_link_started hs hc hnew
    (fun m hm => declaresKept_of_call hmain.declaresKept hm) htidy
  obtain ⟨r₂, hcompact⟩ := exists_compact_started hs hc hroom htidy hlink
  exact ⟨_, r₁, r₂, hok, hlink, hcompact⟩

end

namespace Program

variable {s : Source} {o : LinkOptions} {l : Linker}

/-- Once the members of a program are resolved, and whatever order its initializers are put in,
adding the startup method fails only when the entry class has too few slots left for its calls or
declares such a method itself; once it is added, the registry is laid out and compacted. -/
theorem link_after_resolve (hresolve : resolve s o { root := o.runtime.root } = .ok () l)
    (order : List Text) : ∃ row c, l.registry.find? o.entry = some row ∧
      l.registry.classAt? row = some c ∧
      match addStartup o.entry o.entryMethod order l.registry with
      | .ok _ r => ∃ r₁ r₂, Registry.link r = .ok () r₁ ∧ Registry.compact r₁ = .ok () r₂
      | .error e _ =>
          e = .internal (.poolExhausted o.entry) ∧
            lastSlot < c.maxSlot + ((initializedClasses l.registry order).length + 1 : Nat) ∨
          e = .internal (.declaredTwice o.entry Signature.startup) ∧
            Signature.startup ∈ c.signatures := by
  obtain ⟨hcontinues, hmain⟩ := resolve_ok (settled_empty s o.runtime.root) hresolve
  have hs := hcontinues.settled
  obtain ⟨row, c, hrow, hc, hcases⟩ := addStartup_cases hs hmain order
  refine ⟨row, c, hrow, hc, ?_⟩
  rcases hcases with hadded | ⟨hfull, r', herror⟩ | ⟨htwice, r', herror⟩
  · obtain ⟨r, r₁, r₂, hok, hlink, hcompact⟩ := exists_linked hs hmain hc hadded
    rw [show addStartup o.entry o.entryMethod order l.registry = _ from hok]
    exact ⟨r₁, r₂, hlink, hcompact⟩
  · rw [show addStartup o.entry o.entryMethod order l.registry = _ from herror]
    exact .inl ⟨rfl, hfull⟩
  · rw [show addStartup o.entry o.entryMethod order l.registry = _ from herror]
    exact .inr ⟨rfl, htwice⟩

/-- A program whose entry method calls a static method of a class with an initializer. -/
def initializedSource : Source := .ofDecls [
  .bareRoot,
  .simple false "A" RuntimeSeeds.defaultRoot []
    [.simple "<clinit>" true [0xB1], .simple "run" true [0xB1]] [],
  .simple false "Main" RuntimeSeeds.defaultRoot []
    [.simple "main" true [0xB8, 0x00, 0x01, 0xB1]] [⟨1, .member "A" "run" "()V" false⟩]]

/-- Options that keep nothing but the entry method of a class. -/
def bareOptions : LinkOptions where
  entry := "Main"
  entryMethod := Signature.defaultEntry
  required := []
  runtime := ⟨RuntimeSeeds.defaultRoot, [], [], [], []⟩

theorem link_after_resolve_initialized : ∃ l r r₁ r₂,
    resolve initializedSource bareOptions { root := bareOptions.runtime.root } = .ok () l ∧
      addStartup bareOptions.entry bareOptions.entryMethod ["A"] l.registry = .ok 1 r ∧
      Registry.link r = .ok () r₁ ∧ Registry.compact r₁ = .ok () r₂ := by
  have hcheck : Step.yields (resolve initializedSource bareOptions
      { root := bareOptions.runtime.root }) (fun _ l => Step.yields
        (addStartup bareOptions.entry bareOptions.entryMethod ["A"] l.registry)
        fun row _ => row = 1) = true := by decide +kernel
  obtain ⟨⟨⟩, l, hresolve, hcheck⟩ := Step.exists_of_yields hcheck
  obtain ⟨row, r, hadded, hcheck⟩ := Step.exists_of_yields hcheck
  obtain rfl := of_decide_eq_true hcheck
  obtain ⟨_, _, -, -, hlink⟩ := link_after_resolve hresolve ["A"]
  rw [hadded] at hlink
  obtain ⟨r₁, r₂, hlink, hcompact⟩ := hlink
  exact ⟨l, r, r₁, r₂, hresolve, hadded, hlink, hcompact⟩

/-- How a program came about: its members were resolved and its initializers ordered, the startup
method was added to the entry class `c`, and the registry was linked and then compacted. -/
structure Built (s : Source) (o : LinkOptions) (p : Program) (l : Linker) (c : Class)
    (deps : List RefAddr) (linked : Registry) : Prop where
  settled : Settled s l
  root_eq : l.root = o.withDefaults.runtime.root
  main_eq : p.main = o.withDefaults.main
  builtins_eq : p.builtins = l.builtins
  entry : l.registry.DeclaresEntry p.main
  scheduled : schedule l.registry o.withDefaults.runtime.bootstrap = .ok p.initOrder
  row_eq : l.registry.find? p.main.className = some p.entryRow
  entryClass : l.registry.classAt? p.entryRow = some c
  room : c.maxSlot + (startupCalls l.registry p.main p.initOrder).length ≤ lastSlot
  fresh : c.declared? Signature.startup = none
  tidy : (l.registry.started p.entryRow (startupCalls l.registry p.main p.initOrder) deps).Tidy
  linkedTo : LinkedTo
    (l.registry.started p.entryRow (startupCalls l.registry p.main p.initOrder) deps) linked
  placed : linked.Placed linked.keptRows
  compactedTo : linked.CompactedTo p.registry

/-- A link is made of its phases. -/
theorem link_eq_ok {p : Program} : link s o = .ok p ↔ o.entry ≠ [] ∧ ∃ l order row r r₁ r₂,
    resolve s o.withDefaults { root := o.withDefaults.runtime.root } = .ok () l ∧
      schedule l.registry o.withDefaults.runtime.bootstrap = .ok order ∧
      addStartup o.withDefaults.entry o.withDefaults.entryMethod order l.registry = .ok row r ∧
      Registry.link r = .ok () r₁ ∧ compact r₁ = .ok () r₂ ∧
      p = ⟨r₂, row, o.withDefaults.main, order, l.builtins, o.withDefaults.runtime, l.stats⟩ := by
  unfold link
  by_cases hentry : o.entry = []
  · simp [hentry]
  rw [if_neg hentry]
  constructor
  · intro hok
    cases hrun : (resolve s o.withDefaults >>= fun _ => finish o.withDefaults)
        { root := o.withDefaults.runtime.root } with
    | error e l => simp only [hrun, reduceCtorEq] at hok
    | ok p' l' =>
        simp only [hrun, Except.ok.injEq] at hok
        subst hok
        obtain ⟨_, l, hresolve, hfinish⟩ := bind_ok.mp hrun
        rw [finish, bind_of_ok (get_ok.mpr ⟨rfl, rfl⟩), bind_of_ok (get_ok.mpr ⟨rfl, rfl⟩)]
          at hfinish
        cases horder : schedule l.registry o.withDefaults.runtime.bootstrap with
        | error e =>
            rw [horder] at hfinish
            simp only [bind_ok, throw_ok, false_and, exists_false] at hfinish
        | ok order =>
            simp only [horder, bind_ok, pure_ok, onRegistry_ok] at hfinish
            obtain ⟨_, _, ⟨rfl, rfl⟩, row, _, ⟨r, hadded, rfl⟩, _, _, ⟨r₁, hlink, rfl⟩, _, _,
              ⟨r₂, hcompact, rfl⟩, _, _, hget, rfl, rfl⟩ := hfinish
            obtain ⟨rfl, rfl⟩ := get_ok.mp hget
            exact ⟨hentry, l, _, row, r, r₁, r₂, hresolve, horder, hadded, hlink, hcompact, rfl⟩
  · rintro ⟨-, l, order, row, r, r₁, r₂, hresolve, horder, hadded, hlink, hcompact, rfl⟩
    have hrun : (resolve s o.withDefaults >>= fun _ => finish o.withDefaults)
        { root := o.withDefaults.runtime.root } =
        .ok ⟨r₂, row, o.withDefaults.main, order, l.builtins, o.withDefaults.runtime, l.stats⟩
          { l with registry := r₂ } := by
      rw [bind_of_ok hresolve, finish, bind_of_ok (get_ok.mpr ⟨rfl, rfl⟩),
        bind_of_ok (get_ok.mpr ⟨rfl, rfl⟩), horder]
      refine (bind_of_ok (pure_ok.mpr ⟨rfl, rfl⟩)).trans ?_
      refine (bind_of_ok (onRegistry_ok.mpr ⟨r, hadded, rfl⟩)).trans ?_
      refine (bind_of_ok (onRegistry_ok.mpr ⟨r₁, hlink, rfl⟩)).trans ?_
      exact bind_of_ok (onRegistry_ok.mpr ⟨r₂, hcompact, rfl⟩)
    simp only [hrun]

/-- A program was built by the phases of its link. -/
theorem exists_built {order : List Text} {row : Nat} {r r₁ r₂ : Registry}
    (hresolve : resolve s o.withDefaults { root := o.withDefaults.runtime.root } = .ok () l)
    (horder : schedule l.registry o.withDefaults.runtime.bootstrap = .ok order)
    (hadded : addStartup o.withDefaults.entry o.withDefaults.entryMethod order l.registry =
      .ok row r)
    (hlink : Registry.link r = .ok () r₁) (hcompact : compact r₁ = .ok () r₂) :
    ∃ c deps, Built s o
      ⟨r₂, row, o.withDefaults.main, order, l.builtins, o.withDefaults.runtime, l.stats⟩
      l c deps r₁ := by
  obtain ⟨hcontinues, hmain⟩ := resolve_ok (settled_empty s _) hresolve
  obtain ⟨row', c, hrow, hc, ⟨deps, hroom, hfresh, hadded', htidy⟩ | ⟨-, r', herror⟩ |
    ⟨-, r', herror⟩⟩ := addStartup_cases hcontinues.settled hmain order
  · cases hadded'.symm.trans hadded
    have hlinked := link_spec hlink
    have hcompacted := compact_spec (hlinked.laid.wellFormed htidy.wellFormed)
      (hlinked.laid.selfNamed fun _ hclass => htidy.find_self hclass) hcompact
    have hplaced := link_placed htidy.wellFormed.keptRows_nodup hlink
    rw [← hlinked.laid.keptRows_eq] at hplaced
    exact ⟨c, deps, {
      settled := hcontinues.settled, root_eq := hcontinues.root_eq, main_eq := rfl
      builtins_eq := rfl, entry := hmain, scheduled := horder, row_eq := hrow, entryClass := hc
      room := hroom, fresh := hfresh, tidy := htidy, linkedTo := hlinked
      placed := hplaced, compactedTo := hcompacted }⟩
  · cases herror.symm.trans hadded
  · cases herror.symm.trans hadded

/-- A linked program was built from what was resolved, which its counts are about. -/
theorem link_resolved {p : Program} (hok : link s o = .ok p) : ∃ l c deps linked,
    resolve s o.withDefaults { root := o.withDefaults.runtime.root } = .ok () l ∧
      p.stats = l.stats ∧ Built s o p l c deps linked := by
  obtain ⟨-, l, order, row, r, r₁, r₂, hresolve, horder, hadded, hlink, hcompact, rfl⟩ :=
    link_eq_ok.mp hok
  obtain ⟨c, deps, hbuilt⟩ := exists_built hresolve horder hadded hlink hcompact
  exact ⟨l, c, deps, r₁, hresolve, rfl, hbuilt⟩

theorem link_ok {p : Program} (hok : link s o = .ok p) :
    ∃ l c deps linked, Built s o p l c deps linked := by
  obtain ⟨l, c, deps, r₁, -, -, hbuilt⟩ := link_resolved hok
  exact ⟨l, c, deps, r₁, hbuilt⟩

/-- A program is linked when its members are resolved, its initializers are ordered and its startup
method is added. -/
theorem exists_link {order : List Text} {row : Nat} {r : Registry} (hentry : o.entry ≠ [])
    (hresolve : resolve s o.withDefaults { root := o.withDefaults.runtime.root } = .ok () l)
    (horder : schedule l.registry o.withDefaults.runtime.bootstrap = .ok order)
    (hadded : addStartup o.withDefaults.entry o.withDefaults.entryMethod order l.registry =
      .ok row r) : ∃ p c deps r₁, link s o = .ok p ∧ p.initOrder = order ∧
        Built s o p l c deps r₁ := by
  obtain ⟨hcontinues, hmain⟩ := resolve_ok (settled_empty s _) hresolve
  obtain ⟨row', c, -, hc, hcases⟩ := addStartup_cases hcontinues.settled hmain order
  have hstartup : StartupAdded l.registry o.withDefaults.main order row' c := by
    rcases hcases with hstartup | ⟨-, r', herror⟩ | ⟨-, r', herror⟩
    · exact hstartup
    · cases herror.symm.trans hadded
    · cases herror.symm.trans hadded
  obtain ⟨r, r₁, r₂, hok, hlink, hcompact⟩ := exists_linked hcontinues.settled hmain hc hstartup
  cases hok.symm.trans hadded
  obtain ⟨c, deps, hbuilt⟩ := exists_built hresolve horder hadded hlink hcompact
  exact ⟨_, c, deps, r₁, link_eq_ok.mpr
    ⟨hentry, l, order, row, r, r₁, r₂, hresolve, horder, hadded, hlink, hcompact, rfl⟩, rfl, hbuilt⟩

end Program

end ClassLinker
