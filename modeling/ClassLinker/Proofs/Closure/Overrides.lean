import ClassLinker.Closure.Overrides
import ClassLinker.Proofs.Closure.Exact
import ClassLinker.Proofs.Registry.Resolve

/-! Requiring overrides. A pass counts the overrides that it requires, so one that counts nothing
changes nothing, and then no class has a child with an override that is still to be kept. The passes
end with such a pass; doing it all again changes nothing. -/

namespace ClassLinker

namespace Registry

theorem mem_subclasses {r : Registry} {c sc : Class} {sub : Nat} :
    (sub, sc) ∈ r.subclasses c ↔ sub ∈ c.children ∧ r.classAt? sub = some sc := by
  simp [subclasses, List.mem_mergeSort, List.mem_filterMap]

/-- The method that the class in a row declares with a signature. -/
def method? (r : Registry) (row : Nat) (sig : Signature) : Option Method :=
  (r.classAt? row).bind fun c => c.methods.find? fun m => m.sig = sig

theorem method?_eq_some {r : Registry} {row : Nat} {sig : Signature} {m : Method} :
    r.method? row sig = some m ↔
      ∃ c, r.classAt? row = some c ∧ c.declared? sig = some (.method m) := by
  rw [method?, Option.bind_eq_some_iff]
  refine exists_congr fun c => and_congr_right fun _ => ⟨fun h => ?_, Class.find?_of_declared?⟩
  rw [Class.declared?, h]

theorem method?_eq {r : Registry} {row : Nat} {c : Class} (hc : r.classAt? row = some c)
    (sig : Signature) : r.method? row sig = c.methods.find? fun m => m.sig = sig := by
  rw [method?, hc, Option.bind_some]

end Registry

namespace Closure

open LinkM RegistryM Step Registry Linker

/-- The method of a class that overrides a signature, if there is one, is kept. -/
def OverrideKept (r : Registry) (row : Nat) (sig : Signature) : Prop :=
  ∀ m, r.method? row sig = some m → m.kind ≠ .constructor → m.kept = true

/-- The kept children of a class have kept what overrides a signature that calls may come through. -/
def PushedDown (r : Registry) (row : Nat) : Prop :=
  ∀ c sub sc sig, r.classAt? row = some c → sig ∈ keptSignatures r row c → sub ∈ c.children →
    r.classAt? sub = some sc → sc.kept = true → OverrideKept r sub sig

/-- A settled link that has grown out of another one. -/
structure Continues (s : Source) (l l' : Linker) : Prop where
  settled : Settled s l'
  grows : l.registry.Grows l'.registry
  root_eq : l'.root = l.root
  counted : l.Counted → l'.Counted

variable {s : Source} {l l' l'' : Linker}

theorem Continues.refl (h : Settled s l) : Continues s l l := ⟨h, .refl _, rfl, id⟩

theorem Continues.trans (h : Continues s l l') (h' : Continues s l' l'') : Continues s l l'' :=
  ⟨h'.settled, h.grows.trans h'.grows, h'.root_eq.trans h.root_eq, fun hl =>
    h'.counted (h.counted hl)⟩

theorem Answers.continues {x : Item} (h : Answers s x l l') : Continues s l l' :=
  ⟨h.settled, h.grows, h.root_eq, h.counted⟩

/-- An override that is kept is left alone, any other one is required. -/
theorem requireOverride_ok {row : Nat} {sig : Signature} {required : Bool}
    (hok : requireOverride s row sig l = .ok required l') :
    required = false ∧ l' = l ∧ OverrideKept l.registry row sig ∨
      required = true ∧ ∃ c m, l.registry.classAt? row = some c ∧
        c.declared? sig = some (.method m) ∧ m.kept = false ∧
        require s (c.member sig) l = .ok () l' := by
  simp only [requireOverride, bind_ok, readClass_ok, and_assoc] at hok
  obtain ⟨c, _, hc, rfl, hok⟩ := hok
  -- Nothing is required unless the class declares a method.
  have hnone : (∀ m, c.declared? sig ≠ some (.method m)) →
      OverrideKept l.registry row sig := by
    intro hd m hm
    obtain ⟨c', hc', hd'⟩ := method?_eq_some.mp hm
    cases hc.symm.trans hc'
    exact absurd hd' (hd m)
  cases hd : c.declared? sig with
  | none =>
      simp only [hd, pure_ok] at hok
      exact .inl ⟨hok.1.symm, hok.2.symm, hnone fun m h => by cases hd.symm.trans h⟩
  | some d =>
      cases d with
      | field f =>
          simp only [hd, pure_ok] at hok
          exact .inl ⟨hok.1.symm, hok.2.symm, hnone fun m h => by cases hd.symm.trans h⟩
      | method m =>
          simp only [hd, bind_ok, ite_ok, pure_ok, Bool.or_eq_true, decide_eq_true_eq] at hok
          rcases hok with ⟨hdone, rfl, rfl⟩ | ⟨hopen, _, _, hrequire, rfl, rfl⟩
          · refine .inl ⟨rfl, rfl, fun m' hm' hkind => ?_⟩
            obtain ⟨c', hc', hd'⟩ := method?_eq_some.mp hm'
            cases hc.symm.trans hc'
            cases hd.symm.trans hd'
            exact hdone.resolve_right hkind
          · have hdropped : m.kept = false := Bool.not_eq_true _ ▸ fun hkept => hopen (.inl hkept)
            exact .inr ⟨rfl, c, m, hc, hd, hdropped, hrequire⟩

theorem requireOverride_continues {row : Nat} {sig : Signature} {required : Bool} (h : Settled s l)
    (hok : requireOverride s row sig l = .ok required l') : Continues s l l' := by
  rcases requireOverride_ok hok with ⟨-, rfl, -⟩ | ⟨-, c, m, -, -, -, hrequire⟩
  · exact .refl h
  · exact (require_answers h hrequire).1.continues

/-! ### One class -/

/-- Requiring the overrides in the children of a class. -/
theorem overridesOf_continues {row n : Nat} (h : Settled s l)
    (hok : overridesOf s row l = .ok n l') : Continues s l l' := by
  simp only [overridesOf, bind_ok, readClass_ok, get_ok, ite_ok, pure_ok, and_assoc] at hok
  obtain ⟨c, _, hc, rfl, _, _, rfl, rfl, ⟨-, -, rfl⟩ | ⟨-, hok⟩⟩ := hok
  · exact .refl h
  refine foldlM_preserves (P := Continues s l) ?_ (.refl h) hok
  intro p n n' t t' _ ht hstep
  simp only [bind_ok, readClass_ok, ite_ok, pure_ok, and_assoc] at hstep
  obtain ⟨sc, _, -, rfl, ⟨-, -, rfl⟩ | ⟨-, hstep⟩⟩ := hstep
  · exact ht
  refine foldlM_preserves (P := Continues s l) ?_ ht hstep
  intro sig k k' u u' _ hu hstep
  simp only [bind_ok, ite_ok, pure_ok] at hstep
  obtain ⟨required, v, hrequire, ⟨-, -, rfl⟩ | ⟨-, -, rfl⟩⟩ := hstep
  · exact hu.trans (requireOverride_continues hu.settled hrequire)
  · exact hu.trans (requireOverride_continues hu.settled hrequire)

/-- When nothing was required, every child has what it overrides kept. -/
theorem overridesOf_idle {row n : Nat} (hok : overridesOf s row l = .ok n l') (hn : n = 0) :
    l' = l ∧ PushedDown l.registry row := by
  simp only [overridesOf, bind_ok, readClass_ok, get_ok, ite_ok, pure_ok, and_assoc] at hok
  obtain ⟨c, _, hc, rfl, _, _, rfl, rfl, ⟨hnone, -, rfl⟩ | ⟨-, hok⟩⟩ := hok
  · refine ⟨rfl, fun _ _ _ _ hc' hsig => ?_⟩
    cases hc.symm.trans hc'
    rw [List.isEmpty_iff.mp hnone] at hsig
    cases hsig
  subst hn
  have hfold := foldlM_idle (Q := fun p (u : Linker) =>
    ∀ sc, u.registry.classAt? p.1 = some sc → sc.kept = true →
      ∀ sig ∈ keptSignatures l.registry row c, OverrideKept u.registry p.1 sig) ?_ hok
  · obtain ⟨rfl, hpushed⟩ := hfold.2 rfl
    refine ⟨rfl, fun c' sub sc sig hc' hsig hsub hsc hkept => ?_⟩
    cases hc.symm.trans hc'
    exact hpushed (sub, sc) (mem_subclasses.mpr ⟨hsub, hsc⟩) sc hsc hkept sig hsig
  rintro ⟨sub, sc⟩ k k' u u' - hstep
  simp only [bind_ok, readClass_ok, ite_ok, pure_ok, and_assoc] at hstep
  obtain ⟨sc', _, hsc', rfl, ⟨hdropped, rfl, rfl⟩ | ⟨-, hstep⟩⟩ := hstep
  · refine ⟨Nat.le_refl _, fun _ => ⟨rfl, fun sc'' hsc'' hkept => ?_⟩⟩
    cases hsc'.symm.trans hsc''
    simp [hkept] at hdropped
  have hfold := foldlM_idle (Q := fun sig (v : Linker) => OverrideKept v.registry sub sig) ?_ hstep
  · refine ⟨hfold.1, fun heq => ?_⟩
    obtain ⟨rfl, hall⟩ := hfold.2 heq
    exact ⟨rfl, fun _ _ _ => hall⟩
  intro sig i i' v v' _ hstep
  simp only [bind_ok, ite_ok, pure_ok] at hstep
  obtain ⟨required, w, hrequire, ⟨htrue, rfl, rfl⟩ | ⟨hfalse, rfl, rfl⟩⟩ := hstep
  · exact ⟨Nat.le_succ _, fun heq => absurd heq (Nat.succ_ne_self _)⟩
  · refine ⟨Nat.le_refl _, fun _ => ?_⟩
    rcases requireOverride_ok hrequire with ⟨-, rfl, hkept⟩ | ⟨htrue, -⟩
    · exact ⟨rfl, hkept⟩
    · exact absurd htrue hfalse

/-! ### Passes -/

theorem overridePass_continues {n : Nat} (h : Settled s l) (hok : overridePass s l = .ok n l') :
    Continues s l l' := by
  simp only [overridePass, bind_ok, get_ok, and_assoc] at hok
  obtain ⟨_, _, rfl, rfl, hok⟩ := hok
  refine foldlM_preserves (P := Continues s l) ?_ (.refl h) hok
  intro row n n' t t' _ ht hstep
  simp only [bind_ok, pure_ok] at hstep
  obtain ⟨k, _, hrow, -, rfl⟩ := hstep
  exact ht.trans (overridesOf_continues ht.settled hrow)

/-- A pass that requires nothing changes nothing. -/
theorem overridePass_idle (hok : overridePass s l = .ok 0 l') :
    l' = l ∧ ∀ {row c}, (row, c) ∈ l.registry.keptClasses → PushedDown l.registry row := by
  simp only [overridePass, bind_ok, get_ok, and_assoc] at hok
  obtain ⟨_, _, rfl, rfl, hok⟩ := hok
  have hfold := foldlM_idle (Q := fun row (u : Linker) => PushedDown u.registry row) ?_ hok
  · obtain ⟨rfl, hpushed⟩ := hfold.2 rfl
    exact ⟨rfl, fun {row c} hmem => hpushed row (List.mem_map.mpr ⟨(row, c), hmem, rfl⟩)⟩
  · intro row n n' t t' _ hstep
    simp only [bind_ok, pure_ok] at hstep
    obtain ⟨k, _, hrow, rfl, rfl⟩ := hstep
    exact ⟨Nat.le_add_right _ _, fun heq => overridesOf_idle hrow (by omega)⟩

/-- The passes end with one that requires nothing. -/
theorem overridePasses_ok {fuel : Nat} (h : Settled s l)
    (hok : overridePasses s fuel l = .ok () l') :
    Continues s l l' ∧ overridePass s l' = .ok 0 l' := by
  induction fuel generalizing l with
  | zero => simp [overridePasses] at hok
  | succ fuel ih =>
      simp only [overridePasses, bind_ok, ite_ok, pure_ok] at hok
      obtain ⟨n, l₁, hpass, ⟨-, hok⟩ | ⟨hn, -, rfl⟩⟩ := hok
      · have h₁ := overridePass_continues h hpass
        obtain ⟨hcontinues, hlast⟩ := ih h₁.settled hok
        exact ⟨h₁.trans hcontinues, hlast⟩
      · obtain rfl : n = 0 := by simpa using hn
        obtain ⟨rfl, -⟩ := overridePass_idle hpass
        exact ⟨.refl h, hpass⟩

/-- Nothing is left to be required once all overrides have been. -/
theorem requireOverrides_ok (h : Settled s l) (hok : requireOverrides s l = .ok () l') :
    Continues s l l' ∧ requireOverrides s l' = .ok () l' ∧
      ∀ {row}, row < l'.registry.rows.size → PushedDown l'.registry row := by
  obtain ⟨hcontinues, hlast⟩ := overridePasses_ok h hok
  refine ⟨hcontinues, ?_, fun {row} hlt => ?_⟩
  · rw [requireOverrides, overridePasses, bind_of_ok hlast]
    rfl
  · have hwired := hcontinues.settled.wired
    obtain ⟨c, hc⟩ := exists_classAt? hlt
    exact (overridePass_idle hlast).2
      (mem_keptClasses.mpr ⟨hwired.tidy.mem_live.mpr hlt, hc, hwired.kept hc⟩)

/-! ### Calls of all kinds -/

/-- Something that a link is asked to do. -/
inductive Action where
  | call (c : Call)
  | overrides
deriving DecidableEq

/-- Does what a link is asked to do. -/
def Action.run (s : Source) : Action → LinkM Unit
  | call c => c.run s
  | overrides => requireOverrides s

theorem run_continues {action : Action} (h : Settled s l) (hok : action.run s l = .ok () l') :
    Continues s l l' := by
  cases action with
  | call c => exact (run_answers h hok).1.continues
  | overrides => exact (requireOverrides_ok h hok).1

/-- A link that was asked to do several things, and did, is settled. -/
theorem forM_continues {actions : List Action} (h : Settled s l)
    (hok : actions.forM (Action.run s) l = .ok () l') : Continues s l l' :=
  forM_preserves (P := Continues s l)
    (fun _ _ _ _ hu hstep => hu.trans (run_continues hu.settled hstep)) (.refl h) hok

end Closure

/-! ### Small programs

Declarations with few members, for programs to try a result on. -/

/-- A method without parameters. -/
def MethodDecl.simple (name : Text) (isStatic : Bool) (code : Bytes) : MethodDecl :=
  { name, descriptor := "()V", isStatic, isNative := false, isAbstract := code.isEmpty, code
    maxLocals := 0, argSlots := 0, lines := [], handlers := [], throws := [] }

/-- A class or an interface with methods and a pool. -/
def ClassDecl.simple (isInterface : Bool) (name super : Text) (interfaces : List Text)
    (methods : List MethodDecl) (pool : List PoolSlot) : ClassDecl :=
  { name, super, isInterface, interfaces, fields := [], methods, pool, poolSize := pool.length + 1 }

/-- The root of the class hierarchy, with nothing in it. -/
def ClassDecl.bareRoot : ClassDecl := .simple false RuntimeSeeds.defaultRoot [] [] [] []

end ClassLinker
