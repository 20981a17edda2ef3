import ClassLinker.Program
import ClassLinker.Proofs.Closure.Dispatch

/-! Resolving a program. What is resolved is settled, and the entry class declares the entry method
itself, as a static method that is kept. -/

namespace ClassLinker

/-- The class that a member names declares it as a kept static method. -/
def Registry.DeclaresEntry (r : Registry) (main : Member) : Prop :=
  ∃ row c m, r.find? main.className = some row ∧ r.classAt? row = some c ∧
    c.declared? main.sig = some (.method m) ∧ m.kept = true ∧ m.isStatic = true

theorem Registry.DeclaresEntry.grows {r r' : Registry} {main : Member} (h : r.DeclaresEntry main)
    (hgrows : r.Grows r') : r'.DeclaresEntry main := by
  obtain ⟨row, c, m, hrow, hc, hm, hkept, hstatic⟩ := h
  obtain ⟨c', hc', hgrow⟩ := hgrows.classes hc
  obtain ⟨d', hd', hgrowm⟩ := hgrow.declared?_some hm
  cases d' with
  | field f => exact hgrowm.elim
  | method m' =>
      refine ⟨row, c', m', hgrows.find hrow, hc', hd', hgrowm.kept hkept, ?_⟩
      rw [Method.Grows.frame hgrowm]
      exact hstatic

namespace Program

open LinkM Closure Step Registry Linker

variable {s : Source} {l l' : Linker}

theorem requireEntry_ok {main : Member} (h : Settled s l)
    (hok : requireEntry s main l = .ok () l') :
    Continues s l l' ∧ l'.registry.DeclaresEntry main ∧ main.sig.isMethod = true := by
  simp only [requireEntry, bind_ok, discard_ok] at hok
  obtain ⟨_, l₁, ⟨start, hload⟩, _, _, hget, hok⟩ := hok
  obtain ⟨rfl, rfl⟩ := get_ok.mp hget
  obtain ⟨hload₁, -⟩ := load_answers h hload
  have htidy := hload₁.settled.wired.tidy
  cases hfind : l₁.registry.findMember main with
  | error e => simp [hfind] at hok
  | ok found =>
      obtain ⟨row, d⟩ := found
      simp only [hfind, bind_ok, readClass_ok] at hok
      obtain ⟨owner, _, ⟨howner, rfl⟩, hok⟩ := hok
      cases d with
      | field f => simp at hok
      | method m =>
          simp only [Bool.not_eq_eq_eq_not, Bool.not_true, ne_eq, ite_not, ite_ok, bind_ok, fail_ok,
            false_and, exists_false, and_false, or_false, Bool.not_eq_false,
            false_or] at hok
          obtain ⟨hmethod, hstatic, hname, hrequire⟩ := hok
          obtain ⟨hrequired, hmet⟩ := require_answers hload₁.settled hrequire
          refine ⟨hload₁.continues.trans hrequired.continues, ?_, hmethod⟩
          have hrow : l₁.registry.find? main.className = some row :=
            hname ▸ htidy.find_self howner
          obtain ⟨-, c, -, hc, hd⟩ := findMember_ok hfind
          cases howner.symm.trans hc
          -- What was found stays found, and it is what was required.
          obtain ⟨c', hc', hgrow⟩ := hrequired.grows.classes howner
          obtain ⟨d', hfind', hgrowd⟩ :=
            hrequired.grows.findMember htidy.wellFormed htidy.hierarchy hfind
          cases d' with
          | field f => exact hgrowd.elim
          | method m' =>
              obtain ⟨-, c'', -, hc'', hd'⟩ := findMember_ok hfind'
              cases hc'.symm.trans hc''
              refine ⟨row, c', m', hrequired.grows.find hrow, hc', hd', ?_, ?_⟩
              · rcases hmet with hnone | ⟨row', d, hfound, c₂, d₂, hc₂, hd₂, hkept⟩
                · cases hnone
                · cases hfind'.symm.trans hfound
                  cases hc'.symm.trans hc₂
                  cases hd'.symm.trans hd₂
                  exact hkept
              · rw [Method.Grows.frame hgrowd]
                exact hstatic

/-- A call that was made continues the link, which holds what was asked for. -/
theorem call_ok (call : Call) {f : Error → Error} (h : Settled s l)
    (hok : mapError f (call.run s) l = .ok () l') :
    Continues s l l' ∧ l'.Holds call.seed := by
  obtain ⟨hanswers, hholds⟩ := run_answers h (mapError_ok.mp hok)
  exact ⟨hanswers.continues, hholds⟩

/-- A sequence of calls continues the link, which holds all that was asked for. -/
theorem calls_ok {α : Type} (call : α → Call) {f : α → Error → Error} {xs : List α}
    (h : Settled s l) (hok : xs.forM (fun x => mapError (f x) ((call x).run s)) l = .ok () l') :
    Continues s l l' ∧ ∀ x ∈ xs, l'.Holds (call x).seed := by
  have hrun := forM_collects (R := fun u v => Settled s u → Continues s u v)
    (Q := fun x u => Settled s u → u.Holds (call x).seed) (fun h => .refl h)
    (fun huv hvw hu => (huv hu).trans (hvw (huv hu).settled)) (fun hx hu huv hQ _ => ?_)
    (fun hx hu hok => ?_) hok
  · exact ⟨hrun.1 h, fun x hx => hrun.2 x hx (hrun.1 h).settled⟩
  · have hu' := (hu h).settled
    exact holds_seed_grows hu' (huv hu').grows (hQ hu')
  · have hstep := call_ok _ (hu h).settled hok
    exact ⟨fun _ => hstep.1, fun _ => hstep.2⟩

end Program

/-- The calls that are made for a program besides those for its entry method. -/
def LinkOptions.calls (o : LinkOptions) : List Closure.Call :=
  .load o.runtime.root :: (o.runtime.arrays.map .load ++ o.runtime.classes.map .load ++
    o.required.map .require ++ o.runtime.members.map .require)

/-- All that was asked for is there: the calls hold, and the entry method is a method that the entry
class declares. -/
structure LinkOptions.Answered (o : LinkOptions) (l : Linker) : Prop where
  calls : ∀ call ∈ o.calls, l.Holds call.seed
  entry : l.registry.DeclaresEntry o.main
  isMethod : o.main.sig.isMethod = true

namespace Program

open LinkM Closure Step Registry Linker

variable {s : Source} {l l' : Linker}

/-- A resolved program holds all that was asked for and every override. -/
theorem resolve_answered {o : LinkOptions} (h : Settled s l) (hok : resolve s o l = .ok () l') :
    Continues s l l' ∧ o.Answered l' ∧ OverridesKept l'.registry := by
  simp only [resolve, bind_ok] at hok
  obtain ⟨_, l₁, hroot, _, l₂, harrays, _, l₃, hclasses, _, l₄, hentry, _, l₅, hrequired, _, l₆,
    hmembers, hoverrides⟩ := hok
  obtain ⟨h₁, hroot⟩ := call_ok (.load o.runtime.root) (f := id) h (mapError_ok.mpr hroot)
  obtain ⟨h₂, harrays⟩ := calls_ok Call.load h₁.settled harrays
  obtain ⟨h₃, hclasses⟩ := calls_ok Call.load h₂.settled hclasses
  obtain ⟨h₄, hmain, hmethod⟩ := requireEntry_ok h₃.settled hentry
  obtain ⟨h₅, hrequired⟩ := calls_ok Call.require h₄.settled hrequired
  obtain ⟨h₆, hmembers⟩ := calls_ok Call.require h₅.settled hmembers
  have h₇ := (requireOverrides_ok h₆.settled hoverrides).1
  have h₅₇ := h₆.trans h₇
  have h₄₇ := h₅.trans h₅₇
  have h₃₇ := h₄.trans h₄₇
  have h₂₇ := h₃.trans h₃₇
  have h₁₇ := h₂.trans h₂₇
  refine ⟨h₁.trans h₁₇, ⟨?_, hmain.grows h₄₇.grows, hmethod⟩,
    overridesKept_of_requireOverrides h₆.settled hoverrides⟩
  -- What a call was answered with stays.
  intro call hcall
  simp only [LinkOptions.calls, List.mem_cons, List.mem_append, List.mem_map] at hcall
  rcases hcall with rfl | ((⟨x, hx, rfl⟩ | ⟨x, hx, rfl⟩) | ⟨x, hx, rfl⟩) | ⟨x, hx, rfl⟩
  · exact holds_seed_grows h₁.settled h₁₇.grows hroot
  · exact holds_seed_grows h₂.settled h₂₇.grows (harrays x hx)
  · exact holds_seed_grows h₃.settled h₃₇.grows (hclasses x hx)
  · exact holds_seed_grows h₅.settled h₅₇.grows (hrequired x hx)
  · exact holds_seed_grows h₆.settled h₇.grows (hmembers x hx)

/-- A resolved program is settled, and the entry method is there. -/
theorem resolve_ok {o : LinkOptions} (h : Settled s l) (hok : resolve s o l = .ok () l') :
    Continues s l l' ∧ l'.registry.DeclaresEntry o.main := by
  obtain ⟨hcontinues, hanswered, -⟩ := resolve_answered h hok
  exact ⟨hcontinues, hanswered.entry⟩

end Program

end ClassLinker
