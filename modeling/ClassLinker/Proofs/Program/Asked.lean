import ClassLinker.Image.Build
import ClassLinker.Proofs.Closure.Parallel
import ClassLinker.Proofs.Closure.Termination
import ClassLinker.Proofs.Program.Link

/-! A program depends only on the classes that linking it asks for. Two sources that give the same
answers for those names make the same program, whatever else they hold: adding, removing or changing
a class that is never asked for changes nothing. -/

namespace ClassLinker

namespace Program

open LinkM Closure Step

variable {s s' : Source} {o : LinkOptions}

/-- The names that a link asks its source for. Only resolving asks. -/
def asked (s : Source) (o : LinkOptions) : List Text :=
  if o.entry = [] then []
  else (final (resolve s o.withDefaults { root := o.withDefaults.runtime.root })).asked

/-! ### Resolving -/

theorem requireEntry_parallel (s s' : Source) (main : Member) :
    Parallel s s' (requireEntry s main) (requireEntry s' main) := by
  refine (load_parallel s s' _).discard.bind fun _ => .bind (.refl .get) fun l => ?_
  split
  · exact .refl (.fail _)
  · refine .bind (.refl (.readClass _)) fun owner => ?_
    split
    · exact .refl (.fail _)
    · exact .guard (.guard (.guard (require_parallel s s' main)))

theorem resolve_parallel (s s' : Source) (o : LinkOptions) :
    Parallel s s' (resolve s o) (resolve s' o) := by
  refine (load_parallel s s' _).discard.bind fun _ =>
    .bind (.forM fun name _ => (load_parallel s s' name).discard.mapError) fun _ =>
    .bind (.forM fun name _ => (load_parallel s s' name).discard.mapError) fun _ =>
    (requireEntry_parallel s s' _).bind fun _ =>
    .bind (.forM fun m _ => (require_parallel s s' m).mapError) fun _ =>
    .bind (.forM fun m _ => (require_parallel s s' m).mapError) fun _ =>
    requireOverrides_parallel s s'

theorem requireEntry_metered (main : Member) : Metered s 0 0 (requireEntry s main) := by
  refine (load_metered _).discard.seq fun _ => Metered.get.seq fun l => ?_
  split
  · exact .fail _
  · refine (Metered.readClass _).seq fun owner => ?_
    split
    · exact .fail _
    · exact .guard (.guard (.guard (require_metered main)))

theorem resolve_metered (o : LinkOptions) : Metered s 0 0 (resolve s o) :=
  (load_metered _).discard.seq fun _ =>
    (Metered.loop fun name _ => (load_metered name).discard.mapError).seq fun _ =>
    (Metered.loop fun name _ => (load_metered name).discard.mapError).seq fun _ =>
    (requireEntry_metered _).seq fun _ =>
    (Metered.loop fun m _ => (require_metered m).mapError).seq fun _ =>
    (Metered.loop fun m _ => (require_metered m).mapError).seq fun _ => requireOverrides_metered

/-- A root with the name of an array would have to be loaded before itself. -/
theorem loadFrom_ownRoot (fuel : Nat) {l : Linker} (hbracket : l.root.head? = some (Text.byte '['))
    (hnew : l.registry.find? l.root = none) :
    loadFrom s fuel l.root l = .error .fault { l with cut := true } := by
  induction fuel with
  | zero => rfl
  | succ fuel ih =>
      rw [loadFrom, bind_of_ok (registered?_ok.mpr ⟨hnew, rfl⟩)]
      dsimp only
      rw [if_pos hbracket, bind_of_ok (get_ok.mpr ⟨rfl, rfl⟩)]
      exact bind_of_error (discard_error.mpr ih)

theorem resolve_ownRoot (hbracket : o.runtime.root.head? = some (Text.byte '[')) :
    resolve s o { root := o.runtime.root } =
      .error .fault { root := o.runtime.root, cut := true } := by
  have hload := loadFrom_ownRoot (s := s) (o.runtime.root.length + 1)
    (l := { root := o.runtime.root }) hbracket rfl
  exact bind_of_error (discard_error.mpr (bind_of_error hload))

/-- Resolving with sources that give the same answers is the same. -/
theorem resolve_of_agreeOn
    (h : s.AgreeOn s' (final (resolve s o { root := o.runtime.root })).asked) :
    resolve s' o { root := o.runtime.root } = resolve s o { root := o.runtime.root } := by
  by_cases hbracket : o.runtime.root.head? = some (Text.byte '[')
  · rw [resolve_ownRoot hbracket, resolve_ownRoot hbracket]
  · have hfit := fit_empty hbracket
    exact (resolve_parallel s s' o).same hfit.orderly h ((resolve_metered o).spends hfit).cut_eq
      ((resolve_metered o).spends hfit).cut_eq

/-! ### Linking -/

/-- A source that answers what linking asks in the same way makes the same program, or the same
error, and so the same image; and it is asked the same. -/
theorem link_of_agreeOn (h : s.AgreeOn s' (asked s o)) :
    link s' o = link s o ∧ (link s' o >>= image) = (link s o >>= image) ∧
      asked s' o = asked s o := by
  by_cases hentry : o.entry = []
  · simp only [link, asked, if_pos hentry, and_self]
  · rw [asked, if_neg hentry] at h
    have hresolve := resolve_of_agreeOn h
    have hlink : link s' o = link s o := by
      simp only [link, if_neg hentry]
      rw [bind_of_same hresolve]
    refine ⟨hlink, by rw [hlink], ?_⟩
    rw [asked, asked, if_neg hentry, if_neg hentry, hresolve]

/-- A program with a class that it does not use, which may declare anything. -/
def sourceWithUnused (methods : List MethodDecl) : Source := .ofDecls [
  .bareRoot,
  .simple false "Main" RuntimeSeeds.defaultRoot [] [.simple "main" true [0xB1]] [],
  .simple false "Unused" RuntimeSeeds.defaultRoot [] methods []]

theorem link_of_agreeOn_unused :
    (sourceWithUnused [.simple "run" true [0xB1]]).load "Unused" ≠
        (sourceWithUnused []).load "Unused" ∧
      (sourceWithUnused []).AgreeOn (sourceWithUnused [.simple "run" true [0xB1]])
        (asked (sourceWithUnused []) bareOptions) ∧
      ∃ p, link (sourceWithUnused []) bareOptions = .ok p ∧
        link (sourceWithUnused [.simple "run" true [0xB1]]) bareOptions = .ok p := by
  have hagree : (sourceWithUnused []).AgreeOn (sourceWithUnused [.simple "run" true [0xB1]])
      (asked (sourceWithUnused []) bareOptions) := by
    unfold Source.AgreeOn
    decide +kernel
  refine ⟨by decide +kernel, hagree, ?_⟩
  have hok : (link (sourceWithUnused []) bareOptions).isOk = true := by decide +kernel
  cases hlink : link (sourceWithUnused []) bareOptions with
  | error e => rw [hlink] at hok; cases hok
  | ok p => exact ⟨p, rfl, (link_of_agreeOn hagree).1.trans hlink⟩

end Program

end ClassLinker
