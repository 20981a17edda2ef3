import ClassLinker.Proofs.Closure.Steady

/-! Links of two sources. Two links do the same as long as their sources give the same answers to what
the first one asks; what else the sources hold, and how much fuel that gives the links, does not
matter. A step only adds to what was asked, so every step of a run in which all answers are the same
is one in which they are. -/

namespace ClassLinker

/-- Two sources that give the same answers for some names. -/
def Source.AgreeOn (s s' : Source) (names : List Text) : Prop :=
  ∀ name ∈ names, s'.load name = s.load name

theorem Source.AgreeOn.mono {s s' : Source} {names more : List Text} (h : s.AgreeOn s' more)
    (hsub : names ⊆ more) : s.AgreeOn s' names := fun name hname => h name (hsub hname)

namespace Closure

open LinkM RegistryM Step Registry

variable {α β : Type} {s s' : Source} {l l' t : Linker} {name : Text}

theorem Proceeds.uncut (h : Proceeds l l') (hcut : l'.cut = false) : l.cut = false :=
  Bool.eq_false_iff.mpr fun hl => Bool.eq_false_iff.mp hcut (h.cut hl)

/-- Steps of links of two sources that do the same when the second source answers what the first step
asks like the first one, unless one of them gives up. -/
structure Parallel (s s' : Source) (x x' : LinkM α) : Prop where
  steady : Steady Proceeds x
  steady' : Steady Proceeds x'
  same : ∀ {l : Linker}, l.Orderly → s.AgreeOn s' (final (x l)).asked →
    (final (x l)).cut = false → (final (x' l)).cut = false → x' l = x l

/-- A sequence of steps, of which the second ones have to be the same only where the first ones lead. -/
theorem Parallel.same_bind {x x' : LinkM α} {f f' : α → LinkM β} (hx : Parallel s s' x x')
    (hl : l.Orderly) (hf : ∀ {a t}, x l = .ok a t → Proceeds t (final (f a t)))
    (hf' : ∀ {a t}, x' l = .ok a t → Proceeds t (final (f' a t)))
    (hrest : ∀ {a t}, x l = .ok a t → s.AgreeOn s' (final (f a t)).asked →
      (final (f a t)).cut = false → (final (f' a t)).cut = false → f' a t = f a t)
    (hasked : s.AgreeOn s' (final ((x >>= f) l)).asked) (hcut : (final ((x >>= f) l)).cut = false)
    (hcut' : (final ((x' >>= f') l)).cut = false) : (x' >>= f') l = (x >>= f) l := by
  have hnext := Proceeds.of_bind (hx.steady.proceeds hl) hf
  have hnext' := Proceeds.of_bind (hx.steady'.proceeds hl) hf'
  have heq := hx.same hl (hasked.mono hnext.asked) (hnext.uncut hcut) (hnext'.uncut hcut')
  cases hrun : x l with
  | error e t => rw [bind_of_error hrun, bind_of_error (heq.trans hrun)]
  | ok a t =>
      rw [bind_of_ok hrun] at hasked hcut ⊢
      rw [bind_of_ok (heq.trans hrun)] at hcut' ⊢
      exact hrest hrun hasked hcut hcut'

namespace Parallel

/-- A step that does not ask the source. -/
theorem refl {x : LinkM α} (h : Steady Proceeds x) : Parallel s s' x x := ⟨h, h, fun _ _ _ _ => rfl⟩

theorem bind {x x' : LinkM α} {f f' : α → LinkM β} (hx : Parallel s s' x x')
    (hf : ∀ a, Parallel s s' (f a) (f' a)) : Parallel s s' (x >>= f) (x' >>= f') := by
  refine ⟨hx.steady.bind fun a => (hf a).steady, hx.steady'.bind fun a => (hf a).steady', ?_⟩
  intro l hl hasked hcut hcut'
  have hreach : ∀ {a t}, x l = .ok a t → t.Orderly := by
    intro a t hrun
    have hproceeds := hx.steady.proceeds hl
    rw [hrun] at hproceeds
    exact hproceeds.orderly
  have hreach' : ∀ {a t}, x' l = .ok a t → t.Orderly := by
    intro a t hrun
    have hproceeds := hx.steady'.proceeds hl
    rw [hrun] at hproceeds
    exact hproceeds.orderly
  exact hx.same_bind hl (fun hrun => (hf _).steady.proceeds (hreach hrun))
    (fun hrun => (hf _).steady'.proceeds (hreach' hrun)) (fun hrun => (hf _).same (hreach hrun))
    hasked hcut hcut'

theorem discard {x x' : LinkM α} (h : Parallel s s' x x') :
    Parallel s s' (discard x) (discard x') := by
  refine ⟨h.steady.discard, h.steady'.discard, fun {l} hl hasked hcut hcut' => ?_⟩
  rw [final_discard] at hasked hcut hcut'
  have heq := h.same hl hasked hcut hcut'
  cases hrun : x l with
  | ok a t =>
      exact (discard_ok (b := ()).mpr ⟨a, heq.trans hrun⟩).trans (discard_ok.mpr ⟨a, hrun⟩).symm
  | error e t =>
      exact (discard_error.mpr (heq.trans hrun)).trans (discard_error.mpr hrun).symm

theorem mapError {f : Error → Error} {x x' : LinkM α} (h : Parallel s s' x x') :
    Parallel s s' (LinkM.mapError f x) (LinkM.mapError f x') := by
  refine ⟨h.steady.mapError, h.steady'.mapError, fun {l} hl hasked hcut hcut' => ?_⟩
  rw [final_mapError] at hasked hcut hcut'
  unfold LinkM.mapError
  rw [h.same hl hasked hcut hcut']

theorem forM {f f' : α → LinkM PUnit} {xs : List α} (h : ∀ x ∈ xs, Parallel s s' (f x) (f' x)) :
    Parallel s s' (xs.forM f) (xs.forM f') := by
  induction xs with
  | nil => exact refl (.pure _)
  | cons x xs ih =>
      exact (h x List.mem_cons_self).bind fun _ => ih fun y hy => h y (List.mem_cons_of_mem _ hy)

theorem foldlM {f f' : β → α → LinkM β} {xs : List α} {b : β}
    (h : ∀ b, ∀ x ∈ xs, Parallel s s' (f b x) (f' b x)) :
    Parallel s s' (xs.foldlM f b) (xs.foldlM f' b) := by
  induction xs generalizing b with
  | nil => exact refl (.pure b)
  | cons x xs ih =>
      rw [List.foldlM_cons, List.foldlM_cons]
      exact (h b x List.mem_cons_self).bind fun c =>
        ih fun b y hy => h b y (List.mem_cons_of_mem _ hy)

/-- A check before a step. -/
theorem guard {p : Prop} [Decidable p] {e : Error} {x x' : LinkM α} (h : Parallel s s' x x') :
    Parallel s s' (if p then LinkM.fail e >>= fun _ : PUnit => x else x)
      (if p then LinkM.fail e >>= fun _ : PUnit => x' else x') := by
  split
  · exact (refl (.fail e)).bind fun _ => h
  · exact h

end Parallel

/-! ### Loading -/

/-- The sources are asked for the class first. -/
theorem loadTree_succ {depth : Nat} {path : List Text} (hpath : ¬path.contains name = true) :
    loadTree s (depth + 1) path name l = (match s.load name with
      | .error e => fail (.loader name e)
      | .ok d => do
        (supertypes d).forM fun dep => do
          if (← registered? dep).isNone then loadTree s depth (name :: path) dep
        register d : LinkM Unit) { l with asked := name :: l.asked } := by
  rw [loadTree, if_neg hpath]
  exact bind_of_ok (ask_ok.mpr ⟨rfl, rfl⟩)

theorem loadTree_parallel (s s' : Source) (depth depth' : Nat) (path : List Text) (name : Text) :
    Parallel s s' (loadTree s depth path name) (loadTree s' depth' path name) := by
  induction depth generalizing depth' path name with
  | zero => exact ⟨loadTree_steady .., loadTree_steady .., fun _ _ hcut _ => by cases hcut⟩
  | succ depth ih =>
      refine ⟨loadTree_steady .., loadTree_steady .., fun {l} hl hasked hcut hcut' => ?_⟩
      cases depth' with
      | zero => cases hcut'
      | succ depth' =>
          by_cases hpath : path.contains name = true
          · rw [loadTree, loadTree, if_pos hpath, if_pos hpath]
            rfl
          have hloop : ∀ d : ClassDecl, Parallel s s'
              ((supertypes d).forM fun dep => do
                if (← registered? dep).isNone then loadTree s depth (name :: path) dep)
              ((supertypes d).forM fun dep => do
                if (← registered? dep).isNone then loadTree s' depth' (name :: path) dep) := by
            refine fun d => .forM fun dep _ => .bind (.refl (.registered? dep)) fun row => ?_
            split
            · exact ih depth' (name :: path) dep
            · exact .refl (.pure _)
          have hstart := (Proceeds.ask hl name).orderly
          rw [loadTree_succ hpath] at hasked hcut ⊢
          rw [loadTree_succ hpath] at hcut' ⊢
          have hanswer : s'.load name = s.load name := by
            refine hasked name ?_
            cases s.load name with
            | error e => exact List.mem_cons_self
            | ok d =>
                refine Proceeds.asked (Lasting.bind ((hloop d).steady.proceeds hstart) ?_)
                  List.mem_cons_self
                exact fun hrun _ => register_of_loop (fun _ _ => loadTree_proceeds s) hstart hrun
          rw [hanswer] at hcut' ⊢
          cases hload : s.load name with
          | error e => rfl
          | ok d =>
              rw [hload] at hasked hcut hcut'
              exact (hloop d).same_bind hstart
                (fun hrun => register_of_loop (fun _ _ => loadTree_proceeds s) hstart hrun)
                (fun hrun => register_of_loop (fun _ _ => loadTree_proceeds s') hstart hrun)
                (fun _ _ _ _ => rfl) hasked hcut hcut'

theorem registerArray_parallel {load load' : Text → LinkM Nat}
    (hload : ∀ name, Parallel s s' (load name) (load' name)) (name : Text) :
    Parallel s s' (registerArray load name) (registerArray load' name) := by
  unfold registerArray
  dsimp only
  split
  · split
    · exact .refl (.fail _)
    · exact .refl (createArray_steady name _ _ _)
  · split
    · exact (hload _).discard.bind fun _ => .refl (createArray_steady name _ _ _)
    · split
      · exact .refl (createArray_steady name _ _ _)
      · exact .refl (.fail _)

theorem loadFrom_parallel (s s' : Source) (fuel fuel' : Nat) (name : Text) :
    Parallel s s' (loadFrom s fuel name) (loadFrom s' fuel' name) := by
  induction fuel generalizing fuel' name with
  | zero => exact ⟨loadFrom_steady .., loadFrom_steady .., fun _ _ hcut _ => by cases hcut⟩
  | succ fuel ih =>
      cases fuel' with
      | zero => exact ⟨loadFrom_steady .., loadFrom_steady .., fun _ _ _ hcut' => by cases hcut'⟩
      | succ fuel' =>
          refine .bind (.refl (.registered? name)) fun row => ?_
          cases row with
          | some row => exact .refl (.pure _)
          | none =>
              dsimp only
              split
              · refine .bind (.refl .get) fun u => (ih fuel' _).discard.bind fun _ =>
                  .bind (.refl .get) fun v => ?_
                refine .bind (.forM fun t _ => registerArray_parallel (ih fuel') t) fun _ => ?_
                exact .refl (registeredRow_steady name)
              · exact (loadTree_parallel s s' _ _ _ name).bind fun _ =>
                  .refl (registeredRow_steady name)

theorem loadClass_parallel (s s' : Source) (name : Text) :
    Parallel s s' (loadClass s name) (loadClass s' name) := loadFrom_parallel s s' _ _ name

/-! ### Requiring -/

theorem loadEntries_parallel (s s' : Source) (ids : List Nat) : Parallel s s'
    ((ids.filterMap fun (e : Nat) => Builtin.lookup? e).forM fun e => do
      discard (loadClass s e.className)
      if e.isMember then push ⟨e.className, e.member, e.descriptor⟩)
    ((ids.filterMap fun (e : Nat) => Builtin.lookup? e).forM fun e => do
      discard (loadClass s' e.className)
      if e.isMember then push ⟨e.className, e.member, e.descriptor⟩) := by
  refine .forM fun e _ => (loadClass_parallel s s' e.className).discard.bind fun _ => ?_
  split
  · exact .refl (.push _)
  · exact .refl (.pure _)

theorem keepBuiltin_parallel (s s' : Source) (id : Int) :
    Parallel s s' (keepBuiltin s id) (keepBuiltin s' id) := by
  refine ⟨keepBuiltin_steady s id, keepBuiltin_steady s' id, fun {l} hl hasked hcut hcut' => ?_⟩
  rw [keepBuiltin, bind_of_ok (get_ok.mpr ⟨rfl, rfl⟩)] at hasked hcut ⊢
  rw [keepBuiltin, bind_of_ok (get_ok.mpr ⟨rfl, rfl⟩)] at hcut' ⊢
  by_cases hany : (l.builtins.any fun k => (k : Int) = id) = true
  · rw [if_pos hany, if_pos hany]
  · rw [if_neg hany] at hasked hcut hcut' ⊢
    rw [if_neg hany]
    cases hkept : Builtin.keep? l.builtins id with
    | none => rfl
    | some kept =>
        cases hids : Builtin.expand? id with
        | none => rfl
        | some ids =>
            simp only [hkept, hids] at hasked hcut hcut' ⊢
            rw [bind_of_ok (a := .unit) (set_ok.mpr rfl)] at hasked hcut hcut' ⊢
            rw [bind_of_ok (a := .unit) (set_ok.mpr rfl)]
            have hset : Proceeds l { l with builtins := kept } :=
              .of_same hl rfl rfl (List.Subset.refl _) fun h => h
            exact (loadEntries_parallel s s' ids).same hset.orderly hasked hcut hcut'

theorem expand_parallel (s s' : Source) (m : Method) :
    Parallel s s' (expand s m) (expand s' m) := by
  have hkeepRef : ∀ a, Steady Proceeds (discard (onRegistry (keepRef a))) := fun a =>
    (Steady.keepRef s a).discard
  refine .bind (.forM fun a _ => ?_) fun _ => .bind (.forM fun code _ => ?_) fun _ =>
    .bind (.forM fun a _ => ?_) fun _ => .bind (.forM fun id _ => ?_) fun _ =>
    .refl (.bind (.forM fun a _ => hkeepRef a) fun _ => .forM fun a _ => .bind ?_ fun m => .push m)
  · refine .bind (.refl (hkeepRef a)) fun _ => .bind (.refl (.readRef a)) fun ref => ?_
    split
    · exact (loadClass_parallel s s' _).discard
    · exact .refl .fault
  · exact (loadClass_parallel s s' _).discard
  · refine .bind (.refl (hkeepRef a)) fun _ => .bind (.refl (.readRef a)) fun ref => ?_
    split
    · exact (loadClass_parallel s s' _).discard
    · exact .refl (.pure _)
  · exact keepBuiltin_parallel s s' id
  · refine (Steady.readRef a).bind fun ref => ?_
    split
    · exact .pure _
    · exact .fault

/-- The lookup does not ask the source, and what follows is asked for alike. -/
theorem requireLoaded_parallel (s s' : Source) (m : Member) :
    Parallel s s' (requireLoaded s m) (requireLoaded s' m) := by
  refine ⟨requireLoaded_steady s m, requireLoaded_steady s' m, fun {l} hl hasked hcut hcut' => ?_⟩
  rcases requireLoaded_cases m l with ⟨e, hrun⟩ | ⟨row, d, fresh, r, hfind, hkeep, hrun⟩
  · rw [hrun, hrun]
  rw [hrun] at hasked hcut hcut' ⊢
  rw [hrun]
  cases fresh with
  | false => rw [if_neg Bool.false_ne_true, if_neg Bool.false_ne_true]
  | true =>
      rw [if_pos rfl] at hasked hcut hcut' ⊢
      rw [if_pos rfl]
      cases d with
      | field f => rw [follow, follow]
      | method method =>
          obtain ⟨-, c, -, hc, hd⟩ := findMember_ok hfind
          rw [← Class.sig_of_declared? hd] at hd
          have hcounted : Linker.Orderly { l with registry := r, expansions := l.expansions + 1 } :=
            (Registry.Orderly.keepMember hl hc hd hkeep).1
          rw [follow_method] at hasked hcut hcut' ⊢
          rw [follow_method]
          exact (expand_parallel s s' method).same hcounted hasked hcut hcut'

theorem requireOne_parallel (s s' : Source) (m : Member) :
    Parallel s s' (requireOne s m) (requireOne s' m) :=
  (loadClass_parallel s s' m.className).discard.bind fun _ => requireLoaded_parallel s s' m

/-! ### Requiring all of them -/

theorem final_drainFrom_zero {m : Member} {rest : List Member} (hpending : l.pending = m :: rest) :
    (final (drainFrom s 0 l)).cut = true := by
  rw [drainFrom, bind_of_ok (get_ok.mpr ⟨rfl, rfl⟩), hpending]
  rfl

/-- What the first pending member leaves goes on to what working off the queue leaves. -/
theorem drainFrom_proceeds (s : Source) (fuel : Nat) {m : Member} {rest : List Member}
    (hl : l.Orderly) (hpending : l.pending = m :: rest) :
    Proceeds (final (requireOne s m { l with pending := rest })) (final (drainFrom s (fuel + 1) l)) := by
  have hone := (requireOne_steady (R := Proceeds) s m).proceeds (l := { l with pending := rest }) hl
  rw [drainFrom_cons hpending]
  cases hrun : requireOne s m { l with pending := rest } with
  | ok u t =>
      rw [hrun] at hone
      exact (drainFrom_steady s fuel).proceeds hone.orderly
  | error e t =>
      rw [hrun] at hone
      cases e with
      | error e => exact .of_same hone.orderly rfl rfl (List.Subset.refl _) fun h => h
      | fault => exact .refl hone.orderly

theorem drainFrom_parallel (s s' : Source) (fuel fuel' : Nat) :
    Parallel s s' (drainFrom s fuel) (drainFrom s' fuel') := by
  induction fuel generalizing fuel' with
  | zero =>
      refine ⟨drainFrom_steady s 0, drainFrom_steady s' fuel', fun {l} hl hasked hcut hcut' => ?_⟩
      cases hpending : l.pending with
      | nil => exact (drainFrom_nil fuel' hpending).trans (drainFrom_nil 0 hpending).symm
      | cons m rest =>
          rw [final_drainFrom_zero hpending] at hcut
          cases hcut
  | succ fuel ih =>
      refine ⟨drainFrom_steady s _, drainFrom_steady s' fuel', fun {l} hl hasked hcut hcut' => ?_⟩
      cases hpending : l.pending with
      | nil => exact (drainFrom_nil fuel' hpending).trans (drainFrom_nil _ hpending).symm
      | cons m rest =>
          cases fuel' with
          | zero =>
              rw [final_drainFrom_zero hpending] at hcut'
              cases hcut'
          | succ fuel' =>
              have hnext := drainFrom_proceeds s fuel hl hpending
              have hnext' := drainFrom_proceeds s' fuel' hl hpending
              have hone := (requireOne_steady (R := Proceeds) s m).proceeds (l := { l with pending := rest }) hl
              have heq := (requireOne_parallel s s' m).same (l := { l with pending := rest }) hl
                (hasked.mono hnext.asked) (hnext.uncut hcut) (hnext'.uncut hcut')
              rw [drainFrom_cons hpending] at hasked hcut hcut' ⊢
              rw [drainFrom_cons hpending]
              rw [heq] at hcut' ⊢
              cases hrun : requireOne s m { l with pending := rest } with
              | ok u t =>
                  rw [hrun] at hone hasked hcut hcut'
                  exact (ih fuel').same hone.orderly hasked hcut hcut'
              | error e t => cases e <;> rfl

theorem drain_parallel (s s' : Source) : Parallel s s' (drain s) (drain s') :=
  ⟨drain_steady s, drain_steady s', fun hl => (drainFrom_parallel s s' _ _).same hl⟩

theorem require_parallel (s s' : Source) (m : Member) :
    Parallel s s' (require s m) (require s' m) :=
  .bind (.refl (.push m)) fun _ => drain_parallel s s'

theorem load_parallel (s s' : Source) (name : Text) :
    Parallel s s' (load s name) (load s' name) :=
  (loadClass_parallel s s' name).bind fun _ => (drain_parallel s s').bind fun _ => .refl (.pure _)

/-! ### Overrides -/

theorem requireOverride_parallel (s s' : Source) (row : Nat) (sig : Signature) :
    Parallel s s' (requireOverride s row sig) (requireOverride s' row sig) := by
  refine .bind (.refl (.readClass row)) fun c => ?_
  split
  · split
    · exact .refl (.pure _)
    · exact (require_parallel s s' _).bind fun _ => .refl (.pure _)
  · exact .refl (.pure _)

theorem overridesOf_parallel (s s' : Source) (row : Nat) :
    Parallel s s' (overridesOf s row) (overridesOf s' row) := by
  refine .bind (.refl (.readClass row)) fun c => .bind (.refl .get) fun l => ?_
  dsimp only
  split
  · exact .refl (.pure _)
  · refine .foldlM fun added sub _ => .bind (.refl (.readClass _)) fun sc => ?_
    split
    · exact .refl (.pure _)
    · refine .foldlM fun added sig _ => (requireOverride_parallel s s' _ sig).bind fun required => ?_
      split
      · exact .refl (.pure _)
      · exact .refl (.pure _)

theorem overridePass_parallel (s s' : Source) :
    Parallel s s' (overridePass s) (overridePass s') := by
  refine .bind (.refl .get) fun l => .foldlM fun added row _ => ?_
  exact (overridesOf_parallel s s' row).bind fun n => .refl (.pure _)

theorem overridePasses_parallel (s s' : Source) (fuel fuel' : Nat) :
    Parallel s s' (overridePasses s fuel) (overridePasses s' fuel') := by
  induction fuel generalizing fuel' with
  | zero => exact ⟨overridePasses_steady .., overridePasses_steady .., fun _ _ hcut _ => by cases hcut⟩
  | succ fuel ih =>
      cases fuel' with
      | zero =>
          exact ⟨overridePasses_steady .., overridePasses_steady .., fun _ _ _ hcut' => by cases hcut'⟩
      | succ fuel' =>
          refine (overridePass_parallel s s').bind fun n => ?_
          split
          · exact ih fuel'
          · exact .refl (.pure _)

theorem requireOverrides_parallel (s s' : Source) :
    Parallel s s' (requireOverrides s) (requireOverrides s') :=
  ⟨requireOverrides_steady s, requireOverrides_steady s',
    fun hl => (overridePasses_parallel s s' _ _).same hl⟩

end Closure

end ClassLinker
