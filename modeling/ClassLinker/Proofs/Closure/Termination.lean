import ClassLinker.Proofs.Closure.Consistent
import ClassLinker.Proofs.Closure.Drain

/-! Termination. Whatever a link is asked for, and whatever the code of the classes says, no recursion
is given up. Loading and requiring come to an end; so do the passes over the overrides, each of which
but the last one keeps a method, and the lookups in the registry and in the catalog. -/

namespace ClassLinker

namespace Closure

open LinkM RegistryM Step Registry

variable {s : Source} {l l' : Linker}

/-! ### Overrides -/

/-- A step that counts methods: as many as it counts beyond `added` can no longer become kept. -/
structure Counts (s : Source) (added : Nat) (x : LinkM Nat) : Prop where
  metered : Metered s 0 0 x
  counts : ∀ {l n l'}, l.Fit → x l = .ok n l' →
    l'.registry.openMethods s + n ≤ l.registry.openMethods s + added

namespace Counts

variable {added : Nat}

theorem pure (added : Nat) : Counts s added (Pure.pure added) := by
  refine ⟨.pure _, fun hl hok => ?_⟩
  obtain ⟨rfl, rfl⟩ := pure_ok.mp hok
  exact Nat.le_refl _

theorem seq {α : Type} {x : LinkM α} {f : α → LinkM Nat} (hx : Metered s 0 0 x)
    (hf : ∀ a, Counts s added (f a)) : Counts s added (x >>= f) := by
  refine ⟨hx.seq fun a => (hf a).metered, fun {l n l'} hl hok => ?_⟩
  obtain ⟨a, t, hrun, hok⟩ := bind_ok.mp hok
  have hspent := hx.spends hl
  rw [hrun] at hspent
  exact Nat.le_trans ((hf a).counts hspent.fit hok) (Nat.add_le_add_right hspent.methods added)

theorem bind {x : LinkM Nat} {f : Nat → LinkM Nat} (hx : Counts s added x)
    (hf : ∀ n, Counts s n (f n)) : Counts s added (x >>= f) := by
  refine ⟨hx.metered.seq fun n => (hf n).metered, fun {l n l'} hl hok => ?_⟩
  obtain ⟨k, t, hrun, hok⟩ := bind_ok.mp hok
  have hspent := hx.metered.spends hl
  rw [hrun] at hspent
  exact Nat.le_trans ((hf k).counts hspent.fit hok) (hx.counts hl hrun)

theorem foldlM {α : Type} {f : Nat → α → LinkM Nat} {xs : List α}
    (h : ∀ added, ∀ x ∈ xs, Counts s added (f added x)) : Counts s added (xs.foldlM f added) := by
  induction xs generalizing added with
  | nil => exact pure added
  | cons x xs ih =>
      rw [List.foldlM_cons]
      exact (h added x List.mem_cons_self).bind fun n =>
        ih fun k y hy => h k y (List.mem_cons_of_mem _ hy)

/-- Counting on from more. -/
theorem shift {x : LinkM Nat} (h : Counts s 0 x) (added : Nat) :
    Counts s added (do return added + (← x)) := by
  refine ⟨h.metered.seq fun n => .pure _, fun {l n l'} hl hok => ?_⟩
  obtain ⟨k, t, hrun, hok⟩ := bind_ok.mp hok
  obtain ⟨rfl, rfl⟩ := pure_ok.mp hok
  have hcount := h.counts hl hrun
  omega

end Counts

/-- An override that is required is a method that was not kept. -/
theorem requireOverride_counts (row : Nat) (sig : Signature) (added : Nat) : Counts s added (do
    if ← requireOverride s row sig then return added + 1 else return added) := by
  have hmetered : Metered s 0 0 (requireOverride s row sig) := by
    refine (Metered.readClass row).seq fun c => ?_
    split
    · split
      · exact .pure _
      · exact (require_metered _).seq fun _ => .pure _
    · exact .pure _
  refine ⟨hmetered.seq fun required => ?_, fun {l n l'} hl hok => ?_⟩
  · split <;> exact .pure _
  obtain ⟨required, t, hrun, hok⟩ := bind_ok.mp hok
  have hspent := hmetered.spends hl
  rw [hrun] at hspent
  cases required with
  | false =>
      obtain ⟨rfl, rfl⟩ := pure_ok.mp hok
      exact Nat.add_le_add_right hspent.methods added
  | true =>
      obtain ⟨rfl, rfl⟩ := pure_ok.mp hok
      simp only [requireOverride, bind_ok, readClass_ok, and_assoc] at hrun
      obtain ⟨c, _, hc, rfl, hrun⟩ := hrun
      cases hd : c.declared? sig with
      | none => simp [hd] at hrun
      | some d =>
          cases d with
          | field f => simp [hd] at hrun
          | method method =>
              simp only [hd, ite_ok, bind_ok, pure_ok, Bool.false_eq_true, false_and, and_false,
                false_or, true_and] at hrun
              obtain ⟨hopen, u, t, hrequire, rfl⟩ := hrun
              have hdropped : method.kept = false := by
                simp only [Bool.or_eq_true, not_or, Bool.not_eq_true] at hopen
                exact hopen.1
              have hkeeps := require_keeps hl hc hd hdropped hrequire
              omega

theorem overridesOf_counts (row : Nat) : Counts s 0 (overridesOf s row) := by
  refine .seq (.readClass row) fun c => .seq .get fun l => ?_
  dsimp only
  split
  · exact .pure 0
  · refine .foldlM fun added sub _ => .seq (.readClass _) fun c => ?_
    split
    · exact .pure added
    · exact .foldlM fun added sig _ => requireOverride_counts _ sig added

theorem overridePass_counts : Counts s 0 (overridePass s) :=
  .seq .get fun _ => .foldlM fun added row _ => (overridesOf_counts row).shift added

/-- Every pass but the last one keeps a method. -/
theorem overridePasses_spends {fuel : Nat} (hl : l.Fit) (hfuel : l.registry.openMethods s < fuel) :
    Spends s 0 0 l (final (overridePasses s fuel l)) := by
  induction fuel generalizing l with
  | zero => exact absurd hfuel (Nat.not_lt_zero _)
  | succ fuel ih =>
      have hpass := overridePass_counts.metered.spends (s := s) hl
      refine final_bind hpass fun {n t} hok => ?_
      rw [hok] at hpass
      have hcount := overridePass_counts.counts hl hok
      dsimp only [final] at hpass
      split
      · exact hpass.trans (ih hpass.fit (by omega))
      · exact hpass

theorem requireOverrides_metered : Metered s 0 0 (requireOverrides s) := by
  refine ⟨fun {l} hl => overridePasses_spends hl ?_⟩
  have hmethods : l.registry.openMethods s ≤ _ := reserve_le s _ _ l.registry
  simp only [total_map_one] at hmethods
  exact Nat.lt_succ_of_le hmethods

/-! ### Lookups -/

/-- A chain is at its end once every class can have been in it. -/
theorem chainFrom_of_size_le {r : Registry} (hr : r.Tidy) {fuel : Nat} (row : Nat)
    (hfuel : r.rows.size ≤ fuel) : r.chainFrom fuel row = r.chain row := by
  by_cases hrow : row < r.rows.size
  · exact hr.chainFrom_eq (Nat.lt_of_lt_of_le hrow hfuel) hrow
  · have hnone : r.classAt? row = none := Array.getElem?_eq_none (Nat.le_of_not_lt hrow)
    have hnil : ∀ fuel, r.chainFrom fuel row = [] := by
      intro fuel
      cases fuel with
      | zero => rfl
      | succ fuel => rw [chainFrom, hnone]
    rw [chain, hnil, hnil]

/-- A search through interfaces that has more fuel than names left to look at ends by itself. -/
theorem searchInterfaces_eq {r : Registry} (hr : r.Tidy) (m : Member) {fuel fuel' : Nat}
    {seen queue : List Text} (hfuel : queue.length + r.unseen seen < fuel)
    (hfuel' : queue.length + r.unseen seen < fuel') :
    r.searchInterfaces m fuel seen queue = r.searchInterfaces m fuel' seen queue := by
  induction fuel generalizing fuel' seen queue with
  | zero => exact absurd hfuel (Nat.not_lt_zero _)
  | succ fuel ih =>
      obtain ⟨fuel', rfl⟩ : ∃ k, fuel' = k + 1 := ⟨fuel' - 1, by omega⟩
      cases queue with
      | nil => rfl
      | cons name queue =>
          rw [List.length_cons] at hfuel hfuel'
          rw [searchInterfaces, searchInterfaces]
          by_cases hseen : seen.contains name = true
          · rw [if_pos hseen, if_pos hseen]
            exact ih (by omega) (by omega)
          · rw [if_neg hseen, if_neg hseen]
            cases hrow : r.find? name with
            | none => rfl
            | some row =>
                obtain ⟨c, hc, rfl⟩ := hr.exists_class hrow
                simp only [hc]
                cases c.declared? m.sig with
                | some d => rfl
                | none =>
                    have hpaid := unseen_cons hc seen (by simpa using hseen)
                    exact ih (by rw [List.length_append]; omega) (by rw [List.length_append]; omega)

end Closure

namespace Builtin

/-- The steps of an entry of the catalog. -/
def stepsOf (id : Nat) : List Nat := ((catalog[id]?).map Builtin.steps).getD []

/-- How many steps the entries have that were not visited. -/
def unvisited (seen : List Nat) : Nat :=
  total ((List.range catalog.length).map fun id => if seen.contains id then 0 else (stepsOf id).length)

/-- Visiting an entry pays for its steps. -/
theorem unvisited_cons {id : Nat} {seen : List Nat} (hnew : ¬seen.contains id = true) :
    unvisited (id :: seen) + (stepsOf id).length ≤ unvisited seen := by
  have hothers : ∀ k, (if (id :: seen).contains k then 0 else (stepsOf k).length) ≤
      if seen.contains k then 0 else (stepsOf k).length := by
    intro k
    by_cases hk : seen.contains k = true
    · simp_all
    · by_cases hid : k = id <;> simp_all
  by_cases hid : id < catalog.length
  · refine total_map_add_le (List.mem_range.mpr hid) ?_ fun k _ => hothers k
    simp_all
  · have hnone : stepsOf id = [] := by
      rw [stepsOf, List.getElem?_eq_none (Nat.le_of_not_lt hid)]
      rfl
    rw [hnone]
    exact total_map_le fun i k hk _ => ⟨k, hk, hothers k⟩

/-- An expansion with more fuel than there are ids left to look at ends by itself. -/
theorem expandFrom_eq {fuel fuel' : Nat} {pending seen : List Nat}
    (hfuel : pending.length + unvisited seen < fuel)
    (hfuel' : pending.length + unvisited seen < fuel') :
    expandFrom fuel pending seen = expandFrom fuel' pending seen := by
  induction fuel generalizing fuel' pending seen with
  | zero => exact absurd hfuel (Nat.not_lt_zero _)
  | succ fuel ih =>
      obtain ⟨fuel', rfl⟩ : ∃ k, fuel' = k + 1 := ⟨fuel' - 1, by omega⟩
      cases pending with
      | nil => rfl
      | cons id pending =>
          rw [List.length_cons] at hfuel hfuel'
          rw [expandFrom, expandFrom]
          by_cases hseen : seen.contains id = true
          · rw [if_pos hseen, if_pos hseen]
            exact ih (by omega) (by omega)
          · rw [if_neg hseen, if_neg hseen]
            have hpaid := unvisited_cons hseen
            refine ih ?_ ?_
            all_goals
              rw [List.length_append]
              unfold stepsOf at hpaid
              omega

end Builtin

namespace Closure

open Registry

/-! ### Requests -/

theorem Request.apply_spends (s : Source) (request : Request) {l : Linker} (hl : l.Fit) :
    Spends s 0 0 l (request.apply s l) := by
  cases request with
  | load name => exact (load_metered name).spends hl
  | require m => exact (require_metered m).spends hl
  | overrides => exact requireOverrides_metered.spends hl

theorem Request.foldl_spends (s : Source) (requests : List Request) {l : Linker} (hl : l.Fit) :
    Spends s 0 0 l (requests.foldl (Request.apply s) l) := by
  induction requests generalizing l with
  | nil => exact .refl hl
  | cons request requests ih =>
      have hfirst := request.apply_spends s hl
      exact hfirst.trans (ih hfirst.fit)

theorem fit_empty {root : Text} (hroot : root.head? ≠ some (Text.byte '[')) :
    Linker.Fit { root := root } :=
  ⟨orderly_empty, List.Pairwise.nil, nofun, hroot⟩

/-- Whatever is asked of a link and of whichever source, no recursion is ever given up: not the
loading of supertypes, nor that of elements, the work on pending members or the passes over the
overrides. The lookups in the registry and in the catalog end by themselves too: more fuel changes
nothing. -/
theorem resolution_terminates (s : Source) (requests : List Request) :
    let l := requests.foldl (Request.apply s) {}
    l.cut = false ∧
      (∀ row more, l.registry.chainFrom (l.registry.rows.size + more) row = l.registry.chain row) ∧
      (∀ m queue more,
        l.registry.searchInterfaces m (queue.length + l.registry.interfaceCount + 1 + more) [] queue =
          l.registry.searchInterfaces m (queue.length + l.registry.interfaceCount + 1) [] queue) ∧
      ∀ id more, Builtin.expand? id = (Builtin.lookup? id).map fun e =>
        Builtin.expandFrom (1 + Builtin.catalog.length +
          total (Builtin.catalog.map fun e => e.steps.length) + more) [e.id] [] := by
  have hspent := Request.foldl_spends s requests (fit_empty (show RuntimeSeeds.defaultRoot.head? ≠ _ by decide))
  have htidy := hspent.fit.orderly.tidy
  refine ⟨hspent.cut_eq, fun row more => chainFrom_of_size_le htidy row (Nat.le_add_right _ _),
    fun m queue more => searchInterfaces_eq htidy m ?_ ?_, fun id more => ?_⟩
  · rw [unseen_nil]
    omega
  · rw [unseen_nil]
    exact Nat.lt_succ_self _
  · have hbound : 1 + Builtin.unvisited [] <
        1 + Builtin.catalog.length + total (Builtin.catalog.map fun e => e.steps.length) := by
      decide +kernel
    unfold Builtin.expand?
    congr 1
    funext e
    exact Builtin.expandFrom_eq hbound (Nat.lt_add_right more hbound)

end Closure

end ClassLinker
