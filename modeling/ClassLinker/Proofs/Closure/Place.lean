import ClassLinker.Closure.Place
import ClassLinker.Proofs.Closure.Arrays

/-! Loading from a single place. From a place that answers as a source does, loading does what it does
from the source. A folder does not look at the names that its class files declare; where one declares
another name than its own, an array is made of a class that is not registered. -/

namespace ClassLinker

open Closure LinkM Step

namespace ClassPlace

variable {α β : Type} {s : Source} {p : ClassPlace} {l l' : Linker}

/-! ### Places that answer as a source does -/

/-- A loop whose steps hand on what they were given. -/
theorem foldlM_of_handed {f : β → α → LinkM β} {g : α → LinkM PUnit} {b : β} {xs : List α}
    (h : ∀ x ∈ xs, f b x = (fun _ => b) <$> g x) :
    xs.foldlM f b = (fun _ => b) <$> xs.forM g := by
  induction xs with
  | nil => rfl
  | cons x xs ih =>
      have hrest := ih fun y hy => h y (List.mem_cons_of_mem _ hy)
      rw [List.foldlM_cons, h x List.mem_cons_self, bind_map_left, hrest]
      exact (map_bind _ _ _).symm

/-- The place is asked for the class first. -/
theorem loadTree_succ {depth : Nat} {loading : List Text} {name : Text}
    (hnew : ¬loading.contains name = true) :
    p.loadTree (depth + 1) loading name l = (match p.load name with
      | .error e => fail (.loader name e)
      | .ok d => do
        let loading ← (supertypes d).foldlM (fun loading dep => do
          if (← registered? dep).isNone then p.loadTree depth loading dep else return loading)
          (name :: loading)
        register d
        return loading.erase d.name : LinkM (List Text)) { l with asked := name :: l.asked } := by
  rw [loadTree, if_neg hnew]
  exact bind_of_ok (a := p.load name) rfl

/-- The same classes are being loaded before and after, since each is found under its own name. -/
theorem loadTree_of_source (hload : ∀ n, p.load n = s.load n) (depth : Nat) (loading : List Text)
    (name : Text) :
    p.loadTree depth loading name = (fun _ => loading) <$> Closure.loadTree s depth loading name := by
  induction depth generalizing loading name with
  | zero => rfl
  | succ depth ih =>
      have hloop : ∀ d : ClassDecl,
          (supertypes d).foldlM (fun loading dep => do
            if (← registered? dep).isNone then p.loadTree depth loading dep else return loading)
            (name :: loading) = (fun _ => name :: loading) <$> ((supertypes d).forM fun dep => do
              if (← registered? dep).isNone then Closure.loadTree s depth (name :: loading) dep) := by
        refine fun d => foldlM_of_handed fun dep _ => ?_
        rw [map_bind]
        refine bind_congr fun row => ?_
        split
        · exact ih (name :: loading) dep
        · rw [map_pure]
      funext l
      by_cases hnew : loading.contains name = true
      · rw [loadTree, Closure.loadTree, if_pos hnew, if_pos hnew]
        rfl
      · rw [loadTree_succ hnew, map_of_same (Closure.loadTree_succ hnew), hload]
        cases hd : s.load name with
        | error e => rfl
        | ok d =>
            dsimp only
            rw [hloop, bind_map_left, map_bind, Source.name_of_load hd]
            simp only [List.erase_cons_head, map_eq_pure_bind]

/-- Making an array class does what it did when the class of its elements is loaded as before. -/
theorem registerArray_of_same {load : Text → LinkM α} {load' : Text → LinkM β} {f : β → α}
    (h : ∀ name, load name l = (f <$> load' name) l) (name : Text) :
    registerArray load name l = registerArray load' name l := by
  unfold registerArray
  dsimp only
  generalize name.drop 1 = elem
  split
  · rfl
  · cases objectName? elem with
    | some element => exact bind_of_same (discard_of_same (h element))
    | none => rfl

/-- The arrays that an array is built from are made from the inside out, each with the link in order. -/
theorem arrayChain_of_same (s : Source) {load : Text → LinkM (Option Nat)}
    {load' : Text → LinkM Nat} (hends : EndsLoaded Proceeds load')
    (hsame : ∀ {name l}, l.Orderly → load name l = (some <$> load' name) l) {name : Text}
    (hl : l.Orderly) (hbracket : name.head? = some (Text.byte '[')) :
    (arrayChain (fun t => (l.registry.find? t).isSome) name).reverse.forM (registerArray load) l =
      (arrayChain (fun t => (l.registry.find? t).isSome) name).reverse.forM (registerArray load') l := by
  have hone : ∀ {t : Linker} (ht : t.Orderly) (name : Text),
      [name].forM (registerArray load) t = [name].forM (registerArray load') t := fun ht name =>
    bind_of_same (registerArray_of_same (fun _ => hsame ht) name)
  induction name with
  | nil => cases hbracket
  | cons b elem ih =>
      unfold arrayChain
      split
      · rfl
      · split
        · rename_i hnested
          simp only [Bool.and_eq_true, decide_eq_true_eq] at hnested
          rw [List.reverse_cons]
          have happ : ∀ f : Text → LinkM PUnit, ∀ xs ys : List Text,
              (xs ++ ys).forM f = do { xs.forM f; ys.forM f } := fun _ _ _ => List.forM_append
          rw [happ, happ]
          refine bind_of_same_steps (ih hnested.2) fun u t hrun => hone ?_ _
          have hinner := arrayChain_ends (R := Proceeds) s hends hl hnested.2
          exact (hinner.ok hrun).orderly
        · exact hone hl _

/-- Where a class is registered, looking it up again cannot fail. -/
theorem registered?_of_found {name : Text} {row : Nat} (hrow : l.registry.find? name = some row) :
    registered? name l = (some <$> (do
      match ← registered? name with
      | some row => return row
      | none => throw .fault : LinkM Nat)) l := by
  refine (registered?_ok.mpr ⟨hrow, rfl⟩).trans (Eq.symm (map_ok.mpr ?_))
  exact ⟨row, registeredRow_ok.mpr ⟨hrow, rfl⟩, rfl⟩

/-- From a link in order, loading from a place that answers as a source does is loading from that source:
a class is registered under the name that it was asked for. -/
theorem loadFrom_of_source (hload : ∀ n, p.load n = s.load n) (fuel : Nat) (name : Text)
    (hl : l.Orderly) :
    p.loadFrom (s.decls.length + 1) fuel name l = (some <$> Closure.loadFrom s fuel name) l := by
  induction fuel generalizing name l with
  | zero => rfl
  | succ fuel ih =>
      rw [loadFrom, Closure.loadFrom, map_bind]
      refine bind_of_same_steps rfl fun found t hrun => ?_
      obtain ⟨rfl, rfl⟩ := registered?_ok.mp hrun
      cases l.registry.find? name with
      | some row => rfl
      | none =>
          dsimp only
          split
          · -- Every step leaves the link in order, so the class of the elements and the arrays inside
            -- are registered when they are needed.
            rename_i hbracket
            simp only [map_bind]
            refine bind_of_same_steps rfl fun u t hrun => ?_
            obtain ⟨rfl, rfl⟩ := get_ok.mp hrun
            refine bind_of_same_steps (discard_of_same (ih _ hl)) fun _ t hroot => ?_
            obtain ⟨p, hroot⟩ := discard_ok.mp hroot
            have ht : t.Orderly := ((loadFrom_ends (R := Proceeds) s fuel hl).ok hroot).orderly
            refine bind_of_same_steps rfl fun u t' hrun => ?_
            obtain ⟨rfl, rfl⟩ := get_ok.mp hrun
            have hends : EndsLoaded Proceeds (Closure.loadFrom s fuel) := loadFrom_ends s fuel
            refine bind_of_same_steps (arrayChain_of_same s hends (ih _) ht hbracket) fun _ t' hchain => ?_
            obtain ⟨⟨row, hrow⟩, -⟩ := (arrayChain_ends s hends ht hbracket).success hchain
            exact registered?_of_found hrow
          · have htree : discard (p.loadTree (s.decls.length + 1) [] name) l =
                Closure.loadTree s (s.decls.length + 1) [] name l :=
              (discard_of_same (congrFun (loadTree_of_source hload _ [] name) l)).trans discard_unit
            rw [map_bind]
            refine bind_of_same_steps htree fun _ t' hrun => ?_
            obtain ⟨row, hrow, -⟩ := (loadTree_ends (R := Proceeds) s hl).success hrun
            exact registered?_of_found hrow

/-- A list of declarations answers as a source does, and so does a class path, by `load_source`. -/
theorem loadClass_of_source (hload : ∀ n, p.load n = s.load n) (name : Text) (hl : l.Orderly) :
    p.loadClass (s.decls.length + 1) name l = (some <$> Closure.loadClass s name) l :=
  loadFrom_of_source hload _ name hl

/-! ### A class file that declares another name -/

/-- A folder with a root, and with the class file of a class `y` where that of `x` belongs. -/
def strayTree : FileTree where
  workDir := []
  nodes := [
    (["d", "java", "lang", "Object.class"],
      .file ([0xCA, 0xFE, 0xBA, 0xBE, 0, 0, 0, 52, 0, 3, 1, 0, 16] ++ RuntimeSeeds.defaultRoot ++
        [7, 0, 1, 0, 0x21, 0, 2, 0, 0, 0, 0, 0, 0, 0, 0, 0, 0])),
    (["d", "x.class"],
      .file ([0xCA, 0xFE, 0xBA, 0xBE, 0, 0, 0, 52, 0, 5, 1, 0, 1, 0x79, 7, 0, 1, 1, 0, 16] ++
        RuntimeSeeds.defaultRoot ++ [7, 0, 3, 0, 0x21, 0, 2, 0, 4, 0, 0, 0, 0, 0, 0, 0, 0]))]

/-- That all arrays which loading an array leaves are complete does not hold of every place that serves
no arrays: from this folder, `[Lx;` is made and the class `x` is not registered. -/
theorem array_without_element :
    ¬ ∀ p : ClassPlace, (∀ n d, p.load n = .ok d → d.name.head? ≠ some (Text.byte '[')) →
      ∀ (depth k : Nat) (base : Text), 1 ≤ k → base.head? ≠ some (Text.byte '[') →
      ∀ row l', p.loadClass depth (brackets k base) {} = .ok row l' →
      ∀ j, 1 ≤ j → j ≤ k → ∃ q c, l'.registry.find? (brackets j base) = some q ∧
        l'.registry.classAt? q = some c ∧ c.IsArrayOf l'.root l'.registry j base := by
  intro hcomplete
  have hflat : ∀ n d, (folder strayTree "d").load n = .ok d →
      d.name.head? ≠ some (Text.byte '[') := by
    have hall : ∀ name ∈ (folder strayTree "d").names, name.head? ≠ some (Text.byte '[') := by
      decide +kernel
    exact fun n d hload => hall d.name (name_mem_names_of_folder hload)
  have hcheck : Step.yields
      ((folder strayTree "d").loadClass 2 (brackets 1 (objectBase "x")) {})
      (fun _ l => (l.registry.find? "x").isNone) = true := by
    decide +kernel
  obtain ⟨row, l', hok, hmissing⟩ := Step.exists_of_yields hcheck
  obtain ⟨q, c, -, -, harray⟩ := hcomplete _ hflat 2 1 (objectBase "x") (Nat.le_refl 1) (by decide)
    row l' hok 1 (Nat.le_refl 1) (Nat.le_refl 1)
  have hobject : c.kind = .objectArray := by
    refine harray.kind_eq.resolve_left fun hprimitive => ?_
    obtain ⟨-, letter, hletter⟩ := harray.primitive_iff.mp hprimitive
    exact objectBase_ne_singleton _ _ hletter
  have helement : c.element = "x" := by
    have hbase := harray.flat hobject rfl
    simpa [objectBase] using hbase.symm
  obtain ⟨e, -, hfound, -⟩ := harray.element hobject
  rw [helement] at hfound
  rw [hfound] at hmissing
  cases hmissing

end ClassPlace

end ClassLinker
