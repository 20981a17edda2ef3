import Mathlib.Data.List.Nodup
import ClassLinker.Proofs.Registry.Resolve

/-! Where linking puts methods. Only methods with code have a code offset, the code of each method
starts where that of the one before it ends, and the indices of the native methods count them through
the classes in order. Nothing that follows the layout of the code moves a method again; it only gets
its link id. -/

namespace ClassLinker

open Layout

/-- Stretches of code, each with its offset and its length, that fill the room from one offset to
another in their order. -/
inductive Consecutive : Nat → List (Option Nat × Nat) → Nat → Prop where
  | nil (start : Nat) : Consecutive start [] start
  | cons {start length stop : Nat} {spans : List (Option Nat × Nat)} :
      Consecutive (start + length) spans stop →
      Consecutive start ((some start, length) :: spans) stop

theorem Consecutive.append {start middle stop : Nat} {spans spans' : List (Option Nat × Nat)}
    (h : Consecutive start spans middle) (h' : Consecutive middle spans' stop) :
    Consecutive start (spans ++ spans') stop := by
  induction h with
  | nil start => exact h'
  | cons _ ih => exact .cons (ih h')

/-- Where the code of those of some methods that are kept is. -/
def Method.spans (ms : List Method) : List (Option Nat × Nat) :=
  (ms.filter fun m => m.kept && m.hasCode).map fun m => (m.codeOffset, m.rawCode.length)

namespace Class

/-- The methods of a class, without their link ids. -/
def unnumbered (c : Class) : List Method := c.methods.map fun m => { m with linkId := none }

/-- The indices of the kept native methods of a class. -/
def nativeIndices (c : Class) : List (Option Nat) :=
  (c.methods.filter fun m => m.kept && m.kind = .native).map Method.nativeIndex

/-- Where the code of the kept methods of a class is. -/
def spans (c : Class) : List (Option Nat × Nat) := Method.spans c.methods

/-- Only methods with code have a code offset. -/
def CodePlaced (c : Class) : Prop := ∀ m ∈ c.methods, m.codeOffset ≠ none → m.hasCode = true

theorem nativeIndices_congr {c c' : Class} (h : c'.unnumbered = c.unnumbered) :
    c'.nativeIndices = c.nativeIndices := by
  have hread : ∀ c : Class, c.nativeIndices =
      (c.unnumbered.filter fun m => m.kept && m.kind = .native).map Method.nativeIndex := by
    intro c
    rw [unnumbered, List.filter_map, List.map_map]
    rfl
  rw [hread, hread, h]

theorem spans_congr {c c' : Class} (h : c'.unnumbered = c.unnumbered) : c'.spans = c.spans := by
  have hread : ∀ c : Class, c.spans = Method.spans c.unnumbered := by
    intro c
    rw [unnumbered, Method.spans, List.filter_map, List.map_map]
    rfl
  rw [hread, hread, h]

theorem codePlaced_congr {c c' : Class} (h : c'.unnumbered = c.unnumbered) (hc : c.CodePlaced) :
    c'.CodePlaced := by
  intro m hm hoffset
  have hm' : { m with linkId := none } ∈ c.unnumbered := h ▸ List.mem_map_of_mem hm
  obtain ⟨m₀, hm₀, heq⟩ := List.mem_map.mp hm'
  have hplace : m₀.codeOffset = m.codeOffset := by injection heq
  have hcode : m₀.rawCode = m.rawCode := by injection heq
  rw [Method.hasCode, ← hcode]
  exact hc m₀ hm₀ (hplace ▸ hoffset)

end Class

namespace Layout

theorem placeCode_codeOffset (offset native : Nat) (ms : List Method) :
    ∀ m ∈ (placeCode offset native ms).1, m.codeOffset ≠ none → m.hasCode = true := by
  induction ms generalizing offset native with
  | nil =>
      intro m hm
      cases hm
  | cons m ms ih =>
      unfold placeCode
      split
      · refine List.forall_mem_cons.mpr ⟨fun hoffset => ?_, ih _ _⟩
        by_contra hcode
        exact hoffset (if_neg hcode)
      · exact List.forall_mem_cons.mpr ⟨fun hoffset => absurd rfl hoffset, ih _ _⟩

/-- The kept native methods get the indices from the given one on. -/
theorem placeCode_nativeIndex (offset native : Nat) (ms : List Method) :
    ∃ n, (placeCode offset native ms).2.2 = native + n ∧
      (((placeCode offset native ms).1.filter fun m => m.kept && m.kind = .native).map
        Method.nativeIndex) = (List.range' native n).map some := by
  induction ms generalizing offset native with
  | nil => exact ⟨0, rfl, rfl⟩
  | cons m ms ih =>
      unfold placeCode
      split
      case isTrue hkept =>
          by_cases hnative : m.kind = .native
          · obtain ⟨n, hn, hindices⟩ := ih (offset + m.rawCode.length) (native + 1)
            simp only [hnative, if_true]
            refine ⟨n + 1, hn.trans (by omega), ?_⟩
            rw [List.filter_cons_of_pos (by simp [hkept]), List.map_cons, hindices]
            rfl
          · obtain ⟨n, hn, hindices⟩ := ih (offset + m.rawCode.length) native
            simp only [hnative, if_false]
            refine ⟨n, hn, ?_⟩
            rw [List.filter_cons_of_neg (by simp [hnative]), hindices]
      case isFalse hkept =>
          obtain ⟨n, hn, hindices⟩ := ih offset native
          refine ⟨n, hn, ?_⟩
          rw [List.filter_cons_of_neg (by simp [hkept]), hindices]

/-- The code of the kept methods follows what was placed before. -/
theorem placeCode_spans (offset native : Nat) (ms : List Method) :
    Consecutive offset (Method.spans (placeCode offset native ms).1)
      (placeCode offset native ms).2.1 := by
  unfold Method.spans
  induction ms generalizing offset native with
  | nil => exact .nil offset
  | cons m ms ih =>
      unfold placeCode
      split
      case isTrue hkept =>
          have hrest := ih (offset + m.rawCode.length)
            (if m.kind = .native then native + 1 else native)
          by_cases hcode : m.hasCode = true
          · rw [List.filter_cons_of_pos (by simpa [Method.hasCode, hkept] using hcode),
              List.map_cons, if_pos hcode]
            exact .cons hrest
          · -- A method without code takes no room.
            have hempty : m.rawCode.length = 0 := by simpa [Method.hasCode] using hcode
            rw [List.filter_cons_of_neg (by simp [Method.hasCode, List.eq_nil_of_length_eq_zero hempty])]
            rwa [hempty, Nat.add_zero] at hrest ⊢
      case isFalse hkept =>
          rw [List.filter_cons_of_neg (by simp [hkept])]
          exact ih offset native

/-- Numbering methods changes their link ids only. -/
theorem numberMethods_unnumbered (sigs : List Signature) (ms : List Method) :
    ((numberMethods sigs ms).1.map fun m => { m with linkId := none }) =
      ms.map fun m => { m with linkId := none } := by
  obtain ⟨-, -, hmethods⟩ := numberAll_spec Method.kept Method.sig
    (fun n m => { m with linkId := some n }) sigs ms
  rw [← numberMethods_eq] at hmethods
  refine map_eq_of_forall₂ ?_ hmethods
  rintro m m' (⟨-, rfl⟩ | ⟨n, rfl, -⟩)
  · rfl
  · rfl

end Layout

namespace Registry

open Step

/-- The indices of the kept native methods of the class in a row. -/
def nativesAt (r : Registry) (row : Nat) : List (Option Nat) :=
  ((r.classAt? row).map Class.nativeIndices).getD []

/-- Where the code of the kept methods of the class in a row is. -/
def spansAt (r : Registry) (row : Nat) : List (Option Nat × Nat) :=
  ((r.classAt? row).map Class.spans).getD []

/-- The methods of the classes in some rows have been placed. -/
structure Placed (r : Registry) (rows : List Nat) : Prop where
  codePlaced : ∀ {row c}, row ∈ rows → r.classAt? row = some c → c.CodePlaced
  natives : ∃ n, rows.flatMap r.nativesAt = (List.range n).map some
  consecutive : ∃ size, Consecutive 0 (rows.flatMap r.spansAt) size

/-! ### Placing the code -/

section

variable {offset native row : Nat} {rows : List Nat} {r : Registry}

theorem classAt?_layCode_of_not_mem (hrow : row ∉ rows) :
    (layCode offset native rows r).classAt? row = r.classAt? row := by
  induction rows generalizing offset native r with
  | nil => rfl
  | cons p rows ih =>
      have hne := List.ne_of_not_mem_cons hrow
      have hrow := List.not_mem_of_not_mem_cons hrow
      unfold layCode
      cases hp : r.classAt? p with
      | none => exact ih hrow
      | some c =>
          refine (ih hrow).trans ?_
          rw [classAt?_modifyClass, if_neg (Ne.symm hne)]

/-- Placing the code of classes that are listed once. -/
theorem layCode_placed (offset native : Nat) (r : Registry) (hnodup : rows.Nodup) :
    (∀ row ∈ rows, ∀ {c}, (layCode offset native rows r).classAt? row = some c → c.CodePlaced) ∧
      (∃ n, rows.flatMap (layCode offset native rows r).nativesAt =
        (List.range' native n).map some) ∧
      ∃ stop, Consecutive offset (rows.flatMap (layCode offset native rows r).spansAt) stop := by
  induction rows generalizing offset native r with
  | nil => exact ⟨fun row hrow => absurd hrow List.not_mem_nil, ⟨0, rfl⟩, offset, .nil offset⟩
  | cons p rows ih =>
      obtain ⟨hnew, hnodup⟩ := List.nodup_cons.mp hnodup
      unfold layCode
      cases hp : r.classAt? p with
      | none =>
          -- A row without a class has no methods to place.
          have hnone : (layCode offset native rows r).classAt? p = none :=
            (classAt?_layCode_of_not_mem hnew).trans hp
          obtain ⟨hplaced, ⟨n, hn⟩, stop, hstop⟩ := ih _ _ _ hnodup
          refine ⟨List.forall_mem_cons.mpr ⟨fun {c} hc => ?_, hplaced⟩, ⟨n, ?_⟩, stop, ?_⟩
          · cases hnone.symm.trans hc
          · rw [List.flatMap_cons, nativesAt, hnone]
            exact hn
          · rw [List.flatMap_cons, spansAt, hnone]
            exact hstop
      | some c =>
          obtain ⟨k, hk, hindices⟩ := placeCode_nativeIndex offset native c.methods
          have hclass : ∀ offset' native', (layCode offset' native' rows
              (r.modifyClass p fun c' => { c' with
                methods := (placeCode offset native c.methods).1 })).classAt? p =
              some { c with methods := (placeCode offset native c.methods).1 } := by
            intro offset' native'
            rw [classAt?_layCode_of_not_mem hnew, classAt?_modifyClass, if_pos rfl, hp,
              Option.map_some]
          obtain ⟨hplaced, ⟨n, hn⟩, stop, hstop⟩ := ih _ _ _ hnodup
          refine ⟨List.forall_mem_cons.mpr ⟨fun {c'} hc' => ?_, hplaced⟩, ⟨k + n, ?_⟩, stop, ?_⟩
          · cases (hclass _ _).symm.trans hc'
            exact placeCode_codeOffset _ _ _
          · rw [List.flatMap_cons, hn, nativesAt, hclass, hk, Option.map_some, Option.getD_some,
              Class.nativeIndices, hindices, ← List.map_append, ← List.range'_append_1]
          · rw [List.flatMap_cons, spansAt, hclass, Option.map_some, Option.getD_some, Class.spans]
            exact (placeCode_spans offset native c.methods).append hstop

end

/-! ### What follows -/

/-- The methods of `r'` are those of `r` in the same places. -/
def SamePlaces (r r' : Registry) : Prop :=
  ∀ row, (r'.classAt? row).map Class.unnumbered = (r.classAt? row).map Class.unnumbered

theorem SamePlaces.trans {r r' r'' : Registry} (h : r.SamePlaces r') (h' : r'.SamePlaces r'') :
    r.SamePlaces r'' := fun row => (h' row).trans (h row)

theorem SamePlaces.modifyClass {r : Registry} {row : Nat} {f : Class → Class}
    (hf : ∀ {c}, r.classAt? row = some c → (f c).unnumbered = c.unnumbered) :
    r.SamePlaces (r.modifyClass row f) :=
  map_classAt?_modifyClass hf

/-- What is read off the placed methods of a class is the same. -/
theorem SamePlaces.read_eq {β : Type} {r r' : Registry} (h : r.SamePlaces r')
    {read : Class → List β}
    (hread : ∀ {c c' : Class}, c'.unnumbered = c.unnumbered → read c' = read c) (row : Nat) :
    (r'.classAt? row).map read = (r.classAt? row).map read := by
  have heq := h row
  cases hc : r.classAt? row with
  | none =>
      rw [hc, Option.map_none, Option.map_eq_none_iff] at heq
      rw [heq]
  | some c =>
      rw [hc, Option.map_some] at heq
      obtain ⟨c', hc', hsame⟩ := Option.map_eq_some_iff.mp heq
      rw [hc', Option.map_some, Option.map_some, hread hsame]

theorem SamePlaces.placed {r r' : Registry} {rows : List Nat} (h : r.SamePlaces r')
    (hplaced : r.Placed rows) : r'.Placed rows := by
  refine ⟨fun {row c'} hrow hc' => ?_, ?_, ?_⟩
  · have heq := h row
    rw [hc', Option.map_some] at heq
    obtain ⟨c, hc, hsame⟩ := Option.map_eq_some_iff.mp heq.symm
    exact Class.codePlaced_congr hsame.symm (hplaced.codePlaced hrow hc)
  · have hnatives : r'.nativesAt = r.nativesAt := by
      funext row
      rw [nativesAt, nativesAt, h.read_eq Class.nativeIndices_congr]
    rw [hnatives]
    exact hplaced.natives
  · have hspans : r'.spansAt = r.spansAt := by
      funext row
      rw [spansAt, spansAt, h.read_eq Class.spans_congr]
    rw [hspans]
    exact hplaced.consecutive

theorem layStatics_samePlaces (rows : List Nat) (r : Registry) :
    r.SamePlaces (layStatics rows r) := by
  induction rows generalizing r with
  | nil => exact fun _ => rfl
  | cons row rows ih =>
      unfold layStatics
      cases hc : r.classAt? row with
      | none => exact ih r
      | some c =>
          have hstep : r.SamePlaces (r.modifyClass row fun c' => { c' with
              fields := (placeFields true r.staticSize c.fields).1 }) := .modifyClass fun _ => rfl
          exact hstep.trans (ih _)

theorem layInstances_samePlaces (rows : List Nat) (r : Registry) :
    r.SamePlaces (layInstances rows r) := by
  induction rows generalizing r with
  | nil => exact fun _ => rfl
  | cons row rows ih =>
      unfold layInstances
      cases hc : r.classAt? row with
      | none => exact ih r
      | some c =>
          refine SamePlaces.trans ?_ (ih _)
          exact .modifyClass fun _ => rfl

theorem numberMembers_samePlaces (rows : List Nat) (r : Registry) :
    r.SamePlaces (numberMembers rows r) := by
  induction rows generalizing r with
  | nil => exact fun _ => rfl
  | cons row rows ih =>
      unfold numberMembers
      cases hc : r.classAt? row with
      | none => exact ih r
      | some c =>
          refine (SamePlaces.modifyClass (r := r) fun hc' => ?_).trans (ih _)
          cases hc.symm.trans hc'
          exact numberMethods_unnumbered r.signatures c.methods

theorem Resolves.samePlaces {r l l' : Registry} (h : Resolves r l l') : l.SamePlaces l' := by
  intro row
  cases hc' : l'.classAt? row with
  | none =>
      rw [classAt?_eq_none_of_size_eq h.laid.size_eq.symm hc']
  | some c' =>
      obtain ⟨c, hc, hmethods, -⟩ := h.members hc'
      rw [hc, Option.map_some, Option.map_some, Class.unnumbered, Class.unnumbered, hmethods]

theorem layOut_samePlaces (r : Registry) : (layCode 0 0 r.keptRows r).SamePlaces r.layOut := by
  refine SamePlaces.trans ?_ (numberMembers_samePlaces _ _)
  refine SamePlaces.trans ?_ (layInstances_samePlaces _ _)
  exact layStatics_samePlaces r.keptRows { layCode 0 0 r.keptRows r with staticSize := 0 }

/-- The methods of the kept classes stay where they were placed. -/
theorem Resolves.placed {r l : Registry} (h : Resolves r r.layOut l) (hnodup : r.keptRows.Nodup) :
    l.Placed r.keptRows := by
  obtain ⟨hplaced, ⟨n, hn⟩, hconsecutive⟩ := layCode_placed 0 0 r hnodup
  have hplaced : (layCode 0 0 r.keptRows r).Placed r.keptRows :=
    ⟨fun hrow hc => hplaced _ hrow hc, ⟨n, hn.trans (by rw [List.range_eq_range'])⟩, hconsecutive⟩
  exact ((layOut_samePlaces r).trans h.samePlaces).placed hplaced

/-- Linking places the methods of the kept classes. -/
theorem link_placed {r r' : Registry} (hnodup : r.keptRows.Nodup) (hok : link r = .ok () r') :
    r'.Placed r.keptRows := by
  obtain ⟨-, -, l, hrun, rfl⟩ := link_ok.mp hok
  have hresolves : Resolves r r.layOut l := by
    refine forM_preserves (P := Resolves r r.layOut) ?_ (.refl r _) hrun
    intro row _ u v hu hstep
    exact hu.trans (resolveRefs_resolves ((layOut_spec r).1.trans hu.laid) hstep).1
  have hplaced := hresolves.placed hnodup
  exact ⟨hplaced.codePlaced, hplaced.natives, hplaced.consecutive⟩

end Registry

end ClassLinker
