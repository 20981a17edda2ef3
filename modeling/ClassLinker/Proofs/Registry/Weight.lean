import Mathlib.Data.List.Nodup
import ClassLinker.Proofs.Registry.Growth

/-! Weights. What a link has kept is measured by sums over its classes: the number of its kept
methods, the calls in their code, the initializers that are declared. The sums grow with the
registry, and marking a method adds exactly its weight. -/

namespace ClassLinker

section Totals

variable {α β κ : Type} {f : α → Nat} {xs : List α}

theorem total_map_add (f g : α → Nat) (xs : List α) :
    total (xs.map fun x => f x + g x) = total (xs.map f) + total (xs.map g) := by
  induction xs with
  | nil => rfl
  | cons x xs ih =>
      simp only [List.map_cons, total, ih]
      omega

theorem total_map_one (xs : List α) : total (xs.map fun _ => 1) = xs.length := by
  induction xs with
  | nil => rfl
  | cons x xs ih => rw [List.map_cons, total, ih, List.length_cons, Nat.add_comm]

/-- Larger numbers, one of them by a given amount. -/
theorem total_map_add_le {g : α → Nat} {x : α} {n : Nat} (hx : x ∈ xs) (hn : f x + n ≤ g x)
    (hle : ∀ y ∈ xs, f y ≤ g y) : total (xs.map f) + n ≤ total (xs.map g) := by
  induction xs with
  | nil => cases hx
  | cons z xs ih =>
      have hz := hle z List.mem_cons_self
      simp only [List.map_cons, total]
      rcases List.mem_cons.mp hx with rfl | hx
      · have hrest : total (xs.map f) ≤ total (xs.map g) := by
          refine total_map_le fun i y hy _ => ⟨y, hy, ?_⟩
          exact hle y (List.mem_cons_of_mem _ (List.mem_of_getElem? hy))
        omega
      · have hrest := ih hx fun y hy => hle y (List.mem_cons_of_mem _ hy)
        omega

/-- Things that are told apart by a key weigh at most as much as things among which each of them has
one with its key that weighs no less. -/
theorem total_le_of_keys (key : α → κ) (key' : β → κ) {g : β → Nat} {ys : List β}
    (hnodup : (xs.map key).Nodup)
    (h : ∀ x ∈ xs, f x ≠ 0 → ∃ y ∈ ys, key' y = key x ∧ f x ≤ g y) :
    total (xs.map f) ≤ total (ys.map g) := by
  induction xs generalizing ys with
  | nil => exact Nat.zero_le _
  | cons x xs ih =>
      rw [List.map_cons, List.nodup_cons] at hnodup
      by_cases hzero : f x = 0
      · simp only [List.map_cons, total, hzero, Nat.zero_add]
        exact ih hnodup.2 fun z hz => h z (List.mem_cons_of_mem _ hz)
      · obtain ⟨y, hy, hkey, hle⟩ := h x List.mem_cons_self hzero
        obtain ⟨before, after, rfl⟩ := List.append_of_mem hy
        have hrest : total (xs.map f) ≤ total ((before ++ after).map g) := by
          refine ih hnodup.2 fun z hz hne => ?_
          obtain ⟨w, hw, hwkey, hwle⟩ := h z (List.mem_cons_of_mem _ hz) hne
          refine ⟨w, ?_, hwkey, hwle⟩
          -- Another key belongs to another thing, so `y` is not used twice.
          have hother : w ≠ y := by
            rintro rfl
            exact hnodup.1 (List.mem_map.mpr ⟨z, hz, hwkey.symm.trans hkey⟩)
          simpa [hother] using hw
        simp only [List.map_append, List.map_cons, total_append, total] at hrest ⊢
        omega

end Totals

namespace Registry

/-- The sum of the weights of all classes. -/
def sumOf (w : Class → Nat) (r : Registry) : Nat := total (r.rows.toList.map w)

variable {w w' : Class → Nat} {r r' : Registry}

theorem sumOf_le (h : ∀ {row c}, r.classAt? row = some c → w c ≠ 0 →
    ∃ c', r'.classAt? row = some c' ∧ w c ≤ w' c') : r.sumOf w ≤ r'.sumOf w' := by
  refine total_map_le fun i c hc hne => ?_
  rw [Array.getElem?_toList] at hc
  obtain ⟨c', hc', hle⟩ := h (show r.classAt? i = some c from hc) hne
  exact ⟨c', by rw [Array.getElem?_toList]; exact hc', hle⟩

/-- One more class. -/
theorem sumOf_add_le {c : Class}
    (h : ∀ {row c}, r.classAt? row = some c → ∃ c', r'.classAt? row = some c' ∧ w c ≤ w c')
    (hc : r'.classAt? r.rows.size = some c) : r.sumOf w + w c ≤ r'.sumOf w := by
  have hsum : r.sumOf w + w c = total ((r.rows.toList ++ [c]).map w) := by
    simp [sumOf, total_append, total]
  rw [hsum]
  refine total_map_le fun i x hx _ => ?_
  rw [Array.getElem?_toList]
  rcases Nat.lt_or_ge i r.rows.size with hlt | hge
  · rw [List.getElem?_append_left (by simpa using hlt), Array.getElem?_toList] at hx
    exact h hx
  · rw [List.getElem?_append_right (by simpa using hge)] at hx
    obtain ⟨hi, rfl⟩ := List.getElem?_eq_some_iff.mp hx
    have hsize : i = r.rows.size := by
      simp only [List.length_cons, List.length_nil, Array.length_toList] at hi
      omega
    subst hsize
    exact ⟨c, hc, by simp⟩

/-- Changing one class changes the sum by the weight of that class. -/
theorem sumOf_modifyClass {row : Nat} {c : Class} (hc : r.classAt? row = some c)
    (f : Class → Class) : (r.modifyClass row f).sumOf w + w c = r.sumOf w + w (f c) := by
  have hlist : ∀ {cs : List Class} {i : Nat}, cs[i]? = some c →
      total ((cs.modify i f).map w) + w c = total (cs.map w) + w (f c) := by
    intro cs i hi
    induction cs generalizing i with
    | nil => cases hi
    | cons c₀ cs ih =>
        cases i with
        | zero =>
            cases hi
            simp only [List.modify_zero_cons, List.map_cons, total]
            omega
        | succ i =>
            have hrest := ih (i := i) hi
            simp only [List.modify_succ_cons, List.map_cons, total]
            omega
  have hrow : r.rows.toList[row]? = some c := by rw [Array.getElem?_toList]; exact hc
  simpa only [sumOf, modifyClass, Array.toList_modify] using hlist hrow

/-- One class that weighs more, and none that weighs less. -/
theorem sumOf_lt {row : Nat} {c c' : Class}
    (h : ∀ {row c}, r.classAt? row = some c → ∃ c', r'.classAt? row = some c' ∧ w c ≤ w c')
    (hc : r.classAt? row = some c) (hc' : r'.classAt? row = some c') (hlt : w c < w c') :
    r.sumOf w < r'.sumOf w := by
  have hsum := sumOf_modifyClass (w := w) hc fun _ => c'
  have hle : (r.modifyClass row fun _ => c').sumOf w ≤ r'.sumOf w := by
    refine sumOf_le fun {p cp} hcp _ => ?_
    by_cases hp : p = row
    · subst hp
      obtain rfl : c' = cp := by simpa [classAt?_modifyClass, hc] using hcp
      exact ⟨c', hc', Nat.le_refl _⟩
    · rw [classAt?_modifyClass, if_neg (Ne.symm hp)] at hcp
      exact h hcp
  omega

/-! ### Interfaces that a search has not seen -/

/-- How many interface names the classes list that a search has not seen. -/
def unseen (r : Registry) (seen : List Text) : Nat :=
  r.sumOf fun c => if seen.contains c.name then 0 else c.interfaces.length

theorem unseen_nil (r : Registry) : r.unseen [] = r.interfaceCount := rfl

/-- Seeing a class pays for the names that it adds to the queue. -/
theorem unseen_cons {row : Nat} {c : Class} (hc : r.classAt? row = some c) (seen : List Text)
    (hnew : c.name ∉ seen) :
    r.unseen (c.name :: seen) + c.interfaces.length ≤ r.unseen seen := by
  have hmem : c ∈ r.rows.toList := by
    have hrow : r.rows.toList[row]? = some c := by rw [Array.getElem?_toList]; exact hc
    exact List.mem_of_getElem? hrow
  refine total_map_add_le hmem ?_ fun x _ => ?_
  · simp [hnew]
  · by_cases hseen : x.name ∈ seen
    · simp [hseen]
    · by_cases hself : x.name = c.name <;> simp [hseen, hself]

end Registry

/-! ### Kept methods -/

/-- The weight of a declared member; fields weigh nothing. -/
def Declaration.weight (f : Method → Nat) : Declaration → Nat
  | .method m => f m
  | .field _ => 0

namespace Class

/-- The sum of the weights of the kept methods. -/
def keptWeight (f : Method → Nat) (c : Class) : Nat :=
  total (c.methods.map fun m => if m.kept then f m else 0)

/-- The number of kept methods. -/
def keptCount (c : Class) : Nat := c.keptWeight fun _ => 1

/-- Whether a class has a static initializer to run, as a number. -/
def initializerCount (c : Class) : Nat := if Signature.initializer ∈ c.signatures then 1 else 0

theorem keptCount_eq (c : Class) : c.keptCount = c.methods.countP Method.kept := by
  unfold keptCount keptWeight
  induction c.methods with
  | nil => rfl
  | cons m ms ih =>
      rw [List.map_cons, total, ih, List.countP_cons, Nat.add_comm]

/-- A weight that does not depend on what is kept. -/
abbrev Inherent (f : Method → Nat) : Prop := ∀ {m m' : Method}, m.Grows m' → f m' = f m

variable {f : Method → Nat} {c c' : Class}

/-- A class that keeps a method for each one that another class keeps. -/
theorem keptWeight_le (hnodup : c.signatures.Nodup)
    (h : ∀ m ∈ c.methods, m.kept = true →
      ∃ m' ∈ c'.methods, m'.sig = m.sig ∧ m'.kept = true ∧ f m ≤ f m') :
    c.keptWeight f ≤ c'.keptWeight f := by
  refine total_le_of_keys Method.sig Method.sig (List.nodup_append.mp hnodup).1 fun m hm hne => ?_
  have hkept : m.kept = true := by
    by_contra hdropped
    exact hne (if_neg hdropped)
  obtain ⟨m', hm', hsig, hkept', hle⟩ := h m hm hkept
  refine ⟨m', hm', hsig, ?_⟩
  rw [if_pos hkept, if_pos hkept']
  exact hle

theorem Grows.keptWeight_le (h : c.Grows c') (hnodup : c.signatures.Nodup) (hf : Inherent f) :
    c.keptWeight f ≤ c'.keptWeight f := by
  refine Class.keptWeight_le hnodup fun m hm hkept => ?_
  obtain ⟨m', hm', hmgrows⟩ := forall₂_mem_left h.methods hm
  exact ⟨m', hm', hmgrows.sig_eq, hmgrows.kept hkept, Nat.le_of_eq (hf hmgrows).symm⟩

/-- A class that keeps one more method. -/
theorem keptCount_lt (hnodup : c.signatures.Nodup) {m : Method} (hm : m ∈ c.methods)
    (hdropped : m.kept = false)
    (h : ∀ m₁ ∈ c.methods, m₁.kept = true ∨ m₁ = m →
      ∃ m' ∈ c'.methods, m'.sig = m₁.sig ∧ m'.kept = true) : c.keptCount < c'.keptCount := by
  have hmore : c.keptCount + 1 ≤
      total (c.methods.map fun m₁ => if m₁.kept = true ∨ m₁ = m then 1 else 0) := by
    refine total_map_add_le hm ?_ fun m₁ _ => ?_
    · simp [hdropped]
    · by_cases hkept : m₁.kept = true <;> simp [hkept]
  refine Nat.lt_of_lt_of_le hmore ?_
  refine total_le_of_keys Method.sig Method.sig (List.nodup_append.mp hnodup).1 fun m₁ hm₁ hne => ?_
  have hmarked : m₁.kept = true ∨ m₁ = m := by
    by_contra hother
    exact hne (if_neg hother)
  obtain ⟨m', hm', hsig, hkept'⟩ := h m₁ hm₁ hmarked
  exact ⟨m', hm', hsig, by simp [hmarked, hkept']⟩

/-- A method of a class is what the class declares under its signature. -/
theorem declared?_method {c : Class} (hnodup : c.signatures.Nodup) {m : Method}
    (hm : m ∈ c.methods) : c.declared? m.sig = some (.method m) := by
  obtain ⟨d, hd⟩ := exists_declared?.mpr
    (List.mem_append_left (c.fields.map Field.sig) (List.mem_map.mpr ⟨m, hm, rfl⟩))
  obtain ⟨m', hm', rfl, hsig⟩ | ⟨f, hf, rfl, hsig⟩ := mem_of_declared? hd
  · rw [List.inj_on_of_nodup_map (List.nodup_append.mp hnodup).1 hm hm' hsig.symm] at hd ⊢
    exact hd
  · have hdisjoint := (List.nodup_append.mp hnodup).2.2
    exact absurd hsig.symm (hdisjoint _ (List.mem_map.mpr ⟨m, hm, rfl⟩) _
      (List.mem_map.mpr ⟨f, hf, rfl⟩))

theorem declared?_field {c : Class} (hnodup : c.signatures.Nodup) {f : Field}
    (hf : f ∈ c.fields) : c.declared? f.sig = some (.field f) := by
  obtain ⟨d, hd⟩ := exists_declared?.mpr
    (List.mem_append_right (c.methods.map Method.sig) (List.mem_map.mpr ⟨f, hf, rfl⟩))
  obtain ⟨hmethods, hfields, hdisjoint⟩ := List.nodup_append.mp hnodup
  obtain ⟨m, hm, rfl, hsig⟩ | ⟨f', hf', rfl, hsig⟩ := mem_of_declared? hd
  · exact absurd hsig (hdisjoint _ (List.mem_map.mpr ⟨m, hm, rfl⟩) _ (List.mem_map.mpr ⟨f, hf, rfl⟩))
  · rw [List.inj_on_of_nodup_map hfields hf hf' hsig.symm] at hd ⊢
    exact hd

/-- Without a kept method nothing is weighed. -/
theorem exists_kept (h : c.keptWeight f ≠ 0) : ∃ m ∈ c.methods, m.kept = true := by
  by_contra hnone
  have hzero : c.keptWeight f ≤ total (([] : List Method).map f) := by
    refine total_map_le fun i m hm hne => ?_
    exact absurd (if_neg fun hkept => hnone ⟨m, List.mem_of_getElem? hm, hkept⟩) hne
  exact h (Nat.le_zero.mp hzero)

/-- Marking a method adds its weight. -/
theorem keptWeight_markMember (hnodup : c.signatures.Nodup) {sig : Signature} {m : Method}
    (hm : c.declared? sig = some (.method m)) (hdropped : m.kept = false) (hf : Inherent f) :
    (Registry.markMember c sig).keptWeight f = c.keptWeight f + f m := by
  have hmem := mem_methods_of_declared? hm
  have hsig : m.sig = sig := sig_of_declared? hm
  have hany : (c.methods.any fun m => m.sig = sig) = true :=
    List.any_eq_true.mpr ⟨m, hmem, decide_eq_true hsig⟩
  have hsigs := (List.nodup_append.mp hnodup).1
  rw [Registry.markMember, if_pos hany, keptWeight, keptWeight]
  obtain ⟨before, after, hsplit⟩ := List.append_of_mem hmem
  rw [hsplit] at hsigs
  have hothers : ∀ {ms : List Method}, (∀ x ∈ ms, x.sig ≠ sig) →
      ms.map (fun m => if m.sig = sig then { m with kept := true } else m) = ms := by
    intro ms hms
    conv_rhs => rw [← List.map_id ms]
    exact List.map_congr_left fun x hx => if_neg (hms x hx)
  rw [List.map_append, List.map_cons, List.nodup_append, List.nodup_cons] at hsigs
  have hbefore : ∀ x ∈ before, x.sig ≠ sig := by
    intro x hx heq
    exact hsigs.2.2 _ (List.mem_map_of_mem hx) _ List.mem_cons_self (heq.trans hsig.symm)
  have hafter : ∀ x ∈ after, x.sig ≠ sig := by
    intro x hx heq
    exact hsigs.2.1.1 (List.mem_map.mpr ⟨x, hx, heq.trans hsig.symm⟩)
  have hgrow : f { m with kept := true } = f m := hf ⟨rfl, fun _ => rfl⟩
  simp only [hsplit, List.map_append, List.map_cons, hothers hbefore, hothers hafter, if_pos hsig,
    total_append, total, hdropped, hgrow, if_true, Bool.false_eq_true, if_false]
  omega

/-- Marking a field changes no method. -/
theorem methods_markMember_field {sig : Signature} {field : Field}
    (hd : c.declared? sig = some (.field field)) :
    (Registry.markMember c sig).methods = c.methods := by
  have hnone : (c.methods.any fun m => m.sig = sig) = false := by
    rw [List.any_eq_false]
    intro m hm hsig
    rw [declared?] at hd
    cases hfind : c.methods.find? fun m => m.sig = sig with
    | some m' =>
        rw [hfind] at hd
        cases hd
    | none => exact List.find?_eq_none.mp hfind m hm hsig
  rw [Registry.markMember, if_neg (by rw [hnone]; exact Bool.false_ne_true)]

end Class

namespace Registry

variable {f : Method → Nat} {r r' : Registry}

theorem Grows.sumOf_keptWeight_le (h : r.Grows r') (hr : r.WellFormed) (hf : Class.Inherent f) :
    r.sumOf (Class.keptWeight f) ≤ r'.sumOf (Class.keptWeight f) := by
  refine sumOf_le fun {row c} hc _ => ?_
  obtain ⟨c', hc', hgrows⟩ := h.classes hc
  exact ⟨c', hc', hgrows.keptWeight_le (hr.signatures_nodup hc) hf⟩

/-- A registry that grows and keeps one more method. -/
theorem Grows.sumOf_keptCount_lt (h : r.Grows r') (hr : r.WellFormed) {row : Nat} {c : Class}
    {sig : Signature} {m : Method} (hc : r.classAt? row = some c)
    (hm : c.declared? sig = some (.method m)) (hdropped : m.kept = false)
    (hkeeps : r'.KeepsMember row sig) : r.sumOf Class.keptCount < r'.sumOf Class.keptCount := by
  obtain ⟨c', hc', hgrows⟩ := h.classes hc
  have hnodup := hr.signatures_nodup hc
  refine sumOf_lt (fun {row c} hc => ?_) hc hc' ?_
  · obtain ⟨c', hc', hgrows⟩ := h.classes hc
    exact ⟨c', hc', hgrows.keptWeight_le (hr.signatures_nodup hc) fun _ => rfl⟩
  · refine Class.keptCount_lt hnodup (Class.mem_methods_of_declared? hm) hdropped fun m₁ hm₁ hor => ?_
    obtain ⟨m', hm', hmgrows⟩ := forall₂_mem_left hgrows.methods hm₁
    refine ⟨m', hm', hmgrows.sig_eq, ?_⟩
    rcases hor with hkept | rfl
    · exact hmgrows.kept hkept
    · -- The method that was dropped is the member that is kept now.
      obtain ⟨c'', d, hc'', hd, hkept⟩ := hkeeps
      cases hc'.symm.trans hc''
      have hsig : m'.sig = sig := hmgrows.sig_eq.trans (Class.sig_of_declared? hm)
      have hd' := Class.declared?_method (hgrows.signatures_eq ▸ hnodup) hm'
      cases (hsig ▸ hd').symm.trans hd
      exact hkept

/-- A registry that grows without keeping anything more. -/
theorem Grows.sumOf_keptWeight_eq (h : r.Grows r') (hr : r.WellFormed) (hr' : r'.WellFormed)
    (hf : Class.Inherent f)
    (hkeeps : ∀ {row sig}, r'.KeepsMember row sig → r.KeepsMember row sig) :
    r'.sumOf (Class.keptWeight f) = r.sumOf (Class.keptWeight f) := by
  refine Nat.le_antisymm ?_ (h.sumOf_keptWeight_le hr hf)
  refine sumOf_le fun {row c'} hc' hne => ?_
  have hold : ∀ m' ∈ c'.methods, m'.kept = true → ∃ c, r.classAt? row = some c ∧
      ∃ m ∈ c.methods, m.sig = m'.sig ∧ m.kept = true ∧ f m' ≤ f m := by
    intro m' hm' hkept'
    have hd' := Class.declared?_method (hr'.signatures_nodup hc') hm'
    obtain ⟨c, d, hc, hd, hkept⟩ := hkeeps ⟨c', _, hc', hd', hkept'⟩
    obtain ⟨c'', hc'', hgrows⟩ := h.classes hc
    cases hc'.symm.trans hc''
    obtain ⟨d', hd'', hdgrows⟩ := hgrows.declared?_some hd
    cases hd'.symm.trans hd''
    cases d with
    | field field => exact hdgrows.elim
    | method m =>
        have hmgrows : m.Grows m' := hdgrows
        exact ⟨c, hc, m, Class.mem_methods_of_declared? hd, hmgrows.sig_eq.symm, hkept,
          Nat.le_of_eq (hf hmgrows)⟩
  obtain ⟨m₀, hm₀, hkept₀⟩ := Class.exists_kept hne
  obtain ⟨c, hc, -⟩ := hold m₀ hm₀ hkept₀
  refine ⟨c, hc, Class.keptWeight_le (hr'.signatures_nodup hc') fun m' hm' hkept' => ?_⟩
  obtain ⟨c₀, hc₀, hm⟩ := hold m' hm' hkept'
  cases hc.symm.trans hc₀
  exact hm

/-- Keeping a member that was not kept adds its weight. -/
theorem sumOf_keepMember {row : Nat} {sig : Signature} {fresh : Bool} {c : Class} {d : Declaration}
    (hr : r.WellFormed) (hc : r.classAt? row = some c) (hd : c.declared? sig = some d)
    (hok : keepMember row sig r = .ok fresh r') (hf : Class.Inherent f) :
    r'.sumOf (Class.keptWeight f) =
      r.sumOf (Class.keptWeight f) + if fresh then d.weight f else 0 := by
  obtain ⟨-, c', hc', -, ⟨-, rfl, rfl⟩ | ⟨hdropped, rfl, rfl⟩⟩ := keepMember_ok.mp hok
  · rfl
  · cases hc.symm.trans hc'
    have hsum := sumOf_modifyClass (w := Class.keptWeight f) hc fun c => markMember c sig
    have hmark : (markMember c sig).keptWeight f = c.keptWeight f + d.weight f := by
      cases d with
      | method m =>
          exact Class.keptWeight_markMember (hr.signatures_nodup hc) hd (hdropped _ hd) hf
      | field field =>
          rw [Class.keptWeight, Class.methods_markMember_field hd]
          rfl
    rw [if_pos rfl]
    omega

end Registry

end ClassLinker
