import ClassLinker.Proofs.Registry.Relocate

/-! Compaction as a whole. A compacted registry has exactly what was kept, under its new ids: every
kept class pruned, with its member table, and with code that uses the places in that table. -/

namespace ClassLinker

namespace Registry

open RegistryM Step

/-- The registry with its kept classes only and their member tables. -/
def tabled (rows : List Nat) (r : Registry) : Registry := buildTables { r with live := rows }

/-- Prunes the classes in some rows, builds their tables, relocates their code and closes the
registry. -/
def compacting (ids : Renumbering) (rows : List Nat) : RegistryM Unit := do
  rows.forM (pruneClass ids)
  modify (tabled rows)
  relocate
  modify fun r => { r with closed := true }

/-- The root is the first class that is kept. -/
def RootKept (r : Registry) : Prop :=
  (r.keptClasses.head?.map fun p => p.2.id) = some 0 ∧ r.newIds.lookup 0 = some 0

instance (r : Registry) : Decidable r.RootKept := inferInstanceAs (Decidable (_ ∧ _))

theorem compact_eq (r : Registry) : compact r =
    if r.closed then .error (.internal (.closed .compact)) r
    else if r.linked = false then .error (.internal .compactBeforeLink) r
    else if r.RootKept then compacting r.newIds r.keptRows r.unindexed
    else .error (.internal .rootNotKept) r.dropNames := by
  have hroot : (((r.keptClasses.head?.map fun p => p.2.id) ≠ some 0 ||
      (r.keptClasses.zipIdx.map fun p => (p.1.2.id, p.2)).reverse.lookup 0 ≠ some 0) : Bool) = true ↔
      ¬ r.RootKept := by
    simp only [Bool.or_eq_true, decide_eq_true_eq, RootKept, newIds, not_and_or, ne_eq]
  unfold compact
  cases hclosed : r.closed with
  | true => exact bind_of_error (checkOpen_error.mpr ⟨hclosed, rfl, rfl⟩)
  | false =>
      rw [bind_of_ok (a := ()) (checkOpen_ok.mpr ⟨hclosed, rfl⟩), bind_of_ok (get_ok.mpr ⟨rfl, rfl⟩)]
      cases hlinked : r.linked with
      | false => exact bind_of_error (inconsistent_error.mpr ⟨rfl, rfl⟩)
      | true =>
          rw [if_neg (by simp)]
          dsimp only
          rw [bind_of_ok (get_ok.mpr ⟨rfl, rfl⟩), bind_of_ok (a := ()) (modify_ok.mpr rfl)]
          by_cases hkept : r.RootKept
          · rw [if_neg (fun h => hroot.mp h hkept), bind_of_ok (a := ()) (modify_ok.mpr rfl)]
            rw [if_neg Bool.false_ne_true, if_neg (by simp), if_pos hkept]
            rfl
          · rw [if_pos (hroot.mpr hkept), if_neg Bool.false_ne_true, if_neg (by simp), if_neg hkept]
            exact bind_of_error (inconsistent_error.mpr ⟨rfl, rfl⟩)

theorem compacting_ok {ids : Renumbering} {rows : List Nat} {r r' : Registry} :
    compacting ids rows r = .ok () r' ↔ ∃ r₁ r₂, rows.forM (pruneClass ids) r = .ok () r₁ ∧
      relocate (tabled rows r₁) = .ok () r₂ ∧ { r₂ with closed := true } = r' := by
  simp only [compacting, bind_ok, modify_ok]
  constructor
  · rintro ⟨_, r₁, hprune, _, _, rfl, _, r₂, hrelocate, rfl⟩
    exact ⟨r₁, r₂, hprune, hrelocate, rfl⟩
  · rintro ⟨r₁, r₂, hprune, hrelocate, rfl⟩
    exact ⟨(), r₁, hprune, (), _, rfl, (), r₂, hrelocate, rfl⟩

theorem compact_eq_ok {r r' : Registry} : compact r = .ok () r' ↔
    r.closed = false ∧ r.linked = true ∧ r.RootKept ∧ ∃ r₁ r₂,
      r.keptRows.forM (pruneClass r.newIds) r.unindexed = .ok () r₁ ∧
      relocate (tabled r.keptRows r₁) = .ok () r₂ ∧ { r₂ with closed := true } = r' := by
  rw [compact_eq, ← compacting_ok]
  cases hclosed : r.closed with
  | true => simp
  | false =>
      cases hlinked : r.linked with
      | false => simp
      | true => by_cases hroot : r.RootKept <;> simp [hroot]

/-! ### Pruned classes -/

theorem keptSlots_slots_nodup {c : Class} (hc : c.Indexed) :
    ((keptSlots c).map Prod.snd).Nodup := by
  refine List.Nodup.map_on ?_ ((keptSlots_nodup hc.listed_nodup).of_map Prod.fst)
  rintro ⟨p, slot⟩ hp ⟨q, slot'⟩ hq hslot
  obtain ⟨ref, hmem, -, rfl⟩ := mem_keptSlots.mp hp
  obtain ⟨ref', hmem', -, rfl⟩ := mem_keptSlots.mp hq
  obtain ⟨hlisted, href⟩ := Class.mem_references.mp hmem
  obtain ⟨hlisted', href'⟩ := Class.mem_references.mp hmem'
  have h₁ := hc.lookup_iff.mpr ⟨hlisted, ref, href, rfl⟩
  have h₂ := hc.lookup_iff.mpr ⟨hlisted', ref', href', hslot.symm⟩
  cases h₁.symm.trans h₂
  exact Prod.ext rfl hslot

namespace Pruned

variable {ids : Renumbering} {c c' : Class}

/-- The references of a pruned class are the kept ones, sorted by slot. -/
theorem references_eq (h : Pruned ids c c') :
    c'.references.map (fun p => (p.1, p.2.slot)) = (keptSlots c).mergeSort fun a b => a.2 ≤ b.2 := by
  have hread : ∀ p ∈ (keptSlots c).mergeSort fun a b => a.2 ≤ b.2,
      ∃ ref, c'.pool[p.1]? = some ref ∧ ref.slot = p.2 := by
    rintro ⟨pos, slot⟩ hp
    obtain ⟨ref, hmem, hkept, rfl⟩ := mem_keptSlots.mp (List.mem_mergeSort.mp hp)
    obtain ⟨body, -, hset⟩ := h.rewritten hmem hkept
    exact ⟨_, hset, rfl⟩
  unfold Class.references
  rw [h.listed_eq]
  generalize (keptSlots c).mergeSort (fun a b => a.2 ≤ b.2) = sorted at hread ⊢
  induction sorted with
  | nil => rfl
  | cons p sorted ih =>
      obtain ⟨ref, href, hslot⟩ := hread p List.mem_cons_self
      rw [List.map_cons, List.filterMap_cons, href, Option.map_some, List.map_cons,
        ih fun q hq => hread q (List.mem_cons_of_mem _ hq), hslot]

theorem listed_nodup (h : Pruned ids c c') (hc : c.listed.Nodup) : c'.listed.Nodup := by
  rw [h.listed_eq, ((List.mergeSort_perm _ _).map Prod.fst).nodup_iff]
  exact keptSlots_nodup hc

theorem slots_sorted (h : Pruned ids c c') (hc : ((keptSlots c).map Prod.snd).Nodup) :
    (c'.references.map fun p => p.2.slot).Pairwise (· < ·) := by
  have hmap : c'.references.map (fun p => p.2.slot) =
      ((keptSlots c).mergeSort fun a b => a.2 ≤ b.2).map Prod.snd := by
    rw [← h.references_eq, List.map_map]
    rfl
  have hle : ((keptSlots c).mergeSort fun a b => a.2 ≤ b.2).Pairwise fun a b => a.2 ≤ b.2 := by
    have htrans : ∀ a b d : Nat × Int, decide (a.2 ≤ b.2) = true → decide (b.2 ≤ d.2) = true →
        decide (a.2 ≤ d.2) = true := by
      intro a b d hab hbd
      exact decide_eq_true (Int.le_trans (of_decide_eq_true hab) (of_decide_eq_true hbd))
    have htotal : ∀ a b : Nat × Int, (decide (a.2 ≤ b.2) || decide (b.2 ≤ a.2)) = true := by
      intro a b
      simp only [Bool.or_eq_true, decide_eq_true_eq]
      exact Int.le_total a.2 b.2
    exact (List.pairwise_mergeSort htrans htotal (keptSlots c)).imp fun h => of_decide_eq_true h
  have hne : (((keptSlots c).mergeSort fun a b => a.2 ≤ b.2).map Prod.snd).Nodup := by
    rw [((List.mergeSort_perm _ _).map Prod.snd).nodup_iff]
    exact hc
  rw [hmap, List.pairwise_map]
  rw [List.Nodup, List.pairwise_map] at hne
  exact (hle.and hne).imp fun h => lt_of_le_of_ne h.1 h.2

/-- The references of a pruned class come from kept ones. -/
theorem mem_references (h : Pruned ids c c') {pos : Nat} {ref' : Reference} :
    (pos, ref') ∈ c'.references ↔ ∃ ref body, (pos, ref) ∈ c.references ∧ ref.kept = true ∧
      Renumbered ids ref.body body ∧ c'.pool[pos]? = some ref' ∧
      ref' = rewriteRef c'.id body ref := by
  have hlisted : pos ∈ c'.listed ↔ ∃ ref, (pos, ref) ∈ c.references ∧ ref.kept = true := by
    rw [h.listed_eq, List.mem_map]
    constructor
    · rintro ⟨⟨pos', slot⟩, hmem, rfl⟩
      obtain ⟨ref, hmem, hkept, -⟩ := mem_keptSlots.mp (List.mem_mergeSort.mp hmem)
      exact ⟨ref, hmem, hkept⟩
    · rintro ⟨ref, hmem, hkept⟩
      exact ⟨(pos, ref.slot), List.mem_mergeSort.mpr (mem_keptSlots.mpr ⟨ref, hmem, hkept, rfl⟩),
        rfl⟩
  rw [Class.mem_references, hlisted]
  constructor
  · rintro ⟨⟨ref, hmem, hkept⟩, href'⟩
    obtain ⟨body, hbody, hset⟩ := h.rewritten hmem hkept
    cases hset.symm.trans href'
    exact ⟨ref, body, hmem, hkept, hbody, hset, rfl⟩
  · rintro ⟨ref, body, hmem, hkept, -, hset, -⟩
    exact ⟨⟨ref, hmem, hkept⟩, hset⟩

end Pruned

/-! ### Names -/

theorem lookup_filter {α β : Type} [BEq α] [LawfulBEq α] (entries : List (α × β)) (p : α → Bool)
    (k : α) : (entries.filter fun e => p e.1).lookup k =
      if p k then entries.lookup k else none := by
  induction entries with
  | nil => simp
  | cons e entries ih =>
      obtain ⟨k', v⟩ := e
      rw [List.filter_cons, List.lookup_cons]
      by_cases heq : k = k'
      · subst heq
        cases hp : p k with
        | true => simp
        | false => simp [hp, ih]
      · have hne : (k == k') = false := beq_false_of_ne heq
        cases hp : p k' with
        | true => simp only [if_true, List.lookup_cons, hne, ih]
        | false => simp only [Bool.false_eq_true, if_false, hne, ih]

/-- The names that are left are those of the kept classes. -/
theorem find?_dropNames {r : Registry} (hr : r.WellFormed) (hnamed : r.SelfNamed) {name : Text}
    {row : Nat} : r.dropNames.find? name = some row ↔
      r.find? name = some row ∧ row ∈ r.keptRows := by
  have hdropped : name ∈ (r.classes.filterMap fun p => if p.2.kept then none else some p.2.name) ↔
      ∃ row c, row ∈ r.live ∧ r.classAt? row = some c ∧ c.kept = false ∧ c.name = name := by
    simp only [List.mem_filterMap, Prod.exists, classes, Option.map_eq_some_iff, Prod.mk.injEq]
    constructor
    · rintro ⟨row, c, ⟨row', hlive, c', hc, rfl, rfl⟩, hsome⟩
      split at hsome
      · cases hsome
      · rename_i hkept
        exact ⟨row', c', hlive, hc, Bool.eq_false_iff.mpr hkept, Option.some.inj hsome⟩
    · rintro ⟨row, c, hlive, hc, hkept, rfl⟩
      exact ⟨row, c, ⟨row, hlive, c, hc, rfl, rfl⟩, by rw [if_neg (by rw [hkept]; decide)]⟩
  have hfind : r.dropNames.find? name = if name ∈ (r.classes.filterMap fun p =>
      if p.2.kept then none else some p.2.name) then none else r.find? name := by
    unfold dropNames find?
    dsimp only
    rw [lookup_filter r.names (fun name => !(r.classes.filterMap fun p =>
      if p.2.kept then none else some p.2.name).contains name)]
    generalize (r.classes.filterMap fun p => if p.2.kept then none else some p.2.name) = dropped
    by_cases hmem : name ∈ dropped
    · rw [if_pos hmem, if_neg (by simp [hmem])]
    · rw [if_neg hmem, if_pos (by simp [hmem])]
  rw [hfind]
  by_cases hmem : name ∈ r.classes.filterMap fun p => if p.2.kept then none else some p.2.name
  · rw [if_pos hmem]
    obtain ⟨row', c, hlive, hc, hkept, rfl⟩ := hdropped.mp hmem
    constructor
    · intro h
      cases h
    · rintro ⟨hrow, hrowKept⟩
      cases (hnamed hlive hc).symm.trans hrow
      obtain ⟨-, c', hc', hkept'⟩ := mem_keptRows.mp hrowKept
      cases hc.symm.trans hc'
      rw [hkept] at hkept'
      cases hkept'
  · rw [if_neg hmem]
    constructor
    · intro hrow
      refine ⟨hrow, ?_⟩
      have hlive := hr.find_live hrow
      obtain ⟨c, hc⟩ := hr.exists_class hlive
      refine mem_keptRows.mpr ⟨hlive, c, hc, ?_⟩
      by_contra hkept
      exact hmem (hdropped.mpr ⟨row, c, hlive, hc, Bool.eq_false_iff.mpr hkept,
        hr.find_name hrow hc⟩)
    · exact fun h => h.1

/-! ### Compacted registries -/

/-- What becomes of a kept class. -/
structure Compacted (ids : Renumbering) (remap : Nat → Nat → Except Inconsistency Nat)
    (c c' : Class) : Prop where
  steps : ∃ c₁ c₂, Pruned ids { c with slots := [] } c₁ ∧ Tabled c₁ c₂ ∧ Relocated remap c₂ c'

/-- `r'` is `r` compacted. -/
structure CompactedTo (r r' : Registry) : Prop where
  live_eq : r'.live = r.keptRows
  signatures_eq : r'.signatures = r.signatures
  closed : r'.closed = true
  compacted : r'.compacted = true
  find?_iff : ∀ {name row}, r'.find? name = some row ↔
    r.find? name = some row ∧ row ∈ r.keptRows
  classes : ∀ {row c}, row ∈ r.keptRows → r.classAt? row = some c →
    ∃ c', r'.classAt? row = some c' ∧ Compacted r.newIds r'.compactSlot c c'
  dropped : ∀ {row c'}, row ∉ r.keptRows → r'.classAt? row = some c' → c'.forwarding = []
  forgotten : ∀ {row c'}, row ∉ r.keptRows → r'.classAt? row = some c' → c'.slots = []
  relocated : relocate r' = .ok () r'

/-- The registry between pruning and relocation: its live classes are pruned and have their member
tables. -/
structure TabledTo (ids : Renumbering) (r r' : Registry) : Prop where
  live_eq : r'.live = r.keptRows
  names_eq : r'.names = r.dropNames.names
  signatures_eq : r'.signatures = r.signatures
  closed_eq : r'.closed = r.closed
  compacted : r'.compacted = true
  classes : ∀ {row c}, row ∈ r.keptRows → r.classAt? row = some c →
    ∃ c₁ c₂, Pruned ids { c with slots := [] } c₁ ∧ Tabled c₁ c₂ ∧ r'.classAt? row = some c₂
  dropped : ∀ {row}, row ∉ r.keptRows → r'.classAt? row =
    (r.classAt? row).map fun c => { c with slots := [], table := [], forwarding := [] }

theorem tabledTo_of_prune {ids : Renumbering} {r r₁ : Registry} (hr : r.WellFormed)
    (hok : r.keptRows.forM (pruneClass ids) r.unindexed = .ok () r₁) :
    TabledTo ids r (tabled r.keptRows r₁) := by
  have hindexed : ∀ {row c}, row ∈ r.keptRows → r.classAt? row = some c → c.Indexed :=
    fun hrow hc => hr.indexed (mem_keptRows.mp hrow).1 hc
  have hpruned : Changed (Pruned ids) r.keptRows r.unindexed r₁ := by
    refine pruneAll_changed hr.keptRows_nodup ?_ hok
    intro row c hrow hc
    rw [classAt?_unindexed] at hc
    obtain ⟨c₀, hc₀, rfl⟩ := Option.map_eq_some_iff.mp hc
    exact (hindexed hrow hc₀).listed_nodup
  obtain ⟨rows, hframe, -⟩ := buildTables_frame { r₁ with live := r.keptRows }
  have hclass := fun row => classAt?_buildTables (r := { r₁ with live := r.keptRows })
    hr.keptRows_nodup row
  unfold tabled
  refine ⟨by rw [hframe], ?_, ?_, ?_, by rw [hframe], ?_, ?_⟩
  · rw [hframe]
    exact hpruned.names_eq
  · rw [hframe, hpruned.frame]
    rfl
  · rw [hframe, hpruned.frame]
    rfl
  · intro row c hrow hc
    have hunindexed : r.unindexed.classAt? row = some { c with slots := [] } := by
      rw [classAt?_unindexed, hc, Option.map_some]
    obtain ⟨c₁, hc₁, hp⟩ := hpruned.inside hrow hunindexed
    refine ⟨c₁, buildTable c₁, hp, ?_, ?_⟩
    · refine buildTable_tabled (hp.listed_nodup (hindexed hrow hc).listed_nodup) ?_
      have hslots : ((keptSlots c).map Prod.snd).Nodup := keptSlots_slots_nodup (hindexed hrow hc)
      exact (hp.slots_sorted hslots).imp ne_of_lt
    · rw [hclass]
      show (r₁.classAt? row).map _ = _
      rw [hc₁, Option.map_some, if_pos hrow]
  · intro row hrow
    rw [hclass]
    show (r₁.classAt? row).map _ = _
    rw [hpruned.outside hrow, classAt?_unindexed, Option.map_map]
    simp only [Function.comp_def, if_neg hrow]

namespace TabledTo

variable {ids : Renumbering} {r r' : Registry}

theorem exists_old (h : TabledTo ids r r') {row : Nat} {c' : Class} (hrow : row ∈ r.keptRows)
    (hc' : r'.classAt? row = some c') : ∃ c c₁, r.classAt? row = some c ∧
      Pruned ids { c with slots := [] } c₁ ∧ Tabled c₁ c' := by
  obtain ⟨-, c, hc, -⟩ := mem_keptRows.mp hrow
  obtain ⟨c₁, c₂, hp, ht, hc₂⟩ := h.classes hrow hc
  cases hc'.symm.trans hc₂
  exact ⟨c, c₁, hc, hp, ht⟩

theorem find?_eq (h : TabledTo ids r r') (name : Text) :
    r'.find? name = r.dropNames.find? name := by rw [find?, find?, h.names_eq]

/-- Ids are places among the kept classes. -/
theorem id_eq (h : TabledTo r.newIds r r') (hr : r.WellFormed) {i row : Nat} {c' : Class}
    (hi : r'.live[i]? = some row) (hc' : r'.classAt? row = some c') : c'.id = i := by
  rw [h.live_eq] at hi
  obtain ⟨c, c₁, hc, hp, ht⟩ := h.exists_old (List.mem_of_getElem? hi) hc'
  rw [ht.frame]
  show c₁.id = i
  rw [hp.id_eq]
  show (r.newIds.lookup c.id).getD c.id = i
  rw [lookup_newIds hr hi hc, Option.getD_some]

theorem forwarding_eq (h : TabledTo ids r r') {row : Nat} {c' : Class}
    (hc' : r'.classAt? row = some c') (hrow : row ∉ r'.live) : c'.forwarding = [] := by
  rw [h.live_eq] at hrow
  rw [h.dropped hrow] at hc'
  obtain ⟨c, -, rfl⟩ := Option.map_eq_some_iff.mp hc'
  rfl

theorem relocatable (h : TabledTo ids r r') (hr : r.WellFormed) : r'.Relocatable := by
  refine ⟨h.live_eq ▸ hr.keptRows_nodup, ?_, ?_⟩
  · intro row hrow
    rw [h.live_eq] at hrow
    obtain ⟨-, c, hc, -⟩ := mem_keptRows.mp hrow
    obtain ⟨c₁, c₂, -, -, hc₂⟩ := h.classes hrow hc
    exact ⟨c₂, hc₂⟩
  · intro row c' hrow hc'
    rw [h.live_eq] at hrow
    obtain ⟨c, c₁, hc, hp, ht⟩ := h.exists_old hrow hc'
    have hmethods : c'.methods = c.methods.filter Method.kept := by
      rw [ht.frame, hp.frame]
    have hnodup := hr.signatures_nodup hc
    rw [Class.signatures, List.nodup_append] at hnodup
    rw [hmethods]
    exact (List.filter_sublist.map Method.sig).nodup hnodup.1

end TabledTo

/-- Relocation starts from the declared code, so doing it again changes nothing. -/
theorem relocate_again {r r' : Registry} (hr : r.Relocatable) (hok : relocate r = .ok () r') :
    relocate { r' with closed := true } = .ok () { r' with closed := true } := by
  have hchanged := relocate_changed hr hok
  have hslot : ({ r' with closed := true } : Registry).compactSlot = r.compactSlot :=
    hchanged.compactSlot_eq
  have hold : ∀ {row c'}, row ∈ r'.live → r'.classAt? row = some c' →
      ∃ c, row ∈ r.live ∧ r.classAt? row = some c ∧ Relocated r.compactSlot c c' := by
    intro row c' hrow hc'
    rw [hchanged.live_eq] at hrow
    obtain ⟨c, hc, hrelocated⟩ := hchanged.exists_old hrow hc'
    exact ⟨c, hrow, hc, hrelocated⟩
  have hr' : ({ r' with closed := true } : Registry).Relocatable := by
    refine ⟨hchanged.live_eq ▸ hr.live_nodup, ?_, ?_⟩
    · intro row hrow
      have hrow' : row ∈ r.live := hchanged.live_eq ▸ hrow
      obtain ⟨c, hc⟩ := hr.exists_class hrow'
      obtain ⟨c', hc', -⟩ := hchanged.inside hrow' hc
      exact ⟨c', hc'⟩
    · intro row c' hrow hc'
      obtain ⟨c, hrow, hc, hrelocated⟩ := hold hrow hc'
      rw [map_eq_of_forall₂ (g := Method.sig) (fun h => h.sig_eq) hrelocated.methods]
      exact hr.sigs_nodup hrow hc
  have hcompacted : r'.compacted = true := by
    rw [hchanged.frame]
    exact (relocate_eq.mp hok).1
  obtain ⟨r'', hagain⟩ := exists_relocate hr' hcompacted fun {row c'} hrow hc' m' hm' => by
    obtain ⟨c, -, hc, hrelocated⟩ := hold hrow hc'
    obtain ⟨m, -, hm⟩ := forall₂_mem_right hrelocated.methods hm'
    refine ⟨m', ?_⟩
    rw [hslot, show c'.id = c.id by rw [hrelocated.frame]]
    exact hm.again
  have hself : r'' = { r' with closed := true } := by
    refine (relocate_changed hr' hagain).eq_self ?_
    intro row c' c'' hrow hc' hrelocated'
    obtain ⟨c, -, hc, hrelocated⟩ := hold hrow hc'
    rw [hslot] at hrelocated'
    exact hrelocated.again hrelocated'
  rw [hagain, hself]

theorem compact_spec {r r' : Registry} (hr : r.WellFormed) (hnamed : r.SelfNamed)
    (hok : compact r = .ok () r') : r.CompactedTo r' := by
  obtain ⟨-, -, -, r₁, r₂, hprune, hrelocate, rfl⟩ := compact_eq_ok.mp hok
  have htabled := tabledTo_of_prune hr hprune
  have hchanged := relocate_changed (htabled.relocatable hr) hrelocate
  have hslot : ({ r₂ with closed := true } : Registry).compactSlot =
      (tabled r.keptRows r₁).compactSlot := hchanged.compactSlot_eq
  have hout : ∀ {row}, row ∉ r.keptRows → row ∉ (tabled r.keptRows r₁).live := by
    intro row hrow
    rw [htabled.live_eq]
    exact hrow
  refine ⟨?_, ?_, rfl, ?_, ?_, ?_, ?_, ?_, ?_⟩
  · exact hchanged.live_eq.trans htabled.live_eq
  · show r₂.signatures = _
    rw [hchanged.frame]
    exact htabled.signatures_eq
  · show r₂.compacted = _
    rw [hchanged.frame]
    exact htabled.compacted
  · intro name row
    rw [← find?_dropNames hr hnamed, ← htabled.find?_eq, ← hchanged.find?_eq]
    rfl
  · intro row c hrow hc
    obtain ⟨c₁, c₂, hp, ht, hc₂⟩ := htabled.classes hrow hc
    obtain ⟨c', hc', hrelocated⟩ := hchanged.inside (by rw [htabled.live_eq]; exact hrow) hc₂
    exact ⟨c', hc', ⟨c₁, c₂, hp, ht, hslot ▸ hrelocated⟩⟩
  · intro row c' hrow hc'
    exact htabled.forwarding_eq ((hchanged.outside (hout hrow)).symm.trans hc') (hout hrow)
  · intro row c' hrow hc'
    have hold := (hchanged.outside (hout hrow)).symm.trans hc'
    rw [htabled.dropped hrow] at hold
    obtain ⟨c, -, rfl⟩ := Option.map_eq_some_iff.mp hold
    rfl
  · exact relocate_again (htabled.relocatable hr) hrelocate

/-! ### What a slot is compacted to -/

/-- The entry of a class's member table at a place, and the kept reference of the class before
compaction that it comes from. -/
structure EntryOf (ids : Renumbering) (c c' : Class) (index pos : Nat) (ref entry : Reference) :
    Prop where
  mem : (pos, ref) ∈ c.references
  kept : ref.kept = true
  table : c'.table[index]? = some pos
  pool : c'.pool[pos]? = some entry
  slot_eq : entry.slot = ref.slot
  body : ∃ m target declaring link i target' declaring',
    ref.body = .memberRef m (some target) (some declaring) link i ∧
    ids.lookup target = some target' ∧ ids.lookup declaring = some declaring' ∧
    entry.body = .memberRef m (some target') (some declaring') link (some index)

theorem key?_setIndex (index : Nat) (ref : Reference) : (setIndex index ref).key? = ref.key? := by
  unfold setIndex
  split
  · rename_i hbody
    simp only [Reference.key?, hbody]
  · rfl

/-- A renumbered member reference that knows its place. -/
theorem entryOf_of_tabled {ids : Renumbering} {c c₁ c' : Class} {index pos : Nat}
    {ref₁ : Reference} {key : Option Nat × Option Nat}
    (hp : Pruned ids { c with slots := [] } c₁) (hmem₁ : (pos, ref₁) ∈ c₁.references)
    (hkey : ref₁.key? = some key) (htable : c'.table[index]? = some pos)
    (hpool : c'.pool[pos]? = some (setIndex index ref₁)) :
    ∃ ref, EntryOf ids c c' index pos ref (setIndex index ref₁) := by
  obtain ⟨ref, body, hmem, hkept, hbody, -, rfl⟩ := hp.mem_references.mp hmem₁
  obtain ⟨target, link⟩ := key
  obtain ⟨m, declaring, i, hbody₁⟩ := Reference.key?_eq_some.mp hkey
  have hbody₁ : body = .memberRef m target declaring link i := hbody₁
  subst hbody₁
  cases hrefBody : ref.body with
  | literal v =>
      rw [hrefBody] at hbody
      cases hbody
  | classRef name t =>
      rw [hrefBody] at hbody
      obtain ⟨old, new, -, -, heq⟩ := hbody
      cases heq
  | memberRef m' t d k i' =>
      rw [hrefBody] at hbody
      obtain ⟨old, new, old', new', rfl, hnew, rfl, hnew', heq⟩ := hbody
      cases heq
      exact ⟨ref, hmem, hkept, htable, hpool, rfl, _, old, old', _, _, new, new', hrefBody, hnew,
        hnew', rfl⟩

theorem Renumbered.key {ids : Renumbering} {ref : Reference} {body : RefBody} {m : Member}
    {t d k i : Option Nat} (hbody : ref.body = .memberRef m t d k i)
    (h : Renumbered ids ref.body body) (owner : Nat) :
    ∃ target new, t = some target ∧ ids.lookup target = some new ∧
      (rewriteRef owner body ref).key? = some (some new, k) := by
  rw [hbody] at h
  obtain ⟨old, new, old', new', rfl, hnew, rfl, hnew', rfl⟩ := h
  exact ⟨old, new, rfl, hnew, rfl⟩

/-- The slot of a kept member reference forwards to an entry with the same target and link id. -/
theorem exists_entryOf {r : Registry} (hr : r.WellFormed) {c c₁ c' : Class}
    (hp : Pruned r.newIds { c with slots := [] } c₁) (ht : Tabled c₁ c') {pos : Nat}
    {ref : Reference} {m : Member} {t d k i : Option Nat} (hmem : (pos, ref) ∈ c.references)
    (hkept : ref.kept = true) (hbody : ref.body = .memberRef m t d k i) :
    ∃ index p first entry m' d' i', c'.forwarding.lookup ref.slot = some p ∧
      EntryOf r.newIds c c' index p first entry ∧ first.body = .memberRef m' t d' k i' := by
  obtain ⟨body, hrenumbered, hset⟩ := hp.rewritten hmem hkept
  obtain ⟨target, new, rfl, hnew, hkey⟩ := hrenumbered.key hbody c₁.id
  have hmem₁ : (pos, rewriteRef c₁.id body ref) ∈ c₁.references :=
    hp.mem_references.mpr ⟨ref, body, hmem, hkept, hrenumbered, hset, rfl⟩
  obtain ⟨index, p, first₁, -, htable, hforward, hfirst, hfirstKey, hfirstPool⟩ :=
    ht.member hmem₁ hkey
  obtain ⟨first, hentry⟩ := entryOf_of_tabled hp hfirst hfirstKey htable hfirstPool
  obtain ⟨m', target₂, declaring, link, i', new₂, declaring', hfirstBody, hnew₂, -, hentryBody⟩ :=
    hentry.body
  -- The entry has the key of the reference, and the renumbering is injective.
  have hsame : some (some new₂, link) = some (some new, k) := by
    rw [← hfirstKey, ← key?_setIndex index first₁, Reference.key?, hentryBody]
  cases hsame
  cases newIds_injective hr hnew hnew₂
  exact ⟨index, p, first, _, m', some declaring, i', hforward, hentry, hfirstBody⟩

namespace TabledTo

variable {r r' : Registry}

/-- The slot of a kept member reference is compacted to the place of an entry. -/
theorem exists_compactSlot (h : TabledTo r.newIds r r') (hr : r.WellFormed) {row : Nat}
    {c c' : Class} (hrow : row ∈ r.keptRows) (hc : r.classAt? row = some c)
    (hc' : r'.classAt? row = some c') {pos slot : Nat} {ref : Reference} {m : Member}
    {t d k i : Option Nat} (hmem : (pos, ref) ∈ c.references) (hkept : ref.kept = true)
    (hslot : ref.slot = slot) (hbody : ref.body = .memberRef m t d k i) :
    ∃ index, r'.compactSlot c'.id slot = .ok index := by
  obtain ⟨c₁, c₂, hp, ht, hc₂⟩ := h.classes hrow hc
  cases hc'.symm.trans hc₂
  obtain ⟨index, p, first, entry, -, -, -, hforward, hentry, -⟩ :=
    exists_entryOf hr hp ht hmem hkept hbody
  obtain ⟨m', _, _, _, _, _, _, -, -, -, hentryBody⟩ := hentry.body
  refine ⟨index, ?_⟩
  rw [compactSlot_ok (fun hi hc => h.id_eq hr hi hc) (fun hc hrow => h.forwarding_eq hc hrow)
    (h.live_eq ▸ hrow) hc']
  exact ⟨p, entry, m', _, _, _, hslot ▸ hforward, hentry.pool, hentryBody⟩

end TabledTo

/-- The code of a method decodes, and each member slot in it is that of a kept member reference of
its class. -/
structure CodeResolved (c : Class) (code : Bytes) : Prop where
  complete : (Code.decode code).ending = .complete
  slots : ∀ i ∈ (Code.decode code).instrs, Opcode.operand i.op = .memberSlot →
    ∃ pos ref m t d k n, (pos, ref) ∈ c.references ∧ ref.kept = true ∧
      ref.slot = bigEndian (i.operands.take 2) ∧ ref.body = .memberRef m t d k n

/-- Compaction of a linked registry succeeds when the root is kept, the kept references can be
renumbered and the member slots in the kept code are those of kept references. -/
theorem exists_compact {r : Registry} (hr : r.WellFormed) (hopen : r.closed = false)
    (hlinked : r.linked = true) (hroot : r.RootKept)
    (hrefs : ∀ {row c pos ref}, row ∈ r.keptRows → r.classAt? row = some c →
      (pos, ref) ∈ c.references → ref.kept = true → ∃ body, Renumbered r.newIds ref.body body)
    (hcode : ∀ {row c m}, row ∈ r.keptRows → r.classAt? row = some c → m ∈ c.methods →
      m.kept = true → m.hasCode = true → CodeResolved c m.rawCode) :
    ∃ r', compact r = .ok () r' := by
  obtain ⟨r₁, hprune⟩ : ∃ r₁, r.keptRows.forM (pruneClass r.newIds) r.unindexed = .ok () r₁ := by
    refine exists_pruneAll hr.keptRows_nodup fun row hrow => ?_
    obtain ⟨hlive, c, hc, -⟩ := mem_keptRows.mp hrow
    refine ⟨{ c with slots := [] }, by rw [classAt?_unindexed, hc, Option.map_some],
      (hr.indexed hlive hc).listed_nodup, ?_⟩
    intro pos ref hmem hkept
    exact hrefs hrow hc hmem hkept
  have htabled := tabledTo_of_prune hr hprune
  obtain ⟨r₂, hrelocate⟩ : ∃ r₂, relocate (tabled r.keptRows r₁) = .ok () r₂ := by
    refine exists_relocate (htabled.relocatable hr) htabled.compacted ?_
    intro row c₂ hrow hc₂ m hm
    rw [htabled.live_eq] at hrow
    obtain ⟨c, c₁, hc, hp, ht⟩ := htabled.exists_old hrow hc₂
    have hmethods : c₂.methods = c.methods.filter Method.kept := by rw [ht.frame, hp.frame]
    rw [hmethods, List.mem_filter] at hm
    unfold Relocates
    by_cases hcodeOf : m.hasCode = true
    · obtain ⟨hcomplete, hslots⟩ := hcode hrow hc hm.1 hm.2 hcodeOf
      obtain ⟨code, hrelocated⟩ := Code.exists_relocate ((tabled r.keptRows r₁).compactSlot c₂.id)
          hcomplete fun i hi hop => by
        obtain ⟨pos, ref, x, t, d, k, n, hmem, hkept, hslot, hbody⟩ := hslots i hi hop
        exact htabled.exists_compactSlot hr hrow hc hc₂ hmem hkept hslot hbody
      exact ⟨_, by rw [if_pos hcodeOf]; exact ⟨code, hrelocated, rfl⟩⟩
    · exact ⟨m, by rw [if_neg hcodeOf]⟩
  refine ⟨{ r₂ with closed := true }, ?_⟩
  exact compact_eq_ok.mpr ⟨hopen, hlinked, hroot, r₁, r₂, hprune, hrelocate, rfl⟩

end Registry

end ClassLinker
