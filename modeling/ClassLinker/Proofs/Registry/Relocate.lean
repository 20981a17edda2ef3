import ClassLinker.Proofs.Instruction.Relocate
import ClassLinker.Proofs.Registry.Tables

/-! The steps of compaction over all classes: pruning, building the member tables, relocating the
code. Each of them changes the classes one by one and looks at nothing that it changed in another
class, so its outcome is described class by class. -/

namespace ClassLinker

theorem split_of_nodup {α : Type} {xs done rest : List α} {x : α} (hnodup : xs.Nodup)
    (hsplit : xs = done ++ x :: rest) : x ∈ xs ∧ x ∉ done := by
  rw [hsplit] at hnodup ⊢
  refine ⟨List.mem_append_right _ List.mem_cons_self, fun hdone => ?_⟩
  exact (List.nodup_append.mp hnodup).2.2 x hdone x List.mem_cons_self rfl

namespace Registry

open RegistryM Step

/-- `r'` is `r` with the classes in some rows changed, each on its own. -/
structure Changed (R : Class → Class → Prop) (rows : List Nat) (r r' : Registry) : Prop where
  frame : r' = { r with rows := r'.rows }
  size_eq : r'.rows.size = r.rows.size
  inside : ∀ {row c}, row ∈ rows → r.classAt? row = some c →
    ∃ c', r'.classAt? row = some c' ∧ R c c'
  outside : ∀ {row}, row ∉ rows → r'.classAt? row = r.classAt? row

namespace Changed

variable {R : Class → Class → Prop} {rows : List Nat} {r r' : Registry}

theorem refl (R : Class → Class → Prop) (r : Registry) : Changed R [] r r :=
  ⟨rfl, rfl, fun hrow => (by cases hrow), fun _ => rfl⟩

/-- One more class. -/
theorem step (h : Changed R rows r r') {row : Nat} {c c' : Class} (hnew : row ∉ rows)
    (hc : r.classAt? row = some c) (hR : R c c') :
    Changed R (rows ++ [row]) r (r'.modifyClass row fun _ => c') := by
  refine ⟨by rw [h.frame]; rfl, by rw [size_modifyClass, h.size_eq], ?_, ?_⟩
  · intro row' c₀ hrow' hc₀
    rw [classAt?_modifyClass]
    rcases List.mem_append.mp hrow' with hrow' | hrow'
    · have hne : row ≠ row' := by
        rintro rfl
        exact hnew hrow'
      rw [if_neg hne]
      exact h.inside hrow' hc₀
    · obtain rfl := List.mem_singleton.mp hrow'
      cases hc.symm.trans hc₀
      rw [if_pos rfl, h.outside hnew, hc]
      exact ⟨c', rfl, hR⟩
  · intro row' hrow'
    rw [List.mem_append, List.mem_singleton, not_or] at hrow'
    rw [classAt?_modifyClass, if_neg (Ne.symm hrow'.2)]
    exact h.outside hrow'.1

theorem live_eq (h : Changed R rows r r') : r'.live = r.live := by rw [h.frame]

theorem names_eq (h : Changed R rows r r') : r'.names = r.names := by rw [h.frame]

theorem find?_eq (h : Changed R rows r r') (name : Text) : r'.find? name = r.find? name := by
  rw [find?, find?, h.names_eq]

/-- What a change of one class leaves alone, all of them leave alone. -/
theorem map_classAt? {α : Type} {f : Class → α} (h : Changed R rows r r')
    (hf : ∀ {c c'}, R c c' → f c' = f c) (row : Nat) :
    (r'.classAt? row).map f = (r.classAt? row).map f := by
  by_cases hrow : row ∈ rows
  · cases hc : r.classAt? row with
    | none =>
        rw [classAt?_eq_none_of_size_eq h.size_eq hc]
    | some c =>
        obtain ⟨c', hc', hR⟩ := h.inside hrow hc
        rw [hc', Option.map_some, Option.map_some, hf hR]
  · rw [h.outside hrow]

theorem exists_old (h : Changed R rows r r') {row : Nat} {c' : Class} (hrow : row ∈ rows)
    (hc' : r'.classAt? row = some c') : ∃ c, r.classAt? row = some c ∧ R c c' := by
  obtain ⟨c, hc⟩ := exists_classAt? (h.size_eq ▸ classAt?_lt hc')
  obtain ⟨c'', hc'', hR⟩ := h.inside hrow hc
  cases hc'.symm.trans hc''
  exact ⟨c, hc, hR⟩

end Changed

/-! ### New ids -/

/-- The new id of every kept class. -/
def newIds (r : Registry) : Renumbering :=
  (r.keptClasses.zipIdx.map fun p => (p.1.2.id, p.2)).reverse

theorem keptRows_sublist (r : Registry) : r.keptRows.Sublist r.live := by
  have hclasses : (r.classes.map Prod.fst).Sublist r.live := by
    unfold classes
    generalize r.live = rows
    induction rows with
    | nil => exact List.nil_sublist _
    | cons row rows ih =>
        rw [List.filterMap_cons]
        cases r.classAt? row with
        | none => exact ih.cons _
        | some c => exact ih.cons_cons _
  exact (List.filter_sublist.map Prod.fst).trans hclasses

theorem WellFormed.keptRows_nodup {r : Registry} (hr : r.WellFormed) : r.keptRows.Nodup :=
  r.keptRows_sublist.nodup hr.live_nodup

theorem getElem?_keptClasses {r : Registry} {i row : Nat} {c : Class} :
    r.keptClasses[i]? = some (row, c) ↔ r.keptRows[i]? = some row ∧ r.classAt? row = some c := by
  unfold keptRows
  rw [List.getElem?_map]
  constructor
  · intro hi
    obtain ⟨-, hc, -⟩ := mem_keptClasses.mp (List.mem_of_getElem? hi)
    exact ⟨by rw [hi, Option.map_some], hc⟩
  · rintro ⟨hi, hc⟩
    obtain ⟨⟨row', c'⟩, hi', rfl⟩ := Option.map_eq_some_iff.mp hi
    obtain ⟨-, hc', -⟩ := mem_keptClasses.mp (List.mem_of_getElem? hi')
    cases hc.symm.trans hc'
    exact hi'

/-- The new id of a kept class is its place among the kept classes. -/
theorem lookup_newIds_iff {r : Registry} (hr : r.WellFormed) {id i : Nat} :
    r.newIds.lookup id = some i ↔
      ∃ row c, r.keptRows[i]? = some row ∧ r.classAt? row = some c ∧ c.id = id := by
  have hids : (r.keptClasses.map fun p => p.2.id).Nodup := by
    refine List.Nodup.map_on ?_ (hr.keptRows_nodup.of_map Prod.fst)
    rintro ⟨p, cp⟩ hp ⟨q, cq⟩ hq hid
    obtain ⟨hplive, hcp, -⟩ := mem_keptClasses.mp hp
    obtain ⟨hqlive, hcq, -⟩ := mem_keptClasses.mp hq
    obtain rfl := hr.row_eq_of_id hplive hqlive hcp hcq hid
    cases hcp.symm.trans hcq
    rfl
  have hkeys : (r.newIds.map Prod.fst).Nodup := by
    unfold newIds
    rw [List.map_reverse, List.nodup_reverse, List.map_map]
    have hmap : r.keptClasses.zipIdx.map (Prod.fst ∘ fun p => (p.1.2.id, p.2)) =
        (r.keptClasses.zipIdx.map Prod.fst).map fun p => p.2.id := by
      rw [List.map_map]
      rfl
    rw [hmap, List.zipIdx_map_fst]
    exact hids
  rw [lookup_eq_some_of_nodup hkeys, newIds, List.mem_reverse, List.mem_map]
  constructor
  · rintro ⟨⟨⟨row, c⟩, i'⟩, hmem, heq⟩
    cases heq
    obtain ⟨hi, hc⟩ := getElem?_keptClasses.mp (List.mem_zipIdx_iff_getElem?.mp hmem)
    exact ⟨row, c, hi, hc, rfl⟩
  · rintro ⟨row, c, hi, hc, rfl⟩
    refine ⟨((row, c), i), ?_, rfl⟩
    rw [List.mem_zipIdx_iff_getElem?]
    exact getElem?_keptClasses.mpr ⟨hi, hc⟩

theorem lookup_newIds {r : Registry} (hr : r.WellFormed) {row i : Nat} {c : Class}
    (hi : r.keptRows[i]? = some row) (hc : r.classAt? row = some c) :
    r.newIds.lookup c.id = some i := (lookup_newIds_iff hr).mpr ⟨row, c, hi, hc, rfl⟩

theorem newIds_injective {r : Registry} (hr : r.WellFormed) {id id' i : Nat}
    (h : r.newIds.lookup id = some i) (h' : r.newIds.lookup id' = some i) : id = id' := by
  obtain ⟨row, c, hi, hc, rfl⟩ := (lookup_newIds_iff hr).mp h
  obtain ⟨row', c', hi', hc', rfl⟩ := (lookup_newIds_iff hr).mp h'
  cases hi.symm.trans hi'
  cases hc.symm.trans hc'
  rfl

/-- A reference that was resolved can be renumbered when every class is kept. -/
theorem exists_renumbered {r : Registry} {sigs : List Signature} {body : RefBody}
    (hr : r.WellFormed)
    (hkept : ∀ {row c}, row ∈ r.live → r.classAt? row = some c → c.kept = true)
    (hres : body.ResolvedIn r sigs) : ∃ body', Renumbered r.newIds body body' := by
  have hid : ∀ {name row c}, r.find? name = some row → r.classAt? row = some c →
      ∃ new, r.newIds.lookup c.id = some new := by
    intro name row c hrow hc
    have hlive := hr.find_live hrow
    obtain ⟨i, hi⟩ := List.mem_iff_getElem?.mp (mem_keptRows.mpr ⟨hlive, c, hc, hkept hlive hc⟩)
    exact ⟨i, lookup_newIds hr hi hc⟩
  cases body with
  | literal v => exact ⟨.literal v, rfl⟩
  | classRef name target =>
      obtain ⟨row, c, hrow, hc, -, rfl⟩ := hres
      obtain ⟨new, hnew⟩ := hid hrow hc
      exact ⟨_, c.id, new, rfl, hnew, rfl⟩
  | memberRef m target declaring link index =>
      obtain ⟨row, c, row', c', d, n, hrow, hc, -, rfl, hfind, hc', -, rfl, rfl, -⟩ := hres
      obtain ⟨new, hnew⟩ := hid hrow hc
      obtain ⟨name', c₁, hrow', hc₁, -⟩ := findMember_ok hfind
      cases hc'.symm.trans hc₁
      obtain ⟨new', hnew'⟩ := hid hrow' hc'
      exact ⟨_, c.id, new, c'.id, new', rfl, hnew, rfl, hnew', rfl⟩

/-! ### Pruning all kept classes -/

/-- The registry before its classes are pruned: the names of what is not kept are forgotten, and so
is every slot. -/
def unindexed (r : Registry) : Registry :=
  { r.dropNames with rows := r.rows.map fun c => { c with slots := [] } }

theorem classAt?_unindexed (r : Registry) (row : Nat) :
    r.unindexed.classAt? row = (r.classAt? row).map fun c => { c with slots := [] } := by
  simp only [unindexed, classAt?, Array.getElem?_map]

/-- The kept classes in their rows, pruned one after the other. -/
theorem pruneAll_changed {ids : Renumbering} {rows : List Nat} {r r' : Registry}
    (hnodup : rows.Nodup)
    (hlisted : ∀ {row c}, row ∈ rows → r.classAt? row = some c → c.listed.Nodup)
    (hok : rows.forM (pruneClass ids) r = .ok () r') : Changed (Pruned ids) rows r r' := by
  refine forM_prefixes (P := fun done s => Changed (Pruned ids) done r s) ?_ (.refl _ r) hok
  intro done row rest s t hsplit hs hstep
  obtain ⟨hmem, hnew⟩ := split_of_nodup hnodup hsplit
  cases hc : r.classAt? row with
  | none =>
      have hc' : s.classAt? row = none := by rw [hs.outside hnew, hc]
      simp [pruneClass, hc'] at hstep
  | some c =>
      have hc' : s.classAt? row = some c := by rw [hs.outside hnew, hc]
      obtain ⟨c', hpruned, rfl⟩ := pruneClass_ok hc' (hlisted hmem hc) hstep
      exact hs.step hnew hc hpruned

theorem exists_pruneAll {ids : Renumbering} {rows : List Nat} {r : Registry} (hnodup : rows.Nodup)
    (hrows : ∀ row ∈ rows, ∃ c, r.classAt? row = some c ∧ c.listed.Nodup ∧
      ∀ {pos ref}, (pos, ref) ∈ c.references → ref.kept = true →
        ∃ body, Renumbered ids ref.body body) :
    ∃ r', rows.forM (pruneClass ids) r = .ok () r' := by
  refine forM_prefixes_succeeds (P := fun done s => Changed (Pruned ids) done r s) ?_ (.refl _ r)
  intro done row rest s hsplit hs
  obtain ⟨hmem, hnew⟩ := split_of_nodup hnodup hsplit
  obtain ⟨c, hc, hlisted, hids⟩ := hrows row hmem
  have hc' : s.classAt? row = some c := by rw [hs.outside hnew, hc]
  obtain ⟨t, hstep⟩ := exists_pruneClass hc' hlisted hids
  obtain ⟨c', hpruned, rfl⟩ := pruneClass_ok hc' hlisted hstep
  exact ⟨_, hstep, hs.step hnew hc hpruned⟩

/-! ### Member tables -/

theorem classAt?_foldl_modifyClass (f : Class → Class) (rows : List Nat) (r : Registry)
    (hnodup : rows.Nodup) (row : Nat) :
    (rows.foldl (fun r row => r.modifyClass row f) r).classAt? row =
      (r.classAt? row).map fun c => if row ∈ rows then f c else c := by
  induction rows generalizing r with
  | nil => simp
  | cons first rows ih =>
      rw [List.nodup_cons] at hnodup
      rw [List.foldl_cons, ih _ hnodup.2, classAt?_modifyClass]
      by_cases heq : first = row
      · subst heq
        rw [if_pos rfl, Option.map_map]
        simp only [Function.comp_def, if_neg hnodup.1, if_pos List.mem_cons_self]
      · rw [if_neg heq]
        simp only [List.mem_cons, Ne.symm heq, false_or]

theorem foldl_modifyClass_frame (f : Class → Class) (rows : List Nat) (r : Registry) :
    ∃ rows', rows.foldl (fun r row => r.modifyClass row f) r = { r with rows := rows' } ∧
      rows'.size = r.rows.size := by
  induction rows generalizing r with
  | nil => exact ⟨r.rows, rfl, rfl⟩
  | cons row rows ih =>
      obtain ⟨rows', hfold, hsize⟩ := ih (r.modifyClass row f)
      refine ⟨rows', by rw [List.foldl_cons, hfold]; rfl, by rw [hsize, size_modifyClass]⟩

theorem classAt?_buildTables {r : Registry} (hnodup : r.live.Nodup) (row : Nat) :
    (buildTables r).classAt? row = (r.classAt? row).map fun c =>
      if row ∈ r.live then buildTable c else { c with table := [], forwarding := [] } := by
  unfold buildTables
  rw [classAt?_foldl_modifyClass _ _ _ hnodup]
  simp only [classAt?, Array.getElem?_map, Option.map_map, Function.comp_def]
  rfl

theorem buildTables_frame (r : Registry) : ∃ rows, buildTables r =
    { r with rows, compacted := true } ∧ rows.size = r.rows.size := by
  obtain ⟨rows, hfold, hsize⟩ := foldl_modifyClass_frame buildTable r.live
    { r with rows := r.rows.map fun c => { c with table := [], forwarding := [] }, compacted := true }
  exact ⟨rows, hfold, by rw [hsize]; exact Array.size_map⟩

/-! ### Compacted slots -/

theorem forward_congr {r r' : Registry}
    (h : ∀ row, (r'.classAt? row).map (fun c => (c.id, c.forwarding)) =
      (r.classAt? row).map fun c => (c.id, c.forwarding)) : r'.forward = r.forward := by
  have hrows : r'.rows.toList.map (fun c => (c.id, c.forwarding)) =
      r.rows.toList.map fun c => (c.id, c.forwarding) := by
    apply List.ext_getElem?
    intro row
    rw [List.getElem?_map, List.getElem?_map, Array.getElem?_toList, Array.getElem?_toList]
    exact h row
  have hfind : ∀ (s : Registry) (owner slot : Int), s.rows.toList.zipIdx.findSome? (fun p =>
      if (p.1.id : Int) = owner then (p.1.forwarding.lookup slot).map (RefAddr.mk p.2) else none) =
      (s.rows.toList.map fun c => (c.id, c.forwarding)).zipIdx.findSome? fun p =>
        if (p.1.1 : Int) = owner then (p.1.2.lookup slot).map (RefAddr.mk p.2) else none := by
    intro s owner slot
    rw [List.zipIdx_map, List.findSome?_map]
    rfl
  funext owner slot
  unfold forward
  rw [hfind, hfind, hrows]

/-- Slots are compacted by what the classes forward, and to the place of the reference there. -/
theorem compactSlot_congr {r r' : Registry}
    (h : ∀ row, (r'.classAt? row).map (fun c => (c.id, c.forwarding, c.pool)) =
      (r.classAt? row).map fun c => (c.id, c.forwarding, c.pool)) :
    r'.compactSlot = r.compactSlot := by
  have hforward : r'.forward = r.forward := by
    refine forward_congr fun row => ?_
    have := congrArg (Option.map fun p : Nat × List (Int × Nat) × Array Reference =>
      (p.1, p.2.1)) (h row)
    simpa only [Option.map_map, Function.comp_def] using this
  have hrefs : r'.refAt? = r.refAt? := by
    funext a
    have := congrArg (Option.map fun p : Nat × List (Int × Nat) × Array Reference => p.2.2)
      (h a.row)
    simp only [Option.map_map, Function.comp_def] at this
    unfold refAt?
    cases hc : r.classAt? a.row with
    | none =>
        rw [hc, Option.map_none, Option.map_eq_none_iff] at this
        rw [this]
    | some c =>
        rw [hc, Option.map_some, Option.map_eq_some_iff] at this
        obtain ⟨c', hc', hpool⟩ := this
        rw [hc']
        exact congrArg (fun pool : Array Reference => pool[a.pos]?) hpool
  funext owner slot
  unfold compactSlot
  rw [hforward, hrefs]

/-- What a slot of a live class forwards to. -/
theorem forward_ok {r : Registry}
    (hid : ∀ {i row c}, r.live[i]? = some row → r.classAt? row = some c → c.id = i)
    (hdead : ∀ {row c}, r.classAt? row = some c → row ∉ r.live → c.forwarding = [])
    {row : Nat} {slot : Int} {c : Class} {a : RefAddr} (hrow : row ∈ r.live)
    (hc : r.classAt? row = some c) :
    r.forward c.id slot = .ok a ↔ a.row = row ∧ c.forwarding.lookup slot = some a.pos := by
  have hsome : ∀ {a : RefAddr}, r.rows.toList.zipIdx.findSome? (fun p =>
      if (p.1.id : Int) = c.id then (p.1.forwarding.lookup slot).map (RefAddr.mk p.2) else none) =
      some a → a.row = row ∧ c.forwarding.lookup slot = some a.pos := by
    intro a hfind
    obtain ⟨⟨c', row'⟩, hmem, hsome⟩ := List.exists_of_findSome?_eq_some hfind
    have hc' := mem_rows_zipIdx.mp hmem
    dsimp only at hsome
    split at hsome
    · rename_i hsame
      obtain ⟨pos, hpos, rfl⟩ := Option.map_eq_some_iff.mp hsome
      have hrow' : row' ∈ r.live := by
        by_contra hnot
        rw [hdead hc' hnot] at hpos
        cases hpos
      obtain ⟨i, hi⟩ := List.mem_iff_getElem?.mp hrow
      obtain ⟨j, hj⟩ := List.mem_iff_getElem?.mp hrow'
      have hij : i = j := by
        rw [← hid hi hc, ← hid hj hc']
        exact (Int.ofNat.inj hsame).symm
      subst hij
      cases hi.symm.trans hj
      cases hc.symm.trans hc'
      exact ⟨rfl, hpos⟩
    · cases hsome
  unfold forward
  constructor
  · intro h
    split at h
    · rename_i b hb
      cases h
      exact hsome hb
    · cases h
  · obtain ⟨arow, apos⟩ := a
    rintro ⟨rfl, hpos⟩
    split
    · rename_i b hb
      obtain ⟨brow, bpos⟩ := b
      obtain ⟨rfl, hbpos⟩ := hsome hb
      cases hpos.symm.trans hbpos
      rfl
    · rename_i hnone
      have := List.findSome?_eq_none_iff.mp hnone (c, _) (mem_rows_zipIdx.mpr hc)
      dsimp only at this hpos
      rw [if_pos rfl, hpos] at this
      cases this

/-- Compacting a slot gives the index of the member reference that it forwards to. -/
theorem compactSlot_of_forward {r : Registry} {owner slot index : Nat} {a : RefAddr}
    (hforward : r.forward owner slot = .ok a) : r.compactSlot owner slot = .ok index ↔
      ∃ ref m t d k, r.refAt? a = some ref ∧ ref.body = .memberRef m t d k (some index) := by
  rw [compactSlot, hforward]
  constructor
  · intro h
    dsimp only [bind, Except.bind] at h
    split at h
    · rename_i m t d k i hbody
      cases h
      obtain ⟨ref, href, hbody⟩ := Option.map_eq_some_iff.mp hbody
      exact ⟨ref, m, t, d, k, href, hbody⟩
    · cases h
  · rintro ⟨ref, m, t, d, k, href, hbody⟩
    dsimp only [bind, Except.bind]
    rw [href, Option.map_some, hbody]
    rfl

/-- A slot of a live class is compacted to the place of the reference that it forwards to. -/
theorem compactSlot_ok {r : Registry}
    (hid : ∀ {i row c}, r.live[i]? = some row → r.classAt? row = some c → c.id = i)
    (hdead : ∀ {row c}, r.classAt? row = some c → row ∉ r.live → c.forwarding = [])
    {row slot index : Nat} {c : Class} (hrow : row ∈ r.live) (hc : r.classAt? row = some c) :
    r.compactSlot c.id slot = .ok index ↔ ∃ p ref m t d k,
      c.forwarding.lookup (slot : Int) = some p ∧ c.pool[p]? = some ref ∧
      ref.body = .memberRef m t d k (some index) := by
  constructor
  · intro h
    cases hforward : r.forward c.id slot with
    | error e =>
        rw [compactSlot, hforward] at h
        cases h
    | ok a =>
        obtain ⟨harow, hpos⟩ := (forward_ok hid hdead hrow hc).mp hforward
        obtain ⟨ref, m, t, d, k, href, hbody⟩ := (compactSlot_of_forward hforward).mp h
        obtain ⟨c', hc', hpool⟩ := refAt?_eq_some.mp href
        rw [harow] at hc'
        cases hc.symm.trans hc'
        exact ⟨a.pos, ref, m, t, d, k, hpos, hpool, hbody⟩
  · rintro ⟨p, ref, m, t, d, k, hp, href, hbody⟩
    have hforward : r.forward c.id slot = .ok ⟨row, p⟩ :=
      (forward_ok hid hdead hrow hc).mpr ⟨rfl, hp⟩
    exact (compactSlot_of_forward hforward).mpr
      ⟨ref, m, t, d, k, refAt?_eq_some.mpr ⟨c, hc, href⟩, hbody⟩

/-! ### Relocation -/

/-- `m'` is `m` with its code relocated, if it has any. -/
def Relocates (remap : Nat → Except Inconsistency Nat) (m m' : Method) : Prop :=
  if m.hasCode = true then
    ∃ code, Code.relocate remap m.rawCode = .ok code ∧ m' = { m with relocated := some code }
  else m' = m

theorem Relocates.frame {remap : Nat → Except Inconsistency Nat} {m m' : Method}
    (h : Relocates remap m m') : m' = { m with relocated := m'.relocated } := by
  unfold Relocates at h
  split at h
  · obtain ⟨code, -, rfl⟩ := h
    rfl
  · rw [h]

theorem Relocates.sig_eq {remap : Nat → Except Inconsistency Nat} {m m' : Method}
    (h : Relocates remap m m') : m'.sig = m.sig := by rw [h.frame]

/-- `c'` is `c` with the code of its methods relocated. -/
structure Relocated (remap : Nat → Nat → Except Inconsistency Nat) (c c' : Class) : Prop where
  frame : c' = { c with methods := c'.methods }
  methods : List.Forall₂ (Relocates (remap c.id)) c.methods c'.methods

/-- Relocates the methods of the class in a row. -/
def relocateClass (row : Nat) : RegistryM Unit := do
  let c ← classAt row
  c.methods.forM fun m => do
    if m.hasCode then relocateMethod row c m

theorem relocateMethod_ok {row : Nat} {c : Class} {m : Method} {r r' : Registry} :
    relocateMethod row c m r = .ok () r' ↔ ∃ code,
      Code.relocate (r.compactSlot c.id) m.rawCode = .ok code ∧
      r.modifyMethod row m.sig (fun m => { m with relocated := some code }) = r' := by
  unfold relocateMethod
  simp only [bind_ok, get_ok]
  constructor
  · rintro ⟨_, _, ⟨rfl, rfl⟩, h⟩
    cases hcode : Code.relocate (r.compactSlot c.id) m.rawCode with
    | ok code =>
        simp only [hcode, modify_ok] at h
        exact ⟨code, rfl, h⟩
    | error e => cases e <;> simp [hcode] at h
  · rintro ⟨code, hcode, rfl⟩
    refine ⟨r, r, ⟨rfl, rfl⟩, ?_⟩
    simp only [hcode, modify_ok]

/-- The class in the course of its relocation. -/
def partly (c : Class) (done : List Method) : Class :=
  { c with methods := done ++ c.methods.drop done.length }

theorem compactSlot_partly {r : Registry} {row : Nat} {c : Class} (hc : r.classAt? row = some c)
    (done : List Method) : (r.modifyClass row fun _ => partly c done).compactSlot = r.compactSlot := by
  refine compactSlot_congr fun row' => ?_
  rw [classAt?_modifyClass]
  split
  · rename_i heq
    subst heq
    rw [hc]
    rfl
  · rfl

theorem map_update {ms done rest : List Method} {m : Method} {f : Method → Method}
    (hnodup : (ms.map Method.sig).Nodup) (hsplit : ms.map Method.sig = (done ++ m :: rest).map
      Method.sig) :
    (done ++ m :: rest).map (fun x => if x.sig = m.sig then f x else x) = done ++ f m :: rest := by
  rw [hsplit, List.map_append, List.map_cons, List.nodup_append, List.nodup_cons] at hnodup
  obtain ⟨-, ⟨hrest, -⟩, hdone⟩ := hnodup
  have hsame : ∀ xs : List Method, (∀ x ∈ xs, x.sig ≠ m.sig) →
      xs.map (fun x => if x.sig = m.sig then f x else x) = xs := by
    intro xs hxs
    conv_rhs => rw [← List.map_id xs]
    refine List.map_congr_left fun x hx => ?_
    rw [if_neg (hxs x hx)]
    rfl
  rw [List.map_append, List.map_cons, if_pos rfl, hsame done, hsame rest]
  · intro x hx heq
    exact hrest (List.mem_map.mpr ⟨x, hx, heq⟩)
  · intro x hx heq
    exact hdone x.sig (List.mem_map.mpr ⟨x, hx, rfl⟩) m.sig List.mem_cons_self heq

theorem modifyClass_self {r : Registry} {row : Nat} {c : Class} (hc : r.classAt? row = some c) :
    (r.modifyClass row fun _ => c) = r := by
  have hrows : r.rows.modify row (fun _ => c) = r.rows := by
    apply Array.ext_getElem?
    intro p
    rw [Array.getElem?_modify]
    split
    · rename_i heq
      subst heq
      rw [show r.rows[row]? = some c from hc, Option.map_some]
    · rfl
  unfold modifyClass
  rw [hrows]

theorem partly_append {c : Class} {remap : Nat → Except Inconsistency Nat}
    {done done' rest : List Method} {m m' : Method} (hsplit : c.methods = done ++ m :: rest)
    (hdone : List.Forall₂ (Relocates remap) done done') :
    partly c (done' ++ [m']) = { c with methods := done' ++ m' :: rest } := by
  unfold partly
  rw [List.length_append, ← hdone.length_eq, ← List.drop_drop, hsplit, List.drop_left,
    List.append_assoc]
  rfl

/-- One more method. -/
theorem relocateMethod_partly {r : Registry} {row : Nat} {c : Class} (hc : r.classAt? row = some c)
    (hnodup : (c.methods.map Method.sig).Nodup) {done done' rest : List Method} {m : Method}
    (hsplit : c.methods = done ++ m :: rest)
    (hdone : List.Forall₂ (Relocates (r.compactSlot c.id)) done done') {t : Registry} :
    (if m.hasCode then relocateMethod row c m else pure ())
        (r.modifyClass row fun _ => partly c done') = .ok () t ↔
      ∃ m', Relocates (r.compactSlot c.id) m m' ∧
        t = r.modifyClass row fun _ => partly c (done' ++ [m']) := by
  have hnow : partly c done' = { c with methods := done' ++ m :: rest } := by
    unfold partly
    rw [← hdone.length_eq, hsplit, List.drop_left]
  have hsigs : c.methods.map Method.sig = (done' ++ m :: rest).map Method.sig := by
    rw [hsplit, List.map_append, List.map_append,
      map_eq_of_forall₂ (g := Method.sig) (fun h => Relocates.sig_eq h) hdone]
  have hwrite : ∀ code, (r.modifyClass row fun _ => partly c done').modifyMethod row m.sig
      (fun m => { m with relocated := some code }) =
      r.modifyClass row fun _ => partly c (done' ++ [{ m with relocated := some code }]) := by
    intro code
    unfold Registry.modifyMethod
    rw [modifyClass_modifyClass, partly_append hsplit hdone, hnow]
    congr 1
    funext c'
    simp only [Function.comp_apply, map_update hnodup hsigs]
  by_cases hcode : m.hasCode = true
  · rw [if_pos hcode, relocateMethod_ok, compactSlot_partly hc]
    simp only [Relocates, if_pos hcode, hwrite]
    constructor
    · rintro ⟨code, hrelocate, rfl⟩
      exact ⟨_, ⟨code, hrelocate, rfl⟩, rfl⟩
    · rintro ⟨_, ⟨code, hrelocate, rfl⟩, rfl⟩
      exact ⟨code, hrelocate, rfl⟩
  · rw [if_neg hcode, pure_ok]
    simp only [Relocates, if_neg hcode, exists_eq_left, true_and, partly_append hsplit hdone, hnow]
    exact eq_comm

theorem relocateClass_ok {r r' : Registry} {row : Nat} {c : Class} (hc : r.classAt? row = some c)
    (hnodup : (c.methods.map Method.sig).Nodup) (hok : relocateClass row r = .ok () r') :
    ∃ c', Relocated r.compactSlot c c' ∧ r' = r.modifyClass row fun _ => c' := by
  simp only [relocateClass, bind_ok, classAt_ok] at hok
  obtain ⟨c₀, _, ⟨hc₀, rfl⟩, hloop⟩ := hok
  cases hc.symm.trans hc₀
  have hrun : ∃ done', List.Forall₂ (Relocates (r.compactSlot c.id)) c.methods done' ∧
      r' = r.modifyClass row fun _ => partly c done' := by
    refine forM_prefixes (P := fun done s => ∃ done',
      List.Forall₂ (Relocates (r.compactSlot c.id)) done done' ∧
      s = r.modifyClass row fun _ => partly c done') ?_ ⟨[], .nil, (modifyClass_self hc).symm⟩ hloop
    rintro done m rest s t hsplit ⟨done', hdone, rfl⟩ hstep
    obtain ⟨m', hm', rfl⟩ := (relocateMethod_partly hc hnodup hsplit hdone).mp hstep
    exact ⟨_, List.rel_append hdone (.cons hm' .nil), rfl⟩
  obtain ⟨done', hdone, rfl⟩ := hrun
  refine ⟨partly c done', ⟨rfl, ?_⟩, rfl⟩
  have hdrop : c.methods.drop done'.length = [] := by
    rw [← hdone.length_eq, List.drop_length]
  simp only [partly, hdrop, List.append_nil]
  exact hdone

/-- Relocating a class succeeds when the code of all its methods can be relocated. -/
theorem exists_relocateClass {r : Registry} {row : Nat} {c : Class} (hc : r.classAt? row = some c)
    (hnodup : (c.methods.map Method.sig).Nodup)
    (hcode : ∀ m ∈ c.methods, ∃ m', Relocates (r.compactSlot c.id) m m') :
    ∃ r', relocateClass row r = .ok () r' := by
  have hrun : ∃ r', (c.methods.forM fun m => do if m.hasCode then relocateMethod row c m) r =
      .ok () r' := by
    refine forM_prefixes_succeeds (P := fun done s => ∃ done',
      List.Forall₂ (Relocates (r.compactSlot c.id)) done done' ∧
      s = r.modifyClass row fun _ => partly c done') ?_ ⟨[], .nil, (modifyClass_self hc).symm⟩
    rintro done m rest s hsplit ⟨done', hdone, rfl⟩
    obtain ⟨m', hm'⟩ := hcode m (by
      rw [hsplit]
      exact List.mem_append_right _ List.mem_cons_self)
    exact ⟨_, (relocateMethod_partly hc hnodup hsplit hdone).mpr ⟨m', hm', rfl⟩, _,
      List.rel_append hdone (.cons hm' .nil), rfl⟩
  obtain ⟨r', hrun⟩ := hrun
  refine ⟨r', ?_⟩
  simp only [relocateClass, bind_ok, classAt_ok]
  exact ⟨c, r, ⟨hc, rfl⟩, hrun⟩

theorem relocate_eq {r r' : Registry} : relocate r = .ok () r' ↔
    r.compacted = true ∧ r.live.forM relocateClass r = .ok () r' := by
  unfold relocate
  rw [bind_ok]
  constructor
  · rintro ⟨_, _, hget, h⟩
    obtain ⟨rfl, rfl⟩ := get_ok.mp hget
    cases hcompacted : r.compacted with
    | false => simp [hcompacted] at h
    | true =>
        simp only [hcompacted, Bool.not_true, Bool.false_eq_true, if_false, bind_ok, get_ok] at h
        obtain ⟨_, _, ⟨rfl, rfl⟩, h⟩ := h
        exact ⟨rfl, h⟩
  · rintro ⟨hcompacted, h⟩
    refine ⟨r, r, get_ok.mpr ⟨rfl, rfl⟩, ?_⟩
    simp only [hcompacted, Bool.not_true, Bool.false_eq_true, if_false, bind_ok, get_ok]
    exact ⟨r, r, ⟨rfl, rfl⟩, h⟩

/-- Relocation leaves what slots are compacted to alone. -/
theorem Changed.compactSlot_eq {remap : Nat → Nat → Except Inconsistency Nat} {rows : List Nat}
    {r r' : Registry} (h : Changed (Relocated remap) rows r r') :
    r'.compactSlot = r.compactSlot := by
  refine compactSlot_congr fun row => h.map_classAt? ?_ row
  intro c c' hrelocated
  rw [hrelocated.frame]

/-- A registry whose live classes can be relocated. -/
structure Relocatable (r : Registry) : Prop where
  live_nodup : r.live.Nodup
  exists_class : ∀ {row}, row ∈ r.live → ∃ c, r.classAt? row = some c
  sigs_nodup : ∀ {row c}, row ∈ r.live → r.classAt? row = some c →
    (c.methods.map Method.sig).Nodup

/-- Relocation changes the code of the live classes only. -/
theorem relocate_changed {r r' : Registry} (hr : r.Relocatable) (hok : relocate r = .ok () r') :
    Changed (Relocated r.compactSlot) r.live r r' := by
  obtain ⟨-, hloop⟩ := relocate_eq.mp hok
  refine forM_prefixes (P := fun done s => Changed (Relocated r.compactSlot) done r s) ?_
    (.refl _ r) hloop
  intro done row rest s t hsplit hs hstep
  obtain ⟨hmem, hnew⟩ := split_of_nodup hr.live_nodup hsplit
  obtain ⟨c, hc⟩ := hr.exists_class hmem
  have hc' : s.classAt? row = some c := by rw [hs.outside hnew, hc]
  obtain ⟨c', hrelocated, rfl⟩ := relocateClass_ok hc' (hr.sigs_nodup hmem hc) hstep
  rw [hs.compactSlot_eq] at hrelocated
  exact hs.step hnew hc hrelocated

theorem exists_relocate {r : Registry} (hr : r.Relocatable) (hcompacted : r.compacted = true)
    (hcode : ∀ {row c}, row ∈ r.live → r.classAt? row = some c → ∀ m ∈ c.methods,
      ∃ m', Relocates (r.compactSlot c.id) m m') : ∃ r', relocate r = .ok () r' := by
  have hrun : ∃ r', r.live.forM relocateClass r = .ok () r' := by
    refine forM_prefixes_succeeds (P := fun done s => Changed (Relocated r.compactSlot) done r s) ?_
      (.refl _ r)
    intro done row rest s hsplit hs
    obtain ⟨hmem, hnew⟩ := split_of_nodup hr.live_nodup hsplit
    obtain ⟨c, hc⟩ := hr.exists_class hmem
    have hc' : s.classAt? row = some c := by rw [hs.outside hnew, hc]
    obtain ⟨t, hstep⟩ := exists_relocateClass hc' (hr.sigs_nodup hmem hc) fun m hm => by
      rw [hs.compactSlot_eq]
      exact hcode hmem hc m hm
    obtain ⟨c', hrelocated, rfl⟩ := relocateClass_ok hc' (hr.sigs_nodup hmem hc) hstep
    rw [hs.compactSlot_eq] at hrelocated
    exact ⟨_, hstep, hs.step hnew hc hrelocated⟩
  obtain ⟨r', hrun⟩ := hrun
  exact ⟨r', relocate_eq.mpr ⟨hcompacted, hrun⟩⟩

theorem Relocates.again {remap : Nat → Except Inconsistency Nat} {m m' : Method}
    (h : Relocates remap m m') : Relocates remap m' m' := by
  unfold Relocates at h ⊢
  split at h
  · rename_i hcode
    obtain ⟨code, hrelocate, rfl⟩ := h
    exact (if_pos hcode).mpr ⟨code, hrelocate, rfl⟩
  · rename_i hcode
    subst h
    rw [if_neg hcode]

theorem Relocates.unique {remap : Nat → Except Inconsistency Nat} {m m₁ m₂ : Method}
    (h₁ : Relocates remap m m₁) (h₂ : Relocates remap m m₂) : m₁ = m₂ := by
  unfold Relocates at h₁ h₂
  split at h₁
  · rename_i hcode
    rw [if_pos hcode] at h₂
    obtain ⟨code₁, hcode₁, rfl⟩ := h₁
    obtain ⟨code₂, hcode₂, rfl⟩ := h₂
    cases hcode₁.symm.trans hcode₂
    rfl
  · rename_i hcode
    rw [if_neg hcode] at h₂
    rw [h₁, h₂]

/-- A class that was relocated is relocated to itself. -/
theorem Relocated.again {remap : Nat → Nat → Except Inconsistency Nat} {c c' c'' : Class}
    (h : Relocated remap c c') (h' : Relocated remap c' c'') : c'' = c' := by
  have hid : c'.id = c.id := by rw [h.frame]
  have hmethods : c''.methods = c'.methods := by
    have hself : List.Forall₂ (Relocates (remap c'.id)) c'.methods c'.methods := by
      rw [List.forall₂_same]
      intro m' hm'
      obtain ⟨m, -, hm⟩ := forall₂_mem_right h.methods hm'
      rw [hid]
      exact hm.again
    exact List.right_unique_forall₂' (fun _ _ _ h₁ h₂ => h₁.unique h₂) h'.methods hself
  rw [h'.frame, hmethods]

theorem Changed.eq_self {R : Class → Class → Prop} {rows : List Nat} {r r' : Registry}
    (h : Changed R rows r r')
    (hR : ∀ {row c c'}, row ∈ rows → r.classAt? row = some c → R c c' → c' = c) : r' = r := by
  have hrows : r'.rows = r.rows := by
    apply Array.ext_getElem?
    intro row
    show r'.classAt? row = r.classAt? row
    by_cases hrow : row ∈ rows
    · cases hc : r.classAt? row with
      | none => exact classAt?_eq_none_of_size_eq h.size_eq hc
      | some c =>
          obtain ⟨c', hc', hRc⟩ := h.inside hrow hc
          rw [hc', hR hrow hc hRc]
    · exact h.outside hrow
  rw [h.frame, hrows]

end Registry

end ClassLinker
