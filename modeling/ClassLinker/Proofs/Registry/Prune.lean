import Mathlib.Data.List.Nodup
import ClassLinker.Registry.Compact
import ClassLinker.Proofs.Registry.Resolve

/-! Pruning. Compaction drops what is not kept from every kept class, gives the class its new id and
renumbers the ids in its kept references; nothing else about a class changes. -/

namespace ClassLinker

theorem lookup_eq_some_of_nodup {α β : Type} [BEq α] [LawfulBEq α] {entries : List (α × β)}
    (hnodup : (entries.map Prod.fst).Nodup) {k : α} {v : β} :
    entries.lookup k = some v ↔ (k, v) ∈ entries := by
  induction entries with
  | nil => simp
  | cons e entries ih =>
      obtain ⟨k', v'⟩ := e
      rw [List.map_cons, List.nodup_cons] at hnodup
      rw [List.lookup_cons]
      by_cases hk : k = k'
      · subst hk
        have hnew : ∀ v, (k, v) ∉ entries := fun v hv =>
          hnodup.1 (List.mem_map.mpr ⟨(k, v), hv, rfl⟩)
        simp [hnew, eq_comm]
      · simp only [beq_false_of_ne hk, ih hnodup.2, List.mem_cons, Prod.mk.injEq, hk, false_and,
          false_or]

namespace Registry

open RegistryM Step

/-- A reference body whose ids went through a renumbering. -/
def Renumbered (ids : Renumbering) : RefBody → RefBody → Prop
  | .classRef name target, body => ∃ old new, target = some old ∧ ids.lookup old = some new ∧
      body = .classRef name (some new)
  | .memberRef m target declaring link index, body => ∃ old new old' new', target = some old ∧
      ids.lookup old = some new ∧ declaring = some old' ∧ ids.lookup old' = some new' ∧
      body = .memberRef m (some new) (some new') link index
  | .literal v, body => body = .literal v

theorem renumber_ok {ids : Renumbering} {id : Option Nat} {new : Nat} {r r' : Registry} :
    renumber ids id r = .ok new r' ↔ (∃ old, id = some old ∧ ids.lookup old = some new) ∧ r = r' := by
  cases id with
  | none => simp [renumber]
  | some old =>
      cases hnew : ids.lookup old with
      | none => simp [renumber, hnew]
      | some n => simp [renumber, hnew]

theorem modify_modify {α : Type} (xs : Array α) (i : Nat) (f g : α → α) :
    (xs.modify i f).modify i g = xs.modify i (g ∘ f) := by
  apply Array.ext_getElem?
  intro j
  simp only [Array.getElem?_modify]
  split
  · rw [Option.map_map]
  · rfl

theorem modifyClass_modifyClass (r : Registry) (row : Nat) (f g : Class → Class) :
    (r.modifyClass row f).modifyClass row g = r.modifyClass row (g ∘ f) := by
  unfold modifyClass
  rw [modify_modify]

theorem modifyRef_modifyRef (r : Registry) (a : RefAddr) (f g : Reference → Reference) :
    (r.modifyRef a f).modifyRef a g = r.modifyRef a (g ∘ f) := by
  unfold modifyRef
  rw [modifyClass_modifyClass]
  congr 1
  funext c
  simp only [Function.comp_apply, modify_modify]

/-- The reference of a new owner with another body. -/
def rewriteRef (owner : Nat) (body : RefBody) (ref : Reference) : Reference :=
  { ref with owner, body }

theorem modifyRef_congr {r : Registry} {a : RefAddr} {ref : Reference} {f g : Reference → Reference}
    (href : r.refAt? a = some ref) (hfg : f ref = g ref) : r.modifyRef a f = r.modifyRef a g := by
  obtain ⟨c, hc, hpool⟩ := refAt?_eq_some.mp href
  have hpools : c.pool.modify a.pos f = c.pool.modify a.pos g := by
    apply Array.ext_getElem?
    intro pos
    rw [Array.getElem?_modify, Array.getElem?_modify]
    split
    · rename_i heq
      subst heq
      rw [hpool, Option.map_some, Option.map_some, hfg]
    · rfl
  unfold modifyRef modifyClass
  congr 1
  apply Array.ext_getElem?
  intro row
  rw [Array.getElem?_modify, Array.getElem?_modify]
  split
  · rename_i heq
    subst heq
    rw [show r.rows[a.row]? = some c from hc, Option.map_some, Option.map_some, hpools]
  · rfl

/-- Renumbering a reference succeeds when the ids it has are renumbered. -/
theorem renumberRef_ok {ids : Renumbering} {owner : Nat} {a : RefAddr} {r r' : Registry}
    {u : Unit} : renumberRef ids owner a r = .ok u r' ↔ ∃ ref body, r.refAt? a = some ref ∧
      Renumbered ids ref.body body ∧ r.modifyRef a (rewriteRef owner body) = r' := by
  simp only [renumberRef, bind_ok, modify_ok, refAt_ok]
  constructor
  · rintro ⟨_, _, rfl, _, _, ⟨hown, rfl⟩, h⟩
    rw [refAt?_modifyRef, if_pos rfl] at hown
    obtain ⟨ref, href, rfl⟩ := Option.map_eq_some_iff.mp hown
    cases hbody : ref.body with
    | literal v =>
        simp only [hbody, pure_ok, true_and] at h
        obtain rfl := h
        refine ⟨ref, .literal v, href, by rw [hbody]; rfl, ?_⟩
        exact modifyRef_congr href (by rw [rewriteRef, ← hbody])
    | classRef name target =>
        simp only [hbody, bind_ok, modify_ok, renumber_ok] at h
        obtain ⟨_, _, rfl, new, _, ⟨⟨old, rfl, hnew⟩, rfl⟩, rfl⟩ := h
        refine ⟨ref, .classRef name (some new), href, by rw [hbody]; exact ⟨old, new, rfl, hnew, rfl⟩,
          ?_⟩
        rw [modifyRef_modifyRef, modifyRef_modifyRef]
        rfl
    | memberRef m target declaring link index =>
        simp only [hbody, bind_ok, modify_ok, renumber_ok] at h
        obtain ⟨_, _, rfl, new, _, ⟨⟨old, rfl, hnew⟩, rfl⟩, _, _, rfl, new', _,
          ⟨⟨old', rfl, hnew'⟩, rfl⟩, rfl⟩ := h
        refine ⟨ref, .memberRef m (some new) (some new') link index, href, by
          rw [hbody]; exact ⟨old, new, old', new', rfl, hnew, rfl, hnew', rfl⟩, ?_⟩
        rw [modifyRef_modifyRef, modifyRef_modifyRef, modifyRef_modifyRef]
        rfl
  · rintro ⟨ref, body, href, hrenumbered, rfl⟩
    refine ⟨(), _, rfl, { ref with owner }, _, ⟨?_, rfl⟩, ?_⟩
    · rw [refAt?_modifyRef, if_pos rfl, href, Option.map_some]
    cases hbody : ref.body with
    | literal v =>
        rw [hbody] at hrenumbered
        obtain rfl := hrenumbered
        simp only [pure_ok, true_and]
        exact modifyRef_congr href (by rw [rewriteRef, ← hbody])
    | classRef name target =>
        rw [hbody] at hrenumbered
        obtain ⟨old, new, rfl, hnew, rfl⟩ := hrenumbered
        simp only [bind_ok, modify_ok, renumber_ok]
        refine ⟨(), _, rfl, new, _, ⟨⟨old, rfl, hnew⟩, rfl⟩, ?_⟩
        rw [modifyRef_modifyRef, modifyRef_modifyRef]
        rfl
    | memberRef m target declaring link index =>
        rw [hbody] at hrenumbered
        obtain ⟨old, new, old', new', rfl, hnew, rfl, hnew', rfl⟩ := hrenumbered
        simp only [bind_ok, modify_ok, renumber_ok]
        refine ⟨(), _, rfl, new, _, ⟨⟨old, rfl, hnew⟩, rfl⟩, (), _, rfl, new', _,
          ⟨⟨old', rfl, hnew'⟩, rfl⟩, ?_⟩
        rw [modifyRef_modifyRef, modifyRef_modifyRef, modifyRef_modifyRef]
        rfl

/-- The positions and slots of the kept references of a class, in the order of the class. -/
def keptSlots (c : Class) : List (Nat × Int) :=
  c.references.filterMap fun p => if p.2.kept then some (p.1, p.2.slot) else none

theorem mem_keptSlots {c : Class} {pos : Nat} {slot : Int} : (pos, slot) ∈ keptSlots c ↔
    ∃ ref, (pos, ref) ∈ c.references ∧ ref.kept = true ∧ ref.slot = slot := by
  simp only [keptSlots, List.mem_filterMap, Prod.exists]
  constructor
  · rintro ⟨pos', ref, hmem, hsome⟩
    split at hsome
    · cases hsome
      exact ⟨ref, hmem, by assumption, rfl⟩
    · cases hsome
  · rintro ⟨ref, hmem, hkept, rfl⟩
    exact ⟨pos, ref, hmem, by rw [if_pos hkept]⟩

/-- `c'` is `c` with the references at some positions renumbered and known at their slots. -/
structure Rewritten (ids : Renumbering) (id : Nat) (done : List (Nat × Int)) (c c' : Class) :
    Prop where
  frame : c' = { c with pool := c'.pool, slots := c'.slots }
  size_eq : c'.pool.size = c.pool.size
  slots_eq : c'.slots = (done.map Prod.swap).reverse ++ c.slots
  rewritten : ∀ {pos slot}, (pos, slot) ∈ done → ∃ ref body, c.pool[pos]? = some ref ∧
    Renumbered ids ref.body body ∧ c'.pool[pos]? = some (rewriteRef id body ref)
  other : ∀ {pos : Nat}, (∀ slot, (pos, slot) ∉ done) → c'.pool[pos]? = c.pool[pos]?

theorem Rewritten.refl (ids : Renumbering) (id : Nat) (c : Class) : Rewritten ids id [] c c :=
  ⟨rfl, rfl, rfl, fun h => (by cases h), fun _ => rfl⟩

/-- One more reference. -/
theorem Rewritten.step {ids : Renumbering} {id : Nat} {done : List (Nat × Int)} {c c' : Class}
    {pos : Nat} {ref : Reference} {body : RefBody} (h : Rewritten ids id done c c')
    (hnew : ∀ slot, (pos, slot) ∉ done) (href : c.pool[pos]? = some ref)
    (hbody : Renumbered ids ref.body body) :
    Rewritten ids id (done ++ [(pos, ref.slot)]) c
      { c' with
        pool := c'.pool.modify pos (rewriteRef id body)
        slots := (((c'.pool.modify pos (rewriteRef id body))[pos]?).map fun ref =>
          (ref.slot, pos)).toList ++ c'.slots } := by
  have href' : c'.pool[pos]? = some ref := by rw [h.other hnew, href]
  have hset : (c'.pool.modify pos (rewriteRef id body))[pos]? = some (rewriteRef id body ref) := by
    rw [Array.getElem?_modify, if_pos rfl, href', Option.map_some]
  refine ⟨by rw [h.frame], by rw [Array.size_modify, h.size_eq], ?_, ?_, ?_⟩
  · rw [hset, h.slots_eq, List.map_append, List.reverse_append]
    rfl
  · intro p slot hp
    rcases List.mem_append.mp hp with hp | hp
    · have hne : pos ≠ p := by
        rintro rfl
        exact hnew slot hp
      obtain ⟨ref₁, body₁, href₁, hbody₁, hset₁⟩ := h.rewritten hp
      exact ⟨ref₁, body₁, href₁, hbody₁, by rw [Array.getElem?_modify, if_neg hne, hset₁]⟩
    · cases List.mem_singleton.mp hp
      exact ⟨ref, body, href, hbody, hset⟩
  · intro p hp
    have hne : pos ≠ p := by
      rintro rfl
      exact hp ref.slot (List.mem_append_right _ (List.mem_singleton.mpr rfl))
    rw [Array.getElem?_modify, if_neg hne]
    exact h.other fun slot hslot => hp slot (List.mem_append_left _ hslot)

/-- Renumbering one reference of a class in its row. -/
theorem renumberRef_index_ok {ids : Renumbering} {row pos id : Nat} {c c₀ : Class}
    {r₀ r' : Registry} (hc₀ : r₀.classAt? row = some c₀) :
    (do renumberRef ids id ⟨row, pos⟩
        modify (indexRef ⟨row, pos⟩) : RegistryM Unit) (r₀.modifyClass row fun _ => c) =
        .ok () r' ↔
      ∃ ref body, c.pool[pos]? = some ref ∧ Renumbered ids ref.body body ∧
        (r₀.modifyClass row fun _ => { c with
          pool := c.pool.modify pos (rewriteRef id body)
          slots := (((c.pool.modify pos (rewriteRef id body))[pos]?).map fun ref =>
            (ref.slot, pos)).toList ++ c.slots }) = r' := by
  have hread : (r₀.modifyClass row fun _ => c).refAt? ⟨row, pos⟩ = c.pool[pos]? := by
    simp only [refAt?, classAt?_modifyClass, if_pos, hc₀, Option.map_some, Option.bind_eq_bind,
      Option.bind_some]
  simp only [bind_ok, renumberRef_ok, modify_ok, hread]
  constructor
  · rintro ⟨_, _, ⟨ref, body, href, hbody, rfl⟩, rfl⟩
    refine ⟨ref, body, href, hbody, ?_⟩
    unfold indexRef modifyRef
    rw [modifyClass_modifyClass, modifyClass_modifyClass]
    rfl
  · rintro ⟨ref, body, href, hbody, rfl⟩
    refine ⟨(), _, ⟨ref, body, href, hbody, rfl⟩, ?_⟩
    unfold indexRef modifyRef
    rw [modifyClass_modifyClass, modifyClass_modifyClass]
    rfl

theorem modifyClass_congr {r : Registry} {row : Nat} {c : Class} {f g : Class → Class}
    (hc : r.classAt? row = some c) (hfg : f c = g c) : r.modifyClass row f = r.modifyClass row g := by
  unfold modifyClass
  congr 1
  apply Array.ext_getElem?
  intro p
  rw [Array.getElem?_modify, Array.getElem?_modify]
  split
  · rename_i heq
    subst heq
    rw [show r.rows[row]? = some c from hc, Option.map_some, Option.map_some, hfg]
  · rfl

theorem references_nodup {c : Class} (hlisted : c.listed.Nodup) :
    (c.references.map Prod.fst).Nodup := by
  have hsub : (c.references.map Prod.fst).Sublist c.listed := by
    unfold Class.references
    generalize c.listed = positions
    induction positions with
    | nil => exact List.nil_sublist _
    | cons pos positions ih =>
        rw [List.filterMap_cons]
        cases c.pool[pos]? with
        | none => exact ih.cons _
        | some ref => exact ih.cons_cons _
  exact hsub.nodup hlisted

theorem keptSlots_nodup {c : Class} (hlisted : c.listed.Nodup) :
    ((keptSlots c).map Prod.fst).Nodup := by
  have hsub : ((keptSlots c).map Prod.fst).Sublist (c.references.map Prod.fst) := by
    unfold keptSlots
    generalize c.references = refs
    induction refs with
    | nil => exact List.nil_sublist _
    | cons p refs ih =>
        rw [List.filterMap_cons]
        by_cases hkept : p.2.kept = true
        · rw [if_pos hkept]
          exact ih.cons_cons _
        · rw [if_neg hkept]
          exact ih.cons _
  exact hsub.nodup (references_nodup hlisted)

/-- Each kept reference of a class stands in its list of kept slots once. -/
theorem keptSlots_split {c : Class} (hlisted : c.listed.Nodup) {done rest : List (Nat × Int)}
    {pos : Nat} {slot : Int} (hsplit : keptSlots c = done ++ (pos, slot) :: rest) :
    (∀ slot', (pos, slot') ∉ done) ∧
      ∃ ref, (pos, ref) ∈ c.references ∧ ref.kept = true ∧ ref.slot = slot := by
  constructor
  · intro slot' hmem
    have hnodup := keptSlots_nodup hlisted
    rw [hsplit, List.map_append, List.nodup_append] at hnodup
    exact hnodup.2.2 pos (List.mem_map.mpr ⟨_, hmem, rfl⟩) pos
      (List.mem_map.mpr ⟨_, List.mem_cons_self, rfl⟩) rfl
  · apply mem_keptSlots.mp
    rw [hsplit]
    exact List.mem_append_right _ List.mem_cons_self

/-- `c'` is `c` pruned: only what is kept is left, under the new ids. -/
structure Pruned (ids : Renumbering) (c c' : Class) : Prop where
  frame : c' = { c with
    id := c'.id, methods := c.methods.filter Method.kept, fields := c.fields.filter Field.kept
    children := c'.children, pool := c'.pool, listed := c'.listed, slots := c'.slots }
  id_eq : c'.id = (ids.lookup c.id).getD c.id
  listed_eq : c'.listed = ((keptSlots c).mergeSort fun a b => a.2 ≤ b.2).map Prod.fst
  size_eq : c'.pool.size = c.pool.size
  slots_eq : c'.slots = ((keptSlots c).map Prod.swap).reverse ++ c.slots
  rewritten : ∀ {pos ref}, (pos, ref) ∈ c.references → ref.kept = true →
    ∃ body, Renumbered ids ref.body body ∧ c'.pool[pos]? = some (rewriteRef c'.id body ref)

/-- The class before its references are renumbered: the members that are not kept are gone. -/
def stripped (ids : Renumbering) (isKept : Nat → Bool) (c : Class) : Class :=
  { c with
    id := (ids.lookup c.id).getD c.id
    methods := c.methods.filter Method.kept
    fields := c.fields.filter Field.kept
    children := c.children.filter isKept }

theorem Rewritten.pruned {ids : Renumbering} {isKept : Nat → Bool} {c c' : Class}
    (h : Rewritten ids (stripped ids isKept c).id (keptSlots c) (stripped ids isKept c) c') :
    Pruned ids c
      { c' with listed := ((keptSlots c).mergeSort fun a b => a.2 ≤ b.2).map Prod.fst } := by
  have hid : c'.id = (stripped ids isKept c).id := by rw [h.frame]
  refine ⟨by rw [h.frame]; rfl, hid, rfl, h.size_eq, h.slots_eq, ?_⟩
  intro pos ref hmem hkept
  obtain ⟨ref', body, href', hbody, hset⟩ := h.rewritten (mem_keptSlots.mpr ⟨ref, hmem, hkept, rfl⟩)
  cases (Class.mem_references.mp hmem).2.symm.trans href'
  exact ⟨body, hbody, hid ▸ hset⟩

/-- Renumbers the kept references of the class in a row and makes them known at their slots. -/
def renumberRefs (ids : Renumbering) (row id : Nat) (slots : List (Nat × Int)) : RegistryM Unit :=
  slots.forM fun p => do
    renumberRef ids id ⟨row, p.1⟩
    modify (indexRef ⟨row, p.1⟩)

/-- Pruning a class drops its members that are not kept and then renumbers its references. -/
theorem pruneClass_run {ids : Renumbering} {row : Nat} {c : Class} {r : Registry}
    (hc : r.classAt? row = some c) : pruneClass ids row r =
      (renumberRefs ids row ((ids.lookup c.id).getD c.id) (keptSlots c) >>= fun _ =>
        modify fun r => r.modifyClass row fun c' => { c' with
          listed := ((keptSlots c).mergeSort fun a b => a.2 ≤ b.2).map Prod.fst })
      (r.modifyClass row fun _ =>
        stripped ids (fun row => ((r.classAt? row).map Class.kept).getD false) c) := by
  have hstrip := modifyClass_congr (f := fun c' : Class =>
    { c' with
      id := (ids.lookup c.id).getD c.id
      methods := c'.methods.filter Method.kept
      fields := c'.fields.filter Field.kept
      children := c'.children.filter fun row => ((r.classAt? row).map Class.kept).getD false })
    (g := fun _ => stripped ids (fun row => ((r.classAt? row).map Class.kept).getD false) c) hc rfl
  unfold pruneClass
  rw [bind_of_ok (classAt_ok.mpr ⟨hc, rfl⟩), bind_of_ok (get_ok.mpr ⟨rfl, rfl⟩), ← hstrip]
  exact bind_of_ok (a := ()) (modify_ok.mpr rfl)

theorem pruneClass_eq {ids : Renumbering} {row : Nat} {c : Class} {r r' : Registry}
    (hc : r.classAt? row = some c) : pruneClass ids row r = .ok () r' ↔ ∃ isKept r₁,
      isKept = (fun row => ((r.classAt? row).map Class.kept).getD false) ∧
      renumberRefs ids row (stripped ids isKept c).id (keptSlots c)
        (r.modifyClass row fun _ => stripped ids isKept c) = .ok () r₁ ∧
      r₁.modifyClass row (fun c' => { c' with
        listed := ((keptSlots c).mergeSort fun a b => a.2 ≤ b.2).map Prod.fst }) = r' := by
  rw [pruneClass_run hc]
  simp only [bind_ok, modify_ok]
  constructor
  · rintro ⟨_, r₁, hloop, rfl⟩
    exact ⟨_, r₁, rfl, hloop, rfl⟩
  · rintro ⟨_, r₁, rfl, hloop, rfl⟩
    exact ⟨(), r₁, hloop, rfl⟩

/-- Pruning the class in a row. -/
theorem pruneClass_ok {ids : Renumbering} {row : Nat} {c : Class} {r r' : Registry}
    (hc : r.classAt? row = some c) (hlisted : c.listed.Nodup)
    (hok : pruneClass ids row r = .ok () r') :
    ∃ c', Pruned ids c c' ∧ r' = r.modifyClass row fun _ => c' := by
  obtain ⟨isKept, r₁, -, hloop, rfl⟩ := (pruneClass_eq hc).mp hok
  have hrun : ∃ c', Rewritten ids (stripped ids isKept c).id (keptSlots c) (stripped ids isKept c)
      c' ∧ r₁ = r.modifyClass row fun _ => c' := by
    refine forM_prefixes (P := fun done s => ∃ c', Rewritten ids (stripped ids isKept c).id done
      (stripped ids isKept c) c' ∧ s = r.modifyClass row fun _ => c') ?_
      ⟨_, .refl _ _ _, rfl⟩ hloop
    rintro done ⟨pos, slot⟩ rest s t hsplit ⟨c', hrewritten, rfl⟩ hstep
    obtain ⟨ref, body, href, hbody, rfl⟩ := (renumberRef_index_ok hc).mp hstep
    obtain ⟨hnew, ref', hmem, -, rfl⟩ := keptSlots_split hlisted hsplit
    rw [hrewritten.other hnew] at href
    cases (Class.mem_references.mp hmem).2.symm.trans href
    exact ⟨_, hrewritten.step hnew href hbody, rfl⟩
  obtain ⟨c', hrewritten, rfl⟩ := hrun
  refine ⟨_, hrewritten.pruned, ?_⟩
  rw [modifyClass_modifyClass]
  rfl

/-- Pruning succeeds when the ids of the kept references are renumbered. -/
theorem exists_pruneClass {ids : Renumbering} {row : Nat} {c : Class} {r : Registry}
    (hc : r.classAt? row = some c) (hlisted : c.listed.Nodup)
    (hids : ∀ {pos ref}, (pos, ref) ∈ c.references → ref.kept = true →
      ∃ body, Renumbered ids ref.body body) :
    ∃ r', pruneClass ids row r = .ok () r' := by
  have hrun : ∀ isKept, ∃ r₁, renumberRefs ids row (stripped ids isKept c).id (keptSlots c)
      (r.modifyClass row fun _ => stripped ids isKept c) = .ok () r₁ := by
    intro isKept
    refine forM_prefixes_succeeds (P := fun done s => ∃ c', Rewritten ids
      (stripped ids isKept c).id done (stripped ids isKept c) c' ∧
      s = r.modifyClass row fun _ => c') ?_ ⟨_, .refl _ _ _, rfl⟩
    rintro done ⟨pos, slot⟩ rest s hsplit ⟨c', hrewritten, rfl⟩
    obtain ⟨hnew, ref, hmem, hkept, rfl⟩ := keptSlots_split hlisted hsplit
    obtain ⟨body, hbody⟩ := hids hmem hkept
    have href : (stripped ids isKept c).pool[pos]? = some ref := (Class.mem_references.mp hmem).2
    exact ⟨_, (renumberRef_index_ok hc).mpr ⟨ref, body, by rw [hrewritten.other hnew, href], hbody,
      rfl⟩, _, hrewritten.step hnew href hbody, rfl⟩
  obtain ⟨r₁, hloop⟩ := hrun fun row => ((r.classAt? row).map Class.kept).getD false
  exact ⟨_, (pruneClass_eq hc).mpr ⟨_, r₁, rfl, hloop, rfl⟩⟩

end Registry

end ClassLinker
