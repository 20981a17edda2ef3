import ClassLinker.Proofs.Registry.Meaning
import ClassLinker.Proofs.Registry.Placement

/-! What is left of a class. A compacted class declares what the class declared and kept, under the
same signatures and link ids and in the same places, has the references that it kept, under their
slots, and stands at the place that its id says. -/

namespace ClassLinker

/-- Among things told apart by a key, the one with a given key is left exactly when it passes. -/
theorem find?_filter_of_nodup {α β : Type} [DecidableEq β] {key : α → β} {xs : List α}
    (hnodup : (xs.map key).Nodup) (p : α → Bool) (k : β) :
    (xs.filter p).find? (fun x => key x = k) = (xs.find? fun x => key x = k).filter p := by
  induction xs with
  | nil => rfl
  | cons x xs ih =>
      obtain ⟨hnew, hnodup⟩ := List.nodup_cons.mp hnodup
      rw [List.find?_cons]
      by_cases hkey : key x = k
      · have hrest : xs.find? (fun y => key y = k) = none := by
          refine List.find?_eq_none.mpr fun y hy => ?_
          simp only [decide_eq_true_eq]
          exact fun heq => hnew (hkey ▸ heq ▸ List.mem_map_of_mem hy)
        cases hp : p x with
        | true => simp [Option.filter, hp, hkey]
        | false =>
            rw [List.filter_cons_of_neg (by simp [hp]), ih hnodup, hrest]
            simp [Option.filter, hkey, hp]
      · rw [List.filter_cons]
        split
        · simp only [List.find?_cons, hkey, decide_false]
          exact ih hnodup
        · simp only [hkey, decide_false]
          exact ih hnodup

/-- A list from which a partial function drops nothing. -/
theorem getElem?_filterMap_of_isSome {α β : Type} {f : α → Option β} {xs : List α}
    (h : ∀ x ∈ xs, (f x).isSome = true) (i : Nat) : (xs.filterMap f)[i]? = (xs[i]?).bind f := by
  induction xs generalizing i with
  | nil => rfl
  | cons x xs ih =>
      obtain ⟨y, hy⟩ := Option.isSome_iff_exists.mp (h x List.mem_cons_self)
      rw [List.filterMap_cons_some hy]
      cases i with
      | zero => exact hy.symm
      | succ i => exact ih (fun x hx => h x (List.mem_cons_of_mem _ hx)) i

namespace Class

/-- The class with its kept members only. -/
def keptOnly (c : Class) : Class :=
  { c with methods := c.methods.filter Method.kept, fields := c.fields.filter Field.kept }

theorem declared?_keptOnly {c : Class} (hnodup : c.signatures.Nodup) (sig : Signature) :
    c.keptOnly.declared? sig = (c.declared? sig).filter Declaration.kept := by
  obtain ⟨hmethods, hfields, hdisjoint⟩ := List.nodup_append.mp hnodup
  unfold declared? keptOnly
  rw [find?_filter_of_nodup hmethods, find?_filter_of_nodup hfields]
  cases hm : c.methods.find? fun m => m.sig = sig with
  | none =>
      cases c.fields.find? fun f => f.sig = sig with
      | none => rfl
      | some f => cases hf : f.kept <;> simp [Option.filter, hf, Declaration.kept]
  | some m =>
      cases hkept : m.kept with
      | true => simp [Option.filter, hkept, Declaration.kept]
      | false =>
          have hnone : (c.fields.find? fun f => f.sig = sig) = none := by
            refine List.find?_eq_none.mpr fun f hf => ?_
            simp only [decide_eq_true_eq]
            have hsig : m.sig = sig := by simpa using List.find?_some hm
            exact fun heq => hdisjoint _ (List.mem_map_of_mem (List.mem_of_find?_eq_some hm)) _
              (List.mem_map_of_mem hf) (hsig.trans heq.symm)
          simp [Option.filter, hkept, hnone, Declaration.kept]

end Class

namespace Registry

theorem getElem?_classes {r : Registry} (hr : ∀ row ∈ r.live, ∃ c, r.classAt? row = some c) (i : Nat) :
    r.classes[i]? = (r.live[i]?).bind fun row => (r.classAt? row).map (row, ·) := by
  refine getElem?_filterMap_of_isSome (fun row hrow => ?_) i
  obtain ⟨c, hc⟩ := hr row hrow
  rw [hc]
  rfl

theorem mem_classes {r : Registry} {row : Nat} {c : Class} :
    (row, c) ∈ r.classes ↔ row ∈ r.live ∧ r.classAt? row = some c := by
  simp only [classes, List.mem_filterMap, Option.map_eq_some_iff, Prod.mk.injEq]
  constructor
  · rintro ⟨row, hrow, c, hc, rfl, rfl⟩
    exact ⟨hrow, hc⟩
  · rintro ⟨hrow, hc⟩
    exact ⟨row, hrow, c, hc, rfl, rfl⟩

/-- `d'` is `d`, with its code relocated if it has any. -/
abbrev DeclarationRelocates (remap : Nat → Except Inconsistency Nat) :
    Declaration → Declaration → Prop := Declaration.Rel (Relocates remap) Eq

section

variable {ids : Renumbering} {remap : Nat → Nat → Except Inconsistency Nat} {c c' : Class}

theorem Compacted.fields_eq (h : Compacted ids remap c c') :
    c'.fields = c.fields.filter Field.kept := by
  obtain ⟨c₁, c₂, hp, ht, hrelocated⟩ := h.steps
  rw [hrelocated.frame, ht.frame, hp.frame]

theorem Compacted.methods (h : Compacted ids remap c c') :
    List.Forall₂ (Relocates (remap c'.id)) (c.methods.filter Method.kept) c'.methods := by
  obtain ⟨c₁, c₂, hp, ht, hrelocated⟩ := h.steps
  have hmethods : c₂.methods = c.methods.filter Method.kept := by rw [ht.frame, hp.frame]
  have hid : c'.id = c₂.id := by rw [hrelocated.frame]
  rw [← hmethods, hid]
  exact hrelocated.methods

/-- A compacted class declares what the class declared and kept. -/
theorem Compacted.declared?_rel (h : Compacted ids remap c c') (hnodup : c.signatures.Nodup)
    (sig : Signature) : Option.Rel (DeclarationRelocates (remap c'.id))
      ((c.declared? sig).filter Declaration.kept) (c'.declared? sig) := by
  rw [← Class.declared?_keptOnly hnodup]
  refine Class.declared?_rel (fun hm => hm.sig_eq) (fun hf => by rw [hf]) h.methods ?_ sig
  rw [h.fields_eq]
  exact List.forall₂_same.mpr fun _ _ => rfl

/-- Whatever does not depend on the relocated code is read off both declarations alike. -/
theorem DeclarationRelocates.read_eq {β : Type} {remap : Nat → Except Inconsistency Nat}
    {d d' : Declaration} {read : Declaration → β} (h : DeclarationRelocates remap d d')
    (hread : ∀ m code, read (.method { m with relocated := code }) = read (.method m)) :
    read d' = read d := by
  cases d with
  | method m =>
      cases d' with
      | field f => exact h.elim
      | method m' =>
          have hm : m' = { m with relocated := m'.relocated } := Relocates.frame h
          rw [hm, hread]
  | field f =>
      cases d' with
      | method m => exact h.elim
      | field f' =>
          cases h
          rfl

theorem DeclarationRelocates.linkId_eq {remap : Nat → Except Inconsistency Nat} {d d' : Declaration}
    (h : DeclarationRelocates remap d d') : d'.linkId = d.linkId :=
  h.read_eq fun _ _ => rfl

theorem DeclarationRelocates.kept_eq {remap : Nat → Except Inconsistency Nat} {d d' : Declaration}
    (h : DeclarationRelocates remap d d') : d'.kept = d.kept :=
  h.read_eq fun _ _ => rfl

end

namespace CompactedTo

variable {r r' : Registry} {row : Nat} {c' : Class}

/-- A compacted class is found by its id. -/
theorem byId?_eq (h : CompactedTo r r') (hr : r.WellFormed) (hrow : row ∈ r'.live)
    (hc' : r'.classAt? row = some c') : r'.byId? c'.id = some row := by
  obtain ⟨i, hi⟩ := List.getElem?_of_mem hrow
  rw [h.id_eq hr hi hc', byId?, if_neg (by omega), Int.toNat_natCast]
  exact hi

end CompactedTo

/-! ### Places -/

section

variable {ids : Renumbering} {remap : Nat → Nat → Except Inconsistency Nat} {c c' : Class}

/-- What compaction leaves alone in a class. -/
theorem Compacted.frame (h : Compacted ids remap c c') : c' = { c with
    id := c'.id, methods := c'.methods, fields := c'.fields, pool := c'.pool
    listed := c'.listed, slots := c'.slots, children := c'.children, table := c'.table
    forwarding := c'.forwarding } := by
  obtain ⟨c₁, c₂, hp, ht, hrelocated⟩ := h.steps
  rw [hrelocated.frame, ht.frame, hp.frame]

theorem Compacted.nativeIndices_eq (h : Compacted ids remap c c') :
    c'.nativeIndices = c.nativeIndices := by
  have hsame : c'.methods.map (fun m => (m.kept, m.kind, m.nativeIndex)) =
      (c.methods.filter Method.kept).map fun m => (m.kept, m.kind, m.nativeIndex) := by
    refine map_eq_of_forall₂ (fun {m m'} hm => ?_) h.methods
    rw [Relocates.frame hm]
  have hread : ∀ ms : List Method,
      (ms.filter fun m => m.kept && m.kind = .native).map Method.nativeIndex =
        ((ms.map fun m => (m.kept, m.kind, m.nativeIndex)).filter fun p =>
          p.1 && p.2.1 = .native).map fun p => p.2.2 := by
    intro ms
    rw [List.filter_map, List.map_map]
    rfl
  rw [Class.nativeIndices, hread, hsame, ← hread, List.filter_filter, Class.nativeIndices]
  refine congrArg (List.map Method.nativeIndex) (List.filter_congr fun m _ => ?_)
  cases m.kept <;> simp

theorem Compacted.spans_eq (h : Compacted ids remap c c') : c'.spans = c.spans := by
  have hsame : c'.methods.map (fun m => (m.kept, m.rawCode, m.codeOffset)) =
      (c.methods.filter Method.kept).map fun m => (m.kept, m.rawCode, m.codeOffset) := by
    refine map_eq_of_forall₂ (fun {m m'} hm => ?_) h.methods
    rw [Relocates.frame hm]
  have hread : ∀ ms : List Method, Method.spans ms =
      ((ms.map fun m => (m.kept, m.rawCode, m.codeOffset)).filter fun p =>
        p.1 && !p.2.1.isEmpty).map fun p => (p.2.2, p.2.1.length) := by
    intro ms
    rw [List.filter_map, List.map_map]
    rfl
  rw [Class.spans, hread, hsame, ← hread, Method.spans, List.filter_filter]
  refine congrArg (List.map _) (List.filter_congr fun m _ => ?_)
  cases m.kept <;> simp

theorem Compacted.codePlaced (h : Compacted ids remap c c') (hc : c.CodePlaced) :
    c'.CodePlaced := by
  intro m' hm' hoffset
  obtain ⟨m, hm, hrelocates⟩ := forall₂_mem_right h.methods hm'
  rw [hrelocates.frame] at hoffset ⊢
  exact hc m (List.mem_of_mem_filter hm) hoffset

end

theorem CompactedTo.placed {r r' : Registry} (h : CompactedTo r r')
    (hplaced : r.Placed r.keptRows) : r'.Placed r'.live := by
  rw [h.live_eq]
  have hread : ∀ {β : Type} {read : Class → List β}, (∀ {c c'},
      Compacted r.newIds r'.compactSlot c c' → read c' = read c) →
      r.keptRows.flatMap (fun row => ((r'.classAt? row).map read).getD []) =
        r.keptRows.flatMap fun row => ((r.classAt? row).map read).getD [] := by
    intro β read hsame
    refine List.flatMap_congr fun row hrow => ?_
    obtain ⟨-, c, hc, -⟩ := mem_keptRows.mp hrow
    obtain ⟨c', hc', hcompacted⟩ := h.classes hrow hc
    rw [hc, hc', Option.map_some, Option.map_some, hsame hcompacted]
  refine ⟨fun {row c'} hrow hc' => ?_, ?_, ?_⟩
  · obtain ⟨c, -, hc, hcompacted⟩ := h.exists_old (h.live_eq ▸ hrow) hc'
    exact hcompacted.codePlaced (hplaced.codePlaced hrow hc)
  · obtain ⟨n, hn⟩ := hplaced.natives
    exact ⟨n, (hread Compacted.nativeIndices_eq).trans hn⟩
  · obtain ⟨size, hsize⟩ := hplaced.consecutive
    exact ⟨size, (hread Compacted.spans_eq).symm ▸ hsize⟩

end Registry

/-! ### References -/

/-- The sorts of things that references refer to. -/
inductive RefSort where
  | cls
  | member
  | literal
deriving DecidableEq

/-- What a reference refers to. -/
def RefBody.sort : RefBody → RefSort
  | .classRef _ _ => .cls
  | .memberRef _ _ _ _ _ => .member
  | .literal _ => .literal

theorem RefBody.sort_bare (body : RefBody) : body.bare.sort = body.sort := by
  cases body <;> rfl

/-- A class keeps a reference of a sort at a slot. -/
def Class.KeepsAt (c : Class) (slot : Int) (sort : RefSort) : Prop :=
  ∃ pos ref, (pos, ref) ∈ c.references ∧ ref.kept = true ∧ ref.slot = slot ∧ ref.body.sort = sort

theorem Class.KeepsAt.laid {c c' : Class} {slot : Int} {sort : RefSort} (h : c.KeepsAt slot sort)
    (hlaid : c.Laid c') : c'.KeepsAt slot sort := by
  obtain ⟨pos, ref, hmem, hkept, hslot, hsort⟩ := h
  obtain ⟨⟨pos', ref'⟩, hmem', -, hlaidr⟩ := forall₂_mem_left hlaid.references hmem
  refine ⟨pos', ref', hmem', hlaidr.kept_eq.trans hkept, hlaidr.slot_eq.trans hslot, ?_⟩
  rw [← RefBody.sort_bare, hlaidr.body, RefBody.sort_bare, hsort]

namespace Registry

theorem Renumbered.sort_eq {ids : Renumbering} {body body' : RefBody}
    (h : Renumbered ids body body') : body'.sort = body.sort := by
  cases body with
  | classRef name target =>
      obtain ⟨old, new, -, -, rfl⟩ := h
      rfl
  | memberRef m target declaring link index =>
      obtain ⟨old, new, old', new', -, -, -, -, rfl⟩ := h
      rfl
  | literal v => rw [show body' = .literal v from h]

theorem setIndex_of_key? {ref : Reference} (h : ref.key? = none) (index : Nat) :
    setIndex index ref = ref := by
  unfold Reference.key? at h
  unfold setIndex
  split
  · simp_all
  · rfl

theorem sort_setIndex (index : Nat) (ref : Reference) :
    (setIndex index ref).body.sort = ref.body.sort := by
  unfold setIndex
  split
  case h_1 hbody => rw [hbody]; rfl
  case h_2 => rfl

theorem setIndex_frame (index : Nat) (ref : Reference) :
    setIndex index ref = { ref with body := (setIndex index ref).body } := by
  unfold setIndex
  split <;> rfl

/-- A class with its member table has the references that it had, some of them with an index. -/
theorem Tabled.references {c c' : Class} (h : Tabled c c') :
    List.Forall₂ (fun p p' => p'.1 = p.1 ∧ ∃ index, p'.2 = setIndex index p.2) c.references
      c'.references := by
  have hlisted : c'.listed = c.listed := by rw [h.frame]
  have hread : ∀ pos ∈ c.listed, ∀ {ref}, c.pool[pos]? = some ref →
      ∃ index, c'.pool[pos]? = some (setIndex index ref) := by
    intro pos hpos ref href
    have hmem := Class.mem_references.mpr ⟨hpos, href⟩
    cases hkey : ref.key? with
    | none =>
        refine ⟨0, ?_⟩
        rw [setIndex_of_key? hkey, h.other, href]
        intro ref' hmem'
        cases href.symm.trans (Class.mem_references.mp hmem').2
        exact hkey
    | some key =>
        obtain ⟨index, -, -, hindex, -⟩ := h.member hmem hkey
        exact ⟨index, hindex⟩
  unfold Class.references
  rw [hlisted]
  generalize c.listed = positions at hread ⊢
  induction positions with
  | nil => exact .nil
  | cons pos positions ih =>
      have hrest := ih fun p hp => hread p (List.mem_cons_of_mem _ hp)
      cases hpos : c.pool[pos]? with
      | none =>
          have hpos' : c'.pool[pos]? = none := getElem?_eq_none_of_size_eq h.size_eq hpos
          simpa [hpos, hpos'] using hrest
      | some ref =>
          obtain ⟨index, hindex⟩ := hread pos List.mem_cons_self hpos
          simpa [hpos, hindex] using ⟨⟨index, rfl⟩, hrest⟩

namespace Compacted

variable {ids : Renumbering} {remap : Nat → Nat → Except Inconsistency Nat} {c c' : Class}

/-- The references of a compacted class are those of the pruned class. -/
theorem references (h : Compacted ids remap c c') : ∃ c₁, Pruned ids { c with slots := [] } c₁ ∧
    c₁.id = c'.id ∧ c₁.slots = c'.slots ∧
    List.Forall₂ (fun p p' => p'.1 = p.1 ∧ ∃ index, p'.2 = setIndex index p.2) c₁.references
      c'.references := by
  obtain ⟨c₁, c₂, hp, ht, hrelocated⟩ := h.steps
  have hsame : c'.references = c₂.references := by
    rw [Class.references, Class.references, hrelocated.frame]
  refine ⟨c₁, hp, ?_, ?_, hsame ▸ ht.references⟩
  · rw [hrelocated.frame, ht.frame]
  · rw [hrelocated.frame, ht.frame]

/-- What becomes of a kept reference. -/
theorem exists_reference (h : Compacted ids remap c c') {pos : Nat} {ref : Reference}
    (hmem : (pos, ref) ∈ c.references) (hkept : ref.kept = true) :
    ∃ body index, Renumbered ids ref.body body ∧
      (pos, setIndex index (rewriteRef c'.id body ref)) ∈ c'.references := by
  obtain ⟨c₁, hp, hid, -, hrefs⟩ := h.references
  obtain ⟨body, hbody, hpool⟩ := hp.rewritten hmem hkept
  have hmem₁ : (pos, rewriteRef c₁.id body ref) ∈ c₁.references :=
    hp.mem_references.mpr ⟨ref, body, hmem, hkept, hbody, hpool, rfl⟩
  obtain ⟨⟨pos', ref'⟩, hmem', heq, index, hindex⟩ := forall₂_mem_left hrefs hmem₁
  simp only at heq hindex
  subst heq hindex
  rw [hid] at hmem'
  exact ⟨body, index, hbody, hmem'⟩

/-- Where a reference of a compacted class comes from. -/
theorem exists_kept (h : Compacted ids remap c c') {pos : Nat} {ref' : Reference}
    (hmem : (pos, ref') ∈ c'.references) : ∃ ref body index, (pos, ref) ∈ c.references ∧
      ref.kept = true ∧ Renumbered ids ref.body body ∧
      ref' = setIndex index (rewriteRef c'.id body ref) := by
  obtain ⟨c₁, hp, hid, -, hrefs⟩ := h.references
  obtain ⟨⟨pos₁, ref₁⟩, hmem₁, heq, index, hindex⟩ := forall₂_mem_right hrefs hmem
  simp only at heq hindex
  subst heq hindex
  obtain ⟨ref, body, hold, hkept, hbody, -, rfl⟩ := hp.mem_references.mp hmem₁
  exact ⟨ref, body, index, hold, hkept, hbody, by rw [hid]⟩

theorem keepsAt (h : Compacted ids remap c c') {slot : Int} {sort : RefSort}
    (hkeeps : c.KeepsAt slot sort) : c'.KeepsAt slot sort := by
  obtain ⟨pos, ref, hmem, hkept, hslot, hsort⟩ := hkeeps
  obtain ⟨body, index, hbody, hmem'⟩ := h.exists_reference hmem hkept
  refine ⟨pos, _, hmem', ?_, ?_, ?_⟩
  · rw [setIndex_frame]
    exact hkept
  · rw [setIndex_frame]
    exact hslot
  · rw [sort_setIndex]
    exact hbody.sort_eq.trans hsort

/-- No two references of a compacted class share a slot. -/
theorem slots_nodup (h : Compacted ids remap c c') (hc : c.Indexed) :
    (c'.references.map fun p => p.2.slot).Nodup := by
  obtain ⟨c₁, hp, -, -, hrefs⟩ := h.references
  have hslots : c'.references.map (fun p => p.2.slot) = c₁.references.map fun p => p.2.slot := by
    refine map_eq_of_forall₂ ?_ hrefs
    rintro ⟨pos, ref⟩ ⟨pos', ref'⟩ ⟨-, index, hindex⟩
    simp only at hindex
    rw [hindex, setIndex_frame]
  have hkept := keptSlots_slots_nodup hc
  rw [hslots]
  exact (hp.slots_sorted hkept).imp fun hlt => ne_of_lt hlt

/-- A reference of a compacted class is known at its slot. -/
theorem lookup_slot (h : Compacted ids remap c c') (hc : c.Indexed) {pos : Nat} {ref : Reference}
    (hmem : (pos, ref) ∈ c'.references) : c'.slots.lookup ref.slot = some pos := by
  obtain ⟨c₁, hp, -, hslots, -⟩ := h.references
  obtain ⟨old, body, index, hold, hkept, -, rfl⟩ := h.exists_kept hmem
  have hentry : (pos, old.slot) ∈ keptSlots { c with slots := [] } :=
    mem_keptSlots.mpr ⟨old, hold, hkept, rfl⟩
  have hnodup := keptSlots_slots_nodup hc
  rw [setIndex_frame, ← hslots, hp.slots_eq, List.append_nil]
  refine (lookup_eq_some_of_nodup ?_).mpr ?_
  · rw [List.map_reverse, List.map_map, List.nodup_reverse]
    exact hnodup
  · exact List.mem_reverse.mpr (List.mem_map_of_mem hentry)

/-- The member table of a compacted class has member references only. -/
theorem exists_of_table (h : Compacted ids remap c c') {pos : Nat} (hpos : pos ∈ c'.table) :
    ∃ ref m target declaring link index, c'.pool[pos]? = some ref ∧
      ref.body = .memberRef m target declaring link index := by
  obtain ⟨c₁, c₂, -, ht, hrelocated⟩ := h.steps
  have hframe : c'.table = c₂.table ∧ c'.pool = c₂.pool := by
    rw [hrelocated.frame]
    exact ⟨rfl, rfl⟩
  rw [hframe.1] at hpos
  rw [hframe.2]
  obtain ⟨index, hindex⟩ := List.getElem?_of_mem hpos
  obtain ⟨ref, key, -, -, -, hkey, hpool, -⟩ := ht.entry hindex
  rw [← key?_setIndex index] at hkey
  obtain ⟨m, declaring, i, hbody⟩ := Reference.key?_eq_some.mp hkey
  exact ⟨_, m, key.1, declaring, key.2, i, hpool, hbody⟩

/-- What is known at a slot of a compacted class is one of its references. -/
theorem exists_of_slot (h : Compacted ids remap c c') {slot : Int} {pos : Nat}
    (hslot : c'.slots.lookup slot = some pos) : ∃ ref, (pos, ref) ∈ c'.references := by
  obtain ⟨c₁, hp, -, hslots, -⟩ := h.references
  rw [← hslots, hp.slots_eq, List.append_nil] at hslot
  obtain ⟨before, after, hsplit, -⟩ := List.lookup_eq_some_iff.mp hslot
  have hmem : (slot, pos) ∈ ((keptSlots { c with slots := [] }).map Prod.swap).reverse := by
    rw [hsplit]
    exact List.mem_append_right _ List.mem_cons_self
  obtain ⟨⟨pos', slot'⟩, hkept, hswap⟩ := List.mem_map.mp (List.mem_reverse.mp hmem)
  cases hswap
  obtain ⟨ref, hmem, hkept, -⟩ := mem_keptSlots.mp hkept
  obtain ⟨body, index, -, hmem'⟩ := h.exists_reference hmem hkept
  exact ⟨_, hmem'⟩

end Compacted

end Registry

end ClassLinker
