import Mathlib.Data.List.Induction
import Mathlib.Order.Bounds.Defs
import ClassLinker.Proofs.Registry.Refused
import ClassLinker.Proofs.Registry.Slots

/-! Slots that are allocated. However a registry has come about, the highest slot of a class is the
highest one that was ever taken for it, by the pool of its class file, by a reference or by
allocation; this is the invariant that every operation carries on. So an allocated slot is above all
of these. Whether a reference can be created there is up to the other classes too, as references are
known by the id of their class, and the ids of two classes may come to be the same when something has
failed before. -/

namespace ClassLinker.Registry

open Step

/-! ### Histories -/

/-- Operations that are done one after the other, from the empty registry on. -/
abbrev History := List Operation

namespace History

/-- The registry that the operations leave. -/
def registry (ops : History) : Registry := ops.foldl Operation.apply {}

/-- `P` holds of one of the operations and the registry on which it is done. -/
def During (P : Registry → Operation → Prop) : Registry → List Operation → Prop
  | _, [] => False
  | r, op :: ops => P r op ∨ During P (op.apply r) ops

/-- A slot of the class in a row has been taken. -/
def Taken (ops : History) (row : Nat) (slot : Int) : Prop :=
  During (fun r op => op.Takes r row slot) {} ops

/-- A reference has been created at a slot of the class in a row. -/
def Referred (ops : History) (row : Nat) (slot : Int) : Prop :=
  During (fun r op => op.RefersAt row slot ∧ op.Succeeds r) {} ops

/-- The class in a row has been registered. -/
def Created (ops : History) (row : Nat) : Prop :=
  During (fun r op => ∃ spec r', op = .createClass spec ∧ createClass spec r = .ok row r') {} ops

/-- A slot of the class in a row is above all that have been taken. -/
structure Free (ops : History) (row : Nat) (slot : Int) : Prop where
  pos : 0 < slot
  le : slot ≤ lastSlot
  above : ∀ {taken}, ops.Taken row taken → taken < slot

/-- No compaction failed after it had begun, and references were created for registered classes
only. -/
structure Proper (ops : History) : Prop where
  whole : ¬ During (fun r op => op = .compact ∧ ∃ e r', compact r = .error e r' ∧ r' ≠ r) {} ops
  registered : ¬ During (fun r op => ∃ row slot, op.RefersAt row slot ∧ op.Succeeds r ∧
    row ∉ r.live) {} ops

variable {ops : History} {op : Operation} {row p : Nat} {slot n : Int} {c : Class}
  {P Q : Registry → Operation → Prop}

@[simp]
theorem registry_nil : registry [] = {} := rfl

@[simp]
theorem registry_append (ops : History) (op : Operation) :
    registry (ops ++ [op]) = op.apply ops.registry := by
  rw [registry, List.foldl_append]
  rfl

theorem during_append :
    During P {} (ops ++ [op]) ↔ During P {} ops ∨ P (registry ops) op := by
  have hfrom : ∀ r, During P r (ops ++ [op]) ↔
      During P r ops ∨ P (ops.foldl Operation.apply r) op := by
    induction ops with
    | nil => exact fun _ => or_comm
    | cons first ops ih => exact fun r => (or_congr_right (ih (first.apply r))).trans or_assoc.symm
  exact hfrom {}

theorem During.imp {r : Registry} {ops : List Operation} (hPQ : ∀ r op, P r op → Q r op)
    (h : During P r ops) : During Q r ops := by
  induction ops generalizing r with
  | nil => exact h
  | cons first ops ih => exact Or.imp (hPQ r first) ih h

theorem During.and_not {r : Registry} {ops : List Operation} (h : During P r ops)
    (hnot : ¬ During Q r ops) : During (fun r op => P r op ∧ ¬ Q r op) r ops := by
  induction ops generalizing r with
  | nil => exact h
  | cons first ops ih =>
      rw [During, not_or] at hnot
      exact Or.imp (fun hP => ⟨hP, hnot.1⟩) (fun hrest => ih hrest hnot.2) h

theorem Referred.taken (h : ops.Referred row slot) : ops.Taken row slot :=
  During.imp (fun _ _ hP => (Operation.takes_iff_of_refersAt hP.1).mpr hP) h

/-- Only slots of references that were created are in use, whatever failed. -/
theorem referred_of_used (hc : ops.registry.classAt? row = some c) (hslot : slot ∈ c.usedSlots) :
    ops.Referred row slot := by
  induction ops using List.reverseRecOn generalizing c with
  | nil => simp [classAt?] at hc
  | append_singleton ops op ih =>
      rw [registry_append] at hc
      rw [Referred, during_append]
      rcases op.exists_old_class hc with ⟨c₀, hc₀⟩ | hnil
      · obtain ⟨c', hc', hmoves⟩ := op.exists_moved hc₀
        cases hc.symm.trans hc'
        exact (hmoves.used hslot).imp (ih hc₀) id
      · rw [hnil] at hslot
        cases hslot

theorem exists_class_of_takes {r : Registry} (h : op.Takes r row slot) :
    ∃ c, (op.apply r).classAt? row = some c := by
  rcases op.slot_cases with ⟨p, s, href⟩ | ⟨p, rfl⟩ | ⟨spec, rfl⟩ | hquiet
  · obtain ⟨hrefers, hok⟩ := (Operation.takes_iff_of_refersAt href).mp h
    obtain ⟨rfl, rfl⟩ := Operation.refersAt_unique href hrefers
    obtain ⟨body, -, hsucceeds⟩ := Operation.exists_body href
    obtain ⟨a, r', hrun⟩ := (hsucceeds r).mp hok
    obtain ⟨-, c, hc, -⟩ := createRef_ok.mp hrun
    exact (op.exists_moved hc).imp fun _ h => h.1
  · obtain ⟨rfl, r', hrun⟩ := h
    obtain ⟨-, c, hc, -⟩ := allocSlot_ok.mp hrun
    exact (Operation.exists_moved _ hc).imp fun _ h => h.1
  · obtain ⟨-, r', hrun⟩ := h
    rw [Operation.apply, Operation.run, final_discard, hrun]
    exact (exists_class_of_createClass hrun).imp fun _ h => h.1
  · exact absurd h hquiet.takes

theorem exists_class_of_taken (h : ops.Taken row slot) : ∃ c, ops.registry.classAt? row = some c := by
  induction ops using List.reverseRecOn with
  | nil => exact h.elim
  | append_singleton ops op ih =>
      rw [registry_append]
      rcases during_append.mp h with h | h
      · obtain ⟨c, hc⟩ := ih h
        exact (op.exists_moved hc).imp fun _ h => h.1
      · exact exists_class_of_takes h

/-- The highest slot of a class is zero or the highest of those taken. -/
structure Tracked (ops : History) (row : Nat) (c : Class) : Prop where
  nonneg : 0 ≤ c.maxSlot
  taken_le : ∀ {slot}, ops.Taken row slot → slot ≤ c.maxSlot
  maxSlot_taken : c.maxSlot = 0 ∨ ops.Taken row c.maxSlot

theorem Tracked.step {c' : Class} (h : ops.Tracked row c) (hmoves : op.Moves ops.registry row c c') :
    Tracked (ops ++ [op]) row c' := by
  refine ⟨Int.le_trans h.nonneg hmoves.maxSlot_le, fun htaken => ?_, ?_⟩
  · rcases during_append.mp htaken with hold | hnew
    · exact Int.le_trans (h.taken_le hold) hmoves.maxSlot_le
    · exact hmoves.takes_le hnew
  · rcases hmoves.maxSlot_cases with heq | htakes
    · rw [heq]
      exact h.maxSlot_taken.imp_right fun htaken => during_append.mpr (.inl htaken)
    · exact .inr (during_append.mpr (.inr htakes))

/-- A class that has just been registered has the slots of its pool. -/
theorem Tracked.created {spec : ClassSpec} {r' : Registry}
    (hrun : createClass spec ops.registry = .ok row r') :
    ∃ c, r'.classAt? row = some c ∧ Tracked (ops ++ [.createClass spec]) row c := by
  obtain ⟨c, hc, hmax⟩ := exists_class_of_createClass hrun
  have hnew : ∀ {slot}, Taken (ops ++ [.createClass spec]) row slot → slot = spec.poolSize - 1 := by
    intro slot htaken
    rcases during_append.mp htaken with hold | ⟨hpool, -⟩
    · obtain ⟨c₀, hc₀⟩ := exists_class_of_taken hold
      obtain ⟨-, -, -, -, -, rfl, -⟩ := createClass_ok hrun
      exact absurd (classAt?_lt hc₀) (Nat.lt_irrefl _)
    · omega
  have hpool : Taken (ops ++ [.createClass spec]) row (spec.poolSize - 1) :=
    during_append.mpr (.inr ⟨by omega, r', hrun⟩)
  refine ⟨c, hc, ?_, fun htaken => ?_, ?_⟩
  · rw [hmax]
    split <;> omega
  · rw [hnew htaken, hmax]
    split <;> omega
  · rw [hmax]
    split
    · exact .inr hpool
    · exact .inl rfl

theorem exists_tracked (h : ops.Created row) :
    ∃ c, ops.registry.classAt? row = some c ∧ ops.Tracked row c := by
  induction ops using List.reverseRecOn with
  | nil => exact h.elim
  | append_singleton ops op ih =>
      rw [registry_append]
      rcases during_append.mp h with hold | ⟨spec, r', rfl, hrun⟩
      · obtain ⟨c, hc, htracked⟩ := ih hold
        obtain ⟨c', hc', hmoves⟩ := op.exists_moved hc
        exact ⟨c', hc', htracked.step hmoves⟩
      · obtain ⟨c, hc, htracked⟩ := Tracked.created hrun
        refine ⟨c, ?_, htracked⟩
        have happly : (Operation.createClass spec).apply (registry ops) = r' := by
          rw [Operation.apply, Operation.run, final_discard, hrun, final_ok]
        rw [happly, hc]

/-! ### Proper histories -/

namespace Proper

theorem init (h : Proper (ops ++ [op])) : ops.Proper :=
  ⟨fun hd => h.whole (during_append.mpr (.inl hd)),
    fun hd => h.registered (during_append.mpr (.inl hd))⟩

theorem last_whole (h : Proper (ops ++ [op])) (hop : op = .compact) (e : Failure) (r' : Registry)
    (hrun : compact ops.registry = .error e r') : r' = ops.registry := by
  by_contra hne
  exact h.whole (during_append.mpr (.inr ⟨hop, e, r', hrun, hne⟩))

theorem reachable (h : ops.Proper) : ops.registry.Reachable := by
  induction ops using List.reverseRecOn with
  | nil => exact .empty
  | append_singleton ops op ih =>
      rw [registry_append]
      exact (ih h.init).step op h.last_whole

/-- As long as the registry is open, its classes stay registered. -/
theorem live_of_during (h : ops.Proper) (hopen : ops.registry.closed = false)
    (hP : ∀ r op, P r op → row ∈ (op.apply r).live) (hd : During P {} ops) :
    row ∈ ops.registry.live := by
  induction ops using List.reverseRecOn with
  | nil => exact hd.elim
  | append_singleton ops op ih =>
      rw [registry_append] at hopen ⊢
      rcases during_append.mp hd with hold | hnew
      · have hbefore : (registry ops).closed = false := by
          by_contra hclosed
          rw [closed_apply (by simpa using hclosed) op] at hopen
          cases hopen
        have hlive := ih h.init hbefore hold
        by_cases hop : op = .compact
        · subst hop
          cases hrun : compact (registry ops) with
          | error e r' =>
              rw [Operation.apply, Operation.run, hrun, final_error, h.last_whole rfl e r' hrun]
              exact hlive
          | ok u r' =>
              rw [Operation.apply, Operation.run, hrun, final_ok] at hopen
              rcases h.init.reachable.sound with hclosed | hsound
              · exact absurd (hclosed.symm.trans hbefore) (by decide)
              · have hshut := (compact_spec hsound.wellFormed hsound.selfNamed hrun).closed
                exact absurd (hshut.symm.trans hopen) (by decide)
        · exact Operation.live_subset hop hlive
      · exact hP _ _ hnew

theorem live_of_created (h : ops.Proper) (hopen : ops.registry.closed = false)
    (hcreated : ops.Created row) : row ∈ ops.registry.live := by
  refine h.live_of_during hopen ?_ hcreated
  rintro r op ⟨spec, r', rfl, hrun⟩
  obtain ⟨-, -, -, -, -, rfl, hsame, -⟩ := createClass_ok hrun
  rw [Operation.apply, Operation.run, final_discard, hrun, final_ok, hsame.live_eq]
  exact List.mem_append_right _ (List.mem_singleton.mpr rfl)

theorem live_of_referred (h : ops.Proper) (hopen : ops.registry.closed = false)
    (href : ops.Referred row slot) : row ∈ ops.registry.live := by
  refine h.live_of_during hopen ?_ (During.and_not href h.registered)
  rintro r op ⟨⟨hrefers, hok⟩, hregistered⟩
  have hlive : row ∈ r.live := by
    by_contra hnot
    exact hregistered ⟨row, slot, hrefers, hok, hnot⟩
  refine Operation.live_subset ?_ hlive
  rintro rfl
  exact hrefers.elim

end Proper

end History

/-! ### Allocation -/

/-- Another class with the id of the class in a row knows the slot. -/
def Shadowed (r : Registry) (row : Nat) (slot : Int) : Prop :=
  ∃ p c c', p ≠ row ∧ r.classAt? row = some c ∧ r.classAt? p = some c' ∧ c'.id = c.id ∧
    c'.slots.lookup slot ≠ none

namespace History

variable {ops : History} {op : Operation} {row : Nat} {n : Int} {c : Class} {r' : Registry}

theorem Tracked.unused (h : ops.Tracked row c) (hc : ops.registry.classAt? row = some c)
    (hlt : c.maxSlot < n) : n ∉ c.usedSlots := fun hused => by
  have hle := h.taken_le (referred_of_used hc hused).taken
  omega

theorem Tracked.isLeast (h : ops.Tracked row c) (hlt : c.maxSlot < lastSlot) :
    IsLeast {slot | ops.Free row slot} (c.maxSlot + 1) := by
  have hnonneg := h.nonneg
  refine ⟨⟨by omega, by omega, fun htaken => ?_⟩, fun slot hfree => ?_⟩
  · have hle := h.taken_le htaken
    omega
  · rcases h.maxSlot_taken with hzero | htaken
    · have hpos := hfree.pos
      omega
    · have habove := hfree.above htaken
      omega

/-- Where a slot is free, the next one can be allocated. -/
theorem Tracked.lt_of_free (h : ops.Tracked row c) (hfree : ops.Free row n) :
    c.maxSlot < lastSlot := by
  rcases h.maxSlot_taken with hzero | htaken
  · rw [hzero]
    decide
  · exact Int.lt_of_lt_of_le (hfree.above htaken) hfree.le

/-- At an allocated slot a reference is created unless another class with the same id knows it. -/
theorem succeeds_iff (hcreated : ops.Created row)
    (halloc : allocSlot row ops.registry = .ok n r') (href : op.RefersAt row n) :
    op.Succeeds r' ↔ ¬ r'.Shadowed row n := by
  obtain ⟨c, hc, htracked⟩ := exists_tracked hcreated
  obtain ⟨hopen, c₀, hc₀, hlt, rfl, rfl⟩ := allocSlot_ok.mp halloc
  cases hc.symm.trans hc₀
  obtain ⟨body, -, hsucceeds⟩ := Operation.exists_body href
  have hfree := (htracked.isLeast hlt).1
  have hclass : ((ops.registry.modifyClass row fun c => { c with maxSlot := c.maxSlot + 1 }).classAt?
      row) = some { c with maxSlot := c.maxSlot + 1 } := by
    rw [classAt?_modifyClass, if_pos rfl, hc]
    rfl
  have hown : c.slots.lookup (c.maxSlot + 1) = none :=
    Class.lookup_eq_none_of_unused (htracked.unused hc (by omega))
  rw [hsucceeds]
  constructor
  · rintro ⟨a, u, hrun⟩ ⟨p, c₁, c', hne, hc₁, hc', hid, hknown⟩
    obtain ⟨-, c₂, hc₂, -, -, hnone, -⟩ := createRef_ok.mp hrun
    cases hc₂.symm.trans hc₁
    exact hknown (refAddr?_eq_none.mp hnone p c' hc' (congrArg Nat.cast hid))
  · intro hshadowed
    refine ⟨_, _, createRef_ok.mpr ⟨hopen, _, hclass, hfree.pos, hfree.le, ?_, rfl, rfl⟩⟩
    rw [refAddr?_eq_none]
    intro p c' hc' hid
    by_cases hp : p = row
    · subst hp
      cases hclass.symm.trans hc'
      exact hown
    · by_contra hknown
      exact hshadowed ⟨p, _, c', hp, hclass, hc', Int.natCast_inj.mp hid, hknown⟩

/-- In a proper history no class shadows another one. -/
theorem Proper.not_shadowed (h : ops.Proper) (hcreated : ops.Created row)
    (halloc : allocSlot row ops.registry = .ok n r') : ¬ r'.Shadowed row n := by
  obtain ⟨hopen, c₀, hc₀, -, rfl, -⟩ := allocSlot_ok.mp halloc
  rintro ⟨p, c, c', hne, hc, hc', hid, hknown⟩
  rw [classAt?_modifyClass, if_neg (Ne.symm hne)] at hc'
  rw [classAt?_modifyClass, if_pos rfl, hc₀] at hc
  cases hc
  have hused : n ∈ c'.usedSlots := by
    by_contra hunused
    exact hknown (Class.lookup_eq_none_of_unused hunused)
  rcases h.reachable.sound with hclosed | hsound
  · exact absurd (hclosed.symm.trans hopen) (by decide)
  · exact hne (hsound.wellFormed.row_eq_of_id (h.live_of_referred hopen (referred_of_used hc' hused))
      (h.live_of_created hopen hcreated) hc' hc₀ hid)

/-- A slot that is allocated for a registered class is the least one above all that were taken before,
be it by the pool of its class file, by references or by allocation, whatever failed in between. A
reference can be created there, unless another class with the same id knows the slot; this does not
happen as long as compactions do not fail half way and references are created for registered classes.
As long as the registry is open, a slot is allocated whenever one is left. -/
theorem allocSlot_fresh (hcreated : ops.Created row) :
    (∀ n r', allocSlot row ops.registry = .ok n r' → IsLeast {slot | ops.Free row slot} n ∧
      ∀ op : Operation, op.RefersAt row n →
        (op.Succeeds r' ↔ ¬ r'.Shadowed row n) ∧ (ops.Proper → op.Succeeds r')) ∧
    (ops.registry.closed = false →
      ((∃ n r', allocSlot row ops.registry = .ok n r') ↔ ∃ n, ops.Free row n)) := by
  obtain ⟨c, hc, htracked⟩ := exists_tracked hcreated
  refine ⟨fun n r' halloc => ?_, fun hopen => ⟨?_, ?_⟩⟩
  · refine ⟨?_, fun op href => ?_⟩
    · obtain ⟨-, c₀, hc₀, hlt, -, rfl⟩ := allocSlot_ok.mp halloc
      cases hc.symm.trans hc₀
      exact htracked.isLeast hlt
    · have hiff := succeeds_iff hcreated halloc href
      exact ⟨hiff, fun hproper => hiff.mpr (hproper.not_shadowed hcreated halloc)⟩
  · rintro ⟨n, r', halloc⟩
    obtain ⟨-, c₀, hc₀, hlt, -, -⟩ := allocSlot_ok.mp halloc
    cases hc.symm.trans hc₀
    exact ⟨_, (htracked.isLeast hlt).1⟩
  · rintro ⟨n, hfree⟩
    exact ⟨_, _, allocSlot_ok.mpr ⟨hopen, c, hc, htracked.lt_of_free hfree, rfl, rfl⟩⟩

/-- A class with a pool of ten slots gets a reference at slot 25 and then a slot of its own. -/
def pooledOps : History := [
  .bareClass "R" [],
  .createClass { name := "A", super := "R", kind := .ordinary, interfaces := [], element := []
                 elementType := 0, poolSize := 10 },
  .createMemberRef 1 25 ⟨"R", "<init>", "()V"⟩, .allocSlot 1]

theorem allocSlot_fresh_pooled : ∃ r', pooledOps.Created 1 ∧ pooledOps.Taken 1 9 ∧
    pooledOps.Taken 1 25 ∧ pooledOps.Taken 1 26 ∧ allocSlot 1 pooledOps.registry = .ok 27 r' ∧
    IsLeast {slot | pooledOps.Free 1 slot} 27 ∧ (Operation.createClassRef 1 27 "R").Succeeds r' := by
  have hcreated : pooledOps.Created 1 := .inr (.inl ⟨_, _, rfl, rfl⟩)
  have hproper : pooledOps.Proper := by
    refine ⟨?_, ?_⟩
    · rintro (⟨h, -⟩ | ⟨h, -⟩ | ⟨h, -⟩ | ⟨h, -⟩ | h)
      all_goals cases h
    · rintro (⟨_, _, h, -⟩ | ⟨_, _, h, -⟩ | ⟨_, _, ⟨rfl, -⟩, -, hlive⟩ | ⟨_, _, h, -⟩ | h)
      · exact h
      · exact h
      · exact hlive (by decide +kernel)
      · exact h
      · exact h
  have halloc : ∃ r', allocSlot 1 pooledOps.registry = .ok 27 r' := ⟨_, rfl⟩
  obtain ⟨r', halloc⟩ := halloc
  obtain ⟨hleast, hnext⟩ := (allocSlot_fresh hcreated).1 27 r' halloc
  exact ⟨r', hcreated, .inr (.inl ⟨rfl, _, rfl⟩), .inr (.inr (.inl ⟨⟨rfl, rfl⟩, _, rfl⟩)),
    .inr (.inr (.inr (.inl ⟨rfl, _, rfl⟩))), halloc, hleast,
    (hnext (.createClassRef 1 27 "R") ⟨rfl, rfl⟩).2 hproper⟩

/-- An operation fails at a slot of a registered class that has just been allocated. -/
def Refuses (ops : History) (row : Nat) (op : Int → Operation) : Prop :=
  ops.Created row ∧ ∃ n r', allocSlot row ops.registry = .ok n r' ∧ ¬ (op n).Succeeds r'

theorem Refuses.of_check {op : Int → Operation} (hcreated : ops.Created row)
    (hcheck : (match allocSlot row ops.registry with
      | .ok n r' => refuses ((op n).run r') fun _ _ => true
      | .error _ _ => false) = true) : ops.Refuses row op := by
  split at hcheck
  · rename_i n r' halloc
    refine ⟨hcreated, n, r', halloc, fun hsucceeds => ?_⟩
    obtain ⟨u, hok⟩ := hsucceeds
    rw [hok] at hcheck
    cases hcheck
  · cases hcheck

/-- A class that was refused for a missing interface got a reference; the class registered next has
its id. -/
def orphanedOps : History := [
  .bareClass "R" [], .createClass orphanSpec, .createClassRef 1 1 "R", .bareClass "D" "R"]

/-- A compaction stopped at the last class, when the one before it had been given the id of a class
that is dropped. -/
def droppedOps : History := [
  .bareClass "R" [], .bareClass "D" "R", .bareClass "E" "R", .bareClass "F" "R",
  .createClassRef 2 1 "R", .keepClass 0, .keepClass 2, .keepClass 3, .keepRef ⟨2, 0⟩, .link,
  .createClassRef 3 1 "R", .keepRef ⟨3, 0⟩, .compact]

/-- At an allocated slot a literal is refused that has not the kind given for it; and a reference is
refused where a class that was never registered has one at this slot under the same id, or another
class after a compaction that failed half way. -/
theorem fresh_slot_refused :
    Refuses [.bareClass "R" []] 0 (fun n => .createLiteral 0 n 2 (some (.int 5))) ∧
    orphanedOps.Refuses 2 (fun n => .createClassRef 2 n "R") ∧
    droppedOps.Refuses 1 (fun n => .createClassRef 1 n "R") := by
  refine ⟨.of_check (.inl ⟨_, _, rfl, rfl⟩) ?_, .of_check ?_ ?_, .of_check ?_ ?_⟩
  · decide +kernel
  · exact .inr (.inr (.inr (.inl ⟨_, _, rfl, rfl⟩)))
  · decide +kernel
  · exact .inr (.inl ⟨_, _, rfl, rfl⟩)
  · decide +kernel

end History

end ClassLinker.Registry
