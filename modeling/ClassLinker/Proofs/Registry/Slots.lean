import ClassLinker.Proofs.Registry.Forgets
import ClassLinker.Proofs.Registry.Marks

/-! Slots that are given away. The slots of a class are taken by its class file, by the references
that are created for it and by those who ask for a free one. An operation that takes none, be it a
compaction that stops half way, leaves the highest slot of a class as it is and makes no reference
known at a slot that had none before; so the highest slot of a class is one that was taken, and no
slot above it ever was. -/

namespace ClassLinker

/-! ### The slots of a class -/

/-- The slots of the references in the pool of the class, and those that it knows. -/
def Class.usedSlots (c : Class) : List Int :=
  c.pool.toList.map Reference.slot ++ c.slots.map Prod.fst

/-- `c'` has the highest slot of `c` and uses no other slots. -/
structure Class.SlotsWithin (c c' : Class) : Prop where
  maxSlot_eq : c'.maxSlot = c.maxSlot
  used : c'.usedSlots ⊆ c.usedSlots

namespace Class

variable {c c' c'' : Class}

theorem mem_usedSlots {slot : Int} : slot ∈ c.usedSlots ↔
    (∃ (pos : Nat) (ref : Reference), c.pool[pos]? = some ref ∧ ref.slot = slot) ∨
      ∃ pos, (slot, pos) ∈ c.slots := by
  simp only [usedSlots, List.mem_append, List.mem_map, Array.mem_toList_iff, Prod.exists,
    exists_and_right, exists_eq_right]
  refine or_congr_left ⟨?_, ?_⟩
  · rintro ⟨ref, hmem, hslot⟩
    obtain ⟨pos, href⟩ := Array.mem_iff_getElem?.mp hmem
    exact ⟨pos, ref, href, hslot⟩
  · rintro ⟨pos, ref, href, hslot⟩
    exact ⟨ref, Array.mem_of_getElem? href, hslot⟩

theorem lookup_eq_none_of_unused {slot : Int} (h : slot ∉ c.usedSlots) :
    c.slots.lookup slot = none := by
  rw [List.lookup_eq_none_iff]
  intro p hp
  rw [bne_iff_ne]
  rintro rfl
  exact h (mem_usedSlots.mpr (.inr ⟨p.2, hp⟩))

namespace SlotsWithin

theorem refl (c : Class) : c.SlotsWithin c := ⟨rfl, List.Subset.refl _⟩

theorem trans (h : c.SlotsWithin c') (h' : c'.SlotsWithin c'') : c.SlotsWithin c'' :=
  ⟨h'.maxSlot_eq.trans h.maxSlot_eq, List.Subset.trans h'.used h.used⟩

/-- References that stay at their slots. -/
theorem of_pool (hmax : c'.maxSlot = c.maxSlot) (hslots : c'.slots = c.slots)
    (hpool : ∀ pos : Nat, (c'.pool[pos]?).map Reference.slot = (c.pool[pos]?).map Reference.slot) :
    c.SlotsWithin c' := by
  refine ⟨hmax, fun slot hslot => ?_⟩
  rw [mem_usedSlots] at hslot ⊢
  rcases hslot with ⟨pos, ref', href', hslot⟩ | ⟨pos, hpos⟩
  · have hsame := hpool pos
    rw [href', Option.map_some] at hsame
    obtain ⟨ref, href, heq⟩ := Option.map_eq_some_iff.mp hsame.symm
    exact .inl ⟨pos, ref, href, heq.trans hslot⟩
  · exact .inr ⟨pos, hslots ▸ hpos⟩

theorem modifyPool (c : Class) (pos : Nat) {f : Reference → Reference}
    (hf : ∀ ref, (f ref).slot = ref.slot) :
    c.SlotsWithin { c with pool := c.pool.modify pos f } := by
  refine .of_pool rfl rfl fun p => ?_
  rw [Array.getElem?_modify]
  split
  · cases c.pool[p]? <;> simp [hf]
  · rfl

theorem laid (h : c.Laid c') : c.SlotsWithin c' := by
  refine .of_pool (by rw [h.frame]) h.slots_eq fun pos => ?_
  cases href : c.pool[pos]? with
  | some ref =>
      obtain ⟨ref', href', hlaid⟩ := h.pool href
      rw [href', Option.map_some, Option.map_some, hlaid.slot_eq]
  | none =>
      rw [getElem?_eq_none_of_size_eq h.pool_size href]

theorem buildTable (c : Class) : c.SlotsWithin (Registry.buildTable c) := by
  have hslot : ∀ index ref, (Registry.setIndex index ref).slot = ref.slot := fun index ref => by
    unfold Registry.setIndex
    split <;> rfl
  have hpool : ∀ (entries : List (Nat × Int × Nat)) (pool : Array Reference) (pos : Nat),
      ((entries.foldl (fun pool p => pool.modify p.1 (Registry.setIndex p.2.2)) pool)[pos]?).map
        Reference.slot = (pool[pos]?).map Reference.slot := by
    intro entries
    induction entries with
    | nil => exact fun _ _ => rfl
    | cons p entries ih =>
        intro pool pos
        rw [List.foldl_cons, ih, Array.getElem?_modify]
        split
        · cases pool[pos]? <;> simp [hslot]
        · rfl
  exact .of_pool rfl rfl fun pos => hpool _ _ pos

end SlotsWithin

end Class

/-! ### Operations that take no slot -/

namespace Registry

open Step

/-- `r'` has the rows of `r`, with the same highest slots and no other slots in use. -/
structure SlotsWithin (r r' : Registry) : Prop where
  size_eq : r'.rows.size = r.rows.size
  classes : ∀ {row c}, r.classAt? row = some c → ∃ c', r'.classAt? row = some c' ∧ c.SlotsWithin c'

namespace SlotsWithin

variable {r r' r'' : Registry}

theorem refl (r : Registry) : r.SlotsWithin r := ⟨rfl, fun {_ c} hc => ⟨c, hc, .refl c⟩⟩

theorem trans (h : r.SlotsWithin r') (h' : r'.SlotsWithin r'') : r.SlotsWithin r'' := by
  refine ⟨h'.size_eq.trans h.size_eq, fun hc => ?_⟩
  obtain ⟨c', hc', hwithin⟩ := h.classes hc
  obtain ⟨c'', hc'', hwithin'⟩ := h'.classes hc'
  exact ⟨c'', hc'', hwithin.trans hwithin'⟩

theorem exists_old (h : r.SlotsWithin r') {row : Nat} {c' : Class}
    (hc' : r'.classAt? row = some c') : ∃ c, r.classAt? row = some c ∧ c.SlotsWithin c' := by
  obtain ⟨c, hc⟩ := exists_classAt? (h.size_eq ▸ classAt?_lt hc')
  obtain ⟨c'', hc'', hwithin⟩ := h.classes hc
  cases hc'.symm.trans hc''
  exact ⟨c, hc, hwithin⟩

/-- Only the rows matter. -/
theorem of_rows (h : r.SlotsWithin r') (hrows : r''.rows = r'.rows) : r.SlotsWithin r'' := by
  refine ⟨hrows ▸ h.size_eq, fun hc => ?_⟩
  obtain ⟨c', hc', hwithin⟩ := h.classes hc
  exact ⟨c', by rwa [classAt?, hrows], hwithin⟩

theorem modifyClass (h : r.SlotsWithin r') (row : Nat) {f : Class → Class}
    (hf : ∀ c : Class, c.SlotsWithin (f c)) : r.SlotsWithin (r'.modifyClass row f) := by
  refine h.trans ⟨size_modifyClass .., fun {row' c} hc => ?_⟩
  rw [classAt?_modifyClass, hc]
  split
  · exact ⟨f c, rfl, hf c⟩
  · exact ⟨c, rfl, .refl c⟩

theorem modifyMethod (h : r.SlotsWithin r') (row : Nat) (sig : Signature) (f : Method → Method) :
    r.SlotsWithin (r'.modifyMethod row sig f) :=
  h.modifyClass row fun _ => ⟨rfl, List.Subset.refl _⟩

theorem mapRows (h : r.SlotsWithin r') {f : Class → Class} (hf : ∀ c : Class, c.SlotsWithin (f c))
    (hrows : r''.rows = r'.rows.map f) : r.SlotsWithin r'' := by
  refine h.trans ⟨by rw [hrows, Array.size_map], fun {row c} hc => ⟨f c, ?_, hf c⟩⟩
  rw [classAt?, hrows, Array.getElem?_map]
  exact congrArg (Option.map f) hc

theorem laid (h : r.Laid r') : r.SlotsWithin r' :=
  ⟨h.size_eq, fun hc => (h.classes hc).imp fun _ hc' => ⟨hc'.1, .laid hc'.2⟩⟩

theorem sameButChildren (h : SameButChildren r r') : r.SlotsWithin r' :=
  ⟨h.size_eq, fun hc => (h.classes hc).elim fun _ hc' => ⟨_, hc', rfl, List.Subset.refl _⟩⟩

theorem relocate (h : r.SlotsWithin r') : r.SlotsWithin (final (Registry.relocate r')) :=
  final_relocate h fun hu => hu.modifyMethod _ _ _

/-- A reference that is made known again is known at the slot it has. -/
theorem indexRef (h : r.SlotsWithin r') (a : RefAddr) : r.SlotsWithin (Registry.indexRef a r') := by
  refine h.modifyClass a.row fun c => ⟨rfl, fun slot hslot => ?_⟩
  rw [Class.mem_usedSlots] at hslot ⊢
  rcases hslot with hold | ⟨pos, hpos⟩
  · exact .inl hold
  rcases List.mem_append.mp hpos with hnew | hold
  · obtain ⟨ref, href, heq⟩ := Option.map_eq_some_iff.mp (Option.mem_toList.mp hnew)
    cases heq
    exact .inl ⟨a.pos, ref, href, rfl⟩
  · exact .inr ⟨pos, hold⟩

/-- Pruning a class, wherever it stops. -/
theorem pruneClass (h : r.SlotsWithin r') (ids : Renumbering) (row : Nat) :
    r.SlotsWithin (final (Registry.pruneClass ids row r')) := by
  cases hc : r'.classAt? row with
  | none =>
      have hrun : Registry.pruneClass ids row r' = .error .fault r' :=
        bind_of_error (RegistryM.classAt_error.mpr ⟨hc, rfl, rfl⟩)
      rw [hrun]
      exact h
  | some c =>
      have hstripped : ∀ isKept,
          r.SlotsWithin (r'.modifyClass row fun _ => stripped ids isKept c) := by
        intro isKept
        rw [modifyClass_congr (f := fun _ => stripped ids isKept c) (g := stripped ids isKept) hc rfl]
        exact h.modifyClass row fun _ => ⟨rfl, List.Subset.refl _⟩
      rw [pruneClass_run hc]
      refine final_seq (final_forM (fun p _ u hu => ?_) (hstripped _)) fun hu =>
        hu.modifyClass row fun _ => ⟨rfl, List.Subset.refl _⟩
      exact final_seq (final_renumberRef (fun hf hv => hv.modifyClass row fun c =>
        Class.SlotsWithin.modifyPool c p.1 hf) hu) fun hv => hv.indexRef _

/-- Compaction, wherever it stops. -/
theorem compact (r : Registry) : r.SlotsWithin (final (Registry.compact r)) := by
  have hunindexed : r.SlotsWithin r.unindexed :=
    (refl r).mapRows (f := fun c => { c with slots := [] })
      (fun c => ⟨rfl, by simp [Class.usedSlots]⟩) rfl
  have htabled : ∀ {u : Registry}, r.SlotsWithin u → r.SlotsWithin (tabled r.keptRows u) := by
    intro u hu
    have hbuilt : ∀ (rows : List Nat) {v : Registry}, r.SlotsWithin v →
        r.SlotsWithin (rows.foldl (fun r row => r.modifyClass row buildTable) v) := by
      intro rows
      induction rows with
      | nil => exact id
      | cons row rows ih => exact fun hv => ih (hv.modifyClass row Class.SlotsWithin.buildTable)
    exact hbuilt r.keptRows (hu.mapRows (f := fun c => { c with table := [], forwarding := [] })
      (fun c => ⟨rfl, List.Subset.refl _⟩) rfl)
  obtain hfinal | ⟨u, hu, hok⟩ := final_compact (refl r) ((refl r).of_rows rfl) hunindexed
    (fun row _ _ hu => hu.pruneClass r.newIds row) id htabled fun hu => hu.modifyMethod _ _ _
  · exact hfinal
  · rw [hok]
    exact hu.of_rows rfl

end SlotsWithin

/-! ### Taking slots -/

namespace Operation

/-- The operation creates a reference at a slot of the class in a row; a literal has a value of its
kind. -/
def RefersAt (row : Nat) (slot : Int) : Operation → Prop
  | createClassRef p s _ => p = row ∧ s = slot
  | createMemberRef p s _ => p = row ∧ s = slot
  | createLiteral p s kind value =>
    p = row ∧ s = slot ∧ ∃ v, value = some v ∧ LiteralKind.ofCode? kind = some v.kind
  | _ => False

def Succeeds (op : Operation) (r : Registry) : Prop := ∃ r', op.run r = .ok () r'

/-- The operation takes a slot of the class in a row: it creates a reference there, it allocates the
slot, or it registers the class with a pool of which this is the last slot. -/
def Takes (r : Registry) (row : Nat) (slot : Int) : Operation → Prop
  | allocSlot p => p = row ∧ ∃ r', Registry.allocSlot p r = .ok slot r'
  | createClass spec => spec.poolSize = slot + 1 ∧ ∃ r', Registry.createClass spec r = .ok row r'
  | op => op.RefersAt row slot ∧ op.Succeeds r

variable {op : Operation} {r : Registry} {row p : Nat} {slot s : Int} {c : Class}

theorem succeeds_discard {α : Type} {x : RegistryM α} (h : op.run = discard x) :
    op.Succeeds r ↔ ∃ a r', x r = .ok a r' := by
  simp only [Succeeds, h, discard_ok]
  exact exists_comm

/-- Creating a reference is the same for all sorts of references. -/
theorem exists_body (h : op.RefersAt row slot) : ∃ body,
    (∀ r, op.apply r = final (createRef row slot body r)) ∧
      ∀ r, op.Succeeds r ↔ ∃ a r', createRef row slot body r = .ok a r' := by
  cases op with
  | createClassRef p s target =>
      obtain ⟨rfl, rfl⟩ := h
      exact ⟨_, fun r => final_discard _ r, fun _ => succeeds_discard rfl⟩
  | createMemberRef p s target =>
      obtain ⟨rfl, rfl⟩ := h
      exact ⟨_, fun r => final_discard _ r, fun _ => succeeds_discard rfl⟩
  | createLiteral p s kind value =>
      obtain ⟨rfl, rfl, v, rfl, hkind⟩ := h
      refine ⟨.literal v, fun r => ?_, fun r => (succeeds_discard rfl).trans ?_⟩
      · rw [apply, run, final_discard]
        rcases final_createLiteral p s kind (some v) r with ⟨w, hw, -, hfinal⟩ | ⟨hnot, -⟩
        · cases hw
          exact hfinal
        · exact absurd hkind (hnot v rfl)
      · simp only [createLiteral_ok, Option.some.injEq, exists_eq_left', hkind, true_and]
  | _ => exact h.elim

theorem refersAt_unique (h : op.RefersAt row slot) (h' : op.RefersAt p s) : p = row ∧ s = slot := by
  cases op with
  | createClassRef q t target => exact ⟨h'.1.symm.trans h.1, h'.2.symm.trans h.2⟩
  | createMemberRef q t target => exact ⟨h'.1.symm.trans h.1, h'.2.symm.trans h.2⟩
  | createLiteral q t kind value => exact ⟨h'.1.symm.trans h.1, h'.2.1.symm.trans h.2.1⟩
  | _ => exact h.elim

theorem takes_iff_of_refersAt (h : op.RefersAt row slot) :
    op.Takes r p s ↔ op.RefersAt p s ∧ op.Succeeds r := by
  cases op with
  | createClassRef q t target => rfl
  | createMemberRef q t target => rfl
  | createLiteral q t kind value => rfl
  | _ => exact h.elim

end Operation

theorem Guarded.size_eq {α : Type} {x : RegistryM α} {row : Nat} {f : Class → Class}
    {G : Registry → Class → Prop} (h : Guarded x row f G) (r : Registry) :
    (final (x r)).rows.size = r.rows.size := by
  rcases h.final_eq r with ⟨-, heq⟩ | ⟨-, heq⟩
  · rw [heq, size_modifyClass]
  · rw [heq]

theorem Guarded.live_eq {α : Type} {x : RegistryM α} {row : Nat} {f : Class → Class}
    {G : Registry → Class → Prop} (h : Guarded x row f G) (r : Registry) :
    (final (x r)).live = r.live := by
  rcases h.final_eq r with ⟨-, heq⟩ | ⟨-, heq⟩
  · rw [heq, live_modifyClass]
  · rw [heq]

namespace Operation

variable {op : Operation} {r : Registry} {row p : Nat} {slot s : Int} {c : Class}

/-- An operation that takes no slot and leaves those that there are. -/
structure Quiet (op : Operation) : Prop where
  within : ∀ r : Registry, r.SlotsWithin (op.apply r)
  live_eq : op ≠ .compact → ∀ r, (op.apply r).live = r.live
  takes : ∀ {r row slot}, ¬ op.Takes r row slot

namespace Quiet

theorem of_modifyClass (h : ∀ r, op.apply r = r ∨
      ∃ row f, op.apply r = r.modifyClass row f ∧ ∀ c : Class, c.SlotsWithin (f c))
    (htakes : ∀ {r row slot}, ¬ op.Takes r row slot) : op.Quiet := by
  refine ⟨fun r => ?_, fun _ r => ?_, htakes⟩
  · rcases h r with heq | ⟨row, f, heq, hf⟩
    · rw [heq]
      exact .refl r
    · rw [heq]
      exact (SlotsWithin.refl r).modifyClass row hf
  · rcases h r with heq | ⟨row, f, heq, -⟩
    · rw [heq]
    · rw [heq]
      rfl

theorem of_guarded {α : Type} {x : RegistryM α} {f : Class → Class} {G : Registry → Class → Prop}
    (hx : Guarded x row f G) (happly : ∀ r, op.apply r = final (x r))
    (hf : ∀ c : Class, c.SlotsWithin (f c)) (htakes : ∀ {r row slot}, ¬ op.Takes r row slot) :
    op.Quiet := by
  refine of_modifyClass (fun r => ?_) htakes
  rw [happly]
  rcases hx.final_eq r with ⟨-, heq⟩ | ⟨-, heq⟩
  · exact .inr ⟨row, f, heq, hf⟩
  · exact .inl heq

theorem of_modifyMethod {sig : Signature} {f : Method → Method}
    (h : ∀ r, op.apply r = r.modifyMethod row sig f)
    (htakes : ∀ {r row slot}, ¬ op.Takes r row slot) : op.Quiet :=
  of_modifyClass (fun r => .inr ⟨row, _, h r, fun _ => ⟨rfl, List.Subset.refl _⟩⟩) htakes

end Quiet

/-- An operation creates a reference, allocates a slot, registers a class or takes no slot. -/
theorem slot_cases (op : Operation) : (∃ row slot, op.RefersAt row slot) ∨
    (∃ row, op = .allocSlot row) ∨ (∃ spec, op = .createClass spec) ∨ op.Quiet := by
  cases op with
  | createClass spec => exact .inr (.inr (.inl ⟨spec, rfl⟩))
  | createClassRef row slot target => exact .inl ⟨row, slot, rfl, rfl⟩
  | createMemberRef row slot target => exact .inl ⟨row, slot, rfl, rfl⟩
  | createLiteral row slot kind value =>
      by_cases hv : ∃ v, value = some v ∧ LiteralKind.ofCode? kind = some v.kind
      · exact .inl ⟨row, slot, rfl, rfl, hv⟩
      · refine .inr (.inr (.inr (.of_modifyClass (fun r => .inl ?_) fun h => hv h.1.2.2)))
        rw [apply, run, final_discard]
        rcases final_createLiteral row slot kind value r with ⟨v, hvalue, hkind, -⟩ | ⟨-, heq⟩
        · exact absurd ⟨v, hvalue, hkind⟩ hv
        · exact heq
  | allocSlot row => exact .inr (.inl ⟨row, rfl⟩)
  | createMethod row spec =>
      exact .inr (.inr (.inr (.of_guarded (createMethod_guarded row spec) (fun _ => rfl)
        (fun c => ⟨rfl, List.Subset.refl _⟩) fun h => h.1)))
  | createField row spec =>
      exact .inr (.inr (.inr (.of_guarded (createField_guarded row spec) (fun _ => rfl)
        (fun c => ⟨rfl, List.Subset.refl _⟩) fun h => h.1)))
  | keepClass row =>
      exact .inr (.inr (.inr (.of_guarded (keepClass_guarded row) (final_discard _)
        (fun c => ⟨rfl, List.Subset.refl _⟩) fun h => h.1)))
  | keepMember row sig =>
      refine .inr (.inr (.inr (.of_guarded (keepMember_guarded row sig) (final_discard _)
        (fun c => ?_) fun h => h.1)))
      unfold markMember
      split <;> exact ⟨rfl, List.Subset.refl _⟩
  | keepRef a =>
      exact .inr (.inr (.inr (.of_guarded (keepRef_guarded a) (final_discard _)
        (fun c => .modifyPool c a.pos fun _ => rfl) fun h => h.1)))
  | addClassDep row sig a => exact .inr (.inr (.inr (.of_modifyMethod (fun _ => rfl) fun h => h.1)))
  | addMemberDep row sig a => exact .inr (.inr (.inr (.of_modifyMethod (fun _ => rfl) fun h => h.1)))
  | addLiteralDep row sig a => exact .inr (.inr (.inr (.of_modifyMethod (fun _ => rfl) fun h => h.1)))
  | addArrayDep row sig code => exact .inr (.inr (.inr (.of_modifyMethod (fun _ => rfl) fun h => h.1)))
  | addBuiltin row sig id => exact .inr (.inr (.inr (.of_modifyMethod (fun _ => rfl) fun h => h.1)))
  | link =>
      exact .inr (.inr (.inr ⟨fun r => .laid (link_laid r), fun _ r => (link_laid r).live_eq,
        fun h => h.1⟩))
  | compact => exact .inr (.inr (.inr ⟨.compact, fun h => absurd rfl h, fun h => h.1⟩))
  | relocate =>
      refine .inr (.inr (.inr ⟨fun r => (SlotsWithin.refl r).relocate, fun _ r => ?_, fun h => h.1⟩))
      exact final_relocate (P := fun u => u.live = r.live) rfl fun hu => hu

/-- What an operation does to the class in a row: it uses no new slot but that of a reference it
creates, and the highest slot is the highest of those taken. -/
structure Moves (r : Registry) (row : Nat) (c c' : Class) (op : Operation) : Prop where
  used : ∀ {slot}, slot ∈ c'.usedSlots →
    slot ∈ c.usedSlots ∨ op.RefersAt row slot ∧ op.Succeeds r
  maxSlot_le : c.maxSlot ≤ c'.maxSlot
  maxSlot_cases : c'.maxSlot = c.maxSlot ∨ op.Takes r row c'.maxSlot
  takes_le : ∀ {slot}, op.Takes r row slot → slot ≤ c'.maxSlot

theorem Moves.of_within {c' : Class} (h : c.SlotsWithin c')
    (htakes : ∀ {slot}, ¬ op.Takes r row slot) : op.Moves r row c c' :=
  ⟨fun hslot => .inl (h.used hslot), Int.le_of_eq h.maxSlot_eq.symm, .inl h.maxSlot_eq,
    fun h => absurd h htakes⟩

theorem mem_usedSlots_addRef {body : RefBody} (h : s ∈ (c.addRef slot body).usedSlots) :
    s ∈ c.usedSlots ∨ s = slot := by
  simp only [Class.usedSlots, Class.addRef, Array.toList_push, List.map_append, List.map_cons,
    List.map_nil, List.mem_append, List.mem_cons, List.not_mem_nil, or_false] at h ⊢
  tauto

/-- A reference is created above the highest slot or below it. -/
theorem exists_moved_ref (h : op.RefersAt p s) (hc : r.classAt? row = some c) :
    ∃ c', (op.apply r).classAt? row = some c' ∧ op.Moves r row c c' := by
  obtain ⟨body, happly, hsucceeds⟩ := exists_body h
  have htakes : ∀ {slot}, op.Takes r row slot → row = p ∧ slot = s := fun ht =>
    refersAt_unique h ((takes_iff_of_refersAt h).mp ht).1
  rw [happly]
  cases hrun : createRef p s body r with
  | error e r' =>
      cases createRef_error hrun
      refine ⟨c, hc, .of_within (.refl c) fun ht => ?_⟩
      obtain ⟨a, r', hok⟩ := (hsucceeds r).mp ((takes_iff_of_refersAt h).mp ht).2
      cases hrun.symm.trans hok
  | ok a r' =>
      have hok : op.Succeeds r := (hsucceeds r).mpr ⟨a, r', hrun⟩
      obtain ⟨-, c₀, hc₀, -, -, -, rfl, -⟩ := createRef_ok.mp hrun
      rw [final_ok, classAt?_modifyClass, hc]
      split
      case isTrue heq =>
        subst heq
        refine ⟨_, rfl, fun hslot => ?_, Int.le_max_left _ _, ?_, fun ht => ?_⟩
        · rcases mem_usedSlots_addRef hslot with hold | rfl
          · exact .inl hold
          · exact .inr ⟨h, hok⟩
        · rcases Int.le_total s c.maxSlot with hle | hle
          · exact .inl (Int.max_eq_left hle)
          · refine .inr ((takes_iff_of_refersAt h).mpr ⟨?_, hok⟩)
            show op.RefersAt p (max c.maxSlot s)
            rwa [Int.max_eq_right hle]
        · rw [(htakes ht).2]
          exact Int.le_max_right _ _
      case isFalse hne =>
        exact ⟨c, rfl, .of_within (.refl c) fun ht => hne (htakes ht).1.symm⟩

theorem exists_moved_allocSlot (hc : r.classAt? row = some c) :
    ∃ c', ((allocSlot p).apply r).classAt? row = some c' ∧ (allocSlot p).Moves r row c c' := by
  rw [apply, run, final_discard]
  cases hrun : Registry.allocSlot p r with
  | error e r' =>
      cases allocSlot_error hrun
      refine ⟨c, hc, .of_within (.refl c) fun htakes => ?_⟩
      obtain ⟨-, r', hok⟩ := htakes
      cases hrun.symm.trans hok
  | ok s r' =>
      obtain ⟨-, c₀, hc₀, -, rfl, rfl⟩ := allocSlot_ok.mp hrun
      rw [final_ok, classAt?_modifyClass, hc]
      split
      case isTrue heq =>
        subst heq
        cases hc.symm.trans hc₀
        refine ⟨_, rfl, fun hslot => .inl hslot, ?_, .inr ⟨rfl, _, hrun⟩, ?_⟩
        · show c.maxSlot ≤ c.maxSlot + 1
          omega
        · rintro slot ⟨-, r', hok⟩
          cases hrun.symm.trans hok
          exact Int.le_refl _
      case isFalse hne =>
        exact ⟨c, rfl, .of_within (.refl c) fun ht => hne ht.1⟩

/-- A class is stored in a row of its own, which may be all that is done. -/
theorem apply_createClass (spec : ClassSpec) (r : Registry) :
    ((createClass spec).apply r = r ∨
      (r.store (spec.toClass r.live.length)).SlotsWithin ((createClass spec).apply r)) ∧
    r.live ⊆ ((createClass spec).apply r).live := by
  rw [apply, run, final_discard]
  cases hrun : Registry.createClass spec r with
  | error e r' =>
      rcases createClass_error hrun with rfl | hsame
      · exact ⟨.inl rfl, List.Subset.refl _⟩
      · refine ⟨.inr (.sameButChildren hsame), ?_⟩
        rw [final_error, hsame.live_eq]
        exact List.Subset.refl _
  | ok row r' =>
      obtain ⟨-, -, -, -, -, rfl, hsame, -⟩ := createClass_ok hrun
      have hlisted : (r.store (spec.toClass r.live.length)).SlotsWithin
          ((r.store (spec.toClass r.live.length)).enlist r.rows.size spec.name) :=
        (SlotsWithin.refl _).of_rows rfl
      refine ⟨.inr (hlisted.trans (.sameButChildren hsame)), ?_⟩
      rw [final_ok, hsame.live_eq]
      exact List.subset_append_left _ _

theorem exists_moved_createClass {spec : ClassSpec} (hc : r.classAt? row = some c) :
    ∃ c', ((createClass spec).apply r).classAt? row = some c' ∧
      (createClass spec).Moves r row c c' := by
  have hlt : row < r.rows.size := classAt?_lt hc
  have htakes : ∀ {slot}, ¬ (createClass spec).Takes r row slot := by
    rintro slot ⟨-, r', hok⟩
    obtain ⟨-, -, -, -, -, rfl, -⟩ := createClass_ok hok
    exact Nat.lt_irrefl _ hlt
  rcases (apply_createClass spec r).1 with heq | hwithin
  · rw [heq]
    exact ⟨c, hc, .of_within (.refl c) htakes⟩
  · have hstored : (r.store (spec.toClass r.live.length)).classAt? row = some c := by
      rw [classAt?_store, if_neg (Nat.ne_of_lt hlt), hc]
    obtain ⟨c', hc', hclass⟩ := hwithin.classes hstored
    exact ⟨c', hc', .of_within hclass htakes⟩

/-- What every operation does to every class, whether or not it succeeds. -/
theorem exists_moved (op : Operation) (hc : r.classAt? row = some c) :
    ∃ c', (op.apply r).classAt? row = some c' ∧ op.Moves r row c c' := by
  rcases op.slot_cases with ⟨p, s, h⟩ | ⟨p, rfl⟩ | ⟨spec, rfl⟩ | hquiet
  · exact exists_moved_ref h hc
  · exact exists_moved_allocSlot hc
  · exact exists_moved_createClass hc
  · obtain ⟨c', hc', hwithin⟩ := (hquiet.within r).classes hc
    exact ⟨c', hc', .of_within hwithin hquiet.takes⟩

/-- A class that was not there before uses no slots. -/
theorem exists_old_class (op : Operation) {c' : Class} (hc' : (op.apply r).classAt? row = some c') :
    (∃ c, r.classAt? row = some c) ∨ c'.usedSlots = [] := by
  have hold : (op.apply r).rows.size = r.rows.size → ∃ c, r.classAt? row = some c := fun hsize =>
    exists_classAt? (hsize ▸ classAt?_lt hc')
  rcases op.slot_cases with ⟨p, s, h⟩ | ⟨p, rfl⟩ | ⟨spec, rfl⟩ | hquiet
  · obtain ⟨body, happly, -⟩ := exists_body h
    exact .inl (hold (by rw [happly]; exact (createRef_guarded p s body).size_eq r))
  · exact .inl (hold (by rw [apply, run, final_discard]; exact (allocSlot_guarded p).size_eq r))
  · rcases (apply_createClass spec r).1 with heq | hwithin
    · exact .inl (hold (by rw [heq]))
    · obtain ⟨c, hc, hclass⟩ := hwithin.exists_old hc'
      rw [classAt?_store] at hc
      split at hc
      · cases hc
        exact .inr (List.eq_nil_of_subset_nil hclass.used)
      · exact .inl ⟨c, hc⟩
  · exact .inl (hold (hquiet.within r).size_eq)

/-- Only compaction removes a class from the registered ones. -/
theorem live_subset (hop : op ≠ .compact) : r.live ⊆ (op.apply r).live := by
  rcases op.slot_cases with ⟨p, s, h⟩ | ⟨p, rfl⟩ | ⟨spec, rfl⟩ | hquiet
  · obtain ⟨body, happly, -⟩ := exists_body h
    rw [happly, (createRef_guarded p s body).live_eq r]
    exact List.Subset.refl _
  · rw [apply, run, final_discard, (allocSlot_guarded p).live_eq r]
    exact List.Subset.refl _
  · exact (apply_createClass spec r).2
  · rw [hquiet.live_eq hop r]
    exact List.Subset.refl _

end Operation

theorem exists_class_of_createClass {spec : ClassSpec} {r r' : Registry} {row : Nat}
    (h : createClass spec r = .ok row r') : ∃ c, r'.classAt? row = some c ∧
      c.maxSlot = if spec.poolSize > 1 then spec.poolSize - 1 else 0 := by
  obtain ⟨-, -, -, -, -, rfl, hsame, -⟩ := createClass_ok h
  have hstored : ((r.store (spec.toClass r.live.length)).enlist r.rows.size spec.name).classAt?
      r.rows.size = some (spec.toClass r.live.length) := (classAt?_store ..).trans (if_pos rfl)
  obtain ⟨children, hc⟩ := hsame.classes hstored
  exact ⟨_, hc, rfl⟩

end Registry

end ClassLinker
