import Mathlib.Data.List.Forall2
import ClassLinker.Proofs.Step

/-! The representation invariant of the registry. The live rows are listed in ascending order and a
class id is a position in that list; a name stands for a live row; no two members of a class share a
signature; and the slots of a class are an index of its listed references. All of it holds also of
registries in which registering a class failed half way: the row of such a class stays behind, but
it is not live. -/

namespace ClassLinker

/-- Where an array has nothing, an array of the same size has nothing. -/
theorem getElem?_eq_none_of_size_eq {α β : Type} {xs : Array α} {ys : Array β}
    (hsize : ys.size = xs.size) {i : Nat} (h : xs[i]? = none) : ys[i]? = none :=
  Array.getElem?_eq_none_iff.mpr (hsize ▸ Array.getElem?_eq_none_iff.mp h)

/-- What a reference is known by: the id of its class and its slot. -/
def Reference.key (ref : Reference) : Nat × Int := (ref.owner, ref.slot)

namespace Class

/-- The slots of a class index its listed references, which know their owner. -/
structure Indexed (c : Class) : Prop where
  listed_nodup : c.listed.Nodup
  listed_lt : ∀ {pos}, pos ∈ c.listed → pos < c.pool.size
  owner_eq : ∀ {pos ref}, pos ∈ c.listed → c.pool[pos]? = some ref → ref.owner = c.id
  lookup_iff : ∀ {slot pos}, c.slots.lookup slot = some pos ↔
    pos ∈ c.listed ∧ ∃ ref, c.pool[pos]? = some ref ∧ ref.slot = slot
  slot_range : ∀ {pos ref}, pos ∈ c.listed → c.pool[pos]? = some ref →
    0 < ref.slot ∧ ref.slot ≤ Registry.lastSlot ∧ ref.slot ≤ c.maxSlot
  maxSlot_nonneg : 0 ≤ c.maxSlot

/-- The signatures of everything that a class declares. -/
def signatures (c : Class) : List Signature := c.methods.map Method.sig ++ c.fields.map Field.sig

theorem mem_references {c : Class} {pos : Nat} {ref : Reference} :
    (pos, ref) ∈ c.references ↔ pos ∈ c.listed ∧ c.pool[pos]? = some ref := by
  simp only [references, List.mem_filterMap, Option.map_eq_some_iff, Prod.mk.injEq]
  constructor
  · rintro ⟨p, hp, ref', href, rfl, rfl⟩
    exact ⟨hp, href⟩
  · rintro ⟨hp, href⟩
    exact ⟨pos, hp, ref, href, rfl, rfl⟩

theorem declared?_eq_none {c : Class} {sig : Signature} :
    c.declared? sig = none ↔ sig ∉ c.signatures := by
  unfold declared? signatures
  cases hm : c.methods.find? (fun m => m.sig = sig) with
  | some m =>
      have hmem := List.mem_of_find?_eq_some hm
      have hsig : m.sig = sig := by simpa using List.find?_some hm
      simp only [reduceCtorEq, List.mem_append, List.mem_map, false_iff, not_not]
      exact Or.inl ⟨m, hmem, hsig⟩
  | none =>
      rw [List.find?_eq_none] at hm
      simp only [Option.map_eq_none_iff, List.find?_eq_none, List.mem_append, List.mem_map]
      constructor
      · rintro hf (⟨m, hmem, hsig⟩ | ⟨f, hmem, hsig⟩)
        · exact hm m hmem (by simpa using hsig)
        · exact hf f hmem (by simpa using hsig)
      · intro h f hmem hsig
        exact h (Or.inr ⟨f, hmem, by simpa using hsig⟩)

theorem nodup_append_method {c : Class} {m : Method} (hnodup : c.signatures.Nodup)
    (hnew : c.declared? m.sig = none) :
    ({ c with methods := c.methods ++ [m] } : Class).signatures.Nodup := by
  have hfresh := declared?_eq_none.mp hnew
  simp only [signatures, List.map_append, List.map_cons, List.map_nil] at hfresh hnodup ⊢
  grind [List.nodup_append]

theorem nodup_append_field {c : Class} {f : Field} (hnodup : c.signatures.Nodup)
    (hnew : c.declared? f.sig = none) :
    ({ c with fields := c.fields ++ [f] } : Class).signatures.Nodup := by
  have hfresh := declared?_eq_none.mp hnew
  simp only [signatures, List.map_append, List.map_cons, List.map_nil] at hfresh hnodup ⊢
  grind [List.nodup_append]

theorem mem_of_declared? {c : Class} {sig : Signature} {d : Declaration}
    (h : c.declared? sig = some d) :
    (∃ m ∈ c.methods, d = .method m ∧ m.sig = sig) ∨
      ∃ f ∈ c.fields, d = .field f ∧ f.sig = sig := by
  unfold declared? at h
  split at h
  · rename_i m hm
    cases h
    exact Or.inl ⟨m, List.mem_of_find?_eq_some hm, rfl, by simpa using List.find?_some hm⟩
  · obtain ⟨f, hf, rfl⟩ := Option.map_eq_some_iff.mp h
    exact Or.inr ⟨f, List.mem_of_find?_eq_some hf, rfl, by simpa using List.find?_some hf⟩

theorem sig_of_declared? {c : Class} {sig : Signature} {d : Declaration}
    (h : c.declared? sig = some d) : d.sig = sig := by
  obtain ⟨m, -, rfl, hsig⟩ | ⟨f, -, rfl, hsig⟩ := mem_of_declared? h
  · exact hsig
  · exact hsig

theorem find?_of_declared? {c : Class} {sig : Signature} {m : Method}
    (h : c.declared? sig = some (.method m)) : (c.methods.find? fun m => m.sig = sig) = some m := by
  unfold declared? at h
  split at h
  · cases h
    assumption
  · simp at h

theorem mem_methods_of_declared? {c : Class} {sig : Signature} {m : Method}
    (h : c.declared? sig = some (.method m)) : m ∈ c.methods :=
  List.mem_of_find?_eq_some (find?_of_declared? h)

/-- A class whose references kept their owner and their slot is indexed as before. -/
theorem Indexed.of_frame {c c' : Class} (h : c.Indexed) (hid : c'.id = c.id)
    (hpool : ∀ pos : Nat, (c'.pool[pos]?).map Reference.key = (c.pool[pos]?).map Reference.key)
    (hlisted : c'.listed = c.listed) (hslots : c'.slots = c.slots) (hmax : c.maxSlot ≤ c'.maxSlot) :
    c'.Indexed := by
  have hback : ∀ {pos : Nat} {ref' : Reference}, c'.pool[pos]? = some ref' →
      ∃ ref, c.pool[pos]? = some ref ∧ ref.owner = ref'.owner ∧ ref.slot = ref'.slot := by
    intro pos ref' href'
    have := hpool pos
    rw [href', Option.map_some] at this
    obtain ⟨ref, href, hkey⟩ := Option.map_eq_some_iff.mp this.symm
    simp only [Reference.key, Prod.mk.injEq] at hkey
    exact ⟨ref, href, hkey⟩
  have hforth : ∀ {pos : Nat} {ref : Reference}, c.pool[pos]? = some ref →
      ∃ ref', c'.pool[pos]? = some ref' ∧ ref'.slot = ref.slot := by
    intro pos ref href
    have := hpool pos
    rw [href, Option.map_some] at this
    obtain ⟨ref', href', hkey⟩ := Option.map_eq_some_iff.mp this
    simp only [Reference.key, Prod.mk.injEq] at hkey
    exact ⟨ref', href', hkey.2⟩
  constructor
  · rw [hlisted]
    exact h.listed_nodup
  · intro pos hpos
    rw [hlisted] at hpos
    obtain ⟨ref', href', _⟩ := hforth (Array.getElem?_eq_getElem (h.listed_lt hpos))
    obtain ⟨hlt, _⟩ := Array.getElem?_eq_some_iff.mp href'
    exact hlt
  · intro pos ref' hpos href'
    rw [hlisted] at hpos
    obtain ⟨ref, href, howner, _⟩ := hback href'
    rw [hid, ← howner]
    exact h.owner_eq hpos href
  · intro slot pos
    rw [hslots, hlisted, h.lookup_iff]
    constructor
    · rintro ⟨hpos, ref, href, rfl⟩
      obtain ⟨ref', href', hslot⟩ := hforth href
      exact ⟨hpos, ref', href', hslot⟩
    · rintro ⟨hpos, ref', href', rfl⟩
      obtain ⟨ref, href, _, hslot⟩ := hback href'
      exact ⟨hpos, ref, href, hslot⟩
  · intro pos ref' hpos href'
    rw [hlisted] at hpos
    obtain ⟨ref, href, _, hslot⟩ := hback href'
    rw [← hslot]
    obtain ⟨h₁, h₂, h₃⟩ := h.slot_range hpos href
    exact ⟨h₁, h₂, Int.le_trans h₃ hmax⟩
  · exact Int.le_trans h.maxSlot_nonneg hmax

/-- The slots above the largest one are free. -/
theorem Indexed.lookup_eq_none {c : Class} (h : c.Indexed) {slot : Int} (hgt : c.maxSlot < slot) :
    c.slots.lookup slot = none := by
  refine Option.eq_none_iff_forall_ne_some.mpr fun pos hpos => ?_
  obtain ⟨hlisted, ref, hpool, rfl⟩ := h.lookup_iff.mp hpos
  exact absurd (h.slot_range hlisted hpool).2.2 (Int.not_le.mpr hgt)

/-- `c'` has the id, the name, the signatures and the index of `c`. -/
structure SameIndex (c c' : Class) : Prop where
  id_eq : c'.id = c.id
  name_eq : c'.name = c.name
  signatures_eq : c'.signatures = c.signatures
  pool : ∀ pos : Nat, (c'.pool[pos]?).map Reference.key = (c.pool[pos]?).map Reference.key
  listed_eq : c'.listed = c.listed
  slots_eq : c'.slots = c.slots
  maxSlot_le : c.maxSlot ≤ c'.maxSlot

/-- The class with a reference added at a slot. -/
def addRef (slot : Int) (body : RefBody) (c : Class) : Class :=
  { c with
    pool := c.pool.push { owner := c.id, slot, kept := false, body }
    listed := c.listed ++ [c.pool.size]
    slots := (slot, c.pool.size) :: c.slots
    maxSlot := max c.maxSlot slot }

/-- Adding a reference at a slot that is free keeps the slots an index. -/
theorem Indexed.addRef {c : Class} (h : c.Indexed) {slot : Int} {body : RefBody}
    (hpos : 0 < slot) (hle : slot ≤ Registry.lastSlot) (hfree : c.slots.lookup slot = none) :
    (c.addRef slot body).Indexed := by
  have hfresh : c.pool.size ∉ c.listed := fun hm => absurd (h.listed_lt hm) (Nat.lt_irrefl _)
  have hne : ∀ {pos ref}, pos ∈ c.listed → c.pool[pos]? = some ref → ref.slot ≠ slot := by
    intro pos ref hm href heq
    have := h.lookup_iff.mpr ⟨hm, ref, href, heq⟩
    rw [hfree] at this
    cases this
  unfold Class.addRef
  constructor
  · exact List.nodup_append.mpr ⟨h.listed_nodup, by simp, by grind⟩
  · intro pos hm
    have := @h.listed_lt pos
    grind
  · intro pos ref hm href
    have hlt := @h.listed_lt pos
    have := @h.owner_eq pos ref
    grind
  · intro s pos
    have hlt := @h.listed_lt pos
    by_cases hs : s = slot
    · subst hs
      rw [List.lookup_cons_self]
      constructor
      · intro heq
        cases heq
        exact ⟨by simp, _, Array.getElem?_push_size, rfl⟩
      · rintro ⟨hm, ref, href, hslot⟩
        have := @hne pos ref
        grind
    · rw [List.lookup_cons, beq_false_of_ne hs]
      have := @h.lookup_iff s pos
      grind
  · intro pos ref hm href
    have hlt := @h.listed_lt pos
    have := @h.slot_range pos ref
    grind
  · exact Int.le_trans h.maxSlot_nonneg (Int.le_max_left ..)

end Class

namespace Registry

@[simp]
theorem classAt?_modifyClass (r : Registry) (row row' : Nat) (f : Class → Class) :
    (r.modifyClass row f).classAt? row' =
      if row = row' then (r.classAt? row').map f else r.classAt? row' := by
  simp [modifyClass, classAt?, Array.getElem?_modify]

/-- A class of the changed registry is the changed class of its row, or another one as it was. -/
theorem classAt?_of_modifyClass {r : Registry} {row p : Nat} {f : Class → Class} {c' : Class}
    (h : (r.modifyClass row f).classAt? p = some c') :
    ∃ c, r.classAt? p = some c ∧ (p = row ∧ c' = f c ∨ p ≠ row ∧ c' = c) := by
  rw [classAt?_modifyClass] at h
  split at h
  · rename_i heq
    obtain ⟨c, hc, rfl⟩ := Option.map_eq_some_iff.mp h
    exact ⟨c, hc, .inl ⟨heq.symm, rfl⟩⟩
  · rename_i hne
    exact ⟨c', h, .inr ⟨Ne.symm hne, rfl⟩⟩

/-- What is read off a class is not changed when the class is not changed there. -/
theorem map_classAt?_modifyClass {β : Type} {read : Class → β} {r : Registry} {row : Nat}
    {f : Class → Class} (hf : ∀ {c}, r.classAt? row = some c → read (f c) = read c) (row' : Nat) :
    ((r.modifyClass row f).classAt? row').map read = (r.classAt? row').map read := by
  rw [classAt?_modifyClass]
  split
  case isFalse => rfl
  case isTrue hrow =>
      subst hrow
      cases hc : r.classAt? row with
      | none => rfl
      | some c => exact congrArg some (hf hc)

@[simp]
theorem size_modifyClass (r : Registry) (row : Nat) (f : Class → Class) :
    (r.modifyClass row f).rows.size = r.rows.size := by simp [modifyClass]

@[simp]
theorem find?_modifyClass (r : Registry) (row : Nat) (f : Class → Class) (name : Text) :
    (r.modifyClass row f).find? name = r.find? name := rfl

@[simp]
theorem live_modifyClass (r : Registry) (row : Nat) (f : Class → Class) :
    (r.modifyClass row f).live = r.live := rfl

@[simp]
theorem closed_modifyClass (r : Registry) (row : Nat) (f : Class → Class) :
    (r.modifyClass row f).closed = r.closed := rfl

theorem classAt?_lt {r : Registry} {row : Nat} {c : Class} (h : r.classAt? row = some c) :
    row < r.rows.size := by
  obtain ⟨hlt, _⟩ := Array.getElem?_eq_some_iff.mp h
  exact hlt

theorem exists_classAt? {r : Registry} {row : Nat} (h : row < r.rows.size) :
    ∃ c, r.classAt? row = some c := ⟨r.rows[row], Array.getElem?_eq_some_iff.mpr ⟨h, rfl⟩⟩

theorem classAt?_eq_none_of_size_eq {r r' : Registry} (hsize : r'.rows.size = r.rows.size) {row : Nat}
    (h : r.classAt? row = none) : r'.classAt? row = none :=
  getElem?_eq_none_of_size_eq hsize h

theorem refAt?_eq_some {r : Registry} {a : RefAddr} {ref : Reference} :
    r.refAt? a = some ref ↔ ∃ c, r.classAt? a.row = some c ∧ c.pool[a.pos]? = some ref := by
  unfold refAt?
  cases r.classAt? a.row <;> simp

theorem mem_rows_zipIdx {r : Registry} {c : Class} {row : Nat} :
    (c, row) ∈ r.rows.toList.zipIdx ↔ r.classAt? row = some c := by
  rw [List.mem_zipIdx_iff_getElem?, Array.getElem?_toList]
  rfl

theorem refAddr?_eq_none {r : Registry} {owner slot : Int} :
    r.refAddr? owner slot = none ↔
      ∀ row c, r.classAt? row = some c → (c.id : Int) = owner → c.slots.lookup slot = none := by
  simp only [refAddr?, List.findSome?_eq_none_iff, Prod.forall]
  constructor
  · intro h row c hc hid
    simpa [hid] using h c row (mem_rows_zipIdx.mpr hc)
  · intro h c row hmem
    split
    · rename_i hid
      simp [h row c (mem_rows_zipIdx.mp hmem) hid]
    · rfl

theorem exists_of_refAddr? {r : Registry} {owner slot : Int} {a : RefAddr}
    (h : r.refAddr? owner slot = some a) :
    ∃ c, r.classAt? a.row = some c ∧ (c.id : Int) = owner ∧ c.slots.lookup slot = some a.pos := by
  obtain ⟨⟨c, row⟩, hmem, hsome⟩ := List.exists_of_findSome?_eq_some h
  dsimp only at hsome
  split at hsome
  · rename_i hid
    obtain ⟨pos, hpos, rfl⟩ := Option.map_eq_some_iff.mp hsome
    exact ⟨c, mem_rows_zipIdx.mp hmem, hid, hpos⟩
  · cases hsome

/-- The representation invariant of the registry. -/
structure WellFormed (r : Registry) : Prop where
  live_lt : ∀ {row}, row ∈ r.live → row < r.rows.size
  live_sorted : r.live.Pairwise (· < ·)
  id_eq : ∀ {i row c}, r.live[i]? = some row → r.classAt? row = some c → c.id = i
  find_live : ∀ {name row}, r.find? name = some row → row ∈ r.live
  find_name : ∀ {name row c}, r.find? name = some row → r.classAt? row = some c → c.name = name
  signatures_nodup : ∀ {row c}, r.classAt? row = some c → c.signatures.Nodup
  indexed : ∀ {row c}, row ∈ r.live → r.classAt? row = some c → c.Indexed
  /-- No two rows with one id know the same slot. -/
  slot_row : ∀ {p q cp cq slot i j}, r.classAt? p = some cp → r.classAt? q = some cq →
    cp.id = cq.id → cp.slots.lookup slot = some i → cq.slots.lookup slot = some j → p = q

namespace WellFormed

variable {r : Registry}

theorem empty : WellFormed {} := by
  constructor <;> simp [find?, classAt?]

theorem live_nodup (h : r.WellFormed) : r.live.Nodup :=
  h.live_sorted.imp fun hlt => Nat.ne_of_lt hlt

theorem exists_class (h : r.WellFormed) {row : Nat} (hrow : row ∈ r.live) :
    ∃ c, r.classAt? row = some c := exists_classAt? (h.live_lt hrow)

/-- A live class has the id at whose place its row is listed. -/
theorem getElem?_id (h : r.WellFormed) {row : Nat} {c : Class} (hrow : row ∈ r.live)
    (hc : r.classAt? row = some c) : r.live[c.id]? = some row := by
  obtain ⟨i, hi⟩ := List.mem_iff_getElem?.mp hrow
  rw [h.id_eq hi hc]
  exact hi

theorem row_eq_of_id (h : r.WellFormed) {p q : Nat} {cp cq : Class} (hp : p ∈ r.live)
    (hq : q ∈ r.live) (hcp : r.classAt? p = some cp) (hcq : r.classAt? q = some cq)
    (hid : cp.id = cq.id) : p = q := by
  have h₁ := h.getElem?_id hp hcp
  rw [hid, h.getElem?_id hq hcq] at h₁
  exact (Option.some.inj h₁).symm

theorem refAddr?_iff (h : r.WellFormed) {owner slot : Int} {a : RefAddr} :
    r.refAddr? owner slot = some a ↔
      ∃ c, r.classAt? a.row = some c ∧ (c.id : Int) = owner ∧ c.slots.lookup slot = some a.pos := by
  refine ⟨exists_of_refAddr?, ?_⟩
  rintro ⟨c, hc, hid, hpos⟩
  cases hb : r.refAddr? owner slot with
  | none =>
      have hnone := refAddr?_eq_none.mp hb a.row c hc hid
      rw [hnone] at hpos
      cases hpos
  | some b =>
      obtain ⟨cb, hcb, hidb, hposb⟩ := exists_of_refAddr? hb
      have hsame : a.row = b.row := h.slot_row hc hcb (by omega) hpos hposb
      rw [← hsame, hc] at hcb
      cases hcb
      rw [hpos] at hposb
      cases a; cases b
      simp_all

/-- Changing one class keeps the registry well formed when its name and id stay, its signatures
differ, its slots index its references, and a slot that is new to it is new to its id. -/
theorem modifyClass (h : r.WellFormed) {row : Nat} {f : Class → Class}
    (hf : ∀ c, r.classAt? row = some c →
      (f c).id = c.id ∧ (f c).name = c.name ∧ (f c).signatures.Nodup ∧
      (row ∈ r.live → (f c).Indexed) ∧
      ∀ slot pos, (f c).slots.lookup slot = some pos →
        (∃ pos', c.slots.lookup slot = some pos') ∨ r.refAddr? c.id slot = none) :
    (r.modifyClass row f).WellFormed := by
  constructor
  · intro row' hrow
    rw [size_modifyClass]
    exact h.live_lt hrow
  · exact h.live_sorted
  · intro i row' c' hi hc'
    obtain ⟨c, hc, ⟨rfl, rfl⟩ | ⟨-, rfl⟩⟩ := classAt?_of_modifyClass hc'
    · rw [(hf c hc).1]
      exact h.id_eq hi hc
    · exact h.id_eq hi hc
  · intro name row' hfind
    exact h.find_live hfind
  · intro name row' c' hfind hc'
    obtain ⟨c, hc, ⟨rfl, rfl⟩ | ⟨-, rfl⟩⟩ := classAt?_of_modifyClass hc'
    · rw [(hf c hc).2.1]
      exact h.find_name hfind hc
    · exact h.find_name hfind hc
  · intro row' c' hc'
    obtain ⟨c, hc, ⟨rfl, rfl⟩ | ⟨-, rfl⟩⟩ := classAt?_of_modifyClass hc'
    · exact (hf c hc).2.2.1
    · exact h.signatures_nodup hc
  · intro row' c' hlive hc'
    obtain ⟨c, hc, ⟨rfl, rfl⟩ | ⟨-, rfl⟩⟩ := classAt?_of_modifyClass hc'
    · exact (hf c hc).2.2.2.1 hlive
    · exact h.indexed hlive hc
  · intro p q cp' cq' slot i j hp hq hid hi hj
    obtain ⟨cp, hcp, hp'⟩ := classAt?_of_modifyClass hp
    obtain ⟨cq, hcq, hq'⟩ := classAt?_of_modifyClass hq
    rcases hp' with ⟨rfl, rfl⟩ | ⟨hpne, rfl⟩ <;> rcases hq' with ⟨rfl, rfl⟩ | ⟨hqne, rfl⟩
    · rfl
    · obtain ⟨hidp, _, _, _, hnew⟩ := hf cp hcp
      rcases hnew slot i hi with ⟨i', hi'⟩ | hnone
      · exact h.slot_row hcp hcq (by omega) hi' hj
      · have := refAddr?_eq_none.mp hnone q cq' hcq (by omega)
        rw [this] at hj
        cases hj
    · obtain ⟨hidq, _, _, _, hnew⟩ := hf cq hcq
      rcases hnew slot j hj with ⟨j', hj'⟩ | hnone
      · exact h.slot_row hcp hcq (by omega) hi hj'
      · have := refAddr?_eq_none.mp hnone p cp' hcp (by omega)
        rw [this] at hi
        cases hi
    · exact h.slot_row hcp hcq hid hi hj

/-- A change that leaves the index of a class and its declared signatures alone: references keep
their owner and their slot. -/
theorem modifyClass_of_frame (h : r.WellFormed) {row : Nat} {f : Class → Class}
    (hf : ∀ c, (f c).id = c.id ∧ (f c).name = c.name ∧ (f c).signatures = c.signatures ∧
      (∀ pos : Nat, ((f c).pool[pos]?).map Reference.key = (c.pool[pos]?).map Reference.key) ∧
      (f c).listed = c.listed ∧ (f c).slots = c.slots ∧ c.maxSlot ≤ (f c).maxSlot) :
    (r.modifyClass row f).WellFormed := by
  apply h.modifyClass
  intro c hc
  obtain ⟨hid, hname, hsigs, hpool, hlisted, hslots, hmax⟩ := hf c
  refine ⟨hid, hname, ?_, ?_, ?_⟩
  · rw [hsigs]
    exact h.signatures_nodup hc
  · intro hlive
    exact (h.indexed hlive hc).of_frame hid hpool hlisted hslots hmax
  · intro slot pos hpos
    rw [hslots] at hpos
    exact Or.inl ⟨pos, hpos⟩

/-- A registry with the names of another one and with classes that have the index of its classes. -/
theorem of_sameIndex {r' : Registry} (h : r.WellFormed) (hlive : r'.live = r.live)
    (hfind : ∀ name, r'.find? name = r.find? name) (hsize : r'.rows.size = r.rows.size)
    (hclass : ∀ {row c'}, r'.classAt? row = some c' →
      ∃ c, r.classAt? row = some c ∧ c.SameIndex c') : r'.WellFormed := by
  constructor
  · intro row hrow
    rw [hsize]
    exact h.live_lt (hlive ▸ hrow)
  · rw [hlive]
    exact h.live_sorted
  · intro i row c' hi hc'
    obtain ⟨c, hc, hsame⟩ := hclass hc'
    rw [hsame.id_eq]
    exact h.id_eq (hlive ▸ hi) hc
  · intro name row hrow
    rw [hlive]
    exact h.find_live (hfind name ▸ hrow)
  · intro name row c' hrow hc'
    obtain ⟨c, hc, hsame⟩ := hclass hc'
    rw [hsame.name_eq]
    exact h.find_name (hfind name ▸ hrow) hc
  · intro row c' hc'
    obtain ⟨c, hc, hsame⟩ := hclass hc'
    rw [hsame.signatures_eq]
    exact h.signatures_nodup hc
  · intro row c' hrow hc'
    obtain ⟨c, hc, hsame⟩ := hclass hc'
    exact (h.indexed (hlive ▸ hrow) hc).of_frame hsame.id_eq hsame.pool hsame.listed_eq
      hsame.slots_eq hsame.maxSlot_le
  · intro p q cp' cq' slot i j hp hq hid hi hj
    obtain ⟨cp, hcp, hsamep⟩ := hclass hp
    obtain ⟨cq, hcq, hsameq⟩ := hclass hq
    rw [hsamep.id_eq, hsameq.id_eq] at hid
    rw [hsamep.slots_eq] at hi
    rw [hsameq.slots_eq] at hj
    exact h.slot_row hcp hcq hid hi hj

end WellFormed

/-- Every live class is known under its name. -/
def SelfNamed (r : Registry) : Prop :=
  ∀ {row c}, row ∈ r.live → r.classAt? row = some c → r.find? c.name = some row

theorem SelfNamed.of_names {r r' : Registry} (h : r.SelfNamed) (hlive : r'.live = r.live)
    (hfind : ∀ name, r'.find? name = r.find? name)
    (hclass : ∀ {row c'}, r'.classAt? row = some c' →
      ∃ c, r.classAt? row = some c ∧ c'.name = c.name) : r'.SelfNamed := by
  intro row c' hrow hc'
  obtain ⟨c, hc, hname⟩ := hclass hc'
  rw [hname, hfind]
  exact h (hlive ▸ hrow) hc

end Registry

end ClassLinker
