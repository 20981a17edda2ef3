import ClassLinker.Proofs.Registry.Reachable

/-! What laying out leaves on the members of a registry, and that only linking and keeping members
change it: every other operation, whether or not it succeeds, leaves the numbered members as they
are, and the kept ones that have no number as well. -/

namespace ClassLinker

/-- What laying out settles about a member: its link id, and the offset and the length of its code
if it has any. -/
structure Mark where
  sig : Signature
  kept : Bool
  linkId : Option Nat
  span : Option (Option Nat × Nat)

namespace Mark

/-- The link id of a numbered member, with its signature and its code. -/
def number? (k : Mark) : Option (Nat × Signature × Option (Option Nat × Nat)) :=
  k.linkId.map (·, k.sig, k.span)

/-- Whether a member is kept without being numbered. -/
def late (k : Mark) : Bool := k.kept && k.linkId.isNone

end Mark

def Method.mark (m : Method) : Mark :=
  ⟨m.sig, m.kept, m.linkId, if m.hasCode then some (m.codeOffset, m.rawCode.length) else none⟩

theorem Method.Annotated.mark_eq {m m' : Method} (h : m.Annotated m') : m'.mark = m.mark := by
  rw [h]
  rfl

def Field.mark (f : Field) : Mark := ⟨f.sig, f.kept, f.linkId, none⟩

def Declaration.mark : Declaration → Mark
  | .method m => m.mark
  | .field f => f.mark

namespace Class

/-- The marks of the members of a class, the methods first. -/
def marks (c : Class) : List Mark := c.methods.map Method.mark ++ c.fields.map Field.mark

/-- The numbered members of a class. -/
def numbers (c : Class) : List (Nat × Signature × Option (Option Nat × Nat)) :=
  c.marks.filterMap Mark.number?

/-- The kept members of a class that are not numbered. -/
def lateMarks (c : Class) : List Mark := c.marks.filter Mark.late

/-- Only a kept class has kept members, and only kept members are numbered. -/
structure Marked (c : Class) : Prop where
  owner : ∀ k ∈ c.marks, k.kept = true → c.kept = true
  unnumbered : ∀ k ∈ c.marks, k.kept = false → k.linkId = none

/-- `c'` has the numbered and the late members of `c`. -/
structure Carries (c c' : Class) : Prop where
  numbers : c'.numbers = c.numbers
  late : c'.lateMarks = c.lateMarks
  marked : c.Marked → c'.Marked

variable {c c' : Class}

theorem mark_mem {sig : Signature} {d : Declaration} (hd : c.declared? sig = some d) :
    d.mark ∈ c.marks := by
  unfold declared? at hd
  split at hd
  · rename_i m hm
    cases hd
    exact List.mem_append_left _ (List.mem_map_of_mem (List.mem_of_find?_eq_some hm))
  · obtain ⟨f, hf, rfl⟩ := Option.map_eq_some_iff.mp hd
    exact List.mem_append_right _ (List.mem_map_of_mem (List.mem_of_find?_eq_some hf))

theorem Marked.numbers_eq_nil (h : c.Marked) (hkept : c.kept = false) : c.numbers = [] := by
  refine List.filterMap_eq_nil_iff.mpr fun k hk => ?_
  have hdropped : k.kept = false := by
    by_contra hne
    rw [h.owner k hk (Bool.not_eq_false _ ▸ hne)] at hkept
    cases hkept
  rw [Mark.number?, h.unnumbered k hk hdropped, Option.map_none]

theorem Marked.lateMarks_eq_nil (h : c.Marked) (hkept : c.kept = false) : c.lateMarks = [] := by
  refine List.filter_eq_nil_iff.mpr fun k hk hlate => ?_
  rw [h.owner k hk (Bool.and_eq_true _ _ ▸ hlate).1] at hkept
  cases hkept

namespace Carries

theorem of_marks (hmarks : c'.marks = c.marks) (hkept : c.kept = true → c'.kept = true) :
    c.Carries c' := by
  refine ⟨by rw [Class.numbers, hmarks, Class.numbers],
    by rw [lateMarks, hmarks, lateMarks], fun h => ⟨fun k hk hk' => ?_, ?_⟩⟩
  · rw [hmarks] at hk
    exact hkept (h.owner k hk hk')
  · rw [hmarks]
    exact h.unnumbered

/-- A new member is neither kept nor numbered. -/
theorem of_insert (before after : List Mark) {k : Mark} (hold : c.marks = before ++ after)
    (hnew : c'.marks = before ++ k :: after) (hkept : c'.kept = c.kept) (hdropped : k.kept = false)
    (hid : k.linkId = none) : c.Carries c' := by
  have hmem : ∀ k' ∈ c'.marks, k' = k ∨ k' ∈ c.marks := by
    intro k' hk'
    rw [hnew, List.mem_append, List.mem_cons] at hk'
    rw [hold, List.mem_append]
    tauto
  refine ⟨?_, ?_, fun h => ⟨fun k' hk' hkept' => ?_, fun k' hk' hdropped' => ?_⟩⟩
  · simp [Class.numbers, hold, hnew, Mark.number?, hid]
  · simp [lateMarks, hold, hnew, Mark.late, hdropped]
  · rcases hmem k' hk' with rfl | hk'
    · rw [hdropped] at hkept'
      cases hkept'
    · exact hkept.trans (h.owner k' hk' hkept')
  · rcases hmem k' hk' with rfl | hk'
    · exact hid
    · exact h.unnumbered k' hk' hdropped'

/-- Members that are not kept can be dropped. -/
theorem of_filter (h : c.Marked) (hmarks : c'.marks = c.marks.filter Mark.kept)
    (hkept : c'.kept = c.kept) : c.Carries c' := by
  refine ⟨?_, ?_, fun h => ⟨fun k hk hk' => ?_, fun k hk hk' => ?_⟩⟩
  · rw [Class.numbers, hmarks, List.filterMap_filter, Class.numbers]
    refine List.filterMap_congr fun k hk => ?_
    cases hdropped : k.kept with
    | true => rfl
    | false => rw [Mark.number?, h.unnumbered k hk hdropped]; rfl
  · rw [lateMarks, hmarks, List.filter_filter, lateMarks]
    refine List.filter_congr fun k _ => ?_
    cases hdropped : k.kept <;> simp [Mark.late, hdropped]
  · rw [hmarks] at hk
    exact hkept.trans (h.owner k (List.mem_of_mem_filter hk) hk')
  · rw [hmarks, List.mem_filter] at hk
    rw [hk.2] at hk'
    cases hk'

end Carries

end Class

namespace Registry

open RegistryM Step

/-! ### What is read off all classes -/

/-- What is read off the registered classes, one after the other. -/
def gather {β : Type} (r : Registry) (read : Class → List β) : List β :=
  r.classes.flatMap fun p => read p.2

theorem gather_eq {β : Type} (r : Registry) (read : Class → List β) :
    r.gather read = r.live.flatMap fun row => ((r.classAt? row).map read).getD [] := by
  rw [gather, classes, List.filterMap_eq_flatMap_toList, List.flatMap_assoc]
  refine List.flatMap_congr fun row _ => ?_
  cases r.classAt? row with
  | none => rfl
  | some c => simp

theorem gather_congr {β : Type} {r r' : Registry} {read : Class → List β}
    (hlive : r'.live = r.live)
    (hread : ∀ row ∈ r.live, (r'.classAt? row).map read = (r.classAt? row).map read) :
    r'.gather read = r.gather read := by
  rw [gather_eq, gather_eq, hlive]
  exact List.flatMap_congr fun row hrow => by rw [hread row hrow]

/-- What contributes nothing can be left out. -/
theorem flatMap_filter_eq {α β : Type} {f : α → List β} {p : α → Bool} {xs : List α}
    (hnil : ∀ x ∈ xs, p x = false → f x = []) : (xs.filter p).flatMap f = xs.flatMap f := by
  induction xs with
  | nil => rfl
  | cons x xs ih =>
      have hrest := ih fun y hy => hnil y (List.mem_cons_of_mem x hy)
      cases hp : p x with
      | true => rw [List.filter_cons_of_pos hp, List.flatMap_cons, List.flatMap_cons, hrest]
      | false =>
          rw [List.filter_cons_of_neg (by simp [hp]), List.flatMap_cons, hrest,
            hnil x List.mem_cons_self hp, List.nil_append]

theorem keptRows_eq (r : Registry) : r.keptRows =
    r.live.filter fun row => ((r.classAt? row).map Class.kept).getD false := by
  rw [keptRows, keptClasses, classes, List.filter_filterMap, List.map_filterMap,
    ← List.filterMap_eq_filter]
  refine List.filterMap_congr fun row _ => ?_
  cases hc : r.classAt? row with
  | none => simp [hc, Option.guard]
  | some c => cases hkept : c.kept <;> simp [hc, hkept, Option.guard]

/-- Nothing is lost with the classes that are not kept. -/
theorem gather_keptRows {β : Type} {r : Registry} {read : Class → List β}
    (hread : ∀ row c, r.classAt? row = some c → c.kept = false → read c = []) :
    ({ r with live := r.keptRows } : Registry).gather read = r.gather read := by
  rw [gather_eq, gather_eq, keptRows_eq]
  refine flatMap_filter_eq fun row _ hdropped => ?_
  change ((r.classAt? row).map read).getD [] = []
  cases hc : r.classAt? row with
  | none => rfl
  | some c =>
      rw [hc] at hdropped
      exact hread row c hc hdropped

theorem keptRows_modifyClass {r : Registry} {row : Nat} {f : Class → Class}
    (hf : ∀ c, (f c).kept = c.kept) : (r.modifyClass row f).keptRows = r.keptRows := by
  rw [keptRows_eq, keptRows_eq, live_modifyClass]
  refine List.filter_congr fun p _ => ?_
  rw [classAt?_modifyClass]
  split
  · rw [Option.map_map]
    simp only [Function.comp_def, hf]
  · rfl

/-! ### What operations leave alone -/

theorem marks_modifyMethod {sig : Signature} {f : Method → Method} (hf : ∀ m, (f m).mark = m.mark)
    (c : Class) : ({ c with
      methods := c.methods.map fun m => if m.sig = sig then f m else m } : Class).marks = c.marks := by
  rw [Class.marks, Class.marks, List.map_map]
  congr 1
  refine List.map_congr_left fun m _ => ?_
  simp only [Function.comp_apply]
  split
  · exact hf m
  · rfl

/-- In every class only kept members are numbered, and only a kept class has kept members. -/
def AllMarked (r : Registry) : Prop := ∀ row c, r.classAt? row = some c → c.Marked

/-- A registry in which members are marked as they should be, with its numbered members, its late
ones, its signatures and whether it is closed. -/
structure Holds (numbers : List (Nat × Signature × Option (Option Nat × Nat))) (late : List Mark)
    (sigs : List Signature) (shut : Bool) (r : Registry) : Prop where
  live_lt : ∀ row ∈ r.live, row < r.rows.size
  live_nodup : r.live.Nodup
  marked : r.AllMarked
  numbers_eq : r.gather Class.numbers = numbers
  late_eq : r.gather Class.lateMarks = late
  signatures_eq : r.signatures = sigs
  closed_eq : r.closed = shut

section

variable {numbers : List (Nat × Signature × Option (Option Nat × Nat))} {late : List Mark}
  {sigs : List Signature} {shut : Bool} {r r' : Registry}

namespace Holds

theorem of_carries (h : r.Holds numbers late sigs shut) (hlive : r'.live = r.live)
    (hsize : r.rows.size ≤ r'.rows.size) (hsigs : r'.signatures = r.signatures)
    (hclosed : r'.closed = r.closed)
    (hold : ∀ {row c'}, r'.classAt? row = some c' → row < r.rows.size →
      ∃ c, r.classAt? row = some c ∧ c.Carries c')
    (hnew : ∀ {row c'}, r'.classAt? row = some c' → ¬ row < r.rows.size → c'.Marked) :
    r'.Holds numbers late sigs shut := by
  have hread : ∀ {β : Type} {read : Class → List β},
      (∀ {c c' : Class}, c.Carries c' → read c' = read c) → r'.gather read = r.gather read := by
    intro β read hcarry
    refine gather_congr hlive fun row hrow => ?_
    have hlt := h.live_lt row hrow
    obtain ⟨c', hc'⟩ := exists_classAt? (Nat.lt_of_lt_of_le hlt hsize)
    obtain ⟨c, hc, hcarries⟩ := hold hc' hlt
    rw [hc, hc', Option.map_some, Option.map_some, hcarry hcarries]
  refine ⟨fun row hrow => ?_, hlive ▸ h.live_nodup, fun row c' hc' => ?_,
    (hread fun hc => hc.numbers).trans h.numbers_eq, (hread fun hc => hc.late).trans h.late_eq,
    hsigs.trans h.signatures_eq, hclosed.trans h.closed_eq⟩
  · exact Nat.lt_of_lt_of_le (h.live_lt row (hlive ▸ hrow)) hsize
  · by_cases hlt : row < r.rows.size
    · obtain ⟨c, hc, hcarries⟩ := hold hc' hlt
      exact hcarries.marked (h.marked row c hc)
    · exact hnew hc' hlt

theorem modifyClass (h : r.Holds numbers late sigs shut) {row : Nat} {f : Class → Class}
    (hf : ∀ c, r.classAt? row = some c → c.Carries (f c)) :
    (r.modifyClass row f).Holds numbers late sigs shut := by
  refine h.of_carries (live_modifyClass ..) (Nat.le_of_eq (size_modifyClass ..).symm) rfl rfl ?_ ?_
  · intro p c' hc' _
    obtain ⟨c, hc, ⟨rfl, rfl⟩ | ⟨-, rfl⟩⟩ := classAt?_of_modifyClass hc'
    · exact ⟨c, hc, hf c hc⟩
    · exact ⟨c', hc, .of_marks rfl id⟩
  · intro p c' hc' hlt
    exact absurd (size_modifyClass r row f ▸ classAt?_lt hc') hlt

/-- A change that leaves the members of a class alone, and does not take back that it is kept. -/
theorem modifyElsewhere (h : r.Holds numbers late sigs shut) {row : Nat} {f : Class → Class}
    (hmarks : ∀ c, (f c).marks = c.marks) (hkept : ∀ c, c.kept = true → (f c).kept = true) :
    (r.modifyClass row f).Holds numbers late sigs shut :=
  h.modifyClass fun c _ => .of_marks (hmarks c) (hkept c)

theorem modifyMethod (h : r.Holds numbers late sigs shut) {row : Nat} {sig : Signature}
    {f : Method → Method} (hf : ∀ m, (f m).mark = m.mark) :
    (r.modifyMethod row sig f).Holds numbers late sigs shut := by
  exact h.modifyElsewhere (f := fun c => { c with
    methods := c.methods.map fun m => if m.sig = sig then f m else m }) (marks_modifyMethod hf)
    fun _ => id

/-- A change of every class that leaves the members alone. -/
theorem of_map (h : r.Holds numbers late sigs shut) {f : Nat → Class → Class}
    (hf : ∀ row c, (f row c).marks = c.marks ∧ (f row c).kept = c.kept) (hlive : r'.live = r.live)
    (hsize : r'.rows.size = r.rows.size) (hsigs : r'.signatures = r.signatures)
    (hclosed : r'.closed = r.closed)
    (hclasses : ∀ row, r'.classAt? row = (r.classAt? row).map (f row)) :
    r'.Holds numbers late sigs shut := by
  refine h.of_carries hlive (Nat.le_of_eq hsize.symm) hsigs hclosed (fun {row c'} hc' _ => ?_)
    fun {row c'} hc' hlt => absurd (hsize ▸ classAt?_lt hc') hlt
  rw [hclasses] at hc'
  obtain ⟨c, hc, rfl⟩ := Option.map_eq_some_iff.mp hc'
  exact ⟨c, hc, .of_marks (hf row c).1 fun hkept => (hf row c).2.trans hkept⟩

theorem sameButChildren (h : r.Holds numbers late sigs shut) (hsame : SameButChildren r r') :
    r'.Holds numbers late sigs shut := by
  refine h.of_carries hsame.live_eq (Nat.le_of_eq hsame.size_eq.symm) (by rw [hsame.frame])
    (by rw [hsame.frame]) ?_ ?_
  · intro row c' hc' _
    obtain ⟨c, hc, heq⟩ := hsame.exists_old hc'
    exact ⟨c, hc, by rw [heq]; exact .of_marks rfl id⟩
  · intro row c' hc' hlt
    exact absurd (hsame.size_eq ▸ classAt?_lt hc') hlt

theorem store (h : r.Holds numbers late sigs shut) {c : Class} (hmarks : c.marks = []) :
    (r.store c).Holds numbers late sigs shut := by
  have hmarked : c.Marked := by
    constructor <;> · rw [hmarks]; exact nofun
  refine h.of_carries rfl (by simp [Registry.store]) rfl rfl ?_ ?_
  · intro row c' hc' hlt
    rw [classAt?_store, if_neg (Nat.ne_of_lt hlt)] at hc'
    exact ⟨c', hc', .of_marks rfl id⟩
  · intro row c' hc' hlt
    rw [classAt?_store] at hc'
    split at hc'
    · cases hc'
      exact hmarked
    · exact absurd (classAt?_lt hc') hlt

theorem enlist (h : r.Holds numbers late sigs shut) {row : Nat} {c : Class} (name : Text)
    (hc : r.classAt? row = some c) (hnew : row ∉ r.live) (hmarks : c.marks = []) :
    (r.enlist row name).Holds numbers late sigs shut := by
  have hread : ∀ {β : Type} {read : Class → List β}, read c = [] →
      (r.enlist row name).gather read = r.gather read := by
    intro β read hnil
    have hclass : ∀ p, (r.enlist row name).classAt? p = r.classAt? p := fun _ => rfl
    have hlive : (r.enlist row name).live = r.live ++ [row] := rfl
    simp [gather_eq, hlive, hclass, hc, hnil]
  refine ⟨fun p hp => ?_, ?_, h.marked, (hread ?_).trans h.numbers_eq,
    (hread ?_).trans h.late_eq, h.signatures_eq, h.closed_eq⟩
  · rcases List.mem_append.mp hp with hp | hp
    · exact h.live_lt p hp
    · rw [List.mem_singleton.mp hp]
      exact classAt?_lt hc
  · exact List.nodup_append.mpr ⟨h.live_nodup, List.nodup_singleton row, fun p hp q hq heq =>
      hnew (List.mem_singleton.mp hq ▸ heq ▸ hp)⟩
  · rw [Class.numbers, hmarks, List.filterMap_nil]
  · rw [Class.lateMarks, hmarks, List.filter_nil]

theorem keptRows_nodup (h : r.Holds numbers late sigs shut) : r.keptRows.Nodup := by
  rw [keptRows_eq]
  exact h.live_nodup.filter _

/-- Dropping the classes that are not kept. -/
theorem keptRows (h : r.Holds numbers late sigs shut) :
    ({ r with live := r.keptRows } : Registry).Holds numbers late sigs shut := by
  refine ⟨fun row hrow => h.live_lt row (mem_keptRows.mp hrow).1, h.keptRows_nodup, h.marked, ?_, ?_,
    h.signatures_eq, h.closed_eq⟩
  · rw [gather_keptRows fun row c hc => (h.marked row c hc).numbers_eq_nil]
    exact h.numbers_eq
  · rw [gather_keptRows fun row c hc => (h.marked row c hc).lateMarks_eq_nil]
    exact h.late_eq

end Holds

/-! ### Operations -/

@[simp]
theorem final_renumber (ids : Renumbering) (id : Option Nat) (r : Registry) :
    final (renumber ids id r) = r := by
  cases id with
  | none => rfl
  | some old =>
      cases hnew : ids.lookup old with
      | none => simp only [renumber, hnew]; rfl
      | some new => simp only [renumber, hnew]; rfl

/-- What a change of the reference preserves that leaves its slot, renumbering it preserves. -/
theorem final_renumberRef {P : Registry → Prop} {ids : Renumbering} {owner : Nat} {a : RefAddr}
    (hstep : ∀ {u f}, (∀ ref : Reference, (f ref).slot = ref.slot) → P u → P (u.modifyRef a f))
    (hr : P r) :
    P (final (renumberRef ids owner a r)) := by
  have hset : ∀ {body : RefBody} {u : Registry}, P u → P (final
      ((modify fun r => r.modifyRef a fun ref => { ref with body } : RegistryM Unit) u)) :=
    fun hu => hstep (fun _ => rfl) hu
  have hnumber : ∀ {id : Option Nat} {u : Registry}, P u → P (final (renumber ids id u)) := by
    intro id u hu
    rwa [final_renumber]
  unfold renumberRef
  refine final_seq (hstep (fun _ => rfl) hr) fun {_ u} hu => ?_
  refine final_seq (by rwa [final_refAt]) fun {ref u} hu => ?_
  cases ref.body with
  | literal v => exact hu
  | classRef name target =>
      exact final_seq (hset hu) fun hu => final_seq (hnumber hu) fun hu => hset hu
  | memberRef m target declaring linkId index =>
      refine final_seq (hset hu) fun hu => final_seq (hnumber hu) fun hu => ?_
      exact final_seq (hset hu) fun hu => final_seq (hnumber hu) fun hu => hset hu

/-- What dropping the members of a class that are not kept preserves, and every change outside the
members, pruning the class preserves. -/
theorem final_pruneClass {P : Registry → Prop} {ids : Renumbering} {row : Nat}
    (hnone : r.classAt? row = none → P r)
    (hstrip : ∀ c isKept, r.classAt? row = some c →
      P (r.modifyClass row fun _ => stripped ids isKept c))
    (hstep : ∀ {u f}, (∀ c, (f c).marks = c.marks ∧ (f c).kept = c.kept ∧ (f c).name = c.name) →
      P u → P (u.modifyClass row f)) :
    P (final (pruneClass ids row r)) := by
  cases hc : r.classAt? row with
  | none =>
      have hrun : pruneClass ids row r = .error .fault r :=
        bind_of_error (classAt_error.mpr ⟨hc, rfl, rfl⟩)
      rw [hrun]
      exact hnone hc
  | some c =>
      rw [pruneClass_run hc]
      have hindex : ∀ p ∈ keptSlots c, ∀ {u}, P u → P (final ((do
          renumberRef ids ((ids.lookup c.id).getD c.id) ⟨row, p.1⟩
          modify (indexRef ⟨row, p.1⟩) : RegistryM Unit) u)) := fun p _ u hu =>
        final_seq (final_renumberRef (fun _ hu => hstep (fun _ => ⟨rfl, rfl, rfl⟩) hu) hu)
          fun hu => hstep (fun _ => ⟨rfl, rfl, rfl⟩) hu
      exact final_seq (final_forM hindex (hstrip c _ hc)) fun hu =>
        hstep (fun _ => ⟨rfl, rfl, rfl⟩) hu

theorem marks_stripped (ids : Renumbering) (isKept : Nat → Bool) (c : Class) :
    (stripped ids isKept c).marks = c.marks.filter Mark.kept := by
  rw [Class.marks, Class.marks, List.filter_append, List.filter_map, List.filter_map]
  rfl

namespace Holds

theorem pruneClass {rows : List Nat} {u : Registry} (ids : Renumbering) (row : Nat)
    (h : u.Holds numbers late sigs shut ∧ u.keptRows = rows) :
    (final (Registry.pruneClass ids row u)).Holds numbers late sigs shut ∧
      (final (Registry.pruneClass ids row u)).keptRows = rows := by
  refine final_pruneClass (P := fun v => v.Holds numbers late sigs shut ∧ v.keptRows = rows)
    (fun _ => h) (fun c isKept hc => ?_) fun {v f} hf ⟨hv, hrows⟩ => ?_
  · rw [modifyClass_congr (f := fun _ => stripped ids isKept c) (g := stripped ids isKept) hc rfl]
    have hkept : (u.modifyClass row (stripped ids isKept)).keptRows = u.keptRows :=
      keptRows_modifyClass fun _ => rfl
    refine ⟨h.1.modifyClass fun c' hc' => ?_, hkept.trans h.2⟩
    exact .of_filter (h.1.marked row c' hc') (marks_stripped _ _ c') rfl
  · exact ⟨hv.modifyElsewhere (fun c => (hf c).1) fun c hkept => (hf c).2.1.trans hkept,
      (keptRows_modifyClass fun c => (hf c).2.1).trans hrows⟩

theorem tabled {rows : List Nat} {u : Registry}
    (h : u.Holds numbers late sigs shut ∧ u.keptRows = rows) :
    (Registry.tabled rows u).Holds numbers late sigs shut := by
  obtain ⟨hheld, rfl⟩ := h
  obtain ⟨_, hframe, hsize⟩ := buildTables_frame { u with live := u.keptRows }
  refine hheld.keptRows.of_map (f := fun row c => if row ∈ u.keptRows then buildTable c else
    { c with table := [], forwarding := [] }) (fun row c => ?_) (by rw [Registry.tabled, hframe])
    (by rw [Registry.tabled, hframe]; exact hsize) (by rw [Registry.tabled, hframe])
    (by rw [Registry.tabled, hframe]) (classAt?_buildTables hheld.keptRows_nodup)
  split <;> exact ⟨rfl, rfl⟩

/-- Compaction leaves the numbered and the late members alone, wherever it stops, and closes the
registry only when it succeeds. -/
theorem compact (h : r.Holds numbers late sigs shut) : ∃ shut',
    (final (Registry.compact r)).Holds numbers late sigs shut' ∧
      (shut' = shut ∨ ∃ r', Registry.compact r = .ok () r') := by
  have hstart : r.unindexed.Holds numbers late sigs shut :=
    h.of_map (f := fun _ c => { c with slots := [] }) (fun _ _ => ⟨rfl, rfl⟩) rfl Array.size_map
      rfl rfl (classAt?_unindexed r)
  have hrows : r.unindexed.keptRows = r.keptRows := by
    rw [keptRows_eq, keptRows_eq]
    refine List.filter_congr fun row _ => ?_
    rw [classAt?_unindexed, Option.map_map]
    rfl
  have hnames : r.dropNames.Holds numbers late sigs shut :=
    ⟨h.live_lt, h.live_nodup, h.marked, h.numbers_eq, h.late_eq, h.signatures_eq, h.closed_eq⟩
  obtain hfinal | ⟨u, hu, hok⟩ := final_compact
    (Q := fun u => u.Holds numbers late sigs shut ∧ u.keptRows = r.keptRows) h hnames
    ⟨hstart, hrows⟩ (fun row _ _ hu => pruneClass r.newIds row hu) And.left tabled
    fun hu => hu.modifyMethod fun _ => rfl
  · exact ⟨shut, hfinal, .inl rfl⟩
  · rw [hok]
    exact ⟨true, ⟨hu.live_lt, hu.live_nodup, hu.marked, hu.numbers_eq, hu.late_eq, hu.signatures_eq,
      rfl⟩, .inr ⟨_, rfl⟩⟩

end Holds

end

/-! ### Keeping members -/

namespace Operation

/-- Whether an operation keeps a member of a registered class that was not kept. -/
def keepsMember (r : Registry) : Operation → Bool
  | keepMember row sig => !r.closed && r.live.contains row && (r.classAt? row).any fun c =>
      c.kept && (c.declared? sig).any fun d => !d.kept
  | _ => false

/-- Whether an operation lays the registry out: linking does, unless it is refused. -/
def laysOut (r : Registry) : Operation → Bool
  | link => !r.closed && (r.keptClasses.head?.map fun p => p.2.id) = some 0
  | _ => false

end Operation

section

variable {numbers : List (Nat × Signature × Option (Option Nat × Nat))} {late : List Mark}
  {sigs : List Signature} {shut : Bool} {r r' : Registry}

/-- Marking a member changes no number. -/
theorem numbers_markMember (c : Class) (sig : Signature) : (markMember c sig).numbers = c.numbers := by
  have hm : ((c.methods.map fun m => if m.sig = sig then { m with kept := true } else m).map
      Method.mark).filterMap Mark.number? = (c.methods.map Method.mark).filterMap Mark.number? := by
    rw [List.filterMap_map, List.filterMap_map, List.filterMap_map]
    refine List.filterMap_congr fun m _ => ?_
    simp only [Function.comp_apply]
    split <;> rfl
  have hf : ((c.fields.map fun f => if f.sig = sig then { f with kept := true } else f).map
      Field.mark).filterMap Mark.number? = (c.fields.map Field.mark).filterMap Mark.number? := by
    rw [List.filterMap_map, List.filterMap_map, List.filterMap_map]
    refine List.filterMap_congr fun f _ => ?_
    simp only [Function.comp_apply]
    split <;> rfl
  unfold markMember
  split
  · rw [Class.numbers, Class.numbers, Class.marks, Class.marks, List.filterMap_append,
      List.filterMap_append, hm]
  · rw [Class.numbers, Class.numbers, Class.marks, Class.marks, List.filterMap_append,
      List.filterMap_append, hf]

/-- Where no member has the signature, there is nothing to mark. -/
theorem markMember_of_undeclared {c : Class} {sig : Signature} (h : c.declared? sig = none) :
    markMember c sig = c := by
  have hsig := Class.declared?_eq_none.mp h
  rw [Class.signatures, List.mem_append, not_or] at hsig
  have hmethods : (c.methods.any fun m => m.sig = sig) = false := by
    rw [List.any_eq_false]
    exact fun m hm heq => hsig.1 (of_decide_eq_true heq ▸ List.mem_map_of_mem hm)
  have hfields : (c.fields.map fun f => if f.sig = sig then { f with kept := true } else f) =
      c.fields := by
    refine (List.map_congr_left fun f hf => ?_).trans (List.map_id c.fields)
    exact if_neg fun heq : f.sig = sig => hsig.2 (heq ▸ List.mem_map_of_mem hf)
  rw [markMember, if_neg (by rw [hmethods]; exact Bool.false_ne_true), hfields]

theorem marked_markMember {c : Class} (h : c.Marked) (hkept : c.kept = true) (sig : Signature) :
    (markMember c sig).Marked := by
  have hkept' := (Class.Grows.markMember c sig).kept hkept
  -- A mark that is left without being kept is one of the marks there were.
  have hold : ∀ k ∈ (markMember c sig).marks, k.kept = false → k ∈ c.marks := by
    intro k hk hdropped
    simp only [markMember, Class.marks] at hk ⊢
    split at hk
    all_goals
      simp only [List.mem_append, List.mem_map] at hk ⊢
      grind [Method.mark, Field.mark]
  exact ⟨fun _ _ _ => hkept', fun k hk hdropped => h.unnumbered k (hold k hk hdropped) hdropped⟩

/-- A member that was not kept is late once it is. -/
theorem late_markMember {c : Class} (h : c.Marked) {sig : Signature} {d : Declaration}
    (hd : c.declared? sig = some d) (hdropped : d.kept = false) :
    (markMember c sig).lateMarks ≠ [] := by
  have hmarked : (markMember c sig).declared? sig = some (markDeclaration d) := by
    rw [declared?_markMember, hd, Option.map_some, if_pos rfl]
  have hid := h.unnumbered d.mark (Class.mark_mem hd) (by cases d <;> exact hdropped)
  have hlate : (markDeclaration d).mark.late = true := by
    cases d <;> simpa [markDeclaration, Declaration.mark, Method.mark, Field.mark, Mark.late] using hid
  exact List.ne_nil_of_mem (List.mem_filter.mpr ⟨Class.mark_mem hmarked, hlate⟩)

theorem Holds.markMember (h : r.Holds numbers late sigs shut) {row : Nat} {c : Class}
    (hc : r.classAt? row = some c) (hkept : c.kept = true) (sig : Signature) :
    (r.modifyClass row fun c => Registry.markMember c sig).Holds numbers
      ((r.modifyClass row fun c => Registry.markMember c sig).gather Class.lateMarks) sigs shut := by
  refine ⟨fun p hp => (size_modifyClass r row _).symm ▸ h.live_lt p hp, h.live_nodup,
    fun p c' hc' => ?_, ?_, rfl, h.signatures_eq, h.closed_eq⟩
  · obtain ⟨c₀, hc₀, ⟨rfl, rfl⟩ | ⟨-, rfl⟩⟩ := classAt?_of_modifyClass hc'
    · cases hc.symm.trans hc₀
      exact marked_markMember (h.marked p c hc) hkept sig
    · exact h.marked p c' hc₀
  · refine Eq.trans (gather_congr (live_modifyClass ..) fun p _ => ?_) h.numbers_eq
    rw [classAt?_modifyClass]
    split
    · rw [Option.map_map]
      simp only [Function.comp_def, numbers_markMember]
    · rfl

theorem link_refused (hlink : Operation.laysOut r .link = false) : final (link r) = r := by
  rw [link_eq]
  split
  · rfl
  split
  · rfl
  · rename_i hopen hroot
    simp_all [Operation.laysOut]

/-- Marking a member of a class that is not registered, or one that the class does not declare. -/
theorem Holds.markElsewhere (h : r.Holds numbers late sigs shut) {row : Nat} {c : Class}
    {sig : Signature} (hc : r.classAt? row = some c) (hkept : c.kept = true)
    (hnone : row ∈ r.live → c.declared? sig = none) :
    (r.modifyClass row fun c => Registry.markMember c sig).Holds numbers late sigs shut := by
  by_cases hlive : row ∈ r.live
  · rw [modifyClass_congr (g := id) hc (markMember_of_undeclared (hnone hlive))]
    exact h.modifyElsewhere (fun _ => rfl) fun _ => id
  · have hlate : (r.modifyClass row fun c => Registry.markMember c sig).gather
        Class.lateMarks = late := by
      refine Eq.trans (gather_congr (live_modifyClass ..) fun p hp => ?_) h.late_eq
      rw [classAt?_modifyClass, if_neg fun heq : row = p => hlive (heq ▸ hp)]
    exact hlate ▸ h.markMember hc hkept sig

theorem Holds.edit (h : r.Holds numbers late sigs shut) {op : Operation} {row : Nat}
    {f : Class → Class} (hedit : Edit r op row f) (hkeep : op.keepsMember r = false) :
    (r.modifyClass row f).Holds numbers late sigs shut := by
  cases hedit with
  | @createMethod _ spec _ =>
      refine h.modifyClass fun c _ => .of_insert (k := spec.toMethod.mark)
        (c.methods.map Method.mark) (c.fields.map Field.mark) rfl ?_ rfl rfl rfl
      simp [Class.marks]
  | @createField _ spec _ =>
      refine h.modifyClass fun c _ => .of_insert (k := spec.toField.mark) c.marks []
        (List.append_nil _).symm ?_ rfl rfl rfl
      simp [Class.marks]
  | createRef => exact h.modifyElsewhere (fun _ => rfl) fun _ => id
  | allocSlot => exact h.modifyElsewhere (fun _ => rfl) fun _ => id
  | keepClass => exact h.modifyElsewhere (fun _ => rfl) fun _ _ => rfl
  | @keepMember _ sig c hopen hc hkept hdropped =>
      refine h.markElsewhere hc hkept fun hlive => ?_
      by_contra hne
      obtain ⟨d, hd⟩ := Option.ne_none_iff_exists'.mp hne
      simp [Operation.keepsMember, hopen, hlive, hc, hkept, hd, hdropped d hd] at hkeep
  | keepRef => exact h.modifyElsewhere (fun _ => rfl) fun _ => id
  | annotate _ hf => exact h.modifyMethod fun m => Method.Annotated.mark_eq (hf m)

/-- Every operation but compaction that neither links nor keeps a member of a registered class leaves
the numbered and the late members alone, whether or not it succeeds. -/
theorem Holds.apply (h : r.Holds numbers late sigs shut) {op : Operation} (hop : op ≠ .compact)
    (hlink : op.laysOut r = false) (hkeep : op.keepsMember r = false) :
    (op.apply r).Holds numbers late sigs shut := by
  refine apply_induction h op (fun hedit => h.edit hedit hkeep) (fun {spec} _ => ?_) ?_
    (fun heq => absurd heq hop) fun _ => final_relocate h fun hw => hw.modifyMethod fun _ => rfl
  · have hstored := h.store (c := spec.toClass r.live.length) rfl
    refine final_createClass h hstored (fun _ => ?_) fun hsame hu => hu.sameButChildren hsame
    refine hstored.enlist spec.name (c := spec.toClass r.live.length)
      (by rw [classAt?_store, if_pos rfl]) (fun hlive => ?_) rfl
    exact Nat.lt_irrefl _ (h.live_lt _ hlive)
  · rintro rfl
    rw [link_refused hlink]
    exact h

end

end Registry

end ClassLinker
