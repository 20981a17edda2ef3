import ClassLinker.Proofs.Registry.Marks
import ClassLinker.Proofs.Registry.Placement
import ClassLinker.Proofs.Registry.Survivors

/-! Which closed registries are laid out. Linking numbers and places every kept member, and what is
kept later has neither a number nor a place until the registry is linked again. Compaction only asks
whether the registry was linked before, so such a member can be left over in a closed registry; it
is the only way for one not to be laid out. -/

namespace ClassLinker

/-! ### The marks of a registry laid out -/

/-- `k'` is `k`, possibly numbered. -/
def Mark.Moved (k k' : Mark) : Prop := k'.kept = k.kept ∧ (k'.linkId = k.linkId ∨ k'.kept = true)

namespace Layout

theorem placeCode_moved (offset native : Nat) (ms : List Method) :
    List.Forall₂ (fun m m' => m.mark.Moved m'.mark) ms (placeCode offset native ms).1 := by
  induction ms generalizing offset native with
  | nil => exact .nil
  | cons m ms ih =>
      unfold placeCode
      split
      · exact .cons ⟨rfl, .inl rfl⟩ (ih _ _)
      · exact .cons ⟨rfl, .inl rfl⟩ (ih _ _)

theorem placeFields_moved (isStatic : Bool) (address : Int) (fs : List Field) :
    List.Forall₂ (fun f f' => f.mark.Moved f'.mark) fs (placeFields isStatic address fs).1 := by
  induction fs generalizing address with
  | nil => exact .nil
  | cons f fs ih =>
      unfold placeFields
      split
      · exact .cons ⟨rfl, .inl rfl⟩ (ih _)
      · exact .cons ⟨rfl, .inl rfl⟩ (ih _)

theorem placeInstance_moved (base own : Int) (fs : List Field) :
    List.Forall₂ (fun f f' => f.mark.Moved f'.mark) fs (placeInstance base own fs).1 := by
  induction fs generalizing own with
  | nil => exact .nil
  | cons f fs ih =>
      unfold placeInstance
      split
      · exact .cons ⟨rfl, .inl rfl⟩ (ih _)
      · exact .cons ⟨rfl, .inl rfl⟩ (ih _)

theorem numberMethods_moved (sigs : List Signature) (ms : List Method) :
    List.Forall₂ (fun m m' => m.mark.Moved m'.mark) ms (numberMethods sigs ms).1 := by
  induction ms generalizing sigs with
  | nil => exact .nil
  | cons m ms ih =>
      unfold numberMethods
      split
      case isTrue hkept => exact .cons ⟨rfl, .inr hkept⟩ (ih _)
      case isFalse => exact .cons ⟨rfl, .inl rfl⟩ (ih _)

theorem numberFields_moved (sigs : List Signature) (fs : List Field) :
    List.Forall₂ (fun f f' => f.mark.Moved f'.mark) fs (numberFields sigs fs).1 := by
  induction fs generalizing sigs with
  | nil => exact .nil
  | cons f fs ih =>
      unfold numberFields
      split
      case isTrue hkept => exact .cons ⟨rfl, .inr hkept⟩ (ih _)
      case isFalse => exact .cons ⟨rfl, .inl rfl⟩ (ih _)

end Layout

namespace Registry

open RegistryM Step Layout

theorem Marked.moved {c c' : Class} (h : c.Marked) (hkept : c'.kept = c.kept)
    (hmethods : List.Forall₂ (fun m m' => m.mark.Moved m'.mark) c.methods c'.methods)
    (hfields : List.Forall₂ (fun f f' => f.mark.Moved f'.mark) c.fields c'.fields) : c'.Marked := by
  have hold : ∀ k' ∈ c'.marks, ∃ k ∈ c.marks, k.Moved k' := by
    intro k' hk'
    rcases List.mem_append.mp hk' with hk' | hk'
    · obtain ⟨m', hm', rfl⟩ := List.mem_map.mp hk'
      obtain ⟨m, hm, hmoved⟩ := forall₂_mem_right hmethods hm'
      exact ⟨m.mark, List.mem_append_left _ (List.mem_map_of_mem hm), hmoved⟩
    · obtain ⟨f', hf', rfl⟩ := List.mem_map.mp hk'
      obtain ⟨f, hf, hmoved⟩ := forall₂_mem_right hfields hf'
      exact ⟨f.mark, List.mem_append_right _ (List.mem_map_of_mem hf), hmoved⟩
  refine ⟨fun k' hk' hk => ?_, fun k' hk' hdropped => ?_⟩
  · obtain ⟨k, hmem, hmoved⟩ := hold k' hk'
    exact hkept.trans (h.owner k hmem (hmoved.1.symm.trans hk))
  · obtain ⟨k, hmem, hmoved, hid | hkept'⟩ := hold k' hk'
    · exact hid.trans (h.unnumbered k hmem (hmoved.symm.trans hdropped))
    · rw [hdropped] at hkept'
      cases hkept'

theorem AllMarked.modifyClass {r : Registry} (h : r.AllMarked) {row : Nat} {f : Class → Class}
    (hf : ∀ {c}, r.classAt? row = some c → c.Marked → (f c).Marked) :
    (r.modifyClass row f).AllMarked := by
  intro p c' hc'
  obtain ⟨c, hc, ⟨rfl, rfl⟩ | ⟨-, rfl⟩⟩ := classAt?_of_modifyClass hc'
  · exact hf hc (h p c hc)
  · exact h p c' hc

section

variable {r : Registry}

theorem forall₂_moved_refl {α : Type} (mark : α → Mark) (xs : List α) :
    List.Forall₂ (fun x x' => (mark x).Moved (mark x')) xs xs :=
  List.forall₂_same.mpr fun _ _ => ⟨rfl, .inl rfl⟩

theorem layCode_allMarked (h : r.AllMarked) (offset native : Nat) (rows : List Nat) :
    (layCode offset native rows r).AllMarked := by
  induction rows generalizing offset native r with
  | nil => exact h
  | cons row rows ih =>
      unfold layCode
      cases hc : r.classAt? row with
      | none => exact ih h _ _
      | some c =>
          refine ih (h.modifyClass fun hc' hmarked => ?_) _ _
          cases hc.symm.trans hc'
          exact Marked.moved hmarked rfl (placeCode_moved _ _ _) (forall₂_moved_refl _ _)

theorem layStatics_allMarked (h : r.AllMarked) (rows : List Nat) : (layStatics rows r).AllMarked := by
  induction rows generalizing r with
  | nil => exact h
  | cons row rows ih =>
      unfold layStatics
      cases hc : r.classAt? row with
      | none => exact ih h
      | some c =>
          have hstep : (r.modifyClass row fun c' => { c' with
              fields := (placeFields true r.staticSize c.fields).1 }).AllMarked := by
            refine h.modifyClass fun hc' hmarked => ?_
            cases hc.symm.trans hc'
            exact Marked.moved hmarked rfl (forall₂_moved_refl _ _) (placeFields_moved _ _ _)
          refine ih ?_
          exact hstep

theorem layInstances_allMarked (h : r.AllMarked) (rows : List Nat) :
    (layInstances rows r).AllMarked := by
  induction rows generalizing r with
  | nil => exact h
  | cons row rows ih =>
      unfold layInstances
      cases hc : r.classAt? row with
      | none => exact ih h
      | some c =>
          refine ih (h.modifyClass fun hc' hmarked => ?_)
          cases hc.symm.trans hc'
          exact Marked.moved hmarked rfl (forall₂_moved_refl _ _) (placeInstance_moved _ _ _)

theorem numberMembers_allMarked (h : r.AllMarked) (rows : List Nat) :
    (numberMembers rows r).AllMarked := by
  induction rows generalizing r with
  | nil => exact h
  | cons row rows ih =>
      unfold numberMembers
      cases hc : r.classAt? row with
      | none => exact ih h
      | some c =>
          have hstep : (r.modifyClass row fun c' => { c' with
              methods := (numberMethods r.signatures c.methods).1
              fields := (numberFields (numberMethods r.signatures c.methods).2 c.fields).1 }).AllMarked := by
            refine h.modifyClass fun hc' hmarked => ?_
            cases hc.symm.trans hc'
            exact Marked.moved hmarked rfl (numberMethods_moved _ _) (numberFields_moved _ _)
          refine ih ?_
          exact hstep

theorem layOut_allMarked (h : r.AllMarked) : r.layOut.AllMarked := by
  have hcode : ({ layCode 0 0 r.keptRows r with staticSize := 0 } : Registry).AllMarked :=
    layCode_allMarked h 0 0 r.keptRows
  have hplaced : ({ r.placed with signatures := [] } : Registry).AllMarked :=
    layInstances_allMarked (layStatics_allMarked hcode _) _
  exact numberMembers_allMarked hplaced _

theorem Resolves.allMarked {l l' : Registry} (h : Resolves r l l') (hl : l.AllMarked) :
    l'.AllMarked := by
  intro row c' hc'
  obtain ⟨c, hc, hmethods, hfields⟩ := h.members hc'
  obtain ⟨c₁, hc₁, hlaid⟩ := h.laid.exists_old hc'
  cases hc.symm.trans hc₁
  exact Marked.moved (hl row c hc) hlaid.kept_eq (hmethods ▸ forall₂_moved_refl _ _)
    (hfields ▸ forall₂_moved_refl _ _)

end

/-! ### What linking settles -/

theorem Numbered.marks {sigs : List Signature} {c : Class} (h : c.Numbered sigs) :
    ∀ k ∈ c.marks, k.kept = true → ∃ n, k.linkId = some n ∧ sigs[n]? = some k.sig := by
  intro k hk hkept
  rcases List.mem_append.mp hk with hk | hk
  · obtain ⟨m, hm, rfl⟩ := List.mem_map.mp hk
    exact h.methods m hm hkept
  · obtain ⟨f, hf, rfl⟩ := List.mem_map.mp hk
    exact h.fields f hf hkept

theorem Numbered.lateMarks_eq_nil {sigs : List Signature} {c : Class} (h : c.Numbered sigs) :
    c.lateMarks = [] := by
  refine List.filter_eq_nil_iff.mpr fun k hk hlate => ?_
  obtain ⟨hkept, hnone⟩ := Bool.and_eq_true_iff.mp hlate
  obtain ⟨n, hn, -⟩ := Numbered.marks h k hk hkept
  rw [hn] at hnone
  cases hnone

theorem Numbered.numbers {sigs : List Signature} {c : Class} (h : c.Numbered sigs)
    (hmarked : c.Marked) : ∀ x ∈ c.numbers, sigs[x.1]? = some x.2.1 := by
  intro x hx
  obtain ⟨k, hk, hnumber⟩ := List.mem_filterMap.mp hx
  obtain ⟨n, hn, rfl⟩ := Option.map_eq_some_iff.mp hnumber
  have hkept : k.kept = true := by
    by_contra hne
    rw [hmarked.unnumbered k hk (Bool.not_eq_true _ ▸ hne)] at hn
    cases hn
  obtain ⟨n', hn', hsig⟩ := Numbered.marks h k hk hkept
  cases hn.symm.trans hn'
  exact hsig

/-- A kept member that is not late is numbered. -/
theorem number_mem {c : Class} (hlate : c.lateMarks = []) {k : Mark} (hk : k ∈ c.marks)
    (hkept : k.kept = true) : ∃ n, k.linkId = some n ∧ (n, k.sig, k.span) ∈ c.numbers := by
  cases hid : k.linkId with
  | none =>
      have hmem : k ∈ c.lateMarks := List.mem_filter.mpr ⟨hk, by simp [Mark.late, hkept, hid]⟩
      rw [hlate] at hmem
      cases hmem
  | some n => exact ⟨n, rfl, List.mem_filterMap.mpr ⟨k, hk, by rw [Mark.number?, hid]; rfl⟩⟩

/-- When every kept member is numbered, the code of the numbered ones is that of the kept ones. -/
theorem numbers_spans {c : Class} (hmarked : c.Marked) (hlate : c.lateMarks = []) :
    (c.numbers.filterMap fun x => x.2.2) = c.spans := by
  have hmethod : ∀ m ∈ c.methods, ((Mark.number? m.mark).bind fun x => x.2.2) =
      if m.kept && m.hasCode then some (m.codeOffset, m.rawCode.length) else none := by
    intro m hm
    have hmem : m.mark ∈ c.marks := List.mem_append_left _ (List.mem_map_of_mem hm)
    cases hkept : m.kept with
    | false =>
        have hid : m.linkId = none := hmarked.unnumbered m.mark hmem hkept
        simp [Mark.number?, Method.mark, hid]
    | true =>
        obtain ⟨n, hn, -⟩ := number_mem hlate hmem hkept
        change m.linkId = some n at hn
        simp [Mark.number?, Method.mark, hn]
  have hfield : ∀ f ∈ c.fields, ((Mark.number? f.mark).bind fun x => x.2.2) = none := by
    intro f _
    cases f.linkId <;> simp [Mark.number?, Field.mark]
  rw [Class.numbers, Class.marks, List.filterMap_filterMap, List.filterMap_append,
    List.filterMap_map, List.filterMap_map, Class.spans, Method.spans, ← List.filterMap_eq_map,
    List.filterMap_filter]
  simp only [Function.comp_def]
  rw [List.filterMap_congr hmethod, List.filterMap_congr hfield, List.filterMap_none,
    List.append_nil]

/-- A registry whose members are numbered and placed as linking does it; `stale` says whether some
were kept since then. -/
structure Settled (r : Registry) (stale : Bool) : Prop where
  held : r.Holds (r.gather Class.numbers) (r.gather Class.lateMarks) r.signatures r.closed
  ids : ∀ x ∈ r.gather Class.numbers, r.signatures[x.1]? = some x.2.1
  code : ∃ size, Consecutive 0 ((r.gather Class.numbers).filterMap fun x => x.2.2) size
  late_iff : r.gather Class.lateMarks = [] ↔ stale = false

theorem mem_gather {β : Type} {r : Registry} {read : Class → List β} {x : β} :
    x ∈ r.gather read ↔ ∃ row c, row ∈ r.live ∧ r.classAt? row = some c ∧ x ∈ read c := by
  simp only [gather, List.mem_flatMap, Prod.exists, mem_classes, and_assoc]

/-- Linking that is not refused settles a registry, wherever it stops. -/
theorem link_settles {r : Registry} {stale : Bool} (h : r.Settled stale) (hopen : r.closed = false)
    (hroot : (r.keptClasses.head?.map fun p => p.2.id) = some 0) :
    (final (link r)).Settled false := by
  have hresolves := final_link hopen hroot
  generalize final (link r) = u at hresolves ⊢
  obtain ⟨hlaid, -, hnumbered⟩ := layOut_spec r
  have hall := hlaid.trans hresolves.laid
  have hmarked : u.AllMarked := hresolves.allMarked (layOut_allMarked h.held.marked)
  have hclass : ∀ row ∈ u.live, ∀ c, u.classAt? row = some c →
      c.Numbered u.signatures ∨ c.kept = false := by
    intro row hrow c hc
    cases hkept : c.kept with
    | false => exact .inr rfl
    | true =>
        obtain ⟨c₀, hc₀, hlaid₀⟩ := hall.exists_old hc
        have hmem : row ∈ r.keptRows := mem_keptRows.mpr
          ⟨hall.live_eq ▸ hrow, c₀, hc₀, hlaid₀.kept_eq.symm.trans hkept⟩
        obtain ⟨c₁, hc₁, hmethods, hfields⟩ := hresolves.members hc
        have hnum := (hnumbered row hmem hc₁).mono hresolves.signatures
        exact .inl ⟨hmethods ▸ hnum.methods, hfields ▸ hnum.fields⟩
  have hlate : ∀ row ∈ u.live, ∀ c, u.classAt? row = some c → c.lateMarks = [] := by
    intro row hrow c hc
    rcases hclass row hrow c hc with hnum | hdropped
    · exact Numbered.lateMarks_eq_nil hnum
    · exact (hmarked row c hc).lateMarks_eq_nil hdropped
  have hnone : u.gather Class.lateMarks = [] := by
    rw [List.eq_nil_iff_forall_not_mem]
    intro k hk
    obtain ⟨row, c, hrow, hc, hmem⟩ := mem_gather.mp hk
    rw [hlate row hrow c hc] at hmem
    cases hmem
  refine ⟨⟨fun row hrow => ?_, hall.live_eq ▸ h.held.live_nodup, hmarked, rfl, rfl, rfl, rfl⟩,
    ?_, ?_, iff_of_true hnone rfl⟩
  · rw [hall.size_eq]
    exact h.held.live_lt row (hall.live_eq ▸ hrow)
  · intro x hx
    obtain ⟨row, c, hrow, hc, hmem⟩ := mem_gather.mp hx
    rcases hclass row hrow c hc with hnum | hdropped
    · exact Numbered.numbers hnum (hmarked row c hc) x hmem
    · rw [(hmarked row c hc).numbers_eq_nil hdropped] at hmem
      cases hmem
  · obtain ⟨size, hsize⟩ := (hresolves.placed h.held.keptRows_nodup).consecutive
    refine ⟨size, ?_⟩
    have hspans : ((u.gather Class.numbers).filterMap fun x => x.2.2) =
        r.keptRows.flatMap u.spansAt := by
      rw [← gather_keptRows fun row c hc => (hmarked row c hc).numbers_eq_nil, gather_eq,
        List.filterMap_flatMap, hall.keptRows_eq]
      refine List.flatMap_congr fun row hrow => ?_
      change (((u.classAt? row).map Class.numbers).getD []).filterMap _ = _
      rw [spansAt]
      cases hc : u.classAt? row with
      | none => rfl
      | some c =>
          have hlive : row ∈ u.live := hall.live_eq ▸ (mem_keptRows.mp hrow).1
          exact numbers_spans (hmarked row c hc) (hlate row hlive c hc)
    rwa [hspans]

/-! ### Runs of operations -/

namespace Operation

/-- Whether a member is left that was kept after the registry was laid out, once an operation is
done. -/
def stale (r : Registry) (op : Operation) (before : Bool) : Bool :=
  !op.laysOut r && (before || op.keepsMember r)

end Operation

/-- Whether a run of operations keeps a member after it lays the registry out for the last time. -/
def staleAfter : Registry → Bool → List Operation → Bool
  | _, stale, [] => stale
  | r, stale, op :: ops => staleAfter (op.apply r) (op.stale r stale) ops

section

variable {r r' : Registry} {stale : Bool}

theorem Settled.of_holds (h : r.Settled stale) {late : List Mark} {shut stale' : Bool}
    (hheld : r'.Holds (r.gather Class.numbers) late r.signatures shut)
    (hlate : late = [] ↔ stale' = false) : r'.Settled stale' := by
  refine ⟨⟨hheld.live_lt, hheld.live_nodup, hheld.marked, rfl, rfl, rfl, rfl⟩, ?_, ?_, ?_⟩
  · rw [hheld.numbers_eq, hheld.signatures_eq]
    exact h.ids
  · rw [hheld.numbers_eq]
    exact h.code
  · rw [hheld.late_eq]
    exact hlate

theorem keepMember_run {row : Nat} {sig : Signature}
    (hkeep : Operation.keepsMember r (.keepMember row sig) = true) :
    (∃ c d, row ∈ r.live ∧ r.classAt? row = some c ∧ c.kept = true ∧ c.declared? sig = some d ∧
      d.kept = false) ∧ Operation.apply r (.keepMember row sig) =
        r.modifyClass row fun c => markMember c sig := by
  simp only [Operation.keepsMember, Bool.and_eq_true, Bool.not_eq_true', Option.any_eq_true,
    List.contains_iff_mem] at hkeep
  obtain ⟨⟨hopen, hrow⟩, c, hc, hkept, d, hd, hdropped⟩ := hkeep
  have hrun : keepMember row sig r = .ok true (r.modifyClass row fun c => markMember c sig) := by
    refine keepMember_ok.mpr ⟨hopen, c, hc, hkept, .inr ⟨fun d' hd' => ?_, rfl, rfl⟩⟩
    cases hd.symm.trans hd'
    exact hdropped
  refine ⟨⟨c, d, hrow, hc, hkept, hd, hdropped⟩, ?_⟩
  rw [Operation.apply, Operation.run, final_discard, hrun, final_ok]

/-- A member kept after linking is neither numbered nor placed. -/
theorem keepMember_settles (h : r.Settled stale) {row : Nat} {sig : Signature}
    (hkeep : Operation.keepsMember r (.keepMember row sig) = true) :
    (Operation.apply r (.keepMember row sig)).Settled true := by
  obtain ⟨⟨c, d, hrow, hc, hkept, hd, hdropped⟩, hrun⟩ := keepMember_run hkeep
  rw [hrun]
  refine h.of_holds (h.held.markMember hc hkept sig) (iff_of_false (fun hnil => ?_) (by decide))
  refine late_markMember (h.held.marked row c hc) hd hdropped (List.eq_nil_iff_forall_not_mem.mpr ?_)
  intro k hk
  have hmem : k ∈ (r.modifyClass row fun c => markMember c sig).gather Class.lateMarks :=
    mem_gather.mpr ⟨row, markMember c sig, hrow, by rw [classAt?_modifyClass, if_pos rfl, hc]; rfl, hk⟩
  rw [hnil] at hmem
  cases hmem

/-- An operation settles what it lays out, and leaves a member behind when it keeps one. -/
theorem Settled.apply (h : r.Settled stale) (op : Operation) :
    (op.apply r).Settled (op.stale r stale) := by
  unfold Operation.stale
  cases hlink : op.laysOut r with
  | true =>
      cases op <;> simp only [Operation.laysOut, Bool.false_eq_true] at hlink
      obtain ⟨hopen, hroot⟩ := Bool.and_eq_true_iff.mp hlink
      exact link_settles h (by simpa using hopen) (of_decide_eq_true hroot)
  | false =>
      cases hkeep : op.keepsMember r with
      | true =>
          cases op <;> simp only [Operation.keepsMember, Bool.false_eq_true] at hkeep
          rw [Bool.or_true]
          exact keepMember_settles h hkeep
      | false =>
          rw [Bool.or_false]
          by_cases hop : op = .compact
          · subst hop
            obtain ⟨shut, hheld, -⟩ := h.held.compact
            exact h.of_holds hheld h.late_iff
          · exact h.of_holds (h.held.apply hop hlink hkeep) h.late_iff

theorem Settled.foldl (h : r.Settled stale) (ops : List Operation) :
    (ops.foldl Operation.apply r).Settled (staleAfter r stale ops) := by
  induction ops generalizing r stale with
  | nil => exact h
  | cons op ops ih => exact ih (h.apply op)

theorem settled_empty : ({} : Registry).Settled false := by
  refine ⟨⟨nofun, List.nodup_nil, fun row c hc => ?_, rfl, rfl, rfl, rfl⟩, nofun, ⟨0, .nil 0⟩,
    iff_of_true rfl rfl⟩
  cases hc

/-! ### Closed registries -/

/-- Every member of the class in a row is kept. -/
def KeptAt (r : Registry) (row : Nat) : Prop :=
  ∀ c, r.classAt? row = some c → ∀ k ∈ c.marks, k.kept = true

theorem KeptAt.modifyClass {p : Nat} (h : r.KeptAt p) {row : Nat} {f : Class → Class}
    (hf : ∀ c, (f c).marks = c.marks) : (r.modifyClass row f).KeptAt p := by
  intro c' hc'
  obtain ⟨c, hc, ⟨-, rfl⟩ | ⟨-, rfl⟩⟩ := classAt?_of_modifyClass hc'
  · rw [hf]
    exact h c hc
  · exact h c' hc

theorem KeptAt.modifyMethod {p : Nat} (h : r.KeptAt p) {row : Nat} {sig : Signature}
    {f : Method → Method} (hf : ∀ m : Method, (f m).mark = m.mark) :
    (r.modifyMethod row sig f).KeptAt p := by
  refine KeptAt.modifyClass (f := fun c => { c with
    methods := c.methods.map fun m => if m.sig = sig then f m else m }) h fun c => ?_
  exact marks_modifyMethod hf c

/-- Pruning a class drops its members that are not kept, and no member of another class. -/
theorem pruneClass_keptAt {ids : Renumbering} {row : Nat} {u v : Registry}
    (hok : pruneClass ids row u = .ok () v) :
    (∀ p, u.KeptAt p → v.KeptAt p) ∧ v.KeptAt row := by
  have hfinal : (∀ p, u.KeptAt p → (final (pruneClass ids row u)).KeptAt p) ∧
      (final (pruneClass ids row u)).KeptAt row := by
    refine final_pruneClass (P := fun w => (∀ p, u.KeptAt p → w.KeptAt p) ∧ w.KeptAt row)
      (fun hnone => ⟨fun _ hp => hp, fun c hc => ?_⟩) (fun c isKept hc => ⟨fun p hp => ?_, ?_⟩)
      fun hf ⟨hw, hrow⟩ => ?_
    · cases hnone.symm.trans hc
    · intro c' hc'
      obtain ⟨c₀, hc₀, ⟨-, rfl⟩ | ⟨-, rfl⟩⟩ := classAt?_of_modifyClass hc'
      · rw [marks_stripped]
        exact fun k hk => (List.mem_filter.mp hk).2
      · exact hp c' hc₀
    · intro c' hc'
      rw [classAt?_modifyClass, if_pos rfl] at hc'
      obtain ⟨c₀, -, rfl⟩ := Option.map_eq_some_iff.mp hc'
      rw [marks_stripped]
      exact fun k hk => (List.mem_filter.mp hk).2
    · exact ⟨fun p hp => (hw p hp).modifyClass fun c => (hf c).1,
        hrow.modifyClass fun c => (hf c).1⟩
  rwa [hok] at hfinal

/-- Only kept members are left after compaction. -/
theorem compact_kept (h : r.Settled stale) (hok : compact r = .ok () r') :
    ∀ row ∈ r'.live, r'.KeptAt row := by
  obtain ⟨-, -, -, r₁, r₂, hprune, hrelocate, rfl⟩ := compact_eq_ok.mp hok
  have hpruned : ∀ row ∈ r.keptRows, r₁.KeptAt row :=
    (forM_collects (R := fun u v => ∀ p, u.KeptAt p → v.KeptAt p) (Q := fun row u => u.KeptAt row)
      (fun _ hp => hp) (fun huv hvw p hp => hvw p (huv p hp)) (fun _ _ huv hu => huv _ hu)
      (fun _ _ hstep => pruneClass_keptAt hstep) hprune).2
  have htabled : (tabled r.keptRows r₁).live = r.keptRows ∧
      ∀ row ∈ r.keptRows, (tabled r.keptRows r₁).KeptAt row := by
    obtain ⟨rows, hframe, -⟩ := buildTables_frame { r₁ with live := r.keptRows }
    refine ⟨by rw [tabled, hframe], fun row hrow c' hc' => ?_⟩
    rw [tabled, classAt?_buildTables h.held.keptRows_nodup row] at hc'
    obtain ⟨c, hc, rfl⟩ := Option.map_eq_some_iff.mp hc'
    rw [if_pos hrow]
    exact hpruned row hrow c hc
  have hrelocated := final_relocate (P := fun u => u.live = r.keptRows ∧
    ∀ row ∈ r.keptRows, u.KeptAt row) htabled
    fun hu => ⟨hu.1, fun row hrow => (hu.2 row hrow).modifyMethod fun _ => rfl⟩
  rw [hrelocate] at hrelocated
  intro row hrow
  exact hrelocated.2 row (hrelocated.1 ▸ hrow)

/-- Only compaction closes a registry. -/
theorem Settled.closed_eq (h : r.Settled stale) {op : Operation} (hop : op ≠ .compact) :
    (op.apply r).closed = r.closed := by
  cases hlink : op.laysOut r with
  | true =>
      cases op <;> simp only [Operation.laysOut, Bool.false_eq_true] at hlink
      exact (link_laid r).closed_eq
  | false =>
      cases hkeep : op.keepsMember r with
      | true =>
          cases op <;> simp only [Operation.keepsMember, Bool.false_eq_true] at hkeep
          rw [(keepMember_run hkeep).2]
          rfl
      | false => exact (h.held.apply hop hlink hkeep).closed_eq

theorem Settled.compact_ok (h : r.Settled stale) (hopen : r.closed = false)
    (hclosed : (Operation.apply r .compact).closed = true) : ∃ r', compact r = .ok () r' := by
  obtain ⟨shut, hheld, rfl | hok⟩ := h.held.compact
  · cases hopen.symm.trans (hheld.closed_eq.symm.trans hclosed)
  · exact hok

theorem Settled.kept_apply (h : r.Settled stale)
    (hkept : r.closed = true → ∀ row ∈ r.live, r.KeptAt row) (op : Operation)
    (hclosed : (op.apply r).closed = true) : ∀ row ∈ (op.apply r).live, (op.apply r).KeptAt row := by
  by_cases hshut : r.closed = true
  · exact apply_of_closed (P := fun u => ∀ row ∈ u.live, u.KeptAt row) hshut (hkept hshut)
      (fun hf hu row hrow => (hu row hrow).modifyMethod fun m => Method.Annotated.mark_eq (hf m)) op
  · by_cases hop : op = .compact
    · subst hop
      obtain ⟨r', hok⟩ := h.compact_ok (Bool.eq_false_of_not_eq_true hshut) hclosed
      rw [Operation.apply, Operation.run, hok]
      exact compact_kept h hok
    · rw [h.closed_eq hop] at hclosed
      exact absurd hclosed hshut

/-- A closed registry has only kept members, whatever led to it. -/
theorem Settled.kept_foldl (h : r.Settled stale)
    (hkept : r.closed = true → ∀ row ∈ r.live, r.KeptAt row) (ops : List Operation)
    (hclosed : (ops.foldl Operation.apply r).closed = true) :
    ∀ row ∈ (ops.foldl Operation.apply r).live, (ops.foldl Operation.apply r).KeptAt row := by
  induction ops generalizing r stale with
  | nil => exact hkept hclosed
  | cons op ops ih => exact ih (h.apply op) (h.kept_apply hkept op) hclosed

/-- The registered members of a registry have the link ids of their signatures, and the code of the
methods stands one after the other in the order of the classes and of their methods. -/
structure LaidOut (r : Registry) : Prop where
  methods : ∀ p ∈ r.classes, ∀ m ∈ p.2.methods,
    ∃ n, m.linkId = some n ∧ r.signatures[n]? = some m.sig
  fields : ∀ p ∈ r.classes, ∀ f ∈ p.2.fields,
    ∃ n, f.linkId = some n ∧ r.signatures[n]? = some f.sig
  code : ∃ size, Consecutive 0 (r.gather fun c =>
    (c.methods.filter Method.hasCode).map fun m => (m.codeOffset, m.rawCode.length)) size

/-- A settled registry whose members are all kept is laid out unless some were kept late. -/
theorem Settled.laidOut_iff (h : r.Settled stale) (hkept : ∀ row ∈ r.live, r.KeptAt row) :
    r.LaidOut ↔ stale = false := by
  rw [← h.late_iff]
  constructor
  · rintro ⟨hmethods, hfields, -⟩
    rw [List.eq_nil_iff_forall_not_mem]
    intro k hk
    obtain ⟨row, c, hrow, hc, hmem⟩ := mem_gather.mp hk
    obtain ⟨hmark, hlate⟩ := List.mem_filter.mp hmem
    have hid : k.linkId = none := Option.isNone_iff_eq_none.mp (Bool.and_eq_true_iff.mp hlate).2
    have hclass := mem_classes.mpr ⟨hrow, hc⟩
    rcases List.mem_append.mp hmark with hmark | hmark
    · obtain ⟨m, hm, rfl⟩ := List.mem_map.mp hmark
      obtain ⟨n, hn, -⟩ := hmethods _ hclass m hm
      cases hn.symm.trans hid
    · obtain ⟨f, hf, rfl⟩ := List.mem_map.mp hmark
      obtain ⟨n, hn, -⟩ := hfields _ hclass f hf
      cases hn.symm.trans hid
  · intro hnone
    have hlate : ∀ {row c}, (row, c) ∈ r.classes → c.lateMarks = [] := by
      intro row c hmem
      obtain ⟨hrow, hc⟩ := mem_classes.mp hmem
      refine List.eq_nil_iff_forall_not_mem.mpr fun k hk => ?_
      have hk : k ∈ r.gather Class.lateMarks := mem_gather.mpr ⟨row, c, hrow, hc, hk⟩
      rw [hnone] at hk
      cases hk
    have hkeep : ∀ {row c}, (row, c) ∈ r.classes → ∀ k ∈ c.marks, k.kept = true :=
      fun hmem => hkept _ (mem_classes.mp hmem).1 _ (mem_classes.mp hmem).2
    have hid : ∀ {row c}, (row, c) ∈ r.classes → ∀ k ∈ c.marks,
        ∃ n, k.linkId = some n ∧ r.signatures[n]? = some k.sig := by
      intro row c hmem k hk
      obtain ⟨n, hn, hnumber⟩ := number_mem (hlate hmem) hk (hkeep hmem k hk)
      obtain ⟨hrow, hc⟩ := mem_classes.mp hmem
      exact ⟨n, hn, h.ids _ (mem_gather.mpr ⟨row, c, hrow, hc, hnumber⟩)⟩
    refine ⟨fun p hp m hm => hid hp m.mark (List.mem_append_left _ (List.mem_map_of_mem hm)),
      fun p hp f hf => hid hp f.mark (List.mem_append_right _ (List.mem_map_of_mem hf)), ?_⟩
    obtain ⟨size, hsize⟩ := h.code
    refine ⟨size, ?_⟩
    rw [gather, List.filterMap_flatMap] at hsize
    have hspans : ∀ p ∈ r.classes, (p.2.numbers.filterMap fun x => x.2.2) =
        (p.2.methods.filter Method.hasCode).map fun m => (m.codeOffset, m.rawCode.length) := by
      intro p hp
      rw [numbers_spans (h.held.marked _ _ (mem_classes.mp hp).2) (hlate hp), Class.spans,
        Method.spans]
      congr 1
      refine List.filter_congr fun m hm => ?_
      have hm : m.kept = true := hkeep hp m.mark (List.mem_append_left _ (List.mem_map_of_mem hm))
      rw [hm, Bool.true_and]
    rwa [List.flatMap_congr hspans] at hsize

end

/-- The classes are registered under the ids that their places give them. -/
def InIdOrder (r : Registry) : Prop :=
  ∀ i row c, r.live[i]? = some row → r.classAt? row = some c → c.id = i

theorem InIdOrder.modifyMethod {r : Registry} (h : r.InIdOrder) (row : Nat) (sig : Signature)
    (f : Method → Method) : (r.modifyMethod row sig f).InIdOrder := by
  intro i p c' hi hc'
  obtain ⟨c, hc, ⟨-, rfl⟩ | ⟨-, rfl⟩⟩ := classAt?_of_modifyClass hc'
  · exact (h i p c hi hc : c.id = i)
  · exact h i p c' hi hc

theorem compact_inIdOrder {r r' : Registry} (hr : r.WellFormed) (hok : compact r = .ok () r') :
    r'.InIdOrder := by
  obtain ⟨-, -, -, r₁, r₂, hprune, hrelocate, rfl⟩ := compact_eq_ok.mp hok
  have htabled : (tabled r.keptRows r₁).InIdOrder :=
    fun _ _ _ hi hc => (tabledTo_of_prune hr hprune).id_eq hr hi hc
  have hrelocated := final_relocate (P := InIdOrder) htabled fun hu => hu.modifyMethod _ _ _
  rw [hrelocate] at hrelocated
  exact hrelocated

theorem Reachable.inIdOrder {r : Registry} (h : r.Reachable) : r.InIdOrder := by
  induction h with
  | empty => exact fun _ _ _ hi => nomatch hi
  | @step r op hr hwhole ih =>
      by_cases hshut : r.closed = true
      · exact apply_of_closed (P := InIdOrder) hshut ih (fun _ hu => hu.modifyMethod _ _ _) op
      have hsound : r.Sound := hr.sound.resolve_left hshut
      by_cases hop : op = .compact
      · subst hop
        cases hrun : Registry.compact r with
        | ok u r' =>
            rw [Operation.apply, Operation.run, hrun]
            exact compact_inIdOrder hsound.wellFormed hrun
        | error e r' =>
            rw [Operation.apply, Operation.run, hrun, final_error, hwhole rfl e r' hrun]
            exact ih
      · exact fun _ _ _ hi hc => (hsound.apply hop).wellFormed.id_eq hi hc

/-- A closed registry, however operations led to it, is laid out exactly when no member was kept
after the registry was linked for the last time. The order in which the code stands is that of the
class ids, unless a compaction failed after it had begun. -/
theorem closed_laidOut (ops : List Operation) (hclosed : (ops.foldl Operation.apply {}).closed = true) :
    ((ops.foldl Operation.apply {}).LaidOut ↔ staleAfter {} false ops = false) ∧
      ((ops.foldl Operation.apply {}).Reachable → (ops.foldl Operation.apply {}).InIdOrder) := by
  have hkept := settled_empty.kept_foldl (fun hshut => nomatch hshut) ops hclosed
  exact ⟨(settled_empty.foldl ops).laidOut_iff hkept, Reachable.inIdOrder⟩

/-- A registry whose classes are renumbered when it is closed. -/
def renumberedClosed : Registry :=
  (renumberedOps ++ [Operation.link, Operation.compact]).foldl Operation.apply {}

theorem closed_laidOut_renumbered :
    renumberedClosed.closed = true ∧ renumberedClosed.LaidOut ∧ renumberedClosed.InIdOrder := by
  have hclosed : renumberedClosed.closed = true := by decide +kernel
  obtain ⟨hlaid, horder⟩ :=
    closed_laidOut (renumberedOps ++ [Operation.link, Operation.compact]) hclosed
  have hlinked : ((renumberedOps ++ [Operation.link]).foldl Operation.apply {}).Reachable :=
    Reachable.empty.foldl _ (by decide)
  have hreachable : renumberedClosed.Reachable := by
    refine .step .compact hlinked fun _ e r' hfail => ?_
    obtain ⟨u, hok⟩ := (settled_empty.foldl (renumberedOps ++ [Operation.link])).compact_ok
      (by decide +kernel) hclosed
    cases hok.symm.trans hfail
  exact ⟨hclosed, hlaid.mpr (by decide +kernel), horder hreachable⟩

/-- A method is kept after the registry is linked. -/
def lateOps : List Operation := [
  .bareClass "R" [], .bareMethod 0 "m" [0xB1], .keepClass 0, .link,
  .keepMember 0 ⟨"m", "()V"⟩, .compact]

/-- A registry can be closed with a kept method that has neither a link id nor a place for its
code. -/
theorem closed_not_laidOut : (lateOps.foldl Operation.apply {}).closed = true ∧
    (∃ c m, (lateOps.foldl Operation.apply {}).classAt? 0 = some c ∧ m ∈ c.methods ∧
      m.kept = true ∧ m.hasCode = true ∧ m.linkId = none ∧ m.codeOffset = none) ∧
    ¬ (lateOps.foldl Operation.apply {}).LaidOut := by
  have hclass : ((lateOps.foldl Operation.apply {}).classAt? 0).any (fun c => c.methods.any fun m =>
      m.kept && m.hasCode && m.linkId = none && m.codeOffset = none) = true := by decide +kernel
  simp only [Option.any_eq_true, List.any_eq_true, Bool.and_eq_true, decide_eq_true_eq] at hclass
  obtain ⟨c, hc, m, hm, ⟨⟨hkept, hcode⟩, hid⟩, hoffset⟩ := hclass
  refine ⟨by decide +kernel, ⟨c, m, hc, hm, hkept, hcode, hid, hoffset⟩, fun hlaid => ?_⟩
  have hlive : 0 ∈ (lateOps.foldl Operation.apply {}).live := by decide +kernel
  obtain ⟨n, hn, -⟩ := hlaid.methods _ (mem_classes.mpr ⟨hlive, hc⟩) m hm
  cases hn.symm.trans hid

end Registry

end ClassLinker
