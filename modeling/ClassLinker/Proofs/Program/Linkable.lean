import ClassLinker.Proofs.InitOrder.Schedule
import ClassLinker.Proofs.InitOrder.Startup
import ClassLinker.Proofs.Instruction.Calls
import ClassLinker.Proofs.Program.Resolve

/-! What was resolved can be linked. Every kept reference of a settled link leads to something kept,
and so do the calls of the startup method; every member slot in its code is that of a kept
reference. So once the startup method is added, linking and compacting do not fail. -/

namespace ClassLinker

open Registry InitOrder

/-- A kept declaration of the class that a member names. -/
def Registry.DeclaresKept (r : Registry) (m : Member) : Prop :=
  ∃ row c d, r.find? m.className = some row ∧ r.classAt? row = some c ∧
    c.declared? m.sig = some d ∧ d.kept = true

theorem Registry.DeclaresEntry.declaresKept {r : Registry} {main : Member}
    (h : r.DeclaresEntry main) : r.DeclaresKept main := by
  obtain ⟨row, c, m, hrow, hc, hm, hkept, -⟩ := h
  exact ⟨row, c, .method m, hrow, hc, hm, hkept⟩

/-- The initializers that the startup method calls are declared where it calls them. -/
theorem declaresKept_of_initialized {r : Registry} {order : List Text} {name : Text}
    (hname : name ∈ initializedClasses r order) :
    r.DeclaresKept ⟨name, Signature.initializer⟩ := by
  obtain ⟨-, hkept⟩ := List.mem_filter.mp hname
  cases hc : (r.find? name).bind r.classAt? with
  | none => simp [hc] at hkept
  | some c =>
      obtain ⟨row, hrow, hclass⟩ := Option.bind_eq_some_iff.mp hc
      cases hd : c.declared? Signature.initializer with
      | none => simp [hc, hd] at hkept
      | some d => exact ⟨row, c, d, hrow, hclass, hd, by simpa [hc, hd] using hkept⟩

theorem declaresKept_of_call {r : Registry} {main : Member} (hmain : r.DeclaresKept main)
    {order : List Text} {m : Member} (hm : m ∈ startupCalls r main order) : r.DeclaresKept m := by
  rcases List.mem_append.mp hm with hm | hm
  · obtain ⟨name, hname, rfl⟩ := List.mem_map.mp hm
    exact declaresKept_of_initialized hname
  · rw [List.mem_singleton.mp hm]
    exact hmain

/-! ### The registry with the startup method -/

section Started

variable {r : Registry} {row : Nat} {c : Class} {ms : List Member} {deps : List RefAddr}

/-- The registry whose class in a row makes some calls in its startup method. -/
def Registry.started (r : Registry) (row : Nat) (ms : List Member) (deps : List RefAddr) : Registry :=
  r.modifyClass row (withStartup ms deps)

/-- What a class declares it still declares when it gets a startup method. -/
theorem declared?_started (hc : r.classAt? row = some c)
    (hnew : c.declared? Signature.startup = none) {p : Nat} {cp : Class}
    (hcp : r.classAt? p = some cp) {sig : Signature} {d : Declaration}
    (hd : cp.declared? sig = some d) :
    ∃ cp', (r.started row ms deps).classAt? p = some cp' ∧ cp'.kept = cp.kept ∧
      cp'.declared? sig = some d := by
  by_cases hp : row = p
  · subst hp
    cases hc.symm.trans hcp
    refine ⟨_, by rw [started, classAt?_modifyClass, if_pos rfl, hc, Option.map_some],
      kept_withStartup ms deps c, ?_⟩
    · have hsig : sig ≠ Signature.startup := by
        rintro rfl
        rw [hnew] at hd
        cases hd
      rw [declared?_withStartup hnew, if_neg hsig]
      exact hd
  · exact ⟨cp, by rw [started, classAt?_modifyClass, if_neg hp]; exact hcp, rfl, hd⟩

theorem aligned_started (hc : r.classAt? row = some c) (ms : List Member) (deps : List RefAddr)
    (sig : Signature) :
    Aligned sig (fun p => p = row ∧ sig = Signature.startup) r (r.started row ms deps) := by
  refine ⟨fun hfind => hfind, fun {p cp} hcp => ?_⟩
  by_cases hp : row = p
  · subst hp
    cases hc.symm.trans hcp
    refine ⟨_, by rw [started, classAt?_modifyClass, if_pos rfl, hc, Option.map_some], ?_⟩
    rw [withStartup_frame]
    refine ⟨rfl, rfl, fun hsig => ?_, fun hsig => ?_⟩
    · simp only [Class.signatures, List.map_append, List.mem_append] at hsig ⊢
      exact hsig.imp_left .inl
    · simp only [Class.signatures, List.map_append, List.mem_append, List.map_singleton,
        List.mem_singleton] at hsig ⊢
      rcases hsig with (hsig | hsig) | hsig
      · exact .inl (.inl hsig)
      · exact .inr ⟨trivial, hsig⟩
      · exact .inl (.inr hsig)
  · refine ⟨cp, by rw [started, classAt?_modifyClass, if_neg hp]; exact hcp, rfl, rfl, id, .inl⟩

/-- A lookup that found something kept finds something kept. -/
theorem exists_findMember_started (hr : r.Tidy) (hc : r.classAt? row = some c)
    (hnew : c.declared? Signature.startup = none) {m : Member} {p : Nat} {d : Declaration}
    (hfind : r.findMember m = .ok (p, d)) (hkept : r.KeepsMember p m.sig) :
    ∃ q d', (r.started row ms deps).findMember m = .ok (q, d') ∧ d'.kept = true := by
  obtain ⟨q, d', hfound, hq⟩ := (aligned_started hc ms deps m.sig).findMember hr.wellFormed
    hr.hierarchy hfind
  obtain ⟨-, cq, -, hcq, hd'⟩ := findMember_ok hfound
  refine ⟨q, d', hfound, ?_⟩
  rcases hq with rfl | ⟨rfl, hsig⟩
  · obtain ⟨cp, dp, hcp, hdp, hkeptp⟩ := hkept
    obtain ⟨cp', hcp', -, hdp'⟩ := declared?_started hc hnew hcp hdp
    cases hcq.symm.trans hcp'
    cases hd'.symm.trans hdp'
    exact hkeptp
  · rw [Registry.started, classAt?_modifyClass, if_pos rfl, hc, Option.map_some] at hcq
    cases hcq
    rw [hsig, declared?_withStartup hnew, if_pos rfl] at hd'
    cases hd'
    rfl

theorem exists_classAt?_started (p : Nat) {cp : Class} (hcp : r.classAt? p = some cp) :
    ∃ cp', (r.started row ms deps).classAt? p = some cp' ∧ cp'.kept = cp.kept := by
  rw [Registry.started, classAt?_modifyClass, hcp]
  split
  · exact ⟨_, rfl, kept_withStartup ms deps cp⟩
  · exact ⟨cp, rfl, rfl⟩

end Started

section Settled

open Closure Linker

variable {s : Source} {l : Linker} {row : Nat} {c : Class} {ms : List Member} {deps : List RefAddr}

theorem exists_keptTarget (hw : l.Wired s) {name : Text} (hname : l.Has name) :
    ∃ p cp, (l.registry.started row ms deps).find? name = some p ∧
      (l.registry.started row ms deps).classAt? p = some cp ∧ cp.kept = true := by
  obtain ⟨p, hp⟩ := hname
  obtain ⟨cp, hcp, -⟩ := hw.tidy.exists_class hp
  obtain ⟨cp', hcp', hkept⟩ := exists_classAt?_started p hcp
  exact ⟨p, cp', hp, hcp', hkept.trans (hw.kept hcp)⟩

/-- A reference that needs nothing more can be resolved. -/
theorem resolvable_of_refMet (hw : l.Wired s) (hc : l.registry.classAt? row = some c)
    (hnew : c.declared? Signature.startup = none) {ref : Reference} (href : l.RefMet [] ref) :
    (l.registry.started row ms deps).Resolvable ref.body := by
  unfold RefMet at href
  cases hbody : ref.body with
  | literal v => exact trivial
  | classRef target id =>
      rw [hbody] at href
      exact exists_keptTarget hw href
  | memberRef m t d k i =>
      rw [hbody] at href
      rcases href with hnone | ⟨p, d, hfind, hkept⟩
      · cases hnone
      · exact ⟨exists_keptTarget hw (exists_find?_of_findMember hfind),
          exists_findMember_started hw.tidy hc hnew hfind hkept⟩

/-- A call of something that its class declares and keeps can be resolved. -/
theorem resolvable_call (hw : l.Wired s) (hc : l.registry.classAt? row = some c)
    (hnew : c.declared? Signature.startup = none) {m : Member} (hm : l.registry.DeclaresKept m) :
    (l.registry.started row ms deps).Resolvable (.memberRef m none none none none) := by
  obtain ⟨p, cp, d, hp, hcp, hd, hkept⟩ := hm
  obtain ⟨cp', hcp', -, hd'⟩ := declared?_started hc hnew hcp hd
  exact ⟨exists_keptTarget hw ⟨p, hp⟩, p, d, findMember_of_declared hp hcp' hd', hkept⟩

/-- The kept references of a settled link with a startup method can be resolved. -/
theorem resolvable_started (hs : Settled s l) (hc : l.registry.classAt? row = some c)
    (hnew : c.declared? Signature.startup = none)
    (hms : ∀ m ∈ ms, l.registry.DeclaresKept m) {p pos : Nat} {cp : Class} {ref : Reference}
    (hcp : (l.registry.started row ms deps).classAt? p = some cp)
    (hmem : (pos, ref) ∈ cp.references) (hkept : ref.kept = true) :
    (l.registry.started row ms deps).Resolvable ref.body := by
  have hold : ∀ {p pos : Nat} {cp : Class}, l.registry.classAt? p = some cp →
      (pos, ref) ∈ cp.references → (l.registry.started row ms deps).Resolvable ref.body :=
    fun {p pos cp} hcp hmem => resolvable_of_refMet hs.wired hc hnew <| hs.complete.refs
      (refAt?_eq_some.mpr ⟨cp, hcp, (Class.mem_references.mp hmem).2⟩ :
        l.registry.refAt? ⟨p, pos⟩ = some ref) hkept
  obtain ⟨cq, hcq, ⟨rfl, rfl⟩ | ⟨-, rfl⟩⟩ := classAt?_of_modifyClass hcp
  · cases hc.symm.trans hcq
    have hlt : ∀ pos ∈ c.listed, pos < c.pool.size := fun _ h =>
      (hs.wired.tidy.indexed hc).listed_lt h
    rcases (Class.mem_references_addCalls hlt).mp hmem with hmem | ⟨i, m, hm, -, rfl⟩
    · exact hold hc hmem
    · exact resolvable_call hs.wired hc hnew (hms m (List.mem_of_getElem? hm))
  · exact hold hcq hmem

/-! ### Code -/

theorem Registry.CodeResolved.laid {c c' : Class} {code : Bytes} (h : CodeResolved c code)
    (hlaid : c.Laid c') : CodeResolved c' code := by
  refine ⟨h.complete, fun i hi hop => ?_⟩
  obtain ⟨pos, ref, m, t, d, k, n, hmem, hkept, hslot, hbody⟩ := h.slots i hi hop
  obtain ⟨⟨pos', ref'⟩, hmem', rfl, hlaidr⟩ := forall₂_mem_left hlaid.references hmem
  obtain ⟨t', d', k', hbody'⟩ := hlaidr.member hbody
  exact ⟨_, ref', m, t', d', k', n, hmem', hlaidr.kept_eq.trans hkept,
    hlaidr.slot_eq.trans hslot, hbody'⟩

theorem Registry.CodeResolved.mono {c c' : Class} {code : Bytes} (h : CodeResolved c code)
    (hmem : ∀ {pos ref}, (pos, ref) ∈ c.references → (pos, ref) ∈ c'.references) :
    CodeResolved c' code := by
  refine ⟨h.complete, fun i hi hop => ?_⟩
  obtain ⟨pos, ref, m, t, d, k, n, hold, hrest⟩ := h.slots i hi hop
  exact ⟨pos, ref, m, t, d, k, n, hmem hold, hrest⟩

/-- What a kept method of a settled link uses is recorded, and what it needs is there. -/
theorem exists_uses (hs : Settled s l) (hc : l.registry.classAt? row = some c) {m : Method}
    (hm : m ∈ c.methods) (hkept : m.kept = true) :
    (Code.decode m.rawCode).ending = .complete ∧ l.MethodMet m ∧ ∃ throws,
      m.Records c row (l.arraysOf row) (Use.ofMethod m.rawCode m.handlers throws) := by
  rcases hs.wired.origin hc with ⟨d, -, hdesc⟩ | harray
  case inr =>
      rw [harray.methods_eq] at hm
      cases hm
  obtain ⟨decl, -, hdescm⟩ := forall₂_mem_right hdesc.methods hm
  exact ⟨hdescm.complete, (hs.complete.methods hc hm hkept).resolve_left id, decl.throws,
    hdescm.records⟩

/-- The reference that a method uses is a kept one, in the slot that is used. -/
theorem mem_references_of_use (hs : Settled s l) (hc : l.registry.classAt? row = some c)
    {m : Method} (hmet : l.MethodMet m) {uses : List Use}
    (hrecords : m.Records c row (l.arraysOf row) uses) {u : Use} (hu : u ∈ uses) {slot : Int}
    {pos : Nat} {ref : Reference} (hknown : c.known? slot = some (pos, ref))
    (hnames : u.Names c row (l.arraysOf row) ⟨row, pos⟩) :
    (pos, ref) ∈ c.references ∧ ref.kept = true ∧ ref.slot = slot := by
  obtain ⟨hlookup, hpool⟩ := Class.known?_eq_some.mp hknown
  obtain ⟨hlisted, ref', hpool', hslot⟩ := (hs.wired.tidy.indexed hc).lookup_iff.mp hlookup
  cases hpool.symm.trans hpool'
  obtain ⟨ref', href', hkept⟩ := hmet.refs ((hrecords.refs _).mpr ⟨u, hu, hnames⟩)
  obtain ⟨c', hc', hpool'⟩ := refAt?_eq_some.mp href'
  cases hc.symm.trans hc'
  cases hpool.symm.trans hpool'
  exact ⟨Class.mem_references.mpr ⟨hlisted, hpool⟩, hkept, hslot⟩

theorem mem_ofMethod {code : Bytes} {handlers : List Handler} {throws : List Int} {u : Use}
    {i : Instruction} (hi : i ∈ (Code.decode code).instrs) (hu : u ∈ Use.ofInstruction i) :
    u ∈ Use.ofMethod code handlers throws :=
  List.mem_append_left _ (List.mem_append_left _ (List.mem_flatMap.mpr ⟨i, hi, hu⟩))

/-- The member slots in a kept method of a settled link are those of kept references. -/
theorem codeResolved_of_settled (hs : Settled s l) (hc : l.registry.classAt? row = some c)
    {m : Method} (hm : m ∈ c.methods) (hkept : m.kept = true) : CodeResolved c m.rawCode := by
  obtain ⟨hcomplete, hmet, throws, hrecords⟩ := exists_uses hs hc hm hkept
  refine ⟨hcomplete, fun i hi hop => ?_⟩
  have huse : Use.member (i.slot?.getD 0) ∈ Use.ofMethod m.rawCode m.handlers throws := by
    refine mem_ofMethod hi ?_
    unfold Use.ofInstruction
    rw [hop]
    exact List.mem_append_right _ (List.mem_singleton_self _)
  rw [Instruction.slot?_of_member hop, Option.getD_some] at huse
  obtain ⟨pos, ref, target, t, dc, k, n, hknown, hbody⟩ := hrecords.fits _ huse
  obtain ⟨hmem, hkeptr, hslotr⟩ := mem_references_of_use hs hc hmet hrecords huse hknown
    ⟨rfl, (Class.known?_eq_some.mp hknown).1⟩
  exact ⟨pos, ref, target, t, dc, k, n, hmem, hkeptr, hslotr, hbody⟩

/-- A method of a class with its startup method is one that the class had, with its references, or
the startup method. -/
theorem method_started (hindexed : c.Indexed) (hc : l.registry.classAt? row = some c) {p : Nat}
    {cp : Class} (hcp : (l.registry.started row ms deps).classAt? p = some cp) {m : Method}
    (hm : m ∈ cp.methods) :
    (∃ c', l.registry.classAt? p = some c' ∧ m ∈ c'.methods ∧
      ∀ {pos ref}, (pos, ref) ∈ c'.references → (pos, ref) ∈ cp.references) ∨
    cp = withStartup ms deps c ∧ m = startupMethod c ms.length deps := by
  obtain ⟨cq, hcq, ⟨rfl, rfl⟩ | ⟨-, rfl⟩⟩ := classAt?_of_modifyClass hcp
  · cases hc.symm.trans hcq
    rw [withStartup_frame] at hm
    rcases List.mem_append.mp hm with hm | hm
    · refine .inl ⟨c, hc, hm, fun {pos ref} hmem => ?_⟩
      exact (Class.mem_references_addCalls fun _ h => hindexed.listed_lt h).mpr (.inl hmem)
    · exact .inr ⟨rfl, List.mem_singleton.mp hm⟩
  · exact .inl ⟨cp, hcq, hm, id⟩

/-- The slots of the startup method are those of its calls. -/
theorem codeResolved_startup (hindexed : c.Indexed) (hroom : c.maxSlot + ms.length ≤ lastSlot) :
    CodeResolved (withStartup ms deps c) (startupMethod c ms.length deps).rawCode := by
  have hdecode := Code.decode_invokeAll (slotNumbers c ms.length)
  have hmax := hindexed.maxSlot_nonneg
  refine ⟨by rw [startupMethod_rawCode, hdecode], fun i hi hop => ?_⟩
  rw [startupMethod_rawCode, hdecode] at hi
  obtain ⟨slot, hslot, hoperands⟩ := mem_callInstructions hi hop
  obtain ⟨k, hk, rfl⟩ := List.mem_map.mp hslot
  have hlt : k < ms.length := List.mem_range.mp hk
  refine ⟨c.pool.size + k, callRef c.id (c.maxSlot + 1 + k) ms[k], ms[k], none, none, none, none,
    ?_, rfl, ?_, rfl⟩
  · exact (Class.mem_references_addCalls fun _ h => hindexed.listed_lt h).mpr
      (.inr ⟨k, ms[k], List.getElem?_eq_getElem hlt, rfl, rfl⟩)
  · unfold lastSlot at hroom
    rw [hoperands, take_twoBytes, bigEndian_twoBytes (by omega)]
    simp only [callRef]
    omega

/-! ### Linking and compacting -/

/-- The first class of a registry is the root, so it is kept when that class is. -/
theorem rootKept_of_head {r : Registry} (hr : r.WellFormed) (hhead : r.live.head? = some row)
    (hc : r.classAt? row = some c) (hkept : c.kept = true) : r.RootKept := by
  obtain ⟨rest, hlive⟩ := List.head?_eq_some_iff.mp hhead
  have hclasses : ∃ rest, r.keptClasses = (row, c) :: rest := by
    simp only [keptClasses, classes, hlive, List.filterMap_cons, hc, Option.map_some,
      List.filter_cons, hkept, if_true]
    exact ⟨_, rfl⟩
  obtain ⟨others, hclasses⟩ := hclasses
  have hid : c.id = 0 := hr.id_eq (i := 0) (by rw [hlive]; rfl) hc
  have hrow : r.keptRows[0]? = some row := by
    rw [keptRows, hclasses]
    rfl
  refine ⟨by rw [hclasses, List.head?_cons, Option.map_some, hid], ?_⟩
  have hnew := lookup_newIds hr hrow hc
  rwa [hid] at hnew

theorem kept_started (hw : l.Wired s) {p : Nat} {cp : Class}
    (hcp : (l.registry.started row ms deps).classAt? p = some cp) : cp.kept = true := by
  rw [Registry.started, classAt?_modifyClass] at hcp
  split at hcp
  · obtain ⟨c, hc, rfl⟩ := Option.map_eq_some_iff.mp hcp
    exact (kept_withStartup ms deps c).trans (hw.kept hc)
  · exact hw.kept hcp

theorem Registry.Tidy.exists_root {r : Registry} (hr : r.Tidy) (hc : r.classAt? row = some c) :
    r.live.head? = some 0 ∧ ∃ root, r.classAt? 0 = some root := by
  have hpos : 0 < r.rows.size := Nat.lt_of_le_of_lt (Nat.zero_le _) (classAt?_lt hc)
  refine ⟨?_, exists_classAt? hpos⟩
  rw [hr.live_eq, List.head?_range, if_neg (Nat.pos_iff_ne_zero.mp hpos)]

theorem exists_root_started (hc : l.registry.classAt? row = some c)
    (htidy : (l.registry.started row ms deps).Tidy) :
    (l.registry.started row ms deps).live.head? = some 0 ∧
      ∃ root, (l.registry.started row ms deps).classAt? 0 = some root := by
  obtain ⟨c', hc', -⟩ := exists_classAt?_started row hc
  exact htidy.exists_root hc'

/-- A settled link with a startup method can be linked. -/
theorem exists_link_started (hs : Settled s l) (hc : l.registry.classAt? row = some c)
    (hnew : c.declared? Signature.startup = none) (hms : ∀ m ∈ ms, l.registry.DeclaresKept m)
    (htidy : (l.registry.started row ms deps).Tidy) :
    ∃ r, link (l.registry.started row ms deps) = .ok () r := by
  obtain ⟨hhead, root, hroot⟩ := exists_root_started hc htidy
  refine exists_link htidy.isOpen
    (rootKept_of_head htidy.wellFormed hhead hroot (kept_started hs.wired hroot)).1 ?_
  intro p cp pos ref _ hcp hmem hkept
  exact resolvable_started hs hc hnew hms hcp hmem hkept

/-- A settled link with a startup method can be compacted once it is linked. -/
theorem exists_compact_started (hs : Settled s l) (hc : l.registry.classAt? row = some c)
    (hroom : c.maxSlot + ms.length ≤ lastSlot) (htidy : (l.registry.started row ms deps).Tidy)
    {r₁ : Registry} (hlink : link (l.registry.started row ms deps) = .ok () r₁) :
    ∃ r₂, compact r₁ = .ok () r₂ := by
  have hindexed := hs.wired.tidy.indexed hc
  have hlinked := link_spec hlink
  have hr₁ := hlinked.laid.wellFormed htidy.wellFormed
  have hkept : ∀ {p cp}, r₁.classAt? p = some cp → cp.kept = true := by
    intro p cp hcp
    obtain ⟨cp₀, hcp₀, hlaid⟩ := hlinked.laid.exists_old hcp
    exact hlaid.kept_eq.trans (kept_started hs.wired hcp₀)
  have hroot : r₁.RootKept := by
    obtain ⟨hhead, root, hroot⟩ := exists_root_started hc htidy
    obtain ⟨root', hroot', -⟩ := hlinked.laid.classes hroot
    rw [← hlinked.laid.live_eq] at hhead
    exact rootKept_of_head hr₁ hhead hroot' (hkept hroot')
  refine exists_compact hr₁ (hlinked.laid.closed_eq.trans htidy.isOpen) hlinked.linked hroot ?_ ?_
  · intro p cp pos ref hp hcp hmem hkeptr
    exact exists_renumbered hr₁ (fun _ h => hkept h) (hlinked.resolvedIn hp hcp hmem hkeptr)
  · intro p cp m _ hcp hm hkeptm _
    obtain ⟨cp₀, hcp₀, hlaid⟩ := hlinked.laid.exists_old hcp
    obtain ⟨m₀, hm₀, hlaidm⟩ := forall₂_mem_right hlaid.methods hm
    have hraw : m.rawCode = m₀.rawCode := by rw [hlaidm]
    rw [hraw]
    refine Registry.CodeResolved.laid ?_ hlaid
    have hkept₀ : m₀.kept = true := hlaidm.kept_eq ▸ hkeptm
    rcases method_started hindexed hc hcp₀ hm₀ with ⟨c', hc', hm', hmem⟩ | ⟨rfl, rfl⟩
    · exact (codeResolved_of_settled hs hc' hm' hkept₀).mono hmem
    · exact codeResolved_startup hindexed hroom

end Settled

end ClassLinker
