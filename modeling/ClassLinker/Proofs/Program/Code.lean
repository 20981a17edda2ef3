import ClassLinker.Proofs.Program.Classes

/-! The code of a linked program. Whatever an instruction of the final code refers to is there: the
classes and the literals at their slots in the class of the method, the members at their places in
its member table, and the classes of the arrays that it makes. -/

namespace ClassLinker

open Registry InitOrder Closure Step

/-- What an instruction refers to besides members is there: a class or a literal is kept at its slot,
and there is a class for the array that it makes. -/
structure Instruction.Backed (has : Text → Prop) (c : Class) (i : Instruction) : Prop where
  classSlot : Opcode.operand i.op = .classSlot →
    ∃ slot : Nat, i.slot? = some slot ∧ c.KeepsAt slot .cls
  constantSlot : Opcode.operand i.op = .constantSlot →
    ∃ slot : Nat, i.slot? = some slot ∧ (c.KeepsAt slot .cls ∨ c.KeepsAt slot .literal)
  arrayType : Opcode.operand i.op = .arrayType →
    ∃ (type : UInt8) (p : Primitive), i.arrayType? = some type ∧ p.code = type.toNat ∧
      has (Primitive.arrayName p.code)

theorem Instruction.Backed.mono {has : Text → Prop} {c c' : Class} {i : Instruction}
    (h : i.Backed has c)
    (hkeeps : ∀ {slot sort}, c.KeepsAt slot sort → c'.KeepsAt slot sort) : i.Backed has c' where
  classSlot hop := by
    obtain ⟨slot, hslot, hkept⟩ := h.classSlot hop
    exact ⟨slot, hslot, hkeeps hkept⟩
  constantSlot hop := by
    obtain ⟨slot, hslot, hkept⟩ := h.constantSlot hop
    exact ⟨slot, hslot, hkept.imp hkeeps hkeeps⟩
  arrayType := h.arrayType

theorem Primitive.code_of_ofCode? {n : Int} {p : Primitive} (h : ofCode? n = some p) :
    p.code = n := by
  simpa using List.find?_some h

/-- An instruction that loads a constant uses what is at its slot. -/
theorem constant_mem_ofMethod {code : Bytes} {handlers : List Handler} {throws : List Int}
    {i : Instruction} (hi : i ∈ (Code.decode code).instrs)
    (hop : Opcode.operand i.op = .constantSlot) {slot : Nat} (hslot : i.slot? = some slot) :
    Use.constant slot ∈ Use.ofMethod code handlers throws := by
  refine mem_ofMethod hi ?_
  unfold Use.ofInstruction
  rw [hop, hslot]
  exact List.mem_append_right _ List.mem_cons_self

section Settled

variable {s : Source} {l : Linker} {row : Nat} {c : Class} {ms : List Member} {deps : List RefAddr}

theorem keepsAt_of_use (hs : Settled s l) (hc : l.registry.classAt? row = some c) {m : Method}
    (hmet : l.MethodMet m) {uses : List Use} (hrecords : m.Records c row (l.arraysOf row) uses)
    {u : Use} (hu : u ∈ uses) {slot : Int} {pos : Nat} {ref : Reference}
    (hknown : c.known? slot = some (pos, ref))
    (hnames : u.Names c row (l.arraysOf row) ⟨row, pos⟩) : c.KeepsAt slot ref.body.sort := by
  obtain ⟨hmem, hkept, hslot⟩ := mem_references_of_use hs hc hmet hrecords hu hknown hnames
  exact ⟨pos, ref, hmem, hkept, hslot, rfl⟩

/-- A class that a method uses is kept at its slot. -/
theorem keepsAt_of_classAt (hs : Settled s l) (hc : l.registry.classAt? row = some c) {m : Method}
    (hmet : l.MethodMet m) {uses : List Use} (hrecords : m.Records c row (l.arraysOf row) uses)
    {slot : Int} (hu : Use.classAt slot ∈ uses) : c.KeepsAt slot .cls := by
  obtain ⟨pos, ref, target, id, hknown, hbody⟩ := hrecords.fits _ hu
  have hkeeps := keepsAt_of_use hs hc hmet hrecords hu hknown
    ⟨rfl, (Class.known?_eq_some.mp hknown).1⟩
  rwa [hbody] at hkeeps

/-- What the kept methods of a settled link refer to is kept. -/
theorem backed_of_settled (hs : Settled s l) (hc : l.registry.classAt? row = some c) {m : Method}
    (hm : m ∈ c.methods) (hkept : m.kept = true) {i : Instruction}
    (hi : i ∈ (Code.decode m.rawCode).instrs) : i.Backed l.Has c := by
  obtain ⟨-, hmet, throws, hrecords⟩ := exists_uses hs hc hm hkept
  have huse : ∀ {u}, u ∈ Use.ofInstruction i → u ∈ Use.ofMethod m.rawCode m.handlers throws :=
    fun hu => mem_ofMethod hi hu
  refine ⟨fun hop => ?_, fun hop => ?_, fun hop => ?_⟩
  · have hslot : i.slot? = some (bigEndian (i.operands.take 2)) := by
      unfold Instruction.slot?
      rw [hop]
    have hu : Use.classAt (i.slot?.getD 0) ∈ Use.ofMethod m.rawCode m.handlers throws := by
      refine huse ?_
      unfold Use.ofInstruction
      rw [hop]
      exact List.mem_append_right _ List.mem_cons_self
    rw [hslot, Option.getD_some] at hu
    exact ⟨_, hslot, keepsAt_of_classAt hs hc hmet hrecords hu⟩
  · obtain ⟨slot, hslot⟩ : ∃ slot, i.slot? = some slot := by
      unfold Instruction.slot?
      rw [hop]
      exact ⟨_, rfl⟩
    have hu : Use.constant slot ∈ Use.ofMethod m.rawCode m.handlers throws :=
      constant_mem_ofMethod hi hop hslot
    obtain ⟨pos, ref, hknown, hbody⟩ := hrecords.fits _ hu
    have hkeeps := keepsAt_of_use hs hc hmet hrecords hu hknown
      ⟨rfl, (Class.known?_eq_some.mp hknown).1⟩
    refine ⟨slot, hslot, ?_⟩
    rcases hbody with ⟨v, hbody⟩ | ⟨target, id, hbody⟩
    · rw [hbody] at hkeeps
      exact .inr hkeeps
    · rw [hbody] at hkeeps
      exact .inl hkeeps
  · have hu : Use.primitives (i.arrayType?.getD 0).toNat ∈
        Use.ofMethod m.rawCode m.handlers throws := by
      refine huse ?_
      unfold Use.ofInstruction
      rw [hop]
      exact List.mem_append_right _ (List.mem_singleton_self _)
    obtain ⟨p, hp⟩ := hrecords.fits _ hu
    have hcode := Primitive.code_of_ofCode? hp
    have hhas := hmet.arrays _ ((hrecords.arrays _).mpr hu)
    cases htype : i.arrayType? with
    | none =>
        rw [htype] at hcode
        cases p <;> cases hcode
    | some type =>
        rw [htype, Option.getD_some] at hcode hhas
        exact ⟨type, p, rfl, hcode, hcode ▸ hhas⟩

/-- The class that a handler of a kept method of a settled link catches is kept. -/
theorem catch_of_settled (hs : Settled s l) (hc : l.registry.classAt? row = some c) {m : Method}
    (hm : m ∈ c.methods) (hkept : m.kept = true) {handler : Handler}
    (hhandler : handler ∈ m.handlers) (hslot : handler.catchSlot ≠ 0) :
    c.KeepsAt handler.catchSlot .cls := by
  obtain ⟨-, hmet, throws, hrecords⟩ := exists_uses hs hc hm hkept
  have hcaught : Use.classAt handler.catchSlot ∈ Use.ofHandlers m.handlers := by
    refine List.mem_flatMap.mpr ⟨handler, hhandler, ?_⟩
    rw [if_pos hslot]
    exact List.mem_singleton_self _
  exact keepsAt_of_classAt hs hc hmet hrecords
    (List.mem_append_left _ (List.mem_append_right _ hcaught))

/-- The startup method only makes calls. -/
theorem backed_startup (has : Text → Prop) (c' : Class) {n : Nat} {i : Instruction}
    (hi : i ∈ (Code.decode (startupMethod c n deps).rawCode).instrs) : i.Backed has c' := by
  rw [startupMethod_rawCode, Code.decode_invokeAll] at hi
  rcases operand_callInstructions hi with hop | hop
  all_goals
    constructor
    all_goals
      rw [hop]
      intro hother
      cases hother

/-- What the kept methods of a settled link with a startup method refer to is kept. -/
theorem backed_started (hs : Settled s l) (hc : l.registry.classAt? row = some c) {p : Nat}
    {cp : Class} (hcp : (l.registry.started row ms deps).classAt? p = some cp) {m : Method}
    (hm : m ∈ cp.methods) (hkept : m.kept = true) {i : Instruction}
    (hi : i ∈ (Code.decode m.rawCode).instrs) : i.Backed l.Has cp := by
  have hindexed := hs.wired.tidy.indexed hc
  rcases method_started hindexed hc hcp hm with ⟨c', hc', hm', hmem⟩ | ⟨rfl, rfl⟩
  · refine (backed_of_settled hs hc' hm' hkept hi).mono ?_
    rintro slot sort ⟨pos, ref, hold, hrest⟩
    exact ⟨pos, ref, hmem hold, hrest⟩
  · exact backed_startup _ _ hi

/-- The class that a handler of a kept method of a settled link with a startup method catches is
kept: the startup method has no handlers. -/
theorem catch_started (hs : Settled s l) (hc : l.registry.classAt? row = some c) {p : Nat}
    {cp : Class} (hcp : (l.registry.started row ms deps).classAt? p = some cp) {m : Method}
    (hm : m ∈ cp.methods) (hkept : m.kept = true) {handler : Handler}
    (hhandler : handler ∈ m.handlers) (hslot : handler.catchSlot ≠ 0) :
    cp.KeepsAt handler.catchSlot .cls := by
  rcases method_started (hs.wired.tidy.indexed hc) hc hcp hm with
    ⟨c', hc', hm', hmem⟩ | ⟨rfl, rfl⟩
  · obtain ⟨pos, ref, hold, hrest⟩ := catch_of_settled hs hc' hm' hkept hhandler hslot
    exact ⟨pos, ref, hmem hold, hrest⟩
  · cases hhandler

end Settled

/-- The entry at an index of the member table of a class leads to a member: its target is the id of a
class, and the class whose id says where the member is declared declares it, with the link id of the
entry. -/
def Registry.EntryLinked (r : Registry) (c : Class) (index : Nat) : Prop :=
  ∃ entry m target declaring link row ct row' co d, c.entry? index = some entry ∧
    entry.body = .memberRef m (some target) (some declaring) (some link) (some index) ∧
    row ∈ r.live ∧ r.classAt? row = some ct ∧ ct.id = target ∧
    row' ∈ r.live ∧ r.classAt? row' = some co ∧ co.id = declaring ∧
    co.declared? m.sig = some d ∧ d.linkId = some link ∧ link < r.signatures.length

/-- Relocation keeps the length of the code. -/
theorem Registry.Relocates.length_eq {remap : Nat → Except Inconsistency Nat} {m m' : Method}
    (h : Relocates remap m m') (hcode : m.hasCode = true) : m'.code.length = m'.rawCode.length := by
  rw [Relocates, if_pos hcode] at h
  obtain ⟨code, hrelocate, rfl⟩ := h
  obtain ⟨hcomplete, js, hjs, rfl⟩ := Code.relocate_ok.mp hrelocate
  exact (Code.decodes hcomplete).relocated_length hjs

/-- A kept member of a class has the link id of its signature. -/
theorem Class.Numbered.linkId {sigs : List Signature} {c : Class} (h : c.Numbered sigs)
    {sig : Signature} {d : Declaration} (hd : c.declared? sig = some d) (hkept : d.kept = true) :
    ∃ n, d.linkId = some n ∧ sigs[n]? = some sig := by
  rcases mem_of_declared? hd with ⟨m, hm, rfl, rfl⟩ | ⟨f, hf, rfl, rfl⟩
  · exact h.methods m hm hkept
  · exact h.fields f hf hkept

namespace Program.Built

variable {s : Source} {o : LinkOptions} {p : Program} {l : Linker} {c : Class}
  {deps : List RefAddr} {r₁ : Registry} {row : Nat} {c₂ : Class}

/-- The class that declares what a reference names declares it, in the end, with its link id. -/
theorem exists_declaration (h : Built s o p l c deps r₁) {row' : Nat} {co : Class} {m : Member}
    {d : Declaration} (hlive : row' ∈ p.registry.live)
    (hco : p.registry.classAt? row' = some co) (hfind : r₁.findMember m = .ok (row', d))
    (hkept : d.kept = true) {link : Nat} (hlink : p.registry.signatures[link]? = some m.sig) :
    ∃ d', co.declared? m.sig = some d' ∧ d'.linkId = some link := by
  obtain ⟨-, c₁, -, hc₁, hd⟩ := findMember_ok hfind
  obtain ⟨c₁', hrow', hc₁', hcompacted⟩ := h.compactedTo.exists_old hlive hco
  cases hc₁.symm.trans hc₁'
  rw [h.linkedTo.laid.keptRows_eq] at hrow'
  obtain ⟨n, hn, hsig⟩ := (h.linkedTo.numbered hrow' hc₁).linkId hd hkept
  rw [h.compactedTo.signatures_eq] at hlink
  have hlt := (List.getElem?_eq_some_iff.mp hsig).1
  have hsame : n = link :=
    (List.getElem?_inj hlt h.linkedTo.nodup).mp (hsig.trans hlink.symm)
  have hrel := hcompacted.declared?_rel (h.wellFormed.signatures_nodup hc₁) m.sig
  rw [hd, Option.filter_some_pos hkept] at hrel
  obtain ⟨d', hd', hreld⟩ := rel_some hrel
  exact ⟨d', hd', hreld.linkId_eq.trans (hsame ▸ hn)⟩

/-- The slot of a member that a class refers to is compacted to an entry that leads to it. -/
theorem exists_entryLinked (h : Built s o p l c deps r₁) {c₁ : Class} (hrow : row ∈ r₁.keptRows)
    (hc₁ : r₁.classAt? row = some c₁) (hc₂ : p.registry.classAt? row = some c₂) {pos slot : Nat}
    {ref : Reference} {m : Member} (hm : c₁.Mentions pos ref m) (hslot : ref.slot = slot) :
    ∃ index, p.registry.compactSlot c₂.id slot = .ok index ∧ index < c₂.table.length ∧
      p.registry.EntryLinked c₂ index := by
  obtain ⟨index, hindex, hlt, hstands⟩ := exists_standsFor h.linkedTo h.tidy.wellFormed
    h.compactedTo hrow hc₁ hc₂ hm hslot
  obtain ⟨entry, target, declaring, link, hentry, hbody, ⟨rowt, ct, hfindt, hct, -, hidt⟩, hsig,
    rowd, d, co, hfindd, hlived, hco, hidd⟩ := hstands.exists_entry
  obtain ⟨t, dc, k, n, hbodyr⟩ := hm.body
  have hres := h.linkedTo.resolvedIn hrow hc₁ hm.mem hm.kept
  rw [hbodyr] at hres
  obtain ⟨_, _, row', _, d', _, _, _, _, _, hfind', _, hkept, _, _, _⟩ := hres
  cases hfindd.symm.trans hfind'
  obtain ⟨d', hd', hlink⟩ := h.exists_declaration hlived hco hfindd hkept hsig
  have hlivet : rowt ∈ p.registry.live := by
    rw [h.compactedTo.live_eq]
    exact (h.compactedTo.find?_iff.mp hfindt).2
  exact ⟨index, hindex, hlt, entry, m, target, declaring, link, rowt, ct, rowd, co, d', hentry,
    hbody, hlivet, hct, hidt, hlived, hco, hidd, hd', hlink, (List.getElem?_eq_some_iff.mp hsig).1⟩

/-- The final code of a method decodes, and what its instructions refer to is there. -/
theorem code_backed (h : Built s o p l c deps r₁) (hrow : row ∈ p.registry.live)
    (hc₂ : p.registry.classAt? row = some c₂) {m : Method} (hm : m ∈ c₂.methods)
    (hcode : m.hasCode = true) : (Code.decode m.code).ending = .complete ∧
      ∀ i ∈ (Code.decode m.code).instrs, i.Backed l.Has c₂ ∧
        (Opcode.operand i.op = .memberSlot → ∃ index, i.slot? = some index ∧
          index < c₂.table.length ∧ p.registry.EntryLinked c₂ index) := by
  obtain ⟨c₀, c₁, hc₀, hc₁, hkeptRow, hlaid, hcompacted⟩ := h.exists_origin hrow hc₂
  obtain ⟨m₁, hm₁, hrelocates⟩ := forall₂_mem_right hcompacted.methods hm
  obtain ⟨hm₁, hkept₁⟩ := List.mem_filter.mp hm₁
  obtain ⟨m₀, hm₀, hlaidm⟩ := forall₂_mem_right hlaid.methods hm₁
  have hraw : m₀.rawCode = m₁.rawCode := by rw [hlaidm]
  have hcode₁ : m₁.hasCode = true := by
    rw [hrelocates.frame] at hcode
    exact hcode
  rw [Relocates, if_pos hcode₁] at hrelocates
  obtain ⟨code, hrelocate, rfl⟩ := hrelocates
  obtain ⟨hcomplete, js, hjs, rfl⟩ := Code.relocate_ok.mp hrelocate
  have hdecodes := Code.decodes hcomplete
  have hdecode : Code.decode (js.flatMap Instruction.bytes) = ⟨js, .complete⟩ :=
    Code.decode_of_decodes (hdecodes.relocated hjs)
  show (Code.decode (js.flatMap Instruction.bytes)).ending = _ ∧ _
  refine ⟨by rw [hdecode], fun j hj => ?_⟩
  replace hj : j ∈ (Code.decode (js.flatMap Instruction.bytes)).instrs := hj
  rw [hdecode] at hj
  obtain ⟨i, hi, hij⟩ := forall₂_mem_right hjs hj
  by_cases hop : Opcode.operand i.op = .memberSlot
  · -- A member instruction has its new slot, and refers to nothing else.
    obtain ⟨index, hindex, rfl⟩ := (Instruction.relocate_member hop).mp hij
    obtain ⟨pos, ref, named, hmentions, hslot⟩ := exists_mentions h.compactedTo h.wellFormed
      hkeptRow hc₁ hc₂ hindex
    obtain ⟨index', hindex', hlt, hlinked⟩ := h.exists_entryLinked hkeptRow hc₁ hc₂ hmentions hslot
    cases hindex.symm.trans hindex'
    have hlt' := hlt.trans (hcompacted.table_length_lt
      (h.wellFormed.indexed ((mem_keptRows.mp hkeptRow).1) hc₁))
    refine ⟨?_, fun _ => ⟨index, ?_, hlt, hlinked⟩⟩
    · constructor
      all_goals
        show Opcode.operand i.op = _ → _
        rw [hop]
        intro hother
        cases hother
    · exact Instruction.slot?_withSlot hop hlt'
  · cases (Instruction.relocate_other hop).mp hij
    refine ⟨?_, fun hmember => absurd hmember hop⟩
    have hkept₀ : m₀.kept = true := hlaidm.kept_eq ▸ hkept₁
    have hbacked := backed_started h.settled h.entryClass hc₀ hm₀ hkept₀ (hraw ▸ hi)
    exact hbacked.mono fun hkeeps => hcompacted.keepsAt (hkeeps.laid hlaid)

/-- The final code of a method is as long as it was declared. -/
theorem code_length (h : Built s o p l c deps r₁) (hrow : row ∈ p.registry.live)
    (hc₂ : p.registry.classAt? row = some c₂) {m : Method} (hm : m ∈ c₂.methods)
    (hcode : m.hasCode = true) : m.code.length = m.rawCode.length := by
  obtain ⟨c₀, c₁, -, -, -, -, hcompacted⟩ := h.exists_origin hrow hc₂
  obtain ⟨m₁, -, hrelocates⟩ := forall₂_mem_right hcompacted.methods hm
  refine hrelocates.length_eq ?_
  rwa [hrelocates.frame] at hcode

/-- The class that a handler catches is kept, and it is found at its slot. -/
theorem catch_found (h : Built s o p l c deps r₁) (hrow : row ∈ p.registry.live)
    (hc₂ : p.registry.classAt? row = some c₂) {m : Method} (hm : m ∈ c₂.methods)
    {handler : Handler} (hhandler : handler ∈ m.handlers) (hslot : handler.catchSlot ≠ 0) :
    ∃ name target, ((p.registry.refAddr? c₂.id handler.catchSlot).bind p.registry.refAt?).map
      Reference.body = some (.classRef name target) := by
  obtain ⟨c₀, c₁, hc₀, hc₁, hkeptRow, hlaid, hcompacted⟩ := h.exists_origin hrow hc₂
  obtain ⟨m₁, hm₁, hrelocates⟩ := forall₂_mem_right hcompacted.methods hm
  obtain ⟨hm₁, hkept₁⟩ := List.mem_filter.mp hm₁
  obtain ⟨m₀, hm₀, hlaidm⟩ := forall₂_mem_right hlaid.methods hm₁
  have hhandlers : m.handlers = m₀.handlers := by rw [hrelocates.frame, hlaidm]
  have hkeeps := hcompacted.keepsAt ((catch_started h.settled h.entryClass hc₀ hm₀
    (hlaidm.kept_eq ▸ hkept₁) (hhandlers ▸ hhandler) hslot).laid hlaid)
  obtain ⟨pos, ref, hmem, -, hrefslot, hsort⟩ := hkeeps
  have hlookup := hcompacted.lookup_slot
    (h.wellFormed.indexed (mem_keptRows.mp hkeptRow).1 hc₁) hmem
  rw [hrefslot] at hlookup
  rw [h.refAddr?_eq hrow hc₂, hlookup, Option.map_some, Option.bind_some,
    refAt?_eq_some.mpr ⟨c₂, hc₂, (Class.mem_references.mp hmem).2⟩, Option.map_some]
  cases hbody : ref.body with
  | classRef name target => exact ⟨name, target, rfl⟩
  | memberRef m t d k i =>
      rw [hbody] at hsort
      cases hsort
  | literal v =>
      rw [hbody] at hsort
      cases hsort

end Program.Built

end ClassLinker
