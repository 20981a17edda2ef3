import ClassLinker.Proofs.Program.Code

/-! The literals of a linked program. A pool entry with a literal is registered with its kind and
value, an instruction that loads it keeps it, and neither the layout nor compaction changes a literal
or moves it to another slot; the instructions that load literals stay as they are declared. -/

namespace ClassLinker

open Registry InitOrder Closure

/-- A class keeps a literal at a slot. -/
def Class.KeepsLiteral (c : Class) (slot : Int) (v : Literal) : Prop :=
  ∃ pos ref, (pos, ref) ∈ c.references ∧ ref.kept = true ∧ ref.slot = slot ∧ ref.body = .literal v

section

variable {c c' : Class} {slot : Int} {v : Literal}

theorem RefBody.eq_literal_of_bare {body : RefBody} (h : body.bare = .literal v) :
    body = .literal v := by
  cases body <;> cases h
  rfl

theorem Class.KeepsLiteral.laid (h : c.KeepsLiteral slot v) (hlaid : c.Laid c') :
    c'.KeepsLiteral slot v := by
  obtain ⟨pos, ref, hmem, hkept, hslot, hbody⟩ := h
  obtain ⟨⟨pos', ref'⟩, hmem', -, hlaidr⟩ := forall₂_mem_left hlaid.references hmem
  refine ⟨pos', ref', hmem', hlaidr.kept_eq.trans hkept, hlaidr.slot_eq.trans hslot, ?_⟩
  refine RefBody.eq_literal_of_bare ?_
  rw [hlaidr.body, hbody]
  rfl

theorem Class.KeepsLiteral.compacted {ids : Renumbering}
    {remap : Nat → Nat → Except Inconsistency Nat} (h : c.KeepsLiteral slot v)
    (hcompacted : Compacted ids remap c c') : c'.KeepsLiteral slot v := by
  obtain ⟨pos, ref, hmem, hkept, hslot, hbody⟩ := h
  obtain ⟨body, index, hrenumbered, hmem'⟩ := hcompacted.exists_reference hmem hkept
  rw [hbody] at hrenumbered
  cases (hrenumbered : body = .literal v)
  exact ⟨pos, _, hmem', hkept, hslot, rfl⟩

end

/-- The literals that are registered are the values that are declared, each of its declared kind. -/
theorem PoolItem.body?_constant {kind : Int} {value : Option Literal} {body : RefBody}
    (h : (constant kind value).body? = some body) :
    ∃ v, value = some v ∧ literalKind? kind = some v.kind ∧ body = .literal v := by
  cases value with
  | none => cases h
  | some v =>
      by_cases hkind : literalKind? kind = some v.kind
      · rw [body?, if_pos hkind] at h
        exact ⟨v, rfl, hkind, (Option.some.inj h).symm⟩
      · rw [body?, if_neg hkind] at h
        cases h

section Settled

variable {s : Source} {l : Linker} {row : Nat} {c : Class}

/-- An instruction of a kept method of a settled link that loads a literal keeps it. -/
theorem literal_of_settled (hs : Settled s l) (hc : l.registry.classAt? row = some c) {m : Method}
    (hm : m ∈ c.methods) (hkept : m.kept = true) {i : Instruction}
    (hi : i ∈ (Code.decode m.rawCode).instrs) (hop : Opcode.operand i.op = .constantSlot)
    {slot : Nat} (hslot : i.slot? = some slot) {d : ClassDecl} (hload : s.load c.name = .ok d)
    {kind : Int} {value : Option Literal} (hp : ⟨slot, .constant kind value⟩ ∈ d.pool) :
    ∃ v, value = some v ∧ PoolItem.literalKind? kind = some v.kind ∧ c.KeepsLiteral slot v := by
  rcases hs.wired.origin hc with ⟨d', hload', hdesc⟩ | harray
  case inr =>
      rw [harray.methods_eq] at hm
      cases hm
  cases hload.symm.trans hload'
  obtain ⟨pos, ref, hknown, hbody⟩ := hdesc.holds _ hp
  obtain ⟨v, hvalue, hkind, hbody⟩ := PoolItem.body?_constant hbody
  obtain ⟨-, hmet, throws, hrecords⟩ := exists_uses hs hc hm hkept
  obtain ⟨hmem, hkeptr, hslotr⟩ := mem_references_of_use hs hc hmet hrecords
    (constant_mem_ofMethod hi hop hslot) hknown ⟨rfl, (Class.known?_eq_some.mp hknown).1⟩
  exact ⟨v, hvalue, hkind, pos, ref, hmem, hkeptr, hslotr, hbody⟩

end Settled

namespace Program.Built

variable {s : Source} {o : LinkOptions} {p : Program} {l : Linker} {c : Class}
  {deps : List RefAddr} {r₁ : Registry} {row : Nat} {c₂ : Class}

/-- A method without code has none in the end. -/
theorem code_eq_nil (h : Built s o p l c deps r₁) (hrow : row ∈ p.registry.live)
    (hc₂ : p.registry.classAt? row = some c₂) {m : Method} (hm : m ∈ c₂.methods)
    (hcode : m.hasCode = false) : m.code = [] := by
  obtain ⟨c₀, c₁, hc₀, hc₁, -, hlaid, hcompacted⟩ := h.exists_origin hrow hc₂
  obtain ⟨m₁, hm₁, hrelocates⟩ := forall₂_mem_right hcompacted.methods hm
  obtain ⟨m₀, hm₀, hlaidm⟩ := forall₂_mem_right hlaid.methods (List.mem_of_mem_filter hm₁)
  have hcode₁ : m₁.hasCode = false := by
    rwa [hrelocates.frame] at hcode
  rw [Relocates, if_neg (by simp [hcode₁])] at hrelocates
  subst hrelocates
  have hcode₀ : m₀.hasCode = false := by
    rwa [hlaidm] at hcode
  have hrelocated : m.relocated = m₀.relocated := by rw [hlaidm]
  have hnone : m₀.relocated = none := by
    have hindexed := h.settled.wired.tidy.indexed h.entryClass
    rcases method_started hindexed h.entryClass hc₀ hm₀ with ⟨c', hc', hm', -⟩ | ⟨-, rfl⟩
    · rcases h.settled.wired.origin hc' with ⟨d, -, hdesc⟩ | harray
      · obtain ⟨decl, -, hdescm⟩ := forall₂_mem_right hdesc.methods hm'
        rw [hdescm.frame]
        rfl
      · rw [harray.methods_eq] at hm'
        cases hm'
    · rfl
  rw [Method.code, hrelocated, hnone, Option.getD_none]
  simpa [Method.hasCode] using hcode

/-- An instruction of the final code that loads a literal was declared. -/
theorem declared_of_constant (h : Built s o p l c deps r₁) (hrow : row ∈ p.registry.live)
    (hc₂ : p.registry.classAt? row = some c₂) {m : Method} (hm : m ∈ c₂.methods) {i : Instruction}
    (hi : i ∈ (Code.decode m.code).instrs) (hop : Opcode.operand i.op = .constantSlot) :
    i ∈ (Code.decode m.rawCode).instrs := by
  cases hcode : m.hasCode with
  | false =>
      rw [h.code_eq_nil hrow hc₂ hm hcode] at hi
      cases hi
  | true =>
      obtain ⟨c₀, c₁, -, -, -, -, hcompacted⟩ := h.exists_origin hrow hc₂
      obtain ⟨m₁, -, hrelocates⟩ := forall₂_mem_right hcompacted.methods hm
      have hcode₁ : m₁.hasCode = true := by
        rwa [hrelocates.frame] at hcode
      rw [Relocates, if_pos hcode₁] at hrelocates
      obtain ⟨code, hrelocate, rfl⟩ := hrelocates
      obtain ⟨hcomplete, js, hjs, rfl⟩ := Code.relocate_ok.mp hrelocate
      have hdecode : Code.decode (js.flatMap Instruction.bytes) = ⟨js, .complete⟩ :=
        Code.decode_of_decodes ((Code.decodes hcomplete).relocated hjs)
      replace hi : i ∈ (Code.decode (js.flatMap Instruction.bytes)).instrs := hi
      rw [hdecode] at hi
      obtain ⟨i₀, hi₀, hij⟩ := forall₂_mem_right hjs hi
      have hother : Opcode.operand i₀.op ≠ .memberSlot := by
        intro hmember
        obtain ⟨index, -, rfl⟩ := (Instruction.relocate_member hmember).mp hij
        cases hop.symm.trans hmember
      cases (Instruction.relocate_other hother).mp hij
      exact hi₀

/-- What an instruction loads from a pool entry with a literal is kept at the slot of the entry. -/
theorem literal_kept (h : Built s o p l c deps r₁) (hrow : row ∈ p.registry.live)
    (hc₂ : p.registry.classAt? row = some c₂) {m : Method} (hm : m ∈ c₂.methods) {i : Instruction}
    (hi : i ∈ (Code.decode m.rawCode).instrs) (hop : Opcode.operand i.op = .constantSlot)
    {slot : Nat} (hslot : i.slot? = some slot) {d : ClassDecl} (hload : s.load c₂.name = .ok d)
    {kind : Int} {value : Option Literal} (hp : ⟨slot, .constant kind value⟩ ∈ d.pool) :
    ∃ v, value = some v ∧ PoolItem.literalKind? kind = some v.kind ∧ c₂.KeepsLiteral slot v := by
  obtain ⟨c₀, c₁, hc₀, hc₁, hkeptRow, hlaid, hcompacted⟩ := h.exists_origin hrow hc₂
  obtain ⟨m₁, hm₁, hrelocates⟩ := forall₂_mem_right hcompacted.methods hm
  obtain ⟨hm₁, hkept₁⟩ := List.mem_filter.mp hm₁
  obtain ⟨m₀, hm₀, hlaidm⟩ := forall₂_mem_right hlaid.methods hm₁
  have hraw : m.rawCode = m₀.rawCode := by rw [hrelocates.frame, hlaidm]
  rw [hraw] at hi
  obtain ⟨cl, hcl, hname, -⟩ := h.exists_registered hrow hc₂
  have hindexed := h.settled.wired.tidy.indexed h.entryClass
  rcases method_started hindexed h.entryClass hc₀ hm₀ with ⟨c', hc', hm', hmem⟩ | ⟨-, rfl⟩
  · cases hcl.symm.trans hc'
    obtain ⟨v, hvalue, hkind, pos, ref, href, hrest⟩ := literal_of_settled h.settled hcl hm'
      (hlaidm.kept_eq ▸ hkept₁) hi hop hslot (hname ▸ hload) hp
    have hkeeps : c₀.KeepsLiteral slot v := ⟨pos, ref, hmem href, hrest⟩
    exact ⟨v, hvalue, hkind, (hkeeps.laid hlaid).compacted hcompacted⟩
  · -- The startup method only makes calls.
    rw [startupMethod_rawCode, Code.decode_invokeAll] at hi
    rcases operand_callInstructions hi with hcall | hcall
    all_goals cases hop.symm.trans hcall

end Program.Built

end ClassLinker
