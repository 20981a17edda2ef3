import ClassLinker.Proofs.Instruction.Relocate

/-! Code that makes calls one after the other and returns. Relocation gives each call its new slot
and leaves code of the same form. -/

namespace ClassLinker

/-- The instructions, from `pc` on, that call through some slots and return. -/
def callInstructions : Nat → List Nat → List Instruction
  | pc, [] => [⟨pc, Opcode.ret, []⟩]
  | pc, slot :: slots =>
      ⟨pc, Opcode.invokestatic, twoBytes slot⟩ :: callInstructions (pc + 3) slots

namespace Opcode

theorem operand_ret : operand ret = .none := by decide +kernel

theorem operand_invokestatic : operand invokestatic = .memberSlot := by decide +kernel

theorem shape_ret : (info? ret).map OpcodeInfo.shape = some (.fixed 1) := by decide +kernel

theorem shape_invokestatic : (info? invokestatic).map OpcodeInfo.shape = some (.fixed 3) := by
  decide +kernel

end Opcode

theorem decodes_ret (pc : Nat) : Decodes pc [Opcode.ret] [⟨pc, Opcode.ret, []⟩] := by
  obtain ⟨info, hinfo, hshape⟩ := Option.map_eq_some_iff.mp Opcode.shape_ret
  have hlength : Instruction.lengthAt pc (Opcode.ret :: ([] ++ [])) = .ok 1 :=
    Instruction.lengthAt_fixed hinfo hshape
  exact .cons hlength (.nil _)

theorem decodes_invokeAll (pc : Nat) (slots : List Nat) :
    Decodes pc (Code.invokeAll slots ++ [Opcode.ret]) (callInstructions pc slots) := by
  induction slots generalizing pc with
  | nil => exact decodes_ret pc
  | cons slot slots ih =>
      obtain ⟨info, hinfo, hshape⟩ := Option.map_eq_some_iff.mp Opcode.shape_invokestatic
      have hlength : Instruction.lengthAt pc (Opcode.invokestatic ::
          (twoBytes slot ++ (Code.invokeAll slots ++ [Opcode.ret]))) = .ok 3 :=
        Instruction.lengthAt_fixed hinfo hshape
      exact .cons hlength (ih (pc + 3))

theorem Code.decode_invokeAll (slots : List Nat) :
    decode (invokeAll slots ++ [Opcode.ret]) = ⟨callInstructions 0 slots, .complete⟩ :=
  decode_of_decodes (decodes_invokeAll 0 slots)

theorem Instruction.slot?_ret (pc : Nat) :
    (⟨pc, Opcode.ret, []⟩ : Instruction).slot? = none := by
  unfold Instruction.slot?
  rw [Opcode.operand_ret]

theorem take_twoBytes (slot : Nat) : (twoBytes slot).take 2 = twoBytes slot :=
  List.take_of_length_le (Nat.le_refl _)

theorem Instruction.slot?_of_member {i : Instruction} (hop : Opcode.operand i.op = .memberSlot) :
    i.slot? = some (bigEndian (i.operands.take 2)) := by
  unfold Instruction.slot?
  rw [hop]

theorem Instruction.slot?_withSlot {i : Instruction} (hop : Opcode.operand i.op = .memberSlot)
    {slot : Nat} (hlt : slot < 65536) : (i.withSlot slot).slot? = some slot := by
  have hop' : Opcode.operand (i.withSlot slot).op = .memberSlot := hop
  have hoperands : (i.withSlot slot).operands.take 2 = twoBytes slot := by
    rw [withSlot, List.take_append_of_le_length (Nat.le_refl 2)]
    exact take_twoBytes slot
  rw [slot?_of_member hop', hoperands, bigEndian_twoBytes hlt]

theorem Instruction.slot?_invokestatic (pc : Nat) {slot : Nat} (hlt : slot < 65536) :
    (⟨pc, Opcode.invokestatic, twoBytes slot⟩ : Instruction).slot? = some slot := by
  unfold Instruction.slot?
  rw [Opcode.operand_invokestatic, take_twoBytes, bigEndian_twoBytes hlt]

/-- The slots that the instructions call through. -/
theorem callInstructions_slots (pc : Nat) {slots : List Nat} (hlt : ∀ slot ∈ slots, slot < 65536) :
    (callInstructions pc slots).map (fun i => (i.op, i.slot?)) =
      slots.map (fun slot => (Opcode.invokestatic, some slot)) ++ [(Opcode.ret, none)] := by
  induction slots generalizing pc with
  | nil =>
      show [(Opcode.ret, Instruction.slot? _)] = _
      rw [Instruction.slot?_ret]
      rfl
  | cons slot slots ih =>
      rw [callInstructions, List.map_cons, ih _ fun s hs => hlt s (List.mem_cons_of_mem _ hs),
        Instruction.slot?_invokestatic pc (hlt slot List.mem_cons_self)]
      rfl

theorem mem_callInstructions {pc : Nat} {slots : List Nat} {i : Instruction}
    (hi : i ∈ callInstructions pc slots) (hop : Opcode.operand i.op = .memberSlot) :
    ∃ slot ∈ slots, i.operands = twoBytes slot := by
  induction slots generalizing pc with
  | nil =>
      rw [callInstructions, List.mem_singleton] at hi
      rw [hi, Opcode.operand_ret] at hop
      cases hop
  | cons slot slots ih =>
      rcases List.mem_cons.mp hi with rfl | hi
      · exact ⟨slot, List.mem_cons_self, rfl⟩
      · obtain ⟨slot', hslot', hoperands⟩ := ih hi
        exact ⟨slot', List.mem_cons_of_mem _ hslot', hoperands⟩

theorem operand_callInstructions {pc : Nat} {slots : List Nat} {i : Instruction}
    (hi : i ∈ callInstructions pc slots) :
    Opcode.operand i.op = .memberSlot ∨ Opcode.operand i.op = .none := by
  induction slots generalizing pc with
  | nil =>
      rw [callInstructions, List.mem_singleton] at hi
      rw [hi]
      exact .inr Opcode.operand_ret
  | cons slot slots ih =>
      rcases List.mem_cons.mp hi with rfl | hi
      · exact .inl Opcode.operand_invokestatic
      · exact ih hi

variable {ε : Type} {remap : Nat → Except ε Nat}

/-- Relocated calls go through the new slots. -/
theorem relocate_callInstructions {pc : Nat} {slots : List Nat} {is : List Instruction}
    (hlt : ∀ slot ∈ slots, slot < 65536)
    (his : List.Forall₂ (fun i j => i.relocate remap = .ok j) (callInstructions pc slots) is) :
    ∃ slots', List.Forall₂ (fun slot slot' => remap slot = .ok slot') slots slots' ∧
      is = callInstructions pc slots' := by
  induction slots generalizing pc is with
  | nil =>
      cases his with
      | cons hret hnil =>
          cases hnil
          have hret' := (Instruction.relocate_other (by rw [Opcode.operand_ret]; simp)).mp hret
          exact ⟨[], .nil, by rw [hret']; rfl⟩
  | cons slot slots ih =>
      cases his with
      | cons hcall hrest =>
          obtain ⟨slots', hslots', rfl⟩ := ih (fun s hs => hlt s (List.mem_cons_of_mem _ hs)) hrest
          obtain ⟨slot', hslot', rfl⟩ := (Instruction.relocate_member
            (i := ⟨pc, Opcode.invokestatic, twoBytes slot⟩) Opcode.operand_invokestatic).mp hcall
          rw [take_twoBytes, bigEndian_twoBytes (hlt slot List.mem_cons_self)] at hslot'
          exact ⟨slot' :: slots', .cons hslot' hslots', rfl⟩

/-- Relocated code that makes calls makes them through the new slots. -/
theorem Code.relocate_invokeAll {slots : List Nat} {code : Bytes}
    (hlt : ∀ slot ∈ slots, slot < 65536)
    (hcode : relocate remap (invokeAll slots ++ [Opcode.ret]) = .ok code) :
    ∃ slots', List.Forall₂ (fun slot slot' => remap slot = .ok slot') slots slots' ∧
      code = invokeAll slots' ++ [Opcode.ret] := by
  obtain ⟨-, is, his, rfl⟩ := relocate_ok.mp hcode
  rw [decode_invokeAll] at his
  obtain ⟨slots', hslots', rfl⟩ := relocate_callInstructions hlt his
  exact ⟨slots', hslots', (decodes_invokeAll 0 slots').bytes_eq⟩

end ClassLinker
