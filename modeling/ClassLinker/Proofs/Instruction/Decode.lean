import Mathlib.Data.List.Forall2
import ClassLinker.Instruction.Decode

/-! Complete decodings. Code that decodes to its end is the encoding of its instructions one after
the other, and decoding can be taken up again at the start of each of them. -/

namespace ClassLinker

/-- Code from `pc` on decodes to its end into instructions. -/
inductive Decodes : Nat → Bytes → List Instruction → Prop
  | nil (pc : Nat) : Decodes pc [] []
  | cons {pc : Nat} {op : UInt8} {operands rest : Bytes} {is : List Instruction}
      (hlength : Instruction.lengthAt pc (op :: (operands ++ rest)) = .ok (1 + operands.length))
      (hrest : Decodes (pc + 1 + operands.length) rest is) :
      Decodes pc (op :: (operands ++ rest)) (⟨pc, op, operands⟩ :: is)

namespace Code

theorem decodeFrom_nil (fuel pc : Nat) : decodeFrom fuel pc [] = ⟨[], .complete⟩ := by
  cases fuel with
  | zero => rfl
  | succ fuel => rfl

-- The length of an instruction is looked up in the opcode table, which must not be evaluated here.
attribute [local irreducible] Instruction.lengthAt in
theorem decodeFrom_succ (fuel pc : Nat) (op : UInt8) (after : Bytes) :
    decodeFrom (fuel + 1) pc (op :: after) =
      match Instruction.lengthAt pc (op :: after) with
      | .error cause => ⟨[], .fault cause⟩
      | .ok n =>
        if n < 1 then ⟨[], .stuck pc⟩
        else if (after.take (n - 1).toNat).length < (n - 1).toNat then
          ⟨[], .fault (.truncated (Opcode.name op) pc)⟩
        else
          ⟨⟨pc, op, after.take (n - 1).toNat⟩ ::
            (decodeFrom fuel (pc + 1 + (n - 1).toNat) (after.drop (n - 1).toNat)).instrs,
            (decodeFrom fuel (pc + 1 + (n - 1).toNat) (after.drop (n - 1).toNat)).ending⟩ := rfl

theorem decodes_of_decodeFrom {fuel pc : Nat} {code : Bytes} {is : List Instruction}
    (h : decodeFrom fuel pc code = ⟨is, .complete⟩) : Decodes pc code is := by
  induction fuel generalizing pc code is with
  | zero =>
      cases code with
      | nil =>
          rw [decodeFrom_nil] at h
          cases h
          exact .nil pc
      | cons op after => exact nomatch congrArg Decoded.ending h
  | succ fuel ih =>
      cases code with
      | nil =>
          rw [decodeFrom_nil] at h
          cases h
          exact .nil pc
      | cons op after =>
          rw [decodeFrom_succ] at h
          cases hlength : Instruction.lengthAt pc (op :: after) with
          | error cause =>
              rw [hlength] at h
              cases h
          | ok n =>
              simp only [hlength] at h
              split at h
              · cases h
              · rename_i hn
                split at h
                · cases h
                · rename_i hsize
                  simp only [Decoded.mk.injEq] at h
                  obtain ⟨rfl, hending⟩ := h
                  have hlen : (after.take (n - 1).toNat).length = (n - 1).toNat := by
                    rw [List.length_take] at hsize ⊢
                    omega
                  have hrest := ih (congrArg (Decoded.mk _) hending)
                  have hcode : op :: after =
                      op :: (after.take (n - 1).toNat ++ after.drop (n - 1).toNat) := by
                    rw [List.take_append_drop]
                  rw [hcode]
                  refine .cons ?_ ?_
                  · rw [← hcode, hlength, hlen]
                    exact congrArg Except.ok (by omega)
                  · rw [hlen]
                    exact hrest

theorem decodeFrom_of_decodes {fuel pc : Nat} {code : Bytes} {is : List Instruction}
    (h : Decodes pc code is) (hfuel : code.length ≤ fuel) :
    decodeFrom fuel pc code = ⟨is, .complete⟩ := by
  induction h generalizing fuel with
  | nil pc => exact decodeFrom_nil fuel pc
  | @cons pc op operands rest is hlength hrest ih =>
      rw [List.length_cons, List.length_append] at hfuel
      obtain ⟨n, rfl⟩ := Nat.exists_eq_add_one.mpr (Nat.zero_lt_of_lt hfuel)
      have hsize : ((1 + operands.length : Int) - 1).toNat = operands.length := by omega
      rw [decodeFrom_succ, hlength]
      simp only [hsize, List.take_left, List.drop_left, Nat.lt_irrefl, if_false,
        ih (show rest.length ≤ n by omega)]
      rw [if_neg (by omega)]

theorem decodes {code : Bytes} (h : (decode code).ending = .complete) :
    Decodes 0 code (decode code).instrs := by
  have hall : decodeFrom code.length 0 code = ⟨(decode code).instrs, .complete⟩ := by
    rw [← h]
    rfl
  exact decodes_of_decodeFrom hall

theorem decode_of_decodes {code : Bytes} {is : List Instruction} (h : Decodes 0 code is) :
    decode code = ⟨is, .complete⟩ := decodeFrom_of_decodes h (Nat.le_refl _)

end Code

namespace Decodes

variable {pc : Nat} {code : Bytes} {is : List Instruction}

/-- Code is the encoding of its instructions. -/
theorem bytes_eq (h : Decodes pc code is) : is.flatMap Instruction.bytes = code := by
  induction h with
  | nil pc => rfl
  | @cons pc op operands rest is hlength hrest ih =>
      rw [List.flatMap_cons, ih]
      rfl

/-- Decoding goes on at the start of each instruction. -/
theorem split {before after : List Instruction} (h : Decodes pc code (before ++ after)) :
    Decodes (pc + (before.flatMap Instruction.bytes).length) (after.flatMap Instruction.bytes)
      after := by
  induction before generalizing pc code with
  | nil =>
      have hbytes := h.bytes_eq
      rw [List.nil_append] at h hbytes
      rw [hbytes]
      exact h
  | cons i before ih =>
      rw [List.cons_append] at h
      cases h with
      | @cons pc op operands rest is hlength hrest =>
          have hafter := ih hrest
          rw [List.flatMap_cons, List.length_append, ← Nat.add_assoc]
          have hlen : (Instruction.bytes ⟨pc, op, operands⟩).length = 1 + operands.length :=
            Nat.add_comm _ _
          rw [hlen, ← Nat.add_assoc]
          exact hafter

theorem pc_eq {before after : List Instruction} {i : Instruction}
    (h : Decodes pc code (before ++ i :: after)) :
    i.pc = pc + (before.flatMap Instruction.bytes).length := by
  have hsplit := h.split
  cases hbytes : (i :: after).flatMap Instruction.bytes with
  | nil =>
      rw [hbytes] at hsplit
      cases hsplit
  | cons op rest =>
      rw [hbytes] at hsplit
      cases hsplit
      rfl

theorem lengthAt_eq {i : Instruction} (h : Decodes pc code (i :: is)) :
    Instruction.lengthAt i.pc code = .ok i.length := by
  cases h with
  | cons hlength hrest =>
      rw [hlength]
      unfold Instruction.length
      rw [Int.natCast_add, Int.natCast_one]

end Decodes

namespace Opcode

/-- An instruction that names a member has two or four operand bytes. -/
theorem shape_of_memberSlot {op : UInt8} (h : operand op = .memberSlot) :
    ∃ info, info? op = some info ∧ (info.shape = .fixed 3 ∨ info.shape = .fixed 5) := by
  have hall : ∀ n < 256, operand (UInt8.ofNat n) = .memberSlot →
      ∃ info, info? (UInt8.ofNat n) = some info ∧
        (info.shape = .fixed 3 ∨ info.shape = .fixed 5) := by
    decide +kernel
  have hop := hall op.toNat op.toNat_lt
  rw [UInt8.ofNat_toNat] at hop
  exact hop h

end Opcode

end ClassLinker
