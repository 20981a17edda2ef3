import Mathlib.Tactic.IntervalCases
import ClassLinker.Numeric
import ClassLinker.Instruction.Relocate
import ClassLinker.Proofs.Instruction.Decode

/-! Relocated code. Relocation keeps the length of the code, the opcodes and every byte that is not
part of a member slot, and the relocated code decodes into the relocated instructions. The last of
these is not plain for a table switch whose size wraps around: such a switch reads its bounds from
the instructions after it. When those decode, none of them has its slot there. -/

namespace ClassLinker

theorem forall₂_append_left {α β : Type} {R : α → β → Prop} {xs₁ xs₂ : List α} {ys : List β}
    (h : List.Forall₂ R (xs₁ ++ xs₂) ys) :
    ∃ ys₁ ys₂, List.Forall₂ R xs₁ ys₁ ∧ List.Forall₂ R xs₂ ys₂ ∧ ys = ys₁ ++ ys₂ := by
  induction xs₁ generalizing ys with
  | nil => exact ⟨[], ys, .nil, h, rfl⟩
  | cons x xs₁ ih =>
      obtain ⟨y, ys', hxy, hrest, rfl⟩ := List.forall₂_cons_left_iff.mp h
      obtain ⟨ys₁, ys₂, h₁, h₂, rfl⟩ := ih hrest
      exact ⟨y :: ys₁, ys₂, .cons hxy h₁, h₂, rfl⟩

variable {ε : Type} {remap : Nat → Except ε Nat}

/-- A byte of code is part of the slot of a member instruction. -/
def Instruction.HasSlotAt (i : Instruction) (pos : Nat) : Prop :=
  Opcode.operand i.op = .memberSlot ∧ (pos = i.pc + 1 ∨ pos = i.pc + 2)

namespace Instruction

theorem relocate_member {i j : Instruction} (hop : Opcode.operand i.op = .memberSlot) :
    i.relocate remap = .ok j ↔
      ∃ slot, remap (bigEndian (i.operands.take 2)) = .ok slot ∧ j = i.withSlot slot := by
  unfold relocate
  rw [if_pos hop]
  cases remap (bigEndian (i.operands.take 2)) with
  | error cause => simp
  | ok slot => simp [eq_comm]

theorem relocate_other {i j : Instruction} (hop : Opcode.operand i.op ≠ .memberSlot) :
    i.relocate remap = .ok j ↔ j = i := by
  unfold relocate
  rw [if_neg hop]
  simp [eq_comm]

theorem op_of_relocate {i j : Instruction} (h : i.relocate remap = .ok j) :
    j.op = i.op ∧ j.pc = i.pc := by
  by_cases hop : Opcode.operand i.op = .memberSlot
  · obtain ⟨slot, -, rfl⟩ := (relocate_member hop).mp h
    exact ⟨rfl, rfl⟩
  · rw [(relocate_other hop).mp h]
    exact ⟨rfl, rfl⟩

/-- An instruction that names a member has room for its slot. -/
def Roomy (i : Instruction) : Prop := Opcode.operand i.op = .memberSlot → 2 ≤ i.operands.length

theorem length_of_relocate {i j : Instruction} (hroom : i.Roomy) (h : i.relocate remap = .ok j) :
    j.operands.length = i.operands.length := by
  by_cases hop : Opcode.operand i.op = .memberSlot
  · obtain ⟨slot, -, rfl⟩ := (relocate_member hop).mp h
    have := hroom hop
    simp only [withSlot, twoBytes, List.length_append, List.length_cons, List.length_nil,
      List.length_drop]
    omega
  · rw [(relocate_other hop).mp h]

/-- Relocating an instruction changes only its slot. -/
theorem getElem?_of_relocate {i j : Instruction} (hroom : i.Roomy) (h : i.relocate remap = .ok j)
    {k : Nat} (hk : ¬ i.HasSlotAt (i.pc + k)) : j.bytes[k]? = i.bytes[k]? := by
  by_cases hop : Opcode.operand i.op = .memberSlot
  · obtain ⟨slot, -, rfl⟩ := (relocate_member hop).mp h
    have hne : k ≠ 1 ∧ k ≠ 2 := by
      constructor
      · rintro rfl
        exact hk ⟨hop, Or.inl rfl⟩
      · rintro rfl
        exact hk ⟨hop, Or.inr rfl⟩
    obtain ⟨a, b, rest, hops⟩ : ∃ a b rest, i.operands = a :: b :: rest := by
      match hops : i.operands with
      | [] => exact absurd (hroom hop) (by simp [hops])
      | [_] => exact absurd (hroom hop) (by simp [hops])
      | a :: b :: rest => exact ⟨a, b, rest, rfl⟩
    simp only [bytes, withSlot, twoBytes, hops, List.drop_succ_cons, List.drop_zero,
      List.cons_append, List.nil_append]
    match k with
    | 0 => rfl
    | 1 => exact absurd rfl hne.1
    | 2 => exact absurd rfl hne.2
    | k + 3 => rfl
  · rw [(relocate_other hop).mp h]

end Instruction

theorem Instruction.lengthAt_fixed {pc : Nat} {op : UInt8} {after : Bytes} {info : OpcodeInfo}
    {n : Nat} (hinfo : Opcode.info? op = some info) (hshape : info.shape = .fixed n) :
    Instruction.lengthAt pc (op :: after) = .ok n := by
  unfold Instruction.lengthAt
  simp only [hinfo, hshape]

/-- The instructions of code that name a member have room for a slot, and no more than two bytes
after it. -/
theorem Decodes.member_length {pc : Nat} {code : Bytes} {is : List Instruction}
    (h : Decodes pc code is) {i : Instruction} (hi : i ∈ is)
    (hop : Opcode.operand i.op = .memberSlot) :
    i.operands.length = 2 ∨ i.operands.length = 4 := by
  obtain ⟨before, after, rfl⟩ := List.append_of_mem hi
  obtain ⟨info, hinfo, hshape⟩ := Opcode.shape_of_memberSlot hop
  have hlength := h.split.lengthAt_eq
  rw [List.flatMap_cons, Instruction.bytes, List.cons_append] at hlength
  rcases hshape with hshape | hshape
  · rw [Instruction.lengthAt_fixed hinfo hshape, Instruction.length] at hlength
    have := Except.ok.inj hlength
    omega
  · rw [Instruction.lengthAt_fixed hinfo hshape, Instruction.length] at hlength
    have := Except.ok.inj hlength
    omega

theorem Decodes.roomy {pc : Nat} {code : Bytes} {is : List Instruction} (h : Decodes pc code is)
    {i : Instruction} (hi : i ∈ is) : i.Roomy := by
  intro hop
  have := h.member_length hi hop
  omega

namespace Code

-- What the operand of an instruction is stands in the opcode table, which must not be evaluated here.
attribute [local irreducible] Instruction.relocate in
theorem relocateAll_cons (i : Instruction) (is : List Instruction) :
    relocateAll remap (i :: is) =
      match i.relocate remap with
      | .error cause => .error (.unmapped i cause)
      | .ok j =>
        match relocateAll remap is with
        | .error failure => .error failure
        | .ok js => .ok (j :: js) := rfl

theorem relocateAll_ok {is js : List Instruction} : relocateAll remap is = .ok js ↔
    List.Forall₂ (fun i j => i.relocate remap = .ok j) is js := by
  induction is generalizing js with
  | nil =>
      show (Except.ok [] : Except (RelocationFailure ε) _) = .ok js ↔ _
      rw [List.forall₂_nil_left_iff, Except.ok.injEq, eq_comm]
  | cons i is ih =>
      rw [relocateAll_cons, List.forall₂_cons_left_iff]
      cases hi : i.relocate remap with
      | error cause => simp
      | ok j =>
          cases his : relocateAll remap is with
          | error failure =>
              simp only [reduceCtorEq, false_iff, not_exists, not_and]
              intro j' js' _ hjs' _
              rw [← ih, his] at hjs'
              cases hjs'
          | ok js' =>
              simp only [Except.ok.injEq]
              constructor
              · rintro rfl
                exact ⟨j, js', rfl, ih.mp his, rfl⟩
              · rintro ⟨j₁, js₁, rfl, hjs₁, rfl⟩
                rw [← ih, his] at hjs₁
                rw [Except.ok.inj hjs₁]

/-- Relocation succeeds when the code decodes and every instruction can be relocated. -/
theorem relocate_ok {code code' : Bytes} : relocate remap code = .ok code' ↔
    (decode code).ending = .complete ∧ ∃ js,
      List.Forall₂ (fun i j => i.relocate remap = .ok j) (decode code).instrs js ∧
      code' = js.flatMap Instruction.bytes := by
  unfold relocate
  dsimp only
  cases hall : relocateAll remap (decode code).instrs with
  | error failure =>
      simp only [reduceCtorEq, false_iff, not_and, not_exists]
      intro _ js hjs
      rw [← relocateAll_ok, hall] at hjs
      cases hjs
  | ok js =>
      cases (decode code).ending with
      | fault cause => simp
      | stuck pc => simp
      | complete =>
          simp only [Except.ok.injEq, true_and]
          constructor
          · rintro rfl
            exact ⟨js, relocateAll_ok.mp hall, rfl⟩
          · rintro ⟨js', hjs', rfl⟩
            rw [← relocateAll_ok, hall] at hjs'
            rw [Except.ok.inj hjs']

/-- Code that decodes can be relocated when the slot of every instruction that names a member has a
new one. -/
theorem exists_relocate (remap : Nat → Except ε Nat) {code : Bytes}
    (hcomplete : (decode code).ending = .complete)
    (hslots : ∀ i ∈ (decode code).instrs, Opcode.operand i.op = .memberSlot →
      ∃ slot, remap (bigEndian (i.operands.take 2)) = .ok slot) :
    ∃ code', relocate remap code = .ok code' := by
  have hjs : ∀ is : List Instruction, (∀ i ∈ is, ∃ j, i.relocate remap = .ok j) →
      ∃ js, List.Forall₂ (fun i j => i.relocate remap = .ok j) is js := by
    intro is his
    induction is with
    | nil => exact ⟨[], .nil⟩
    | cons i is ih =>
        obtain ⟨j, hj⟩ := his i List.mem_cons_self
        obtain ⟨js, hjs⟩ := ih fun i hi => his i (List.mem_cons_of_mem _ hi)
        exact ⟨j :: js, .cons hj hjs⟩
  obtain ⟨js, hjs⟩ := hjs (decode code).instrs fun i hi => by
    by_cases hop : Opcode.operand i.op = .memberSlot
    · obtain ⟨slot, hslot⟩ := hslots i hi hop
      exact ⟨_, (Instruction.relocate_member hop).mpr ⟨slot, hslot, rfl⟩⟩
    · exact ⟨i, (Instruction.relocate_other hop).mpr rfl⟩
  exact ⟨_, relocate_ok.mpr ⟨hcomplete, js, hjs, rfl⟩⟩

end Code

/-! ### The bytes of relocated code -/

section

variable {pc : Nat} {code : Bytes} {is js : List Instruction}

theorem length_flatMap_relocate (hroom : ∀ i ∈ is, i.Roomy)
    (hjs : List.Forall₂ (fun i j => i.relocate remap = .ok j) is js) :
    (js.flatMap Instruction.bytes).length = (is.flatMap Instruction.bytes).length := by
  induction hjs with
  | nil => rfl
  | @cons i j is js hij hjs ih =>
      rw [List.flatMap_cons, List.flatMap_cons, List.length_append, List.length_append,
        ih fun i hi => hroom i (List.mem_cons_of_mem _ hi)]
      have hlen := Instruction.length_of_relocate (hroom i List.mem_cons_self) hij
      rw [Instruction.bytes, Instruction.bytes, List.length_cons, List.length_cons, hlen]

theorem Decodes.relocated_length (h : Decodes pc code is)
    (hjs : List.Forall₂ (fun i j => i.relocate remap = .ok j) is js) :
    (js.flatMap Instruction.bytes).length = code.length := by
  rw [length_flatMap_relocate (fun i hi => h.roomy hi) hjs, h.bytes_eq]

/-- A byte that is not part of a slot stays. -/
theorem Decodes.relocated_getElem? (h : Decodes pc code is)
    (hjs : List.Forall₂ (fun i j => i.relocate remap = .ok j) is js) {k : Nat}
    (hk : ∀ i ∈ is, ¬ i.HasSlotAt (pc + k)) : (js.flatMap Instruction.bytes)[k]? = code[k]? := by
  induction h generalizing js k with
  | nil pc =>
      rw [List.forall₂_nil_left_iff.mp hjs]
      rfl
  | @cons pc op operands rest is hlength hrest ih =>
      have hroom : Instruction.Roomy ⟨pc, op, operands⟩ :=
        (Decodes.cons hlength hrest).roomy List.mem_cons_self
      obtain ⟨j, js, hj, hjs', rfl⟩ := List.forall₂_cons_left_iff.mp hjs
      have hlen : j.operands.length = operands.length := Instruction.length_of_relocate hroom hj
      rw [List.flatMap_cons, ← List.cons_append]
      by_cases hlt : k < 1 + operands.length
      · have hbytes := Instruction.getElem?_of_relocate hroom hj (hk _ List.mem_cons_self)
        rw [List.getElem?_append_left, hbytes, List.getElem?_append_left]
        · rfl
        · rw [List.length_cons]
          omega
        · rw [Instruction.bytes, List.length_cons, hlen]
          omega
      · have hrestBytes := ih hjs' (k := k - (1 + operands.length)) fun i hi => by
          have := hk i (List.mem_cons_of_mem _ hi)
          rwa [show pc + k = pc + 1 + operands.length + (k - (1 + operands.length)) by omega] at this
        have hj' : j.bytes.length = 1 + operands.length := by
          rw [Instruction.bytes, List.length_cons, hlen, Nat.add_comm]
        rw [List.getElem?_append_right (by omega), hj', hrestBytes,
          List.getElem?_append_right (by rw [List.length_cons]; omega), List.length_cons,
          Nat.add_comm operands.length 1]

/-- A relocated instruction stands where the instruction stood. -/
theorem Decodes.relocated_drop (h : Decodes pc code is)
    (hjs : List.Forall₂ (fun i j => i.relocate remap = .ok j) is js) {i : Instruction}
    (hi : i ∈ is) : ∃ j rest, i.relocate remap = .ok j ∧
      (js.flatMap Instruction.bytes).drop (i.pc - pc) = j.bytes ++ rest := by
  obtain ⟨before, after, rfl⟩ := List.append_of_mem hi
  obtain ⟨before', after', hbefore, hafter, rfl⟩ := forall₂_append_left hjs
  obtain ⟨j, after', hj, -, rfl⟩ := List.forall₂_cons_left_iff.mp hafter
  have hroom : ∀ i ∈ before, i.Roomy := fun i hi => h.roomy (List.mem_append_left _ hi)
  have hlen : (before'.flatMap Instruction.bytes).length =
      (before.flatMap Instruction.bytes).length := length_flatMap_relocate hroom hbefore
  refine ⟨j, after'.flatMap Instruction.bytes, hj, ?_⟩
  rw [h.pc_eq, Nat.add_sub_cancel_left, ← hlen, List.flatMap_append, List.drop_left,
    List.flatMap_cons]

theorem bigEndian_twoBytes_mod (n : Nat) : bigEndian (twoBytes n) = n % 65536 := by
  simp only [bigEndian, twoBytes, List.foldl_cons, List.foldl_nil, Nat.zero_mul, Nat.zero_add,
    Nat.toUInt8, UInt8.toNat_ofNat']
  omega

theorem bigEndian_twoBytes {n : Nat} (hn : n < 65536) : bigEndian (twoBytes n) = n := by
  rw [bigEndian_twoBytes_mod, Nat.mod_eq_of_lt hn]

/-- The relocated instruction has the opcode it had, and its new slot. -/
theorem Decodes.relocated_slot (h : Decodes 0 code is)
    (hjs : List.Forall₂ (fun i j => i.relocate remap = .ok j) is js) {i : Instruction}
    (hi : i ∈ is) (hop : Opcode.operand i.op = .memberSlot) {slot : Nat}
    (hslot : remap (bigEndian (i.operands.take 2)) = .ok slot) (hlt : slot < 65536) :
    (js.flatMap Instruction.bytes)[i.pc]? = some i.op ∧
      bigEndian (((js.flatMap Instruction.bytes).drop (i.pc + 1)).take 2) = slot := by
  obtain ⟨j, rest, hj, hdrop⟩ := h.relocated_drop hjs hi
  obtain ⟨slot', hslot', rfl⟩ := (Instruction.relocate_member hop).mp hj
  cases hslot.symm.trans hslot'
  rw [Nat.sub_zero, Instruction.bytes, List.cons_append] at hdrop
  constructor
  · rw [← List.head?_drop, hdrop]
    rfl
  · rw [← List.drop_drop, hdrop, List.drop_one, List.tail_cons]
    exact bigEndian_twoBytes hlt

end

/-! ### Relocated code decodes -/

/-- Code from which no decoding gets to its end. -/
def Dead (code : Bytes) : Prop := ∀ pc is, ¬ Decodes pc code is

theorem dead_of_undefined {op : UInt8} (hop : Opcode.info? op = none) (code : Bytes) :
    Dead (op :: code) := by
  intro pc is h
  cases h with
  | cons hlength hrest =>
      unfold Instruction.lengthAt at hlength
      simp only [hop, reduceCtorEq] at hlength

theorem Dead.plain {op : UInt8} {info : OpcodeInfo} {code : Bytes} (h : Dead code)
    (hinfo : Opcode.info? op = some info) (hshape : info.shape = .fixed 1) :
    Dead (op :: code) := by
  intro pc is hdec
  generalize hcode : op :: code = code' at hdec
  cases hdec with
  | nil => cases hcode
  | @cons _ op' operands rest is hlength hrest =>
      cases hcode
      rw [Instruction.lengthAt_fixed hinfo hshape] at hlength
      have hnil : operands = [] := by
        have := Except.ok.inj hlength
        exact List.length_eq_zero_iff.mp (by omega)
      rw [hnil, List.nil_append] at h
      exact h _ _ hrest

/-- The bytes of the bounds of a table switch whose size wraps around to at most three less than
none. -/
structure Wrapped (b : Nat → Option UInt8) : Prop where
  low0 : b 4 = some 0x80
  low1 : b 5 = some 0
  low2 : b 6 = some 0
  low3 : ∃ x, b 7 = some x ∧ x.toNat ≤ 3
  high0 : b 8 = some 0x7F
  high1 : b 9 = some 0xFF
  high2 : b 10 = some 0xFF

theorem bigEndian_four (a b c d : UInt8) : bigEndian [a, b, c, d] =
    a.toNat * 16777216 + b.toNat * 65536 + c.toNat * 256 + d.toNat := by
  simp only [bigEndian, List.foldl_cons, List.foldl_nil]
  omega

theorem bigEndian_four_lt (a b c d : UInt8) : bigEndian [a, b, c, d] < 4294967296 := by
  have := a.toNat_lt
  have := b.toNat_lt
  have := c.toNat_lt
  have := d.toNat_lt
  rw [bigEndian_four]
  omega

theorem signedWord_eq {bs : Bytes} (hlt : bigEndian bs < 4294967296) : signedWord bs =
    if bigEndian bs < 2147483648 then (bigEndian bs : Int) else bigEndian bs - 4294967296 := by
  unfold signedWord
  generalize bigEndian bs = u at hlt ⊢
  rw [Int.bmod_def]
  split <;> split <;> omega

/-- A size that wraps around to less than none comes from bounds at the ends of their range. -/
theorem bounds_of_wrap {low high : Bytes} {pad : Nat} (hlow : bigEndian low < 4294967296)
    (hhigh : bigEndian high < 4294967296) (hpad : pad ≤ 3) (hle : ¬ signedWord high < signedWord low)
    (hn : 1 ≤ 1 + (pad : Int) + 12 + 4 * Int.bmod (signedWord high - signedWord low + 1) 0x100000000)
    (hneg : Int.bmod (signedWord high - signedWord low + 1) 0x100000000 < 0) :
    -3 ≤ Int.bmod (signedWord high - signedWord low + 1) 0x100000000 ∧
      2147483648 ≤ bigEndian low ∧ bigEndian low ≤ 2147483651 ∧ 2147483644 ≤ bigEndian high ∧
      bigEndian high < 2147483648 := by
  rw [signedWord_eq hlow, signedWord_eq hhigh] at *
  generalize bigEndian low = l at *
  generalize bigEndian high = h at *
  rw [Int.bmod_def] at *
  split at hle <;> split at hle <;> split at hn <;> omega

theorem low_bytes {a b c d : UInt8} (hge : 2147483648 ≤ bigEndian [a, b, c, d])
    (hle : bigEndian [a, b, c, d] ≤ 2147483651) : a = 0x80 ∧ b = 0 ∧ c = 0 ∧ d.toNat ≤ 3 := by
  have := b.toNat_lt
  have := c.toNat_lt
  have := d.toNat_lt
  rw [bigEndian_four] at hge hle
  have hvalues : a.toNat = 128 ∧ b.toNat = 0 ∧ c.toNat = 0 ∧ d.toNat ≤ 3 := by omega
  obtain ⟨ha, hb, hc, hd⟩ := hvalues
  exact ⟨UInt8.toNat_inj.mp ha, UInt8.toNat_inj.mp hb, UInt8.toNat_inj.mp hc, hd⟩

theorem high_bytes {a b c d : UInt8} (hge : 2147483644 ≤ bigEndian [a, b, c, d])
    (hlt : bigEndian [a, b, c, d] < 2147483648) : a = 0x7F ∧ b = 0xFF ∧ c = 0xFF := by
  have := b.toNat_lt
  have := c.toNat_lt
  have := d.toNat_lt
  rw [bigEndian_four] at hge hlt
  have hvalues : a.toNat = 127 ∧ b.toNat = 255 ∧ c.toNat = 255 := by omega
  obtain ⟨ha, hb, hc⟩ := hvalues
  exact ⟨UInt8.toNat_inj.mp ha, UInt8.toNat_inj.mp hb, UInt8.toNat_inj.mp hc⟩

theorem take_four_of_getElem? (bs : Bytes) (k : Nat) (h : k + 4 ≤ bs.length) :
    ∃ a b c d, (bs.drop k).take 4 = [a, b, c, d] ∧ bs[k]? = some a ∧ bs[k + 1]? = some b ∧
      bs[k + 2]? = some c ∧ bs[k + 3]? = some d := by
  have hlen : 4 ≤ (bs.drop k).length := by
    rw [List.length_drop]
    omega
  match hdrop : bs.drop k, hlen with
  | a :: b :: c :: d :: rest, _ =>
      have hget : ∀ m, bs[k + m]? = (a :: b :: c :: d :: rest)[m]? := by
        intro m
        rw [← hdrop, List.getElem?_drop]
      exact ⟨a, b, c, d, rfl, hget 0, hget 1, hget 2, hget 3⟩

/-- A table switch covers the bounds it reads, or its size wraps around. -/
theorem wrapped_of_lengthAt {pc : Nat} {op : UInt8} {after : Bytes} {info : OpcodeInfo} {n : Int}
    (hinfo : Opcode.info? op = some info) (hshape : info.shape = .tableSwitch)
    (hlength : Instruction.lengthAt pc (op :: after) = .ok n) (hn : 1 ≤ n) :
    1 + Instruction.padding pc + 12 ≤ n ∨
      1 + Instruction.padding pc ≤ n ∧ Wrapped fun k => after[Instruction.padding pc + k]? := by
  unfold Instruction.lengthAt at hlength
  simp only [hinfo, hshape] at hlength
  have hpad : Instruction.padding pc ≤ 3 := by
    unfold Instruction.padding
    omega
  generalize Instruction.padding pc = pad at hlength hpad ⊢
  split at hlength
  · cases hlength
  rename_i hheader
  split at hlength
  · cases hlength
  rename_i hle
  have hsize := Except.ok.inj hlength
  have hbytes : ∀ k < 12, ((after.drop pad).take 12)[k]? = after[pad + k]? := by
    intro k hk
    rw [List.getElem?_take_of_lt hk, List.getElem?_drop]
  obtain ⟨a, b, c, d, hlow, ha, hb, hc, hd⟩ :=
    take_four_of_getElem? ((after.drop pad).take 12) 4 (by omega)
  obtain ⟨e, f, g, h, hhigh, he, hf, hg, hh⟩ :=
    take_four_of_getElem? ((after.drop pad).take 12) 8 (by omega)
  rw [hbytes _ (by decide)] at ha hb hc hd he hf hg
  rw [hlow, hhigh] at hle hsize
  by_cases hneg : Int.bmod (signedWord [e, f, g, h] - signedWord [a, b, c, d] + 1) 0x100000000 < 0
  · obtain ⟨hge, hlow₁, hlow₂, hhigh₁, hhigh₂⟩ := bounds_of_wrap (bigEndian_four_lt a b c d)
      (bigEndian_four_lt e f g h) hpad hle (hsize ▸ hn) hneg
    obtain ⟨rfl, rfl, rfl, hd₃⟩ := low_bytes hlow₁ hlow₂
    obtain ⟨rfl, rfl, rfl⟩ := high_bytes hhigh₁ hhigh₂
    exact Or.inr ⟨by omega, ha, hb, hc, ⟨d, hd, hd₃⟩, he, hf, hg⟩
  · exact Or.inl (by omega)

theorem drop_of_getElem? {bs : Bytes} {k : Nat} {b : UInt8} (h : bs[k]? = some b) :
    bs.drop k = b :: bs.drop (k + 1) := by
  obtain ⟨hlt, rfl⟩ := List.getElem?_eq_some_iff.mp h
  exact List.drop_eq_getElem_cons hlt

/-- Decoding does not get to the end from within the bounds of a switch that wraps around: they are
opcodes without operands, up to one that is undefined. -/
theorem Wrapped.dead {bs : Bytes} {pos : Nat} (h : Wrapped fun k => bs[pos + k]?) {k : Nat}
    (hge : 4 ≤ k) (hle : k ≤ 9) : Dead (bs.drop (pos + k)) := by
  have hplain : ∀ n ∈ [0, 1, 2, 3, 0x7F, 0x80],
      ∃ info, Opcode.info? (UInt8.ofNat n) = some info ∧ info.shape = .fixed 1 := by decide +kernel
  have hstep : ∀ {k n}, bs[pos + k]? = some (UInt8.ofNat n) → n ∈ [0, 1, 2, 3, 0x7F, 0x80] →
      Dead (bs.drop (pos + (k + 1))) → Dead (bs.drop (pos + k)) := by
    intro k n hk hn hdead
    obtain ⟨info, hinfo, hshape⟩ := hplain n hn
    rw [drop_of_getElem? hk]
    exact hdead.plain hinfo hshape
  have hundefined : Opcode.info? 0xFF = none := by decide +kernel
  have h₉ : Dead (bs.drop (pos + 9)) := by
    rw [drop_of_getElem? h.high1]
    exact dead_of_undefined hundefined _
  have h₈ := hstep (n := 0x7F) h.high0 (by decide) h₉
  obtain ⟨x, hx, hx₃⟩ := h.low3
  have h₇ : Dead (bs.drop (pos + 7)) := by
    refine hstep (n := x.toNat) (by rw [hx, UInt8.ofNat_toNat]) ?_ h₈
    interval_cases x.toNat <;> decide
  have h₆ := hstep (n := 0) h.low2 (by decide) h₇
  have h₅ := hstep (n := 0) h.low1 (by decide) h₆
  have h₄ := hstep (n := 0x80) h.low0 (by decide) h₅
  interval_cases k
  · exact h₄
  · exact h₅
  · exact h₆
  · exact h₇
  · exact h₈
  · exact h₉

/-- No instruction after a switch that wraps around has its slot in the bounds of the switch. -/
theorem Wrapped.no_slot {start pos size : Nat} {bs : Bytes} {is : List Instruction}
    (h : Wrapped fun k => bs[pos + k]?) (hdec : Decodes (start + size) (bs.drop size) is)
    {i : Instruction} (hi : i ∈ is) {k : Nat} (hge : 4 ≤ k) (hlt : k < 12) :
    ¬ i.HasSlotAt (start + (pos + k)) := by
  rintro ⟨hop, hat⟩
  obtain ⟨before, after, rfl⟩ := List.append_of_mem hi
  have hpc := hdec.pc_eq
  have hbytes := hdec.bytes_eq
  rw [List.flatMap_append] at hbytes
  obtain ⟨offset, hoffset⟩ : ∃ offset, offset = (before.flatMap Instruction.bytes).length := ⟨_, rfl⟩
  rw [← hoffset] at hpc
  have hhere : bs.drop (size + offset) = (i :: after).flatMap Instruction.bytes := by
    rw [← List.drop_drop, ← hbytes, hoffset, List.drop_left]
  have hnext : bs.drop (size + offset + i.length) = after.flatMap Instruction.bytes := by
    rw [← List.drop_drop, hhere, List.flatMap_cons,
      show i.length = i.bytes.length by rw [Instruction.length, Instruction.bytes, List.length_cons,
        Nat.add_comm], List.drop_left]
  have hdead : ∀ {t is pc}, 4 + pos ≤ t → t ≤ pos + 9 → ¬ Decodes pc (bs.drop t) is := by
    intro t is pc hge hle
    have := h.dead (k := t - pos) (by omega) (by omega)
    rw [show pos + (t - pos) = t by omega] at this
    exact this pc is
  by_cases hbound : 4 + pos ≤ size + offset ∧ size + offset ≤ pos + 9
  · have := hdec.split
    rw [← hhere] at this
    exact hdead hbound.1 hbound.2 this
  by_cases hlast : size + offset = pos + 10
  · have hff : i.op = 0xFF := by
      have := drop_of_getElem? h.high2
      rw [← hlast, hhere, List.flatMap_cons, Instruction.bytes, List.cons_append] at this
      exact (List.cons.inj this).1
    rw [hff] at hop
    revert hop
    decide +kernel
  · -- The slot starts before the bounds, so the next instruction would start within them.
    have hlength : i.length = 3 ∨ i.length = 5 := by
      have := hdec.member_length hi hop
      unfold Instruction.length
      omega
    have hsplit : Decodes (start + size) (bs.drop size) (before ++ [i] ++ after) := by
      rw [List.append_assoc]
      exact hdec
    have := hsplit.split
    rw [← hnext] at this
    refine hdead ?_ ?_ this
    · omega
    · omega

theorem window_congr {xs ys : Bytes} {pos k : Nat} (hk : k + 4 ≤ 12)
    (h : ∀ m, k ≤ m → m < k + 4 → xs[pos + m]? = ys[pos + m]?) :
    (((xs.drop pos).take 12).drop k).take 4 = (((ys.drop pos).take 12).drop k).take 4 := by
  apply List.ext_getElem?
  intro m
  by_cases hm : m < 4
  · have hm' : k + m < 12 := by omega
    simp only [List.getElem?_take_of_lt hm, List.getElem?_drop, List.getElem?_take_of_lt hm']
    exact h (k + m) (by omega) (by omega)
  · rw [List.getElem?_take_eq_none (by omega), List.getElem?_take_eq_none (by omega)]

theorem length_window {xs ys : Bytes} (h : xs.length = ys.length) (pos : Nat) :
    ((xs.drop pos).take 12).length = ((ys.drop pos).take 12).length := by
  rw [List.length_take, List.length_take, List.length_drop, List.length_drop, h]

/-- The length of a table switch depends on its bounds only. -/
theorem Instruction.lengthAt_table {pc : Nat} {op : UInt8} {xs ys : Bytes} {info : OpcodeInfo}
    (hinfo : Opcode.info? op = some info) (hshape : info.shape = .tableSwitch)
    (hlen : xs.length = ys.length)
    (h : ∀ k, 4 ≤ k → k < 12 → xs[padding pc + k]? = ys[padding pc + k]?) :
    lengthAt pc (op :: xs) = lengthAt pc (op :: ys) := by
  unfold lengthAt
  simp only [hinfo, hshape, length_window hlen,
    window_congr (k := 4) (by decide) fun m hge hlt => h m hge (by omega),
    window_congr (k := 8) (by decide) fun m hge hlt => h m (by omega) hlt]

/-- The length of a lookup switch depends on the number of its pairs only. -/
theorem Instruction.lengthAt_lookup {pc : Nat} {op : UInt8} {xs ys : Bytes} {info : OpcodeInfo}
    (hinfo : Opcode.info? op = some info) (hshape : info.shape = .lookupSwitch)
    (hlen : xs.length = ys.length)
    (h : ∀ k, 4 ≤ k → k < 8 → xs[padding pc + k]? = ys[padding pc + k]?) :
    lengthAt pc (op :: xs) = lengthAt pc (op :: ys) := by
  unfold lengthAt
  simp only [hinfo, hshape, length_window hlen, window_congr (k := 4) (by decide) h]

theorem Instruction.lengthAt_wide {pc : Nat} {op widened : UInt8} {xs ys : Bytes}
    {info : OpcodeInfo} (hinfo : Opcode.info? op = some info) (hshape : info.shape = .wide) :
    lengthAt pc (op :: widened :: xs) = lengthAt pc (op :: widened :: ys) := by
  unfold lengthAt
  simp only [hinfo, hshape]

/-- A lookup switch covers the number of its pairs. -/
theorem Instruction.le_of_lookup {pc : Nat} {op : UInt8} {after : Bytes} {info : OpcodeInfo}
    {n : Int} (hinfo : Opcode.info? op = some info) (hshape : info.shape = .lookupSwitch)
    (hlength : lengthAt pc (op :: after) = .ok n) : 1 + padding pc + 8 ≤ n := by
  unfold lengthAt at hlength
  simp only [hinfo, hshape] at hlength
  split at hlength
  · cases hlength
  split at hlength
  · cases hlength
  have := Except.ok.inj hlength
  omega

theorem Instruction.info_of_lengthAt {pc : Nat} {op : UInt8} {after : Bytes} {n : Int}
    (h : lengthAt pc (op :: after) = .ok n) : ∃ info, Opcode.info? op = some info := by
  cases hinfo : Opcode.info? op with
  | some info => exact ⟨info, rfl⟩
  | none =>
      unfold lengthAt at h
      simp only [hinfo, reduceCtorEq] at h

/-- An instruction keeps its length when the instructions after it are relocated. -/
theorem lengthAt_relocated {pc : Nat} {op : UInt8} {operands rest rest' : Bytes}
    {is : List Instruction}
    (hlength : Instruction.lengthAt pc (op :: (operands ++ rest)) = .ok (1 + operands.length))
    (hrest : Decodes (pc + 1 + operands.length) rest is)
    (hlen : rest'.length = rest.length)
    (hagree : ∀ {k : Nat}, (∀ i ∈ is, ¬ i.HasSlotAt (pc + 1 + operands.length + k)) →
      rest'[k]? = rest[k]?) :
    Instruction.lengthAt pc (op :: (operands ++ rest')) =
      Instruction.lengthAt pc (op :: (operands ++ rest)) := by
  obtain ⟨info, hinfo⟩ := Instruction.info_of_lengthAt hlength
  have hlen' : (operands ++ rest').length = (operands ++ rest).length := by
    rw [List.length_append, List.length_append, hlen]
  have hcovered : ∀ {k}, k < operands.length → (operands ++ rest')[k]? = (operands ++ rest)[k]? := by
    intro k hk
    rw [List.getElem?_append_left hk, List.getElem?_append_left hk]
  cases hshape : info.shape with
  | fixed n => rw [Instruction.lengthAt_fixed hinfo hshape, Instruction.lengthAt_fixed hinfo hshape]
  | wide =>
      cases operands with
      | nil =>
          have hwide : ∃ n, Instruction.lengthAt pc (op :: ([] ++ rest)) = .ok n ∧ 4 ≤ n := by
            cases rest with
            | nil =>
                unfold Instruction.lengthAt at hlength
                simp only [hinfo, hshape, List.append_nil, reduceCtorEq] at hlength
            | cons widened rest =>
                refine ⟨if widened = Opcode.iinc then 6 else 4, ?_, ?_⟩
                · unfold Instruction.lengthAt
                  simp only [hinfo, hshape, List.nil_append]
                · split <;> decide
          obtain ⟨n, hn, hle⟩ := hwide
          have := Except.ok.inj (hn.symm.trans hlength)
          rw [List.length_nil] at this
          omega
      | cons widened operands => exact Instruction.lengthAt_wide hinfo hshape
  | lookupSwitch =>
      have hle := Instruction.le_of_lookup hinfo hshape hlength
      refine Instruction.lengthAt_lookup hinfo hshape hlen' ?_
      intro k hge hlt
      exact hcovered (by omega)
  | tableSwitch =>
      refine Instruction.lengthAt_table hinfo hshape hlen' ?_
      intro k hge hlt
      by_cases hk : Instruction.padding pc + k < operands.length
      · exact hcovered hk
      · rw [List.getElem?_append_right (by omega), List.getElem?_append_right (by omega)]
        refine hagree fun i hi => ?_
        rcases wrapped_of_lengthAt hinfo hshape hlength (by omega) with hle | ⟨hle, hwrapped⟩
        · omega
        · have hdrop : (operands ++ rest).drop operands.length = rest := List.drop_left
          have hnext : Decodes (pc + 1 + operands.length)
              ((operands ++ rest).drop operands.length) is := by
            rw [hdrop]
            exact hrest
          have := hwrapped.no_slot hnext hi hge hlt
          rwa [show pc + 1 + (Instruction.padding pc + k) =
            pc + 1 + operands.length + (Instruction.padding pc + k - operands.length) by omega] at this

/-- Relocated code decodes into the relocated instructions. -/
theorem Decodes.relocated {pc : Nat} {code : Bytes} {is js : List Instruction}
    (h : Decodes pc code is) (hjs : List.Forall₂ (fun i j => i.relocate remap = .ok j) is js) :
    Decodes pc (js.flatMap Instruction.bytes) js := by
  induction h generalizing js with
  | nil pc =>
      rw [List.forall₂_nil_left_iff.mp hjs]
      exact .nil pc
  | @cons pc op operands rest is hlength hrest ih =>
      have hroom : Instruction.Roomy ⟨pc, op, operands⟩ :=
        (Decodes.cons hlength hrest).roomy List.mem_cons_self
      obtain ⟨⟨pc', op', operands'⟩, js, hj, hjs', rfl⟩ := List.forall₂_cons_left_iff.mp hjs
      obtain ⟨rfl, rfl⟩ : op' = op ∧ pc' = pc := Instruction.op_of_relocate hj
      have hlen : operands'.length = operands.length := Instruction.length_of_relocate hroom hj
      refine .cons ?_ ?_
      · rw [hlen, ← hlength]
        by_cases hop : Opcode.operand op' = .memberSlot
        · obtain ⟨info, hinfo, hshape | hshape⟩ := Opcode.shape_of_memberSlot hop
          · rw [Instruction.lengthAt_fixed hinfo hshape, Instruction.lengthAt_fixed hinfo hshape]
          · rw [Instruction.lengthAt_fixed hinfo hshape, Instruction.lengthAt_fixed hinfo hshape]
        · cases (Instruction.relocate_other (i := ⟨pc', op', operands⟩) hop).mp hj
          exact lengthAt_relocated hlength hrest (hrest.relocated_length hjs')
            fun hk => hrest.relocated_getElem? hjs' hk
      · rw [hlen]
        exact ih hjs'

/-! ### Relocating and decoding -/

theorem length_flatMap_bytes (is : List Instruction) :
    (is.flatMap Instruction.bytes).length = total (is.map Instruction.length) := by
  induction is with
  | nil => rfl
  | cons i is ih =>
      rw [List.flatMap_cons, List.length_append, ih, List.map_cons, total, Instruction.bytes,
        List.length_cons, Instruction.length, Nat.add_comm i.operands.length]

/-- Two instructions are the same but for the slot of a member: the second has, as a number of two
bytes, what `remap` gives for the slot of the first. -/
structure Instruction.SlotMapped (remap : Nat → Except ε Nat) (i j : Instruction) : Prop where
  pc_eq : j.pc = i.pc
  op_eq : j.op = i.op
  length_eq : j.operands.length = i.operands.length
  operands_eq : Opcode.operand i.op ≠ .memberSlot → j.operands = i.operands
  drop_eq : Opcode.operand i.op = .memberSlot → j.operands.drop 2 = i.operands.drop 2
  slot_eq : Opcode.operand i.op = .memberSlot → 2 ≤ i.operands.length ∧
    ∃ slot, remap (bigEndian (i.operands.take 2)) = .ok slot ∧
      bigEndian (j.operands.take 2) = slot % 65536

theorem Instruction.SlotMapped.of_relocate {i j : Instruction} (hroom : i.Roomy)
    (h : i.relocate remap = .ok j) : SlotMapped remap i j := by
  obtain ⟨hop, hpc⟩ := op_of_relocate h
  refine ⟨hpc, hop, length_of_relocate hroom h, ?_, ?_, ?_⟩
  · intro hother
    rw [(relocate_other hother).mp h]
  · intro hmember
    obtain ⟨slot, -, rfl⟩ := (relocate_member hmember).mp h
    exact List.drop_left' rfl
  · intro hmember
    obtain ⟨slot, hslot, rfl⟩ := (relocate_member hmember).mp h
    refine ⟨hroom hmember, slot, hslot, ?_⟩
    have htake : (twoBytes slot ++ i.operands.drop 2).take 2 = twoBytes slot := List.take_left' rfl
    rw [withSlot, htake, bigEndian_twoBytes_mod]

namespace Code

/-- Relocating commutes with decoding. When code is relocated it decodes, its instructions follow one
another from its start to its end, and the relocated code is as long and decodes into the same
instructions with the new slots. No switch has to be well-formed. -/
theorem decode_relocate {code code' : Bytes} (h : relocate remap code = .ok code') :
    (decode code).ending = .complete ∧
    (∀ before i after, (decode code).instrs = before ++ i :: after →
      i.pc = total (before.map Instruction.length)) ∧
    (decode code).instrs.flatMap Instruction.bytes = code ∧
    code'.length = code.length ∧
    (decode code').ending = .complete ∧
    List.Forall₂ (Instruction.SlotMapped remap) (decode code).instrs (decode code').instrs := by
  obtain ⟨hcomplete, js, hjs, rfl⟩ := relocate_ok.mp h
  have hdecodes := decodes hcomplete
  have hdecode := decode_of_decodes (hdecodes.relocated hjs)
  rw [hdecode]
  refine ⟨hcomplete, ?_, hdecodes.bytes_eq, hdecodes.relocated_length hjs, rfl, ?_⟩
  · intro before i after hsplit
    rw [hsplit] at hdecodes
    rw [hdecodes.pc_eq, Nat.zero_add, length_flatMap_bytes]
  · refine List.forall₂_iff_get.mpr ⟨hjs.length_eq, fun k hk hk' => ?_⟩
    exact .of_relocate (hdecodes.roomy (List.get_mem _ _)) ((List.forall₂_iff_get.mp hjs).2 k hk hk')

/-- A table switch with as many offsets as there are numbers of 32 bits, which takes only its header,
and a call of which the slot is renumbered. -/
theorem decode_relocate_wrapped :
    let remap : Nat → Except Unit Nat := fun slot => if slot = 3 then .ok 0x0102 else .error ()
    let code : Bytes := [0xAA, 0, 0, 0, 0, 0, 0, 0, 0x80, 0, 0, 0, 0x7F, 0xFF, 0xFF, 0xFF,
      0xB8, 0, 3, 0xB1]
    let code' : Bytes := [0xAA, 0, 0, 0, 0, 0, 0, 0, 0x80, 0, 0, 0, 0x7F, 0xFF, 0xFF, 0xFF,
      0xB8, 1, 2, 0xB1]
    relocate remap code = .ok code' ∧
      (decode code).instrs.map (fun i => (i.pc, i.length)) = [(0, 16), (16, 3), (19, 1)] ∧
      List.Forall₂ (Instruction.SlotMapped remap) (decode code).instrs (decode code').instrs := by
  intro remap code code'
  have h : relocate remap code = .ok code' := by decide +kernel
  exact ⟨h, by decide +kernel, (decode_relocate h).2.2.2.2.2⟩

end Code

end ClassLinker
