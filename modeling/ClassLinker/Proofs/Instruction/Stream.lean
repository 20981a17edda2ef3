import ClassLinker.Proofs.Instruction.Relocate

/-! Streams of instructions. Decoding steps forward except at a table switch whose number of offsets
wraps around to too few, and a stream that is laid out as the instruction set prescribes decodes into
its own instructions, except for two forms: a lookup switch without pairs needs four more bytes after
it, and a table switch must not have too many offsets for a signed 32-bit number. -/

namespace ClassLinker

/-! ### Stepping forward -/

namespace Instruction

/-- The header that a switch at `pc` reads from the bytes after its opcode. -/
def header (pc : Nat) (after : Bytes) : Bytes := (after.drop (padding pc)).take 12

/-- The lower bound of a table switch at `pc`. -/
def tableLow (pc : Nat) (after : Bytes) : Int := signedWord (((header pc after).drop 4).take 4)

/-- The upper bound of a table switch at `pc`. -/
def tableHigh (pc : Nat) (after : Bytes) : Int := signedWord (((header pc after).drop 8).take 4)

/-- The instruction that starts `rest`, the code from `pc` on, is a table switch with so many offsets
that their number wraps around to a negative one and the length does not come to a single byte. -/
def Overflows (pc : Nat) (rest : Bytes) : Prop :=
  ∃ op after, rest = op :: after ∧ (Opcode.info? op).map OpcodeInfo.shape = some .tableSwitch ∧
    (header pc after).length = 12 ∧
    0x80000000 ≤ tableHigh pc after - tableLow pc after + 1 ∧
    tableHigh pc after - tableLow pc after + 1 ≤ 0xFFFFFFFC

theorem signedWord_range (bs : Bytes) : -0x80000000 ≤ signedWord bs ∧ signedWord bs < 0x80000000 := by
  have hlow : -(0x100000000 : Int) / 2 ≤ signedWord bs := Int.le_bmod (by decide)
  have hhigh : signedWord bs < ((0x100000000 : Int) + 1) / 2 := Int.bmod_lt (by decide)
  omega

theorem padding_le (pc : Nat) : padding pc ≤ 3 := by
  unfold padding
  omega

/-- The number of offsets of a table switch, between one and all 32-bit numbers, wraps around to one
that leaves no length exactly when it is in the upper half and not among the last three. -/
theorem table_length_lt_one {count : Int} {pad : Nat} (hpad : pad ≤ 3) (hone : 1 ≤ count)
    (hall : count ≤ 0x100000000) :
    1 + (pad : Int) + 12 + 4 * Int.bmod count 0x100000000 < 1 ↔
      0x80000000 ≤ count ∧ count ≤ 0xFFFFFFFC := by
  rw [Int.bmod_def]
  split <;> omega

/-- Of the fixed lengths none is zero. -/
theorem fixed_pos {op : UInt8} {info : OpcodeInfo} {n : Nat} (hinfo : Opcode.info? op = some info)
    (hshape : info.shape = .fixed n) : 1 ≤ n := by
  have hall : ∀ k < 256, ∀ info, Opcode.info? (UInt8.ofNat k) = some info → info.shape ≠ .fixed 0 := by
    decide +kernel
  have hop := hall op.toNat op.toNat_lt info (by rw [UInt8.ofNat_toNat]; exact hinfo)
  rw [hshape] at hop
  exact Nat.one_le_iff_ne_zero.mpr fun hn => hop (by rw [hn])

theorem not_overflows_of_shape {pc : Nat} {op : UInt8} {after : Bytes} {info : OpcodeInfo}
    (hinfo : Opcode.info? op = some info) (hshape : info.shape ≠ .tableSwitch) :
    ¬ Overflows pc (op :: after) := by
  rintro ⟨op', after', heq, htable, -⟩
  cases heq
  rw [hinfo, Option.map_some, Option.some.injEq] at htable
  exact hshape htable

/-- A length is less than one exactly when it is that of a table switch that overflows. -/
theorem lengthAt_lt_one {pc : Nat} {op : UInt8} {after : Bytes} {n : Int}
    (hlength : lengthAt pc (op :: after) = .ok n) : n < 1 ↔ Overflows pc (op :: after) := by
  obtain ⟨info, hinfo⟩ := info_of_lengthAt hlength
  have hnot : info.shape ≠ .tableSwitch → 1 ≤ n → (n < 1 ↔ Overflows pc (op :: after)) := by
    intro hshape hn
    have hnever : ¬ Overflows pc (op :: after) := not_overflows_of_shape hinfo hshape
    constructor
    · intro hlt
      omega
    · intro hover
      exact absurd hover hnever
  cases hshape : info.shape with
  | fixed k =>
      rw [lengthAt_fixed hinfo hshape] at hlength
      have hk := fixed_pos hinfo hshape
      have hn := Except.ok.inj hlength
      exact hnot (by rw [hshape]; nofun) (by omega)
  | wide =>
      unfold lengthAt at hlength
      simp only [hinfo, hshape] at hlength
      cases after with
      | nil => cases hlength
      | cons widened after =>
          have hn := Except.ok.inj hlength
          refine hnot (by rw [hshape]; nofun) ?_
          rw [← hn]
          split <;> decide
  | lookupSwitch =>
      have hle := le_of_lookup hinfo hshape hlength
      exact hnot (by rw [hshape]; nofun) (by omega)
  | tableSwitch =>
      unfold lengthAt at hlength
      simp only [hinfo, hshape] at hlength
      split at hlength
      · cases hlength
      rename_i hheader
      split at hlength
      · cases hlength
      rename_i hle
      have hlow := signedWord_range (((header pc after).drop 4).take 4)
      have hhigh := signedWord_range (((header pc after).drop 8).take 4)
      have hcount : n < 1 ↔ 0x80000000 ≤ tableHigh pc after - tableLow pc after + 1 ∧
          tableHigh pc after - tableLow pc after + 1 ≤ 0xFFFFFFFC := by
        rw [← Except.ok.inj hlength]
        refine table_length_lt_one (padding_le pc) ?_ ?_
        · change 1 ≤ tableHigh pc after - tableLow pc after + 1
          change ¬ tableHigh pc after < tableLow pc after at hle
          omega
        · change tableHigh pc after - tableLow pc after + 1 ≤ _
          unfold tableHigh tableLow
          omega
      rw [hcount]
      constructor
      · intro hbounds
        refine ⟨op, after, rfl, by rw [hinfo, Option.map_some, hshape], ?_, hbounds⟩
        have hlen : (header pc after).length ≤ 12 := by
          rw [header, List.length_take]
          omega
        change ¬ (header pc after).length < 12 at hheader
        omega
      · rintro ⟨op', after', heq, -, -, hbounds⟩
        cases heq
        exact hbounds

end Instruction

namespace Code

theorem lengthAt_natCast {code : Bytes} {pc : Nat} (hpc : pc < code.length) :
    lengthAt code pc = Instruction.lengthAt pc (code.drop pc) := by
  unfold lengthAt
  have hrange : ¬ ((decide ((pc : Int) < 0) || decide ((code.length : Int) ≤ pc)) = true) := by
    simp only [Bool.or_eq_true, decide_eq_true_eq, not_or]
    omega
  rw [if_neg hrange, Int.toNat_natCast]

/-- However decoding ends, the instructions are the code from its start on, and decoding only gets
stuck at a table switch that overflows. -/
theorem decodeFrom_spec (fuel pc : Nat) (code : Bytes) (hfuel : code.length ≤ fuel) :
    (decodeFrom fuel pc code).instrs.flatMap Instruction.bytes <+: code ∧
      ∀ at', (decodeFrom fuel pc code).ending = .stuck at' → ∃ rest, Instruction.Overflows at' rest ∧
        (decodeFrom fuel pc code).instrs.flatMap Instruction.bytes ++ rest = code ∧
        at' = pc + ((decodeFrom fuel pc code).instrs.flatMap Instruction.bytes).length := by
  induction fuel generalizing pc code with
  | zero =>
      obtain rfl := List.length_eq_zero_iff.mp (Nat.le_zero.mp hfuel)
      rw [decodeFrom_nil]
      exact ⟨List.nil_prefix, fun at' h => by cases h⟩
  | succ fuel ih =>
      cases code with
      | nil =>
          rw [decodeFrom_nil]
          exact ⟨List.nil_prefix, fun at' h => by cases h⟩
      | cons op after =>
          rw [List.length_cons] at hfuel
          rw [decodeFrom_succ]
          cases hlength : Instruction.lengthAt pc (op :: after) with
          | error cause => exact ⟨List.nil_prefix, fun at' h => by cases h⟩
          | ok n =>
              dsimp only
              by_cases hn : n < 1
              · rw [if_pos hn]
                refine ⟨List.nil_prefix, fun at' h => ?_⟩
                cases h
                exact ⟨op :: after, (Instruction.lengthAt_lt_one hlength).mp hn, rfl, rfl⟩
              rw [if_neg hn]
              split
              · exact ⟨List.nil_prefix, fun at' h => by cases h⟩
              rename_i hsize
              have hlen : (after.take (n - 1).toNat).length = (n - 1).toNat := by
                rw [List.length_take] at hsize ⊢
                omega
              have hdrop : (after.drop (n - 1).toNat).length ≤ fuel := by
                rw [List.length_drop]
                omega
              have hcode : op :: after = (op :: after.take (n - 1).toNat) ++
                  after.drop (n - 1).toNat := by
                rw [List.cons_append, List.take_append_drop]
              obtain ⟨hpre, hstuck⟩ := ih (pc + 1 + (n - 1).toNat) (after.drop (n - 1).toNat) hdrop
              simp only [List.flatMap_cons, Instruction.bytes]
              constructor
              · rw [hcode]
                exact (List.prefix_append_right_inj _).mpr hpre
              · intro at' hending
                obtain ⟨rest, hover, hrest, hat⟩ := hstuck at' hending
                refine ⟨rest, hover, ?_, ?_⟩
                · rw [hcode, List.append_assoc, hrest]
                · rw [hat, List.length_append, List.length_cons, hlen]
                  omega

/-- Decoding is total but for one form of instruction. Where an instruction starts, its length is an
error or a number that is at least one unless it is a table switch that overflows; decoding stays
within the code, and it ends with all of the code decoded, with a fault, or at such a switch. -/
theorem decode_steps_forward (code : Bytes) :
    (∀ pc < code.length, (∃ cause, lengthAt code pc = .error cause) ∨
      ∃ n, lengthAt code pc = .ok n ∧ (1 ≤ n ↔ ¬ Instruction.Overflows pc (code.drop pc))) ∧
    (decode code).instrs.flatMap Instruction.bytes <+: code ∧
    ((decode code).ending = .complete ∨ (∃ cause, (decode code).ending = .fault cause) ∨
      ∃ pc < code.length, (decode code).ending = .stuck pc ∧
        Instruction.Overflows pc (code.drop pc)) := by
  obtain ⟨hpre, hstuck⟩ := decodeFrom_spec code.length 0 code (Nat.le_refl _)
  refine ⟨?_, hpre, ?_⟩
  · intro pc hpc
    rw [lengthAt_natCast hpc]
    cases hlength : Instruction.lengthAt pc (code.drop pc) with
    | error cause => exact Or.inl ⟨cause, rfl⟩
    | ok n =>
        refine Or.inr ⟨n, rfl, ?_⟩
        rw [List.drop_eq_getElem_cons hpc] at hlength ⊢
        rw [← Instruction.lengthAt_lt_one hlength]
        omega
  · cases hending : (decode code).ending with
    | complete => exact Or.inl rfl
    | fault cause => exact Or.inr (Or.inl ⟨cause, rfl⟩)
    | stuck pc =>
        obtain ⟨rest, hover, hcode, hpc⟩ := hstuck pc hending
        have hdrop : code.drop pc = rest := by
          rw [hpc, Nat.zero_add]
          exact List.append_cancel_left ((List.prefix_iff_eq_append.mp hpre).trans hcode.symm)
        refine Or.inr (Or.inr ⟨pc, ?_, rfl, hdrop ▸ hover⟩)
        obtain ⟨op, after, rfl, -⟩ := hover
        have := congrArg List.length hcode
        rw [List.length_append, List.length_cons] at this
        omega

/-- A table switch from the least number to five below the greatest: its length comes to nothing, so
decoding does not step forward. -/
theorem decode_stuck_at_table : lengthAt
      [0xAA, 0, 0, 0, 0, 0, 0, 0, 0x80, 0, 0, 0, 0x7F, 0xFF, 0xFF, 0xFB] 0 = .ok 0 ∧
    (decode [0xAA, 0, 0, 0, 0, 0, 0, 0, 0x80, 0, 0, 0, 0x7F, 0xFF, 0xFF, 0xFB]).ending =
      .stuck 0 := by
  constructor
  · decide +kernel
  · decide +kernel

end Code

/-! ### Written instructions -/

/-- The operand bytes that the instruction set gives an opcode of fixed length; none for the two
switches, for `wide` and for an undefined opcode. -/
def Opcode.operandBytes? (op : UInt8) : Option Nat :=
  let n := op.toNat
  if n ∈ [0xAA, 0xAB, 0xC4] ∨ 0xC9 < n then none
  else if n ∈ [0xB9, 0xBA, 0xC8, 0xC9] then some 4
  else if n = 0xC5 then some 3
  else if n ∈ [0x11, 0x13, 0x14, 0x84, 0xBB, 0xBD, 0xC0, 0xC1, 0xC6, 0xC7] ∨
      0x99 ≤ n ∧ n ≤ 0xA8 ∨ 0xB2 ≤ n ∧ n ≤ 0xB8 then some 2
  else if n ∈ [0x10, 0x12, 0xA9, 0xBC] ∨ 0x15 ≤ n ∧ n ≤ 0x19 ∨ 0x36 ≤ n ∧ n ≤ 0x3A then some 1
  else some 0

/-- The opcodes that take a wide index: the loads and stores of a local variable, and `ret`. -/
def Opcode.Widened (op : UInt8) : Prop :=
  0x15 ≤ op.toNat ∧ op.toNat ≤ 0x19 ∨ 0x36 ≤ op.toNat ∧ op.toNat ≤ 0x3A ∨ op.toNat = 0xA9
deriving Decidable

/-- The bytes of a word. -/
def wordBytes (w : BitVec 32) : Bytes := fourBytes w.toNat

/-- An instruction as the instruction set writes it. -/
inductive Written where
  | fixed (op : UInt8) (operands : Bytes)
  | wide (op : UInt8) (index : BitVec 16)
  | wideIncrement (index amount : BitVec 16)
  | tableSwitch (pad : Bytes) (default low high : BitVec 32) (offsets : List (BitVec 32))
  | lookupSwitch (pad : Bytes) (default : BitVec 32) (pairs : List (BitVec 32 × BitVec 32))

namespace Written

def op : Written → UInt8
  | fixed op _ => op
  | wide .. => 0xC4
  | wideIncrement .. => 0xC4
  | tableSwitch .. => 0xAA
  | lookupSwitch .. => 0xAB

def operands : Written → Bytes
  | fixed _ operands => operands
  | wide op index => op :: twoBytes index.toNat
  | wideIncrement index amount => Opcode.iinc :: (twoBytes index.toNat ++ twoBytes amount.toNat)
  | tableSwitch pad default low high offsets =>
    pad ++ (wordBytes default ++ wordBytes low ++ wordBytes high) ++ offsets.flatMap wordBytes
  | lookupSwitch pad default pairs =>
    pad ++ (wordBytes default ++ fourBytes pairs.length) ++
      pairs.flatMap fun pair => wordBytes pair.1 ++ wordBytes pair.2

/-- The pad bytes of a switch at `pc` go to the next multiple of four. -/
def Aligned (pc : Nat) (pad : Bytes) : Prop := pad.length ≤ 3 ∧ 4 ∣ pc + 1 + pad.length

/-- The instruction is well-formed at `pc`. -/
def ValidAt (pc : Nat) : Written → Prop
  | fixed op operands => Opcode.operandBytes? op = some operands.length
  | wide op _ => Opcode.Widened op
  | wideIncrement .. => True
  | tableSwitch pad _ low high offsets =>
    Aligned pc pad ∧ low.toInt ≤ high.toInt ∧ offsets.length = high.toInt - low.toInt + 1
  | lookupSwitch pad _ pairs => Aligned pc pad ∧ pairs.length < 0x80000000

/-- All instructions are well-formed, from `pc` on. -/
def ValidFrom : Nat → List Written → Prop
  | _, [] => True
  | pc, w :: ws => w.ValidAt pc ∧ ValidFrom (pc + 1 + w.operands.length) ws

/-- The instructions in their places, from `pc` on. -/
def layout : Nat → List Written → List Instruction
  | _, [] => []
  | pc, w :: ws => ⟨pc, w.op, w.operands⟩ :: layout (pc + 1 + w.operands.length) ws

/-- The code of a stream of instructions. -/
def encode (ws : List Written) : Bytes := ws.flatMap fun w => w.op :: w.operands

/-- An instruction that can be decoded with `room` bytes after it. -/
def Readable (room : Nat) : Written → Prop
  | lookupSwitch _ _ pairs => pairs = [] → 4 ≤ room
  | tableSwitch _ _ _ _ offsets => offsets.length < 0x80000000
  | _ => True

/-- Every instruction can be decoded with the code after it. -/
def AllReadable : List Written → Prop
  | [] => True
  | w :: ws => w.Readable (encode ws).length ∧ AllReadable ws

end Written

theorem Opcode.info_of_operandBytes {op : UInt8} {n : Nat} (h : operandBytes? op = some n) :
    ∃ info, info? op = some info ∧ info.shape = .fixed (n + 1) := by
  have hall : ∀ k < 256, ∀ n ∈ operandBytes? (UInt8.ofNat k),
      (info? (UInt8.ofNat k)).map OpcodeInfo.shape = some (.fixed (n + 1)) := by decide +kernel
  have hop := hall op.toNat op.toNat_lt n (by rw [UInt8.ofNat_toNat]; exact h)
  rw [UInt8.ofNat_toNat] at hop
  obtain ⟨info, hinfo, hshape⟩ := Option.map_eq_some_iff.mp hop
  exact ⟨info, hinfo, hshape⟩

theorem length_wordBytes (w : BitVec 32) : (wordBytes w).length = 4 := rfl

theorem length_flatMap_const {α : Type} {f : α → Bytes} {n : Nat} (hf : ∀ a, (f a).length = n)
    (as : List α) : (as.flatMap f).length = n * as.length := by
  induction as with
  | nil => rfl
  | cons a as ih =>
      rw [List.flatMap_cons, List.length_append, hf, ih, List.length_cons, Nat.mul_succ, Nat.add_comm]

theorem bigEndian_fourBytes (n : Nat) (hn : n < 0x100000000) : bigEndian (fourBytes n) = n := by
  simp only [bigEndian, fourBytes, twoBytes, List.cons_append, List.nil_append, List.foldl_cons,
    List.foldl_nil, Nat.zero_mul, Nat.zero_add, Nat.toUInt8, UInt8.toNat_ofNat']
  omega

theorem signedWord_wordBytes (w : BitVec 32) : signedWord (wordBytes w) = w.toInt := by
  unfold signedWord wordBytes
  rw [bigEndian_fourBytes w.toNat w.isLt, BitVec.toInt_eq_toNat_bmod]

theorem signedWord_fourBytes {n : Nat} (hn : n < 0x80000000) : signedWord (fourBytes n) = n := by
  unfold signedWord
  rw [bigEndian_fourBytes n (by omega), Int.bmod_def]
  split <;> omega

namespace Written

theorem padding_of_aligned {pc : Nat} {pad : Bytes} (h : Aligned pc pad) :
    Instruction.padding pc = pad.length := by
  obtain ⟨hle, hdvd⟩ := h
  unfold Instruction.padding
  omega

/-- The header of a switch stands after its pad bytes. -/
theorem header_of_aligned {pc : Nat} {pad : Bytes} (h : Aligned pc pad) (after : Bytes) :
    Instruction.header pc (pad ++ after) = after.take 12 := by
  rw [Instruction.header, padding_of_aligned h, List.drop_left]

theorem lengthAt_tableSwitch {pc : Nat} {pad tail : Bytes} {default low high : BitVec 32}
    (halign : Aligned pc pad) (hle : low.toInt ≤ high.toInt) :
    Instruction.lengthAt pc
        (0xAA :: (pad ++ (wordBytes default ++ wordBytes low ++ wordBytes high) ++ tail)) =
      .ok (1 + pad.length + 12 + 4 * Int.bmod (high.toInt - low.toInt + 1) 0x100000000) := by
  obtain ⟨info, hinfo, hshape⟩ : ∃ info, Opcode.info? 0xAA = some info ∧
      info.shape = .tableSwitch := by decide +kernel
  have hheader : Instruction.header pc
      (pad ++ (wordBytes default ++ wordBytes low ++ wordBytes high) ++ tail) =
        wordBytes default ++ wordBytes low ++ wordBytes high := by
    rw [List.append_assoc, header_of_aligned halign]
    exact List.take_left' rfl
  rw [Instruction.header] at hheader
  have hlow : ((wordBytes default ++ wordBytes low ++ wordBytes high).drop 4).take 4 =
      wordBytes low := rfl
  have hhigh : ((wordBytes default ++ wordBytes low ++ wordBytes high).drop 8).take 4 =
      wordBytes high := rfl
  have hlen : (wordBytes default ++ wordBytes low ++ wordBytes high).length = 12 := rfl
  unfold Instruction.lengthAt
  simp only [hinfo, hshape, hheader, hlow, hhigh, hlen, signedWord_wordBytes]
  rw [if_neg (Nat.lt_irrefl 12), if_neg (by omega), padding_of_aligned halign]

theorem lengthAt_lookupSwitch {pc n : Nat} {pad tail : Bytes} {default : BitVec 32}
    (halign : Aligned pc pad) (hn : n < 0x80000000) :
    Instruction.lengthAt pc (0xAB :: (pad ++ (wordBytes default ++ fourBytes n) ++ tail)) =
      .ok (1 + pad.length + 8 + 8 * n) ↔ 4 ≤ tail.length := by
  obtain ⟨info, hinfo, hshape⟩ : ∃ info, Opcode.info? 0xAB = some info ∧
      info.shape = .lookupSwitch := by decide +kernel
  have hheader : Instruction.header pc (pad ++ (wordBytes default ++ fourBytes n) ++ tail) =
      wordBytes default ++ fourBytes n ++ tail.take 4 := by
    rw [List.append_assoc, header_of_aligned halign, List.take_append]
    rfl
  rw [Instruction.header] at hheader
  have hpairs : ((wordBytes default ++ fourBytes n ++ tail.take 4).drop 4).take 4 = fourBytes n := rfl
  have hlen : (wordBytes default ++ fourBytes n ++ tail.take 4).length = 8 + min 4 tail.length := by
    rw [List.length_append, List.length_take]
    rfl
  unfold Instruction.lengthAt
  simp only [hinfo, hshape, hheader, hpairs, signedWord_fourBytes hn, hlen]
  by_cases hroom : 4 ≤ tail.length
  · rw [if_neg (by omega), if_neg (by omega), padding_of_aligned halign]
    exact iff_of_true rfl hroom
  · rw [if_pos (by omega)]
    exact iff_of_false nofun hroom

/-- A well-formed instruction has the length of its bytes exactly when it is readable. -/
theorem lengthAt_iff {pc : Nat} {w : Written} (h : w.ValidAt pc) (rest : Bytes) :
    Instruction.lengthAt pc (w.op :: (w.operands ++ rest)) = .ok (1 + w.operands.length) ↔
      w.Readable rest.length := by
  have hwide : ∃ info, Opcode.info? 0xC4 = some info ∧ info.shape = .wide := by decide +kernel
  cases w with
  | fixed op operands =>
      obtain ⟨info, hinfo, hshape⟩ := Opcode.info_of_operandBytes h
      refine iff_of_true ?_ trivial
      rw [Written.op, Instruction.lengthAt_fixed hinfo hshape]
      exact congrArg Except.ok (by rw [Written.operands]; omega)
  | wide op index =>
      obtain ⟨info, hinfo, hshape⟩ := hwide
      have hne : op ≠ Opcode.iinc := by
        rintro rfl
        have hnot : ¬ Opcode.Widened Opcode.iinc := by decide
        exact hnot h
      refine iff_of_true ?_ trivial
      unfold Instruction.lengthAt
      simp only [Written.op, Written.operands, hinfo, hshape, List.cons_append, if_neg hne]
      rfl
  | wideIncrement index amount =>
      obtain ⟨info, hinfo, hshape⟩ := hwide
      refine iff_of_true ?_ trivial
      unfold Instruction.lengthAt
      simp only [Written.op, Written.operands, hinfo, hshape, List.cons_append, if_true]
      rfl
  | tableSwitch pad default low high offsets =>
      obtain ⟨halign, hle, hcount⟩ := h
      have hlen : (Written.tableSwitch pad default low high offsets).operands.length =
          pad.length + 12 + 4 * offsets.length := by
        rw [Written.operands, List.length_append, List.length_append,
          length_flatMap_const length_wordBytes]
        rfl
      have hlow := BitVec.le_toInt low
      have hhigh := BitVec.toInt_lt (x := high)
      rw [hlen, Written.op, Written.operands, List.append_assoc _ _ rest,
        lengthAt_tableSwitch halign hle, ← hcount, Except.ok.injEq]
      change _ ↔ offsets.length < 0x80000000
      rw [Int.bmod_def]
      split <;> omega
  | lookupSwitch pad default pairs =>
      obtain ⟨halign, hlt⟩ := h
      have htail : (pairs.flatMap fun pair => wordBytes pair.1 ++ wordBytes pair.2).length =
          8 * pairs.length := length_flatMap_const (n := 8) (fun _ => rfl) pairs
      have hlen : (Written.lookupSwitch pad default pairs).operands.length =
          pad.length + 8 + 8 * pairs.length := by
        rw [Written.operands, List.length_append, List.length_append, htail]
        rfl
      have hsize : (1 + ((pad.length + 8 + 8 * pairs.length : Nat) : Int)) =
          1 + pad.length + 8 + 8 * (pairs.length : Nat) := by omega
      rw [hlen, hsize, Written.op, Written.operands, List.append_assoc _ _ rest,
        lengthAt_lookupSwitch halign hlt, List.length_append, htail]
      change _ ↔ (pairs = [] → 4 ≤ rest.length)
      constructor
      · rintro hroom rfl
        simpa using hroom
      · intro hroom
        cases pairs with
        | nil => simpa using hroom rfl
        | cons pair pairs =>
            rw [List.length_cons]
            omega

theorem decodes_iff {pc : Nat} {ws : List Written} (h : ValidFrom pc ws) :
    Decodes pc (encode ws) (layout pc ws) ↔ AllReadable ws := by
  induction ws generalizing pc with
  | nil => exact iff_of_true (.nil pc) trivial
  | cons w ws ih =>
      obtain ⟨hw, hws⟩ := h
      have hcode : encode (w :: ws) = w.op :: (w.operands ++ encode ws) := by
        rw [encode, List.flatMap_cons, List.cons_append]
        rfl
      rw [hcode, layout, AllReadable, ← ih hws, ← lengthAt_iff hw]
      constructor
      · intro hdecodes
        generalize hbytes : w.op :: (w.operands ++ encode ws) = code at hdecodes
        cases hdecodes with
        | cons hlength hrest =>
            obtain rfl := List.append_cancel_left (List.cons.inj hbytes).2
            exact ⟨hlength, hrest⟩
      · rintro ⟨hlength, hrest⟩
        exact .cons hlength hrest

end Written

namespace Code

/-- A stream of well-formed instructions decodes into its own instructions exactly when each lookup
switch without pairs has four more bytes after it and no table switch has too many offsets for a
signed 32-bit number. -/
theorem decode_written {ws : List Written} (h : Written.ValidFrom 0 ws) :
    decode (Written.encode ws) = ⟨Written.layout 0 ws, .complete⟩ ↔ Written.AllReadable ws := by
  rw [← Written.decodes_iff h]
  constructor
  · intro hdecode
    have hcomplete : (decode (Written.encode ws)).ending = .complete := by rw [hdecode]
    have hdecodes := decodes hcomplete
    rw [hdecode] at hdecodes
    exact hdecodes
  · exact decode_of_decodes

/-- A wide load, a table switch, a lookup switch without pairs and the instructions after it. -/
def mixed : List Written :=
  [.wide 0x15 0x0102, .tableSwitch [0, 0, 0] 0 (-1) 0 [8, 9], .fixed 0x03 [], .fixed 0x10 [7],
    .lookupSwitch [] 4 [], .fixed 0xB8 [0, 3], .fixed 0xB1 []]

theorem decode_written_mixed : Written.ValidFrom 0 mixed ∧ Written.AllReadable mixed ∧
    decode (Written.encode mixed) = ⟨Written.layout 0 mixed, .complete⟩ := by
  have hvalid : Written.ValidFrom 0 mixed := by
    simp only [mixed, Written.ValidFrom, Written.ValidAt, Written.Aligned]
    decide +kernel
  have hreadable : Written.AllReadable mixed := by
    simp only [mixed, Written.AllReadable, Written.Readable]
    decide +kernel
  exact ⟨hvalid, hreadable, (decode_written hvalid).mpr hreadable⟩

/-- A lookup switch without pairs at the end of the code is well-formed, and is not decoded: the
bytes of a table switch's header are expected of it. -/
theorem decode_lone_lookup : Written.ValidFrom 0 [.lookupSwitch [0, 0, 0] 0 []] ∧
    decode (Written.encode [.lookupSwitch [0, 0, 0] 0 []]) =
      ⟨[], .fault (.truncated "lookupswitch" 0)⟩ := by
  constructor
  · simp only [Written.ValidFrom, Written.ValidAt, Written.Aligned]
    decide +kernel
  · decide +kernel

end Code

end ClassLinker
