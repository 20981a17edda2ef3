import ClassLinker.Instruction.Decode

/-!
Relocation: every field and method instruction gets a new slot operand, and every other byte of the
code stays.
-/

namespace ClassLinker

/-- Why code could not be relocated: it does not decode, an instruction does not step forward, or
the slot of an instruction has no new slot. -/
inductive RelocationFailure (ε : Type) where
  | undecodable (cause : CodeFault)
  | stuck (pc : Nat)
  | unmapped (instr : Instruction) (cause : ε)
deriving DecidableEq, Repr

namespace Instruction

/-- Puts a new slot into the first two operand bytes. -/
def withSlot (i : Instruction) (slot : Nat) : Instruction :=
  { i with operands := twoBytes slot ++ i.operands.drop 2 }

/-- Relocates one instruction: its slot goes through `remap` when it names a member. -/
def relocate {ε : Type} (remap : Nat → Except ε Nat) (i : Instruction) : Except ε Instruction :=
  if Opcode.operand i.op = .memberSlot then
    match remap (bigEndian (i.operands.take 2)) with
    | .ok slot => .ok (i.withSlot slot)
    | .error cause => .error cause
  else .ok i

end Instruction

namespace Code

/-- Relocates instructions in order, up to the first whose slot has no new slot. -/
def relocateAll {ε : Type} (remap : Nat → Except ε Nat) :
    List Instruction → Except (RelocationFailure ε) (List Instruction)
  | [] => .ok []
  | i :: rest =>
    match i.relocate remap with
    | .error cause => .error (.unmapped i cause)
    | .ok j =>
      match relocateAll remap rest with
      | .error failure => .error failure
      | .ok js => .ok (j :: js)

/-- The code with every member slot passed through `remap`. -/
def relocate {ε : Type} (remap : Nat → Except ε Nat) (code : Bytes) :
    Except (RelocationFailure ε) Bytes :=
  let decoded := decode code
  match relocateAll remap decoded.instrs with
  | .error failure => .error failure
  | .ok instrs =>
    match decoded.ending with
    | .complete => .ok (instrs.flatMap Instruction.bytes)
    | .fault cause => .error (.undecodable cause)
    | .stuck pc => .error (.stuck pc)

/-- One call of a static method through each slot, in order. -/
def invokeAll (slots : List Nat) : Bytes :=
  slots.flatMap fun slot => Opcode.invokestatic :: twoBytes slot

end Code

end ClassLinker
