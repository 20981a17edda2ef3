import ClassLinker.Instruction.Opcode

/-!
Decoding a code array into instructions. The length of an instruction follows from its opcode and,
for `wide` and the two switches, from the bytes after it; switch operands are aligned to four bytes
from the start of the code. Switch sizes are computed in 32-bit arithmetic, so a table switch over
almost the whole range of its keys can have a length that does not step forward: such a length ends
the decoding without an answer.
-/

namespace ClassLinker

/-- Code is a list of bytes. -/
abbrev Bytes := List UInt8

/-- The big-endian value of bytes. -/
def bigEndian (bs : Bytes) : Nat := bs.foldl (fun n b => n * 256 + b.toNat) 0

/-- The two bytes of a 16-bit number, high byte first. -/
def twoBytes (n : Nat) : Bytes := [(n / 256).toUInt8, n.toUInt8]

/-- The four bytes of a 32-bit number, high byte first. -/
def fourBytes (n : Nat) : Bytes := twoBytes (n / 65536) ++ twoBytes n

/-- Reads bytes as a signed 32-bit number. -/
def signedWord (bs : Bytes) : Int := Int.bmod (bigEndian bs) 0x100000000

/-- Why code cannot be decoded. -/
inductive CodeFault where
  | outOfRange (pc : Int) (size : Nat)
  | undefinedOpcode (op : UInt8) (pc : Nat)
  | truncated (name : Text) (pc : Nat)
  | invertedTable (pc : Nat) (high low : Int)
  | negativePairs (pc : Nat)
deriving DecidableEq, Repr

namespace CodeFault

/-- The message of a decoding fault. -/
def message : CodeFault → Text
  | outOfRange pc size =>
    "pc " ++ Text.ofInt pc ++ " out of range (code length " ++ Text.ofNat size ++ ")"
  | undefinedOpcode op pc =>
    "undefined opcode 0x" ++ Text.padLeft 2 '0' (Text.upperHex op.toNat) ++ " at pc " ++
      Text.ofNat pc
  | truncated name pc => "truncated " ++ name ++ " at pc " ++ Text.ofNat pc
  | invertedTable pc high low =>
    "tableswitch at pc " ++ Text.ofNat pc ++ ": high " ++ Text.ofInt high ++ " < low " ++
      Text.ofInt low
  | negativePairs pc => "lookupswitch at pc " ++ Text.ofNat pc ++ ": negative npairs"

end CodeFault

/-- One decoded instruction. -/
structure Instruction where
  pc : Nat
  op : UInt8
  operands : Bytes
deriving DecidableEq, Repr

namespace Instruction

/-- The encoded bytes of an instruction. -/
def bytes (i : Instruction) : Bytes := i.op :: i.operands

/-- The number of encoded bytes, the opcode included. -/
def length (i : Instruction) : Nat := 1 + i.operands.length

/-- The mnemonic. -/
def name (i : Instruction) : Text := Opcode.name i.op

/-- The pool slot an instruction names, if its operand is one. -/
def slot? (i : Instruction) : Option Nat :=
  match Opcode.operand i.op with
  | .memberSlot | .classSlot | .dynamicSlot => some (bigEndian (i.operands.take 2))
  | .constantSlot =>
    some (bigEndian (i.operands.take (if i.op = Opcode.ldc then 1 else 2)))
  | _ => none

/-- The element type code of an instruction that allocates a primitive array. -/
def arrayType? (i : Instruction) : Option UInt8 :=
  if i.op = Opcode.newarray then i.operands.head? else none

/-- The pad bytes between a switch opcode at `pc` and its aligned operands. -/
def padding (pc : Nat) : Nat := (4 - (pc + 1) % 4) % 4

/-- The length of the instruction that starts `rest`, which is the code from `pc` on. -/
def lengthAt (pc : Nat) (rest : Bytes) : Except CodeFault Int :=
  match rest with
  | [] => .error (.outOfRange pc pc)
  | op :: after =>
    match Opcode.info? op with
    | none => .error (.undefinedOpcode op pc)
    | some info =>
      let header := (after.drop (padding pc)).take 12
      match info.shape with
      | .fixed n => .ok n
      | .wide =>
        match after with
        | [] => .error (.truncated info.name pc)
        | widened :: _ => .ok (if widened = Opcode.iinc then 6 else 4)
      | .tableSwitch =>
        if header.length < 12 then .error (.truncated info.name pc)
        else
          let low := signedWord ((header.drop 4).take 4)
          let high := signedWord ((header.drop 8).take 4)
          if high < low then .error (.invertedTable pc high low)
          else .ok (1 + padding pc + 12 + 4 * Int.bmod (high - low + 1) 0x100000000)
      | .lookupSwitch =>
        if header.length < 12 then .error (.truncated info.name pc)
        else
          let pairs := signedWord ((header.drop 4).take 4)
          if pairs < 0 then .error (.negativePairs pc)
          else .ok (1 + padding pc + 8 + 8 * pairs)

end Instruction

/-- How the decoding of a code array ended: all of it was decoded, a fault was found, or an
instruction had a length that does not step forward. -/
inductive Ending where
  | complete
  | fault (cause : CodeFault)
  | stuck (pc : Nat)
deriving DecidableEq, Repr

/-- The instructions of a code array up to where its decoding ended. -/
structure Decoded where
  instrs : List Instruction
  ending : Ending
deriving DecidableEq, Repr

namespace Code

/-- The length of the instruction at `pc`. -/
def lengthAt (code : Bytes) (pc : Int) : Except CodeFault Int :=
  if pc < 0 || code.length ≤ pc then .error (.outOfRange pc code.length)
  else Instruction.lengthAt pc.toNat (code.drop pc.toNat)

/-- Decodes `rest`, which is the code from `pc` on. Every instruction takes at least one byte, so
`fuel` of at least the length of `rest` never runs out. -/
def decodeFrom : Nat → Nat → Bytes → Decoded
  | _, _, [] => ⟨[], .complete⟩
  | 0, pc, _ :: _ => ⟨[], .stuck pc⟩
  | fuel + 1, pc, op :: after =>
    match Instruction.lengthAt pc (op :: after) with
    | .error cause => ⟨[], .fault cause⟩
    | .ok n =>
      if n < 1 then ⟨[], .stuck pc⟩
      else
        let size := (n - 1).toNat
        let operands := after.take size
        if operands.length < size then ⟨[], .fault (.truncated (Opcode.name op) pc)⟩
        else
          let next := decodeFrom fuel (pc + 1 + size) (after.drop size)
          ⟨⟨pc, op, operands⟩ :: next.instrs, next.ending⟩

/-- Decodes a code array. -/
def decode (code : Bytes) : Decoded := decodeFrom code.length 0 code

end Code

end ClassLinker
