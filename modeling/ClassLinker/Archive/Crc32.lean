import ClassLinker.Instruction.Decode

/-!
The cyclic redundancy check of 32 bits that archives store for each of their files.
-/

namespace ClassLinker.Crc32

/-- Divides one more bit by the polynomial, low bits first. -/
def shift (crc : UInt32) : UInt32 :=
  if crc &&& 1 = 1 then (crc >>> 1) ^^^ 0xEDB88320 else crc >>> 1

/-- Takes a byte into the check. -/
def step (crc : UInt32) (b : UInt8) : UInt32 := Nat.repeat shift 8 (crc ^^^ b.toUInt32)

/-- The check of some bytes. -/
def checksum (data : Bytes) : UInt32 := ~~~(data.foldl step 0xFFFFFFFF)

end ClassLinker.Crc32
