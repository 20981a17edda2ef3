import ClassLinker.Archive.Huffman
import ClassLinker.Instruction.Decode
import ClassLinker.Numeric
import ClassLinker.Text.Basic

/-!
Unpacking deflated data. The data is a sequence of blocks, stored or coded; a coded block consists
of literal bytes and copies of earlier output. Input is taken byte by byte and only when its bits
are needed, so a fault can say how much of the input was taken before it.
-/

namespace ClassLinker

/-- Why data cannot be unpacked. -/
inductive InflateFault where
  | corrupt (offset : Nat)
  | ended
deriving DecidableEq, Repr

namespace InflateFault

/-- The message of a fault. -/
def message : InflateFault → Text
  | corrupt offset => "flate: corrupt input before offset " ++ Text.ofNat offset
  | ended => "unexpected EOF"

end InflateFault

namespace Inflate

/-- The input: what is left, how many bytes were taken, and the bits of them not used yet. -/
structure Input where
  rest : Bytes
  taken : Nat
  bits : Nat
  count : Nat
deriving DecidableEq, Repr

/-- Takes something from the input. -/
abbrev Taker := StateT Input (Except InflateFault)

/-- Fails with corrupt input. -/
def corrupt {α : Type} : Taker α := do throw (.corrupt (← get).taken)

/-- Takes a byte. -/
def moreBits : Taker Unit := fun i =>
  match i.rest with
  | [] => .error .ended
  | b :: rest => .ok ((), ⟨rest, i.taken + 1, i.bits + b.toNat * twoPow i.count, i.count + 8⟩)

/-- Takes bytes until there are `n` bits. -/
def need (n : Nat) : Nat → Taker Unit
  | 0 => return ()
  | fuel + 1 => do
    if (← get).count < n then
      moreBits
      need n fuel

/-- Uses up bits that are there. -/
def use (n : Nat) : Taker Unit :=
  modify fun i => { i with bits := i.bits / twoPow n, count := i.count - n }

/-- The next `n` bits as a number, the first bit lowest. -/
def takeBits (n : Nat) : Taker Nat := do
  need n n
  let value := (← get).bits % twoPow n
  use n
  return value

/-- Takes a symbol when `n` bits are looked at first. Missing bits count as zeros until a codeword
that starts with the bits there asks for more of them. -/
def symbolFrom (code : HuffmanCode) : Nat → Nat → Taker Nat
  | 0, _ => corrupt
  | fuel + 1, n => do
    need n n
    let i ← get
    match code.find? i.bits with
    | none => corrupt
    | some word =>
      if word.length ≤ i.count then
        use word.length
        return word.symbol
      else symbolFrom code fuel word.length

/-- Takes a symbol. -/
def takeSymbol (code : HuffmanCode) : Taker Nat :=
  symbolFrom code (HuffmanCode.maxLength + 1) code.least

/-- The codes of a block: for literals and lengths, and for distances. A block without a code for
distances has them in five bits. -/
structure BlockCodes where
  literals : HuffmanCode
  distances : Option HuffmanCode
deriving DecidableEq, Repr

/-- The symbol that ends a block. -/
def endOfBlock : Nat := 256

/-- The codeword lengths of the fixed code. -/
def fixedLengths : List Nat :=
  List.replicate 144 8 ++ List.replicate 112 9 ++ List.replicate 24 7 ++ List.replicate 8 8

/-- The codes of blocks that bring none of their own. -/
def fixedCodes : BlockCodes where
  literals := (HuffmanCode.ofLengths? fixedLengths).getD ⟨0, []⟩
  distances := none

/-- The order in which the lengths of the codewords for lengths are written. -/
def lengthOrder : List Nat := [16, 17, 18, 0, 8, 7, 9, 6, 10, 5, 11, 4, 12, 3, 13, 2, 14, 1, 15]

/-- Takes `n` numbers of three bits. -/
def takeThrees : Nat → Taker (List Nat)
  | 0 => return []
  | n + 1 => do
    let x ← takeBits 3
    return x :: (← takeThrees n)

/-- Takes codeword lengths until there are `n`; those there already are given latest first. Some
symbols repeat the last length or zero. -/
def takeLengths (code : HuffmanCode) (n : Nat) : Nat → List Nat → Taker (List Nat)
  | 0, lengths => return lengths.reverse
  | fuel + 1, lengths => do
    if n ≤ lengths.length then return lengths.reverse
    let symbol ← takeSymbol code
    let again (value base width : Nat) : Taker (List Nat) := do
      let count := base + (← takeBits width)
      if n < lengths.length + count then corrupt
      takeLengths code n fuel (List.replicate count value ++ lengths)
    if symbol < 16 then takeLengths code n fuel (symbol :: lengths)
    else if symbol = 16 then
      match lengths with
      | [] => corrupt
      | last :: _ => again last 3 2
    else if symbol = 17 then again 0 3 3
    else again 0 11 7

/-- The code with given codeword lengths. -/
def codeOf (lengths : List Nat) : Taker HuffmanCode :=
  match HuffmanCode.ofLengths? lengths with
  | some code => return code
  | none => corrupt

/-- Takes the codes that a block brings. -/
def takeCodes : Taker BlockCodes := do
  need 14 14
  let literals := (← get).bits % 32 + 257
  if 286 < literals then corrupt
  let distances := (← get).bits / 32 % 32 + 1
  if 30 < distances then corrupt
  let written := (← get).bits / 1024 % 16 + 4
  use 14
  let threes ← takeThrees written
  let named := lengthOrder.zip threes
  let code ← codeOf ((List.range 19).map fun symbol => (named.lookup symbol).getD 0)
  let lengths ← takeLengths code (literals + distances) (literals + distances) []
  let first ← codeOf (lengths.take literals)
  let second ← codeOf (lengths.drop literals)
  return ⟨{ first with least := max first.least (lengths.getD endOfBlock 0) }, some second⟩

/-- The length of the copy that a symbol stands for. -/
def takeLength (symbol : Nat) : Taker Nat := do
  if symbol < 265 then return symbol - 254
  else if symbol < 285 then
    let width := (symbol - 261) / 4
    return twoPow (width + 2) + 3 + (symbol - 261) % 4 * twoPow width + (← takeBits width)
  else if symbol < 286 then return 258
  else corrupt

/-- Takes the distance of a copy. -/
def takeDistance (codes : BlockCodes) : Taker Nat := do
  let symbol ←
    match codes.distances with
    | some code => takeSymbol code
    | none => pure (HuffmanCode.reverseBits 5 (← takeBits 5))
  if symbol < 4 then return symbol + 1
  else if symbol < 30 then
    let width := (symbol - 2) / 2
    return twoPow (width + 1) + 1 + symbol % 2 * twoPow width + (← takeBits width)
  else corrupt

/-- Appends a copy of earlier output, byte by byte. -/
def copy (distance : Nat) : Nat → Array UInt8 → Array UInt8
  | 0, out => out
  | n + 1, out => copy distance n (out.push (out.getD (out.size - distance) 0))

/-- What a symbol of a block stands for. -/
inductive Piece where
  | literal (b : UInt8)
  | copied (length distance : Nat)
  | stop
deriving DecidableEq, Repr

/-- Takes the next piece of a coded block. -/
def takePiece (codes : BlockCodes) (size : Nat) : Taker Piece := do
  let symbol ← takeSymbol codes.literals
  if symbol < endOfBlock then return .literal symbol.toUInt8
  else if symbol = endOfBlock then return .stop
  else
    let length ← takeLength symbol
    let distance ← takeDistance codes
    if size < distance then corrupt
    return .copied length distance

/-- Unpacks a coded block. Every piece uses up a bit. -/
def codedBlock (codes : BlockCodes) : Nat → Array UInt8 → Input →
    Array UInt8 × Except InflateFault Input
  | 0, out, _ => (out, .error .ended)
  | fuel + 1, out, input =>
    match takePiece codes out.size input with
    | .error fault => (out, .error fault)
    | .ok (.literal b, input) => codedBlock codes fuel (out.push b) input
    | .ok (.copied length distance, input) => codedBlock codes fuel (copy distance length out) input
    | .ok (.stop, input) => (out, .ok input)

/-- Unpacks a stored block: its size, the size with all bits turned over, and the bytes. Bits left
of the last byte are dropped. -/
def storedBlock (out : Array UInt8) (input : Input) : Array UInt8 × Except InflateFault Input :=
  match input.rest with
  | a :: b :: c :: d :: rest =>
    let size := a.toNat + 256 * b.toNat
    if size + (c.toNat + 256 * d.toNat) ≠ 65535 then (out, .error (.corrupt (input.taken + 4)))
    else
      let data := rest.take size
      let out := out ++ data.toArray
      if data.length < size then (out, .error .ended)
      else (out, .ok ⟨rest.drop size, input.taken + 4 + size, 0, 0⟩)
  | _ => (out, .error .ended)

/-- The size of the window that output is handed out from. -/
def window : Nat := 32768

/-- The output so far, and how much of it was handed out at the latest empty stored block. -/
structure Output where
  data : Array UInt8 := #[]
  flushed : Nat := 0

/-- How much output was handed out: that before an empty stored block, and all full windows. -/
def Output.handedOut (o : Output) : Nat := max o.flushed (o.data.size / window * window)

/-- Unpacks blocks up to the last one. An empty stored block that is not the last hands out the
output before it. -/
def blocks : Nat → Output → Input → Output × Option InflateFault
  | 0, out, _ => (out, some .ended)
  | fuel + 1, out, input =>
    match takeBits 3 input with
    | .error fault => (out, some fault)
    | .ok (head, input) =>
      let work := 8 * input.rest.length + input.count + 1
      let (data, result) :=
        if head / 2 = 0 then storedBlock out.data input
        else if head / 2 = 1 then codedBlock fixedCodes work out.data input
        else if head / 2 = 2 then
          match takeCodes input with
          | .error fault => (out.data, .error fault)
          | .ok (codes, input) => codedBlock codes work out.data input
        else (out.data, .error (.corrupt input.taken))
      let isEmptyStored := head / 2 = 0 && data.size = out.data.size
      match result with
      | .error fault => ({ out with data }, some fault)
      | .ok input =>
        if head % 2 = 1 then ({ out with data }, none)
        else blocks fuel ⟨data, if isEmptyStored then data.size else out.flushed⟩ input

end Inflate

/-- What data unpacks to, how much of that is handed out before the end is met, and the fault that
stopped the unpacking, if one did. -/
structure Inflated where
  output : Bytes
  handedOut : Nat
  fault : Option InflateFault
deriving DecidableEq, Repr

/-- Unpacks deflated data. Bytes after the last block are not looked at. -/
def inflate (data : Bytes) : Inflated :=
  let (out, fault) := Inflate.blocks (8 * data.length + 1) {} ⟨data, 0, 0, 0⟩
  ⟨out.data.toList, out.handedOut, fault⟩

end ClassLinker
