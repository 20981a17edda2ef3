import ClassLinker.FloatBits
import ClassLinker.Instruction.Decode

/-!
Data items of the concise binary object representation, and their canonical form: definite lengths,
arguments in the fewest bytes and every float in the shortest format that holds its value.
-/

namespace ClassLinker.Cbor

/-- A data item. Texts are kept in the chunks they were written in, because each chunk has to be a
text by itself. The entries of a map are its keys and values in turn, and floats of every size are
kept as 64-bit numbers. -/
inductive Item where
  | unsigned (n : Nat)
  /-- The integer `-1 - n`. -/
  | negative (n : Nat)
  | bytes (data : Bytes)
  | text (chunks : List Text)
  | array (items : List Item)
  | map (entries : List Item)
  | tagged (tag : Nat) (item : Item)
  | simple (code : Nat)
  | float (bits : UInt64)
deriving Repr

namespace Item

/-- The item of a truth value. -/
def ofBool (b : Bool) : Item := simple (if b then 21 else 20)

/-- The item that stands for nothing. -/
def null : Item := simple 22

/-- The item of an integer. -/
def ofInt : Int → Item
  | .ofNat n => unsigned n
  | .negSucc n => negative n

/-- The item of a text. -/
def ofText (t : Text) : Item := text [t]

end Item

/-- The lowest `width` bytes of a number, high byte first. -/
def bytesOf : Nat → Nat → Bytes
  | 0, _ => []
  | width + 1, n => (n / Nat.pow 256 width).toUInt8 :: bytesOf width n

/-- The head of an item: its major type and an argument in the fewest bytes. -/
def head (major n : Nat) : Bytes :=
  let first (info : Nat) : UInt8 := (major * 32 + info).toUInt8
  if n < 24 then [first n]
  else if n < 0x100 then first 24 :: bytesOf 1 n
  else if n < 0x10000 then first 25 :: bytesOf 2 n
  else if n < 0x100000000 then first 26 :: bytesOf 4 n
  else first 27 :: bytesOf 8 n

/-- A float in the shortest format that holds its value. Everything that is no number is written
alike. -/
def encodeFloat (bits : UInt64) : Bytes :=
  if FloatBits.isNan bits then [0xF9, 0x7E, 0x00]
  else
    match FloatBits.narrow? .half bits with
    | some half => 0xF9 :: bytesOf 2 half
    | none =>
      match FloatBits.narrow? .single bits with
      | some single => 0xFA :: bytesOf 4 single
      | none => 0xFB :: bytesOf 8 bits.toNat

/-- A text in one chunk, or in an open sequence of chunks. -/
def encodeText : List Text → Bytes
  | [t] => head 3 t.length ++ t
  | chunks => 0x7F :: chunks.flatMap (fun t => head 3 t.length ++ t) ++ [0xFF]

mutual

/-- The canonical form of an item. -/
def Item.encode : Item → Bytes
  | .unsigned n => head 0 n
  | .negative n => head 1 n
  | .bytes data => head 2 data.length ++ data
  | .text chunks => encodeText chunks
  | .array items => head 4 items.length ++ encodeAll items
  | .map entries => head 5 (entries.length / 2) ++ encodeAll entries
  | .tagged tag item => head 6 tag ++ item.encode
  | .simple code => head 7 code
  | .float bits => encodeFloat bits

/-- The canonical forms of items, one after the other. -/
def encodeAll : List Item → Bytes
  | [] => []
  | item :: items => item.encode ++ encodeAll items

end

end ClassLinker.Cbor
