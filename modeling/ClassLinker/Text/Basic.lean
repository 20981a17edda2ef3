/-!
Texts are byte strings. The names of classes and members come from files that need not hold
UTF-8, and every name, path and message is compared, sorted and measured as bytes, so a text is
the list of its bytes and a string literal stands for its UTF-8 encoding.
-/

namespace ClassLinker

/-- A text is the list of its bytes. -/
abbrev Text := List UInt8

namespace Text

/-- The UTF-8 bytes of a string. -/
def ofString (s : String) : Text := s.toUTF8.data.toList

instance : Coe String Text := ⟨ofString⟩

/-- The byte of an ASCII character. -/
def byte (c : Char) : UInt8 := c.toNat.toUInt8

/-- The decimal digits of a natural number. -/
def ofNat (n : Nat) : Text := (Nat.toDigits 10 n).map byte

/-- The decimal digits of an integer, a minus sign before a negative one. -/
def ofInt : Int → Text
  | .ofNat n => ofNat n
  | .negSucc n => byte '-' :: ofNat (n + 1)

/-- The value of a hexadecimal digit. -/
def hexDigit? (b : UInt8) : Option Nat :=
  if byte '0' ≤ b && b ≤ byte '9' then some (b.toNat - 48)
  else if byte 'a' ≤ b && b ≤ byte 'f' then some (b.toNat - 87)
  else if byte 'A' ≤ b && b ≤ byte 'F' then some (b.toNat - 55)
  else none

/-- The lower-case hexadecimal digits of a natural number. -/
def hex (n : Nat) : Text := (Nat.toDigits 16 n).map byte

/-- An ASCII lower-case letter becomes its upper-case letter; every other byte stays. -/
def upperByte (b : UInt8) : UInt8 := if 97 ≤ b && b ≤ 122 then b - 32 else b

/-- The upper-case hexadecimal digits of a natural number. -/
def upperHex (n : Nat) : Text := (hex n).map upperByte

/-- Fills a text on its left with `fill` up to `width` bytes. -/
def padLeft (width : Nat) (fill : Char) (t : Text) : Text :=
  List.replicate (width - t.length) (byte fill) ++ t

/-- Puts `sep` between neighbours. -/
def join (sep : Text) : List Text → Text
  | [] => []
  | [t] => t
  | t :: u :: rest => t ++ sep ++ join sep (u :: rest)

/-- Cuts a text at every occurrence of a byte. The empty text is one empty piece. -/
def splitOn (sep : UInt8) : Text → List Text
  | [] => [[]]
  | b :: t =>
    if b = sep then [] :: splitOn sep t
    else
      match splitOn sep t with
      | [] => [[b]]
      | first :: rest => (b :: first) :: rest

/-- Replaces every occurrence of one byte by another. -/
def replaceByte (old new : UInt8) (t : Text) : Text := t.map fun b => if b = old then new else b

/-- The text without `start`, when it starts with it. -/
def dropStart? (start : Text) (t : Text) : Option Text :=
  if start.isPrefixOf t then some (t.drop start.length) else none

/-- The text without `tail`, when it ends with it. -/
def dropEnd? (tail : Text) (t : Text) : Option Text :=
  if tail.isSuffixOf t then some (t.take (t.length - tail.length)) else none

/-- Bytewise lexicographic order, the shorter of two texts first when it starts the other. -/
def le : Text → Text → Bool
  | [], _ => true
  | _ :: _, [] => false
  | a :: s, b :: t => a < b || (a = b && le s t)

/-- Sorts texts by their bytes. -/
def sort (ts : List Text) : List Text := ts.mergeSort le

/-- The string a text encodes, when it is UTF-8. -/
def toString? (t : Text) : Option String := String.fromUTF8? ⟨t.toArray⟩

end Text

end ClassLinker
