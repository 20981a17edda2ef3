import ClassLinker.Text.Basic

/-!
Reading a text as UTF-8. A text is a sequence of pieces: each piece is one well-formed encoded
character or one stray byte that starts no well-formed encoding. The pieces' bytes put together
are the text again, so a text can be cut between characters without losing its stray bytes.
-/

namespace ClassLinker

/-- One encoded character, or one byte that belongs to no character. -/
inductive Piece where
  | char (code : Nat) (bytes : Text)
  | stray (byte : UInt8)
deriving DecidableEq, Repr

namespace Piece

/-- The bytes a piece was read from. -/
def bytes : Piece → Text
  | char _ bs => bs
  | stray b => [b]

/-- The code point of a piece; a stray byte has none. -/
def code? : Piece → Option Nat
  | char c _ => some c
  | stray _ => none

end Piece

namespace Text

/-- A continuation byte, `10xxxxxx`. -/
def isContinuation (b : UInt8) : Bool := 0x80 ≤ b && b ≤ 0xBF

/-- The payload bits of a continuation byte. -/
def continuationBits (b : UInt8) : Nat := b.toNat - 0x80

/-- The code point of a two-byte encoding. -/
def pair? (a b : UInt8) : Option Nat :=
  if 0xC2 ≤ a && a ≤ 0xDF && isContinuation b then
    some ((a.toNat - 0xC0) * 64 + continuationBits b)
  else none

/-- The code point of a three-byte encoding: neither overlong nor a surrogate. -/
def triple? (a b c : UInt8) : Option Nat :=
  let second :=
    if a = 0xE0 then 0xA0 ≤ b && b ≤ 0xBF
    else if a = 0xED then 0x80 ≤ b && b ≤ 0x9F
    else isContinuation b
  if 0xE0 ≤ a && a ≤ 0xEF && second && isContinuation c then
    some ((a.toNat - 0xE0) * 4096 + continuationBits b * 64 + continuationBits c)
  else none

/-- The code point of a four-byte encoding: neither overlong nor above `0x10FFFF`. -/
def quadruple? (a b c d : UInt8) : Option Nat :=
  let second :=
    if a = 0xF0 then 0x90 ≤ b && b ≤ 0xBF
    else if a = 0xF4 then 0x80 ≤ b && b ≤ 0x8F
    else isContinuation b
  if 0xF0 ≤ a && a ≤ 0xF4 && second && isContinuation c && isContinuation d then
    some ((a.toNat - 0xF0) * 262144 + continuationBits b * 4096 + continuationBits c * 64 +
      continuationBits d)
  else none

/-- Reads a text as characters and stray bytes. -/
def pieces : Text → List Piece
  | [] => []
  | a :: t =>
    if a < 0x80 then .char a.toNat [a] :: pieces t
    else
      match t with
      | [] => [.stray a]
      | b :: t₁ =>
        match pair? a b with
        | some code => .char code [a, b] :: pieces t₁
        | none =>
          match t₁ with
          | [] => .stray a :: pieces (b :: [])
          | c :: t₂ =>
            match triple? a b c with
            | some code => .char code [a, b, c] :: pieces t₂
            | none =>
              match t₂ with
              | [] => .stray a :: pieces (b :: c :: [])
              | d :: t₃ =>
                match quadruple? a b c d with
                | some code => .char code [a, b, c, d] :: pieces t₃
                | none => .stray a :: pieces (b :: c :: d :: t₃)

/-- The text a list of pieces was read from. -/
def ofPieces (ps : List Piece) : Text := ps.flatMap Piece.bytes

/-- A text is UTF-8 when none of its pieces is a stray byte. -/
def isUtf8 (t : Text) : Bool := (pieces t).all fun p => p.code?.isSome

/-- The UTF-8 encoding of a code point. -/
def ofCode (c : Nat) : Text :=
  if c < 0x80 then [c.toUInt8]
  else if c < 0x800 then [(0xC0 + c / 64).toUInt8, (0x80 + c % 64).toUInt8]
  else if c < 0x10000 then
    [(0xE0 + c / 4096).toUInt8, (0x80 + c / 64 % 64).toUInt8, (0x80 + c % 64).toUInt8]
  else
    [(0xF0 + c / 262144).toUInt8, (0x80 + c / 4096 % 64).toUInt8, (0x80 + c / 64 % 64).toUInt8,
      (0x80 + c % 64).toUInt8]

/-- Reading a text in pieces loses none of its bytes. -/
theorem ofPieces_pieces (t : Text) : ofPieces (pieces t) = t := by
  fun_induction pieces t <;> simp_all [ofPieces, Piece.bytes]

end Text

end ClassLinker
