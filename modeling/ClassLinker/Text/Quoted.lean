import ClassLinker.Text.Printable
import ClassLinker.Text.Utf8

/-!
Quoting a text for a message. Printable characters stand for themselves; the quote and the
backslash are escaped, the seven named control characters have their letters, other ASCII control
characters and stray bytes are written `\xNN`, and other unprintable characters `\uNNNN` or
`\UNNNNNNNN`.
-/

namespace ClassLinker.Text

/-- The letter of a control character that has a named escape. -/
def namedEscape? (c : Nat) : Option Char :=
  match c with
  | 7 => some 'a'
  | 8 => some 'b'
  | 9 => some 't'
  | 10 => some 'n'
  | 11 => some 'v'
  | 12 => some 'f'
  | 13 => some 'r'
  | _ => none

/-- A byte as `\xNN`. -/
def hexEscape (b : Nat) : Text := "\\x" ++ padLeft 2 '0' (hex b)

/-- A code point between the given quotes, escaped where it has to be. -/
def escapeCode (mark : Char) (c : Nat) : Text :=
  if c = mark.toNat || c = 92 then byte '\\' :: ofCode c
  else if isPrintable c then ofCode c
  else
    match namedEscape? c with
    | some letter => [byte '\\', byte letter]
    | none =>
      if c < 32 || c = 127 then hexEscape c
      else if c < 0x10000 then "\\u" ++ padLeft 4 '0' (hex c)
      else "\\U" ++ padLeft 8 '0' (hex c)

/-- A piece of a text between double quotes. -/
def escapePiece : Piece → Text
  | .char c _ => escapeCode '"' c
  | .stray b => hexEscape b.toNat

/-- A text between double quotes. -/
def quote (t : Text) : Text :=
  byte '"' :: ((pieces t).flatMap escapePiece ++ [byte '"'])

/-- The character whose code point is a byte, between single quotes. -/
def quoteByte (b : UInt8) : Text := byte '\'' :: (escapeCode '\'' b.toNat ++ [byte '\''])

end ClassLinker.Text
