import ClassLinker.Text.Utf8

/-!
White space and the words between it. White space is the ASCII blanks and the Unicode spaces;
a stray byte is never white space.
-/

namespace ClassLinker.Text

/-- Whether a code point is white space. -/
def isBlankCode (c : Nat) : Bool :=
  (9 ≤ c && c ≤ 13) || c = 0x20 || c = 0x85 || c = 0xA0 || c = 0x1680 ||
    (0x2000 ≤ c && c ≤ 0x200A) || c = 0x2028 || c = 0x2029 || c = 0x202F || c = 0x205F || c = 0x3000

/-- Whether a piece of a text is white space. -/
def isBlank : Piece → Bool
  | .char c _ => isBlankCode c
  | .stray _ => false

/-- The maximal runs of pieces that `sep` does not hold of. -/
def runs (sep : Piece → Bool) : List Piece → List (List Piece)
  | [] => []
  | p :: ps =>
    if sep p then runs sep ps
    else
      match ps with
      | [] => [[p]]
      | q :: _ =>
        if sep q then [p] :: runs sep ps
        else
          match runs sep ps with
          | [] => [[p]]
          | run :: rest => (p :: run) :: rest

/-- The words of a text: its maximal runs without white space. -/
def words (t : Text) : List Text := (runs isBlank (pieces t)).map ofPieces

/-- A text without the white space at its two ends. -/
def trim (t : Text) : Text :=
  ofPieces (((pieces t).dropWhile isBlank).reverse.dropWhile isBlank).reverse

end ClassLinker.Text
