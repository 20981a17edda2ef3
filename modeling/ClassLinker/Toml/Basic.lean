import ClassLinker.Text.Basic

/-!
The parts of a TOML document: keys, values as they are written, and the statements that give keys
their values. Numbers with a fraction, truth values and moments have no use here beyond being well
formed, so only their kind is kept.
-/

namespace ClassLinker

/-- A key is a list of names, outermost table first. -/
abbrev TomlKey := List Text

/-- A value without parts. -/
inductive TomlScalar where
  | string (text : Text)
  | integer (value : Int)
  | float
  | boolean (value : Bool)
  | moment
deriving DecidableEq, Repr

/-- A value as it is written. The entries of an inline table keep their order and their keys. -/
inductive TomlExpr where
  | scalar (value : TomlScalar)
  | array (items : List TomlExpr)
  | inline (entries : List (TomlKey × TomlExpr))

/-- A statement of a document. -/
inductive TomlStatement where
  | table (key : TomlKey)
  | arrayElement (key : TomlKey)
  | assign (key : TomlKey) (value : TomlExpr)

/-- The value of a key. An array of tables that is written element by element is kept apart from an
array value. -/
inductive TomlValue where
  | scalar (value : TomlScalar)
  | array (items : List TomlValue)
  | table (entries : List (Text × TomlValue))
  | tables (elements : List (List (Text × TomlValue)))

/-- The entries of a table, one for each name. -/
abbrev TomlTable := List (Text × TomlValue)

namespace Toml

/-- A byte between the parts of a line. -/
def isSpace (b : UInt8) : Bool := b = Text.byte ' ' || b = Text.byte '\t'

/-- A byte that ends a line. A carriage return only occurs in front of a line feed. -/
def isNewline (b : UInt8) : Bool := b = Text.byte '\n' || b = Text.byte '\r'

/-- A byte of a name that is not quoted. -/
def isBare (b : UInt8) : Bool :=
  (Text.byte 'a' ≤ b && b ≤ Text.byte 'z') || (Text.byte 'A' ≤ b && b ≤ Text.byte 'Z') ||
    (Text.byte '0' ≤ b && b ≤ Text.byte '9') || b = Text.byte '_' || b = Text.byte '-'

/-- A text without the spaces at its start. -/
def skipSpaces (t : Text) : Text := t.dropWhile isSpace

/-- Skips spaces, newlines and comments; `comment` says whether the text starts inside a comment. -/
def skipBlanks (comment : Bool) : Text → Text
  | [] => []
  | b :: t =>
    if isNewline b then skipBlanks false t
    else if comment then skipBlanks true t
    else if isSpace b then skipBlanks false t
    else if b = Text.byte '#' then skipBlanks true t
    else b :: t

end Toml

end ClassLinker
