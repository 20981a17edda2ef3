import ClassLinker.Toml.Moment
import ClassLinker.Toml.Number
import ClassLinker.Toml.Quoted

/-!
Reading TOML documents as lists of statements. A document is UTF-8 without control characters; it
may start with a byte order mark. A reader takes what it reads off the front of a text and gives the
rest; why a document is refused is not told.
-/

namespace ClassLinker.Toml

/-- Reads one name of a key. -/
def readName (t : Text) : Option (Text × Text) :=
  match t with
  | [] => none
  | b :: rest =>
    if b = basicMark || b = literalMark then readLineString b rest
    else
      let (name, rest) := t.span isBare
      if name = [] then none else some (name, rest)

/-- Reads the names of a key, with dots between them, and the byte that ends the key. `fuel` is more
than the number of names. -/
def readKey (stop : UInt8) : Nat → Text → Option (TomlKey × Text)
  | 0, _ => none
  | fuel + 1, t => do
    let (name, rest) ← readName (skipSpaces t)
    match skipSpaces rest with
    | [] => none
    | b :: rest =>
      if b = Text.byte '.' then do
        let (names, rest) ← readKey stop fuel rest
        return (name :: names, rest)
      else if b = stop then some ([name], rest)
      else none

/-- A byte of a value that is written without marks. -/
def isWord (b : UInt8) : Bool :=
  isBare b || b = Text.byte '+' || b = Text.byte '.' || b = Text.byte ':'

/-- The value of a word. -/
def scalarOf? (word : Text) : Option TomlScalar :=
  if word = (Text.ofString "true") then some (.boolean true)
  else if word = (Text.ofString "false") then some (.boolean false)
  else
    match integer? word with
    | some n => some (.integer n)
    | none =>
      if isFloat word then some .float
      else if isMoment word then some .moment
      else none

/-- Reads a value that is written without marks. A date and a time may have a space between them. -/
def readWord (t : Text) : Option (TomlScalar × Text) := do
  let (word, rest) := t.span isWord
  match rest with
  | a :: b :: _ =>
    if a = Text.byte ' ' && (Text.digit? b).isSome && takeDate? word = some [] then
      let (time, rest) := (rest.drop 1).span isWord
      return (← scalarOf? (word ++ "T" ++ time), rest)
  | _ => pure ()
  return (← scalarOf? word, rest)

mutual

/-- Reads a value. `fuel` bounds the number of values and of entries. -/
def readValue : Nat → Text → Option (TomlExpr × Text)
  | 0, _ => none
  | fuel + 1, t =>
    match skipSpaces t with
    | [] => none
    | b :: t =>
      if b = Text.byte '[' then do
        let (items, rest) ← readItems fuel t
        return (.array items, rest)
      else if b = Text.byte '{' then do
        let (entries, rest) ← readEntries fuel t
        return (.inline entries, rest)
      else if b = basicMark || b = literalMark then do
        let (text, rest) ← readString b t
        return (.scalar (.string text), rest)
      else do
        let (value, rest) ← readWord (b :: t)
        return (.scalar value, rest)

/-- Reads the rest of an array. -/
def readItems : Nat → Text → Option (List TomlExpr × Text)
  | 0, _ => none
  | fuel + 1, t =>
    match skipBlanks false t with
    | [] => none
    | b :: t =>
      if b = Text.byte ']' then some ([], t)
      else do
        let (item, rest) ← readValue fuel (b :: t)
        match skipBlanks false rest with
        | [] => none
        | c :: rest =>
          if c = Text.byte ']' then return ([item], rest)
          else if c = Text.byte ',' then do
            let (items, rest) ← readItems fuel rest
            return (item :: items, rest)
          else none

/-- Reads the rest of an inline table. -/
def readEntries : Nat → Text → Option (List (TomlKey × TomlExpr) × Text)
  | 0, _ => none
  | fuel + 1, t =>
    match skipBlanks false t with
    | [] => none
    | b :: t =>
      if b = Text.byte '}' then some ([], t)
      else do
        let (key, rest) ← readKey (Text.byte '=') fuel (b :: t)
        let (value, rest) ← readValue fuel rest
        match skipBlanks false rest with
        | [] => none
        | c :: rest =>
          if c = Text.byte '}' then return ([(key, value)], rest)
          else if c = Text.byte ',' then do
            let (entries, rest) ← readEntries fuel rest
            return ((key, value) :: entries, rest)
          else none

end

/-- Reads what is behind a statement on its line. -/
def readLineEnd (t : Text) : Option Text :=
  match skipSpaces t with
  | [] => some []
  | b :: t => if isNewline b || b = Text.byte '#' then some (b :: t) else none

/-- Reads a statement that does not start with a blank. -/
def readStatement (fuel : Nat) (t : Text) : Option (TomlStatement × Text) :=
  match t with
  | [] => none
  | b :: rest =>
    if b = Text.byte '[' then
      match Text.dropStart? [Text.byte '['] rest with
      | some rest => do
        let (key, rest) ← readKey (Text.byte ']') fuel rest
        return (.arrayElement key, ← Text.dropStart? [Text.byte ']'] rest)
      | none => do
        let (key, rest) ← readKey (Text.byte ']') fuel rest
        return (.table key, rest)
    else do
      let (key, rest) ← readKey (Text.byte '=') fuel t
      let (value, rest) ← readValue fuel rest
      return (.assign key value, rest)

/-- Reads statements up to the end of a document. -/
def readStatements : Nat → Text → Option (List TomlStatement)
  | 0, _ => none
  | fuel + 1, t =>
    match skipBlanks false t with
    | [] => some []
    | b :: t => do
      let (statement, rest) ← readStatement fuel (b :: t)
      return statement :: (← readStatements fuel (← readLineEnd rest))

/-- The marks that a document may start with. -/
def orderMarks : List Text := [[0xFF, 0xFE], [0xFE, 0xFF], [0xEF, 0xBB, 0xBF]]

/-- A document without the byte order mark at its start. -/
def dropOrderMark (data : Text) : Text := (orderMarks.findSome? (Text.dropStart? · data)).getD data

/-- Whether a text has no control characters other than tabs and the ends of lines. -/
def isPlain : Text → Bool
  | [] => true
  | b :: t =>
    (if b = Text.byte '\r' then t.head? = some (Text.byte '\n')
      else b = Text.byte '\t' || b = Text.byte '\n' || (32 ≤ b && b ≠ 127)) && isPlain t

/-- Reads a document. -/
def readDocument (data : Text) : Option (List TomlStatement) :=
  let t := dropOrderMark data
  if isPlain t && Text.isUtf8 t then readStatements (2 * t.length + 2) t else none

end ClassLinker.Toml
