import ClassLinker.Text.Utf8
import ClassLinker.Toml.Basic

/-!
The strings of TOML documents. Basic strings are between double quotes and have escapes, literal
ones are between single quotes and have none; either may be between three quotes instead and then go
over several lines. A string is cut out first and its escapes are replaced afterwards.
-/

namespace ClassLinker.Toml

/-- The mark of basic strings. -/
def basicMark : UInt8 := Text.byte '"'

/-- The mark of literal strings. -/
def literalMark : UInt8 := Text.byte '\''

/-- The byte that starts an escape. -/
def escapeMark : UInt8 := Text.byte '\\'

/-- Cuts out a string of one line up to its closing mark. In a string with escapes the byte behind
an escape mark never closes it. -/
def cutLine (mark : UInt8) (escapes : Bool) : Text → Option (Text × Text)
  | [] => none
  | b :: t =>
    if isNewline b then none
    else if b = mark then some ([], t)
    else if escapes && b = escapeMark then
      match t with
      | [] => none
      | c :: t =>
        if isNewline c then none
        else (cutLine mark escapes t).map fun (content, rest) => (b :: c :: content, rest)
    else (cutLine mark escapes t).map fun (content, rest) => (b :: content, rest)

/-- Whether two marks stand at the end of what was read, latest byte first. With escapes, they do
not count behind an escape mark. -/
def endsInMarks (mark : UInt8) (escapes : Bool) (seen : Text) : Bool :=
  match seen with
  | a :: b :: rest => a = mark && b = mark && !(escapes && rest.head? = some escapeMark)
  | _ => false

/-- Cuts out a string of several lines up to its three closing marks. One or two marks may stand
directly in front of those, but not three. What was read is kept latest byte first. -/
def cutLines (mark : UInt8) (escapes : Bool) (seen : Text) : Text → Option (Text × Text)
  | [] => none
  | b :: t =>
    if escapes && b = escapeMark then
      match t with
      | [] => none
      | c :: t => cutLines mark escapes (c :: b :: seen) t
    else if b = mark && t.take 2 = [mark, mark] then
      if t.drop 2 |>.head? |> (· = some mark) then
        if endsInMarks mark escapes seen then none else cutLines mark escapes (b :: seen) t
      else some (seen.reverse, t.drop 2)
    else cutLines mark escapes (b :: seen) t

/-- The value of hexadecimal digits, of which there have to be `n`. -/
def hexValue? (n : Nat) (t : Text) : Option Nat :=
  let digits := t.take n
  if digits.length = n then
    digits.foldl (fun value b => do return (← value) * 16 + (← Text.hexDigit? b)) (some 0)
  else none

/-- The encoding of the code point that `n` hexadecimal digits name. -/
def codeEscape? (n : Nat) (t : Text) : Option (Text × Text) := do
  let code ← hexValue? n t
  if code < 0xD800 || (0xDFFF < code && code ≤ 0x10FFFF) then
    return (Text.ofCode code, t.drop n)
  else none

/-- What an escape stands for, without its mark. -/
def escape? : Text → Option (Text × Text)
  | [] => none
  | b :: t =>
    if b = Text.byte 'b' then some ([8], t)
    else if b = Text.byte 't' then some ([9], t)
    else if b = Text.byte 'n' then some ([10], t)
    else if b = Text.byte 'f' then some ([12], t)
    else if b = Text.byte 'r' then some ([13], t)
    else if b = Text.byte 'e' then some ([27], t)
    else if b = basicMark || b = escapeMark then some ([b], t)
    else if b = Text.byte 'x' then codeEscape? 2 t
    else if b = Text.byte 'u' then codeEscape? 4 t
    else if b = Text.byte 'U' then codeEscape? 8 t
    else none

/-- Replaces the escapes of a string. An escape mark at the end of a line takes the white space
behind it away. `fuel` is at least the length of the string. -/
def unescape : Nat → Text → Option Text
  | _, [] => some []
  | 0, _ => none
  | fuel + 1, b :: t =>
    if b = escapeMark then
      let (blank, rest) := t.span fun c => isSpace c || isNewline c
      if blank.contains (Text.byte '\n') then unescape fuel rest
      else do
        let (replaced, rest) ← escape? t
        return replaced ++ (← unescape fuel rest)
    else do
      return b :: (← unescape fuel t)

/-- A string of several lines without the newline at its start. -/
def dropNewline : Text → Text
  | [] => []
  | b :: t =>
    if b = Text.byte '\n' then t
    else if b = Text.byte '\r' && t.head? = some (Text.byte '\n') then t.drop 1
    else b :: t

/-- Reads a string of one line behind its opening mark. -/
def readLineString (mark : UInt8) (t : Text) : Option (Text × Text) := do
  let (content, rest) ← cutLine mark (mark = basicMark) t
  if mark = basicMark then return (← unescape content.length content, rest)
  else return (content, rest)

/-- Reads a string of several lines behind its opening marks. -/
def readLinesString (mark : UInt8) (t : Text) : Option (Text × Text) := do
  let (content, rest) ← cutLines mark (mark = basicMark) [] t
  let content := dropNewline content
  if mark = basicMark then return (← unescape content.length content, rest)
  else return (content, rest)

/-- Reads a string value behind its first mark. -/
def readString (mark : UInt8) (t : Text) : Option (Text × Text) :=
  if t.take 2 = [mark, mark] then readLinesString mark (t.drop 2) else readLineString mark t

end ClassLinker.Toml
