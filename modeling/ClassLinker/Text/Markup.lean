import ClassLinker.Text.Number
import ClassLinker.Text.Utf8

/-!
Text with marks. A mark `<name>text</>` asks for a style, by its name or by colors and options such
as `<fg=red;bg=white;op=bold>`. Rendering puts the control codes of the style in place of the mark;
what names no style stays as it is. A terminal does not show control codes, so they do not count
for the width of a text.
-/

namespace ClassLinker.Markup

/-- The start of a control code. -/
def codeStart : Text := [0x1B, 0x5B]

/-- The control code that switches a style on. -/
def switchOn (style : Text) : Text := codeStart ++ style ++ "m"

/-- The control code that switches all styles off. -/
def switchOff : Text := switchOn "0"

/-- A text in a style. Each of its lines is switched on and off by itself. -/
def paint (style t : Text) : Text :=
  Text.join "\n" ((Text.splitOn (Text.byte '\n') t).map fun line =>
    switchOn style ++ line ++ switchOff)

/-- Whether a byte is a decimal digit. -/
def isDigit (b : UInt8) : Bool := 48 ≤ b && b ≤ 57

/-- Whether a byte is a digit or an ASCII letter. -/
def isAlphanumeric (b : UInt8) : Bool :=
  isDigit b || (65 ≤ b && b ≤ 90) || (97 ≤ b && b ≤ 122)

/-- The styles that have a name, with their control codes. -/
def named : List (String × String) :=
  [("red", "0;31"), ("red1", "1;31"), ("redB", "1;31"), ("red_b", "1;31"), ("blue", "0;34"),
    ("blue1", "1;34"), ("blueB", "1;34"), ("blue_b", "1;34"), ("cyan", "0;36"), ("cyan1", "1;36"),
    ("cyanB", "1;36"), ("cyan_b", "1;36"), ("green", "0;32"), ("green1", "1;32"),
    ("greenB", "1;32"), ("green_b", "1;32"), ("black", "0;30"), ("white", "1;37"),
    ("default", "0;39"), ("normal", "0;39"), ("brown", "0;33"), ("yellow", "0;33"),
    ("ylw0", "0;33"), ("yellowB", "1;33"), ("ylw1", "1;33"), ("ylwB", "1;33"), ("magenta", "0;35"),
    ("mga", "0;35"), ("magentaB", "1;35"), ("mgb", "1;35"), ("mgaB", "1;35"), ("gray", "0;90"),
    ("darkGray", "0;90"), ("dark_gray", "0;90"), ("lightYellow", "0;93"), ("light_yellow", "0;93"),
    ("hiYellow", "0;93"), ("hi_yellow", "0;93"), ("hiYellowB", "1;93"), ("hi_yellow_b", "1;93"),
    ("lightMagenta", "0;95"), ("light_magenta", "0;95"), ("hiMagenta", "0;95"),
    ("hi_magenta", "0;95"), ("lightMagentaB", "1;95"), ("hiMagentaB", "1;95"),
    ("hi_magenta_b", "1;95"), ("lightRed", "0;91"), ("light_red", "0;91"), ("hiRed", "0;91"),
    ("hi_red", "0;91"), ("lightRedB", "1;91"), ("light_red_b", "1;91"), ("hi_red_b", "1;91"),
    ("lightGreen", "0;92"), ("light_green", "0;92"), ("hiGreen", "0;92"), ("hi_green", "0;92"),
    ("lightGreenB", "1;92"), ("light_green_b", "1;92"), ("hi_green_b", "1;92"),
    ("lightBlue", "0;94"), ("light_blue", "0;94"), ("hiBlue", "0;94"), ("hi_blue", "0;94"),
    ("lightBlueB", "1;94"), ("light_blue_b", "1;94"), ("hi_blue_b", "1;94"), ("lightCyan", "0;96"),
    ("light_cyan", "0;96"), ("hiCyan", "0;96"), ("hi_cyan", "0;96"), ("lightCyanB", "1;96"),
    ("light_cyan_b", "1;96"), ("hi_cyan_b", "1;96"), ("lightWhite", "0;97;40"),
    ("light_white", "0;97;40"), ("bold", "1"), ("b", "1"), ("italic", "3"), ("i", "3"),
    ("underscore", "4"), ("us", "4"), ("blink", "5"), ("fb", "6"), ("reverse", "7"), ("st", "9"),
    ("suc", "1;32"), ("success", "1;32"), ("info", "0;32"), ("comment", "0;33"), ("note", "36;1"),
    ("notice", "36;4"), ("warn", "0;1;33"), ("warning", "0;30;43"), ("primary", "0;34"),
    ("danger", "1;31"), ("err", "97;41"), ("error", "97;41")]

/-- The colors that have a name, with their codes as a color of the text. -/
def colors : List (String × Nat) :=
  [("black", 30), ("red", 31), ("green", 32), ("yellow", 33), ("blue", 34), ("magenta", 35),
    ("cyan", 36), ("white", 37), ("default", 39), ("darkGray", 90), ("lightRed", 91),
    ("lightGreen", 92), ("lightYellow", 93), ("lightBlue", 94), ("lightMagenta", 95),
    ("lightCyan", 96), ("lightWhite", 97)]

/-- The options that have a name, with their codes. -/
def options : List (String × Nat) :=
  [("reset", 0), ("bold", 1), ("fuzzy", 2), ("italic", 3), ("underscore", 4), ("blink", 5),
    ("reverse", 7), ("concealed", 8)]

/-- What a name stands for. -/
def find? {α : Type} (names : List (String × α)) (name : Text) : Option α :=
  (names.find? fun entry => Text.ofString entry.1 = name).map Prod.snd

/-- The control code of a color that is written as six hexadecimal digits, as its red, green and
blue parts, or as its number in a palette; `base` is the code for a color of this kind. -/
def codeOfNumbers? (base : Nat) (t : Text) : Option Text :=
  let coded (parts : List Text) : Text := Text.join ";" (Text.ofNat base :: parts)
  match t.mapM Text.hexDigit? with
  | some [a, b, c, d, e, f] =>
    some (coded ("2" :: [16 * a + b, 16 * c + d, 16 * e + f].map Text.ofNat))
  | _ =>
    if t.contains (Text.byte ',') then some (coded ("2" :: Text.splitOn (Text.byte ',') t))
    else if t.length < 4 && t.all isDigit then some (coded ["5", t])
    else none

/-- What an attribute of a style says. -/
inductive Attribute where
  | foreground
  | background
  | option
deriving DecidableEq, Repr

/-- The attribute that a text starts with, and the rest. -/
def Attribute.read? (t : Text) : Option (Attribute × Text) :=
  let named := [("fg=", foreground), ("bg=", background), ("op=", option)]
  named.findSome? fun (name, a) => (Text.dropStart? name t).map fun rest => (a, rest)

/-- The control codes of an attribute. -/
def Attribute.codes (value : Text) : Attribute → List Text
  | foreground =>
    match find? colors value with
    | some code => [Text.ofNat code]
    | none => (codeOfNumbers? 38 value).toList
  | background =>
    match find? colors value with
    | some code => [Text.ofNat (code + 10)]
    | none => (codeOfNumbers? 48 value).toList
  | option =>
    (Text.splitOn (Text.byte ',') value).filterMap fun name => (find? options name).map Text.ofNat

/-- The control codes of all attributes in a text; `fuel` is at least its length. -/
def codesOfAttributes : Nat → Text → List Text
  | 0, _ => []
  | _ + 1, [] => []
  | fuel + 1, b :: t =>
    match Attribute.read? (b :: t) with
    | none => codesOfAttributes fuel t
    | some (a, rest) =>
      let (value, rest) := rest.span fun b => isAlphanumeric b || b = Text.byte ','
      if value = [] then codesOfAttributes fuel t
      else a.codes value ++ codesOfAttributes fuel rest

/-- A text without the bytes at its ends that only divide attributes. -/
def dropDividers (t : Text) : Text :=
  let isDivider (b : UInt8) : Bool := b = Text.byte ';' || b = Text.byte '=' || b = Text.byte ','
  ((t.dropWhile isDivider).reverse.dropWhile isDivider).reverse

/-- The control code of the style that a mark asks for, empty if there is no such style. -/
def styleOf (name : Text) : Text :=
  if name.contains (Text.byte '=') then
    let attributes := dropDividers name
    Text.join ";" (codesOfAttributes attributes.length attributes)
  else Text.ofString ((find? named name).getD "")

/-- A mark: the name of a style and the text that is in it. -/
structure Mark where
  name : Text
  body : Text
deriving DecidableEq, Repr

/-- What ends a mark. -/
def markEnd : Text := "</>"

/-- A mark as it is written. -/
def Mark.text (m : Mark) : Text := "<" ++ m.name ++ ">" ++ m.body ++ markEnd

/-- Cuts a text at the first occurrence of another. -/
def cutAt? (pattern : Text) : Text → Option (Text × Text)
  | [] => if pattern = [] then some ([], []) else none
  | b :: t =>
    match Text.dropStart? pattern (b :: t) with
    | some rest => some ([], rest)
    | none => (cutAt? pattern t).map fun (front, rest) => (b :: front, rest)

/-- The mark that a text starts with, and the rest. -/
def markAt? : Text → Option (Mark × Text)
  | [] => none
  | b :: t =>
    let isNameByte (b : UInt8) : Bool := isAlphanumeric b || (Text.ofString "_=,;").contains b
    let (name, rest) := t.span isNameByte
    if b = Text.byte '<' && name ≠ [] && rest.head? = some (Text.byte '>') then
      (cutAt? markEnd (rest.drop 1)).map fun (body, rest) => (⟨name, body⟩, rest)
    else none

/-- The marks of a text from left to right; `fuel` is at least its length. -/
def marks : Nat → Text → List Mark
  | 0, _ => []
  | _ + 1, [] => []
  | fuel + 1, b :: t =>
    match markAt? (b :: t) with
    | some (m, rest) => m :: marks fuel rest
    | none => marks fuel t

/-- Puts the control codes of its style in place of the first occurrence of a mark. -/
def renderMark (t : Text) (m : Mark) : Text :=
  match styleOf m.name, cutAt? m.text t with
  | [], _ => t
  | _, none => t
  | style, some (front, rest) =>
    front ++ (if m.body = [] then [] else switchOn style ++ m.body ++ switchOff) ++ rest

/-- Renders the marks of a text. A mark inside a mark is left to the next time. -/
def render (t : Text) : Text :=
  if (cutAt? markEnd t).isNone then t else (marks t.length t).foldl renderMark t

/-- Renders a text several times. -/
def renderTimes : Nat → Text → Text
  | 0, t => t
  | n + 1, t => renderTimes n (render t)

/-- A text without its control codes; `fuel` is at least its length. -/
def dropCodesFrom : Nat → Text → Text
  | 0, t => t
  | _ + 1, [] => []
  | fuel + 1, b :: t =>
    match Text.dropStart? codeStart (b :: t) with
    | some rest =>
      let (code, rest) :=
        rest.span fun b => isDigit b || b = Text.byte ';' || b = Text.byte '?'
      if code ≠ [] && rest.head? = some (Text.byte 'm') then dropCodesFrom fuel (rest.drop 1)
      else b :: dropCodesFrom fuel t
    | none => b :: dropCodesFrom fuel t

/-- A text without its control codes. -/
def dropCodes (t : Text) : Text := dropCodesFrom t.length t

/-- The number of characters of a text that are shown once it is rendered. A stray byte counts as a
character. -/
def width (t : Text) : Nat := (Text.pieces (dropCodes (render t))).length

/-- Fills a text with spaces up to a width. -/
def fill (columns : Nat) (t : Text) : Text :=
  t ++ List.replicate (columns - width t) (Text.byte ' ')

end ClassLinker.Markup
