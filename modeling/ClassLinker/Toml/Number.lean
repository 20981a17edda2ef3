import ClassLinker.Numeric
import ClassLinker.Toml.Basic

/-!
The numbers of TOML documents. Underscores may stand between digits; a decimal number has no leading
zeros; integers have 64 bits. A number with a fraction or an exponent has to be below the limit of
what rounds to a finite 64-bit float.
-/

namespace ClassLinker.Toml

/-- The digits of a number without the underscores between them, each as its value. There is at
least one digit, and an underscore has a digit on either side. -/
def digits? (base : Nat) (t : Text) : Option (List Nat) :=
  let parts := Text.splitOn (Text.byte '_') t
  if parts.any (· = []) then none
  else parts.flatten.mapM fun b =>
    match Text.hexDigit? b with
    | some d => if d < base then some d else none
    | none => none

/-- The value of digits. -/
def digitsValue (base : Nat) (ds : List Nat) : Nat := ds.foldl (fun value d => value * base + d) 0

/-- The sign in front of a number, and the number. -/
def splitSign : Text → Bool × Text
  | [] => (false, [])
  | b :: t =>
    if b = Text.byte '-' then (true, t)
    else if b = Text.byte '+' then (false, t)
    else (false, b :: t)

/-- Whether decimal digits have a zero too many in front. -/
def hasLeadingZero : List Nat → Bool
  | 0 :: _ :: _ => true
  | _ => false

/-- The bases that numbers can be marked with. -/
def bases : List (Text × Nat) := [("0x", 16), ("0o", 8), ("0b", 2)]

/-- Reads an integer. -/
def integer? (t : Text) : Option Int :=
  match bases.findSome? fun (mark, base) => (Text.dropStart? mark t).map (base, ·) with
  | some (base, t) => do
    let n := digitsValue base (← digits? base t)
    if n < 0x8000000000000000 then return (n : Int) else none
  | none => do
    let (negative, t) := splitSign t
    let ds ← digits? 10 t
    if hasLeadingZero ds then none
    let n := digitsValue 10 ds
    if negative then
      if n ≤ 0x8000000000000000 then return -(n : Int) else none
    else
      if n < 0x8000000000000000 then return (n : Int) else none

/-- Whether digits times a power of ten are below the least number that rounds to no finite 64-bit
float. -/
def isFinite (ds : List Nat) (exponent : Int) : Bool :=
  let ds := ds.dropWhile (· = 0)
  if ds = [] then true
  else
    let magnitude : Int := ds.length + exponent
    if magnitude < 300 then true
    else if 320 < magnitude then false
    else
      let limit := twoPow 1024 - twoPow 970
      if exponent < 0 then digitsValue 10 ds < limit * Nat.pow 10 exponent.natAbs
      else digitsValue 10 ds * Nat.pow 10 exponent.natAbs < limit

/-- The value of the exponent of a number. -/
def exponent? (t : Text) : Option Int := do
  let (negative, t) := splitSign t
  let n := digitsValue 10 (← digits? 10 t)
  return if negative then -(n : Int) else n

/-- Whether a byte marks an exponent. -/
def isExponentMark (b : UInt8) : Bool := b = Text.byte 'e' || b = Text.byte 'E'

/-- Whether a text is a number with a fraction or an exponent. -/
def isFloat (t : Text) : Bool :=
  let (_, number) := splitSign t
  if number = (Text.ofString "inf") || number = (Text.ofString "nan") then true
  else
    let (mantissa, power) := number.span (!isExponentMark ·)
    let (whole, fraction) := mantissa.span (· ≠ Text.byte '.')
    if power = [] && fraction = [] then false
    else
      let result : Option Bool := do
        let wholeDigits ← digits? 10 whole
        let fractionDigits ← if fraction = [] then some [] else digits? 10 (fraction.drop 1)
        let exponent ← if power = [] then some 0 else exponent? (power.drop 1)
        if hasLeadingZero wholeDigits then none
        return isFinite (wholeDigits ++ fractionDigits) (exponent - fractionDigits.length)
      result.getD false

end ClassLinker.Toml
