import ClassLinker.Text.Quoted

/-!
Reading decimal integers of 64 bits: an optional sign and digits. Digits are consumed from the
left, so a number that overflows is out of range even when a later byte is no digit.
-/

namespace ClassLinker.Text

/-- Why a text is no 64-bit decimal integer. -/
inductive NumberFault where
  | syntaxFault
  | outOfRange
deriving DecidableEq, Repr

/-- The value of a decimal digit. -/
def digit? (b : UInt8) : Option Nat :=
  if 48 ≤ b && b ≤ 57 then some (b.toNat - 48) else none

/-- Reads digits as an unsigned 64-bit number, starting from what is read already. -/
def readDigits (seen : Nat) : Text → Except NumberFault Nat
  | [] => .ok seen
  | b :: t =>
    match digit? b with
    | none => .error .syntaxFault
    | some d =>
      if 0x10000000000000000 ≤ seen * 10 + d then .error .outOfRange
      else readDigits (seen * 10 + d) t

/-- Reads one or more digits. -/
def readUnsigned : Text → Except NumberFault Nat
  | [] => .error .syntaxFault
  | b :: t => readDigits 0 (b :: t)

/-- Reads a 64-bit decimal integer. -/
def readInt (t : Text) : Except NumberFault Int :=
  let signed (negative : Bool) (digits : Text) : Except NumberFault Int := do
    let n ← readUnsigned digits
    if negative then
      if 0x8000000000000000 < n then throw .outOfRange else return -(n : Int)
    else
      if 0x8000000000000000 ≤ n then throw .outOfRange else return (n : Int)
  match t with
  | [] => .error .syntaxFault
  | b :: rest =>
    if b = byte '-' then signed true rest
    else if b = byte '+' then signed false rest
    else signed false (b :: rest)

/-- The message of a text that is no number. -/
def NumberFault.message (t : Text) : NumberFault → Text
  | .syntaxFault => "strconv.Atoi: parsing " ++ quote t ++ ": invalid syntax"
  | .outOfRange => "strconv.Atoi: parsing " ++ quote t ++ ": value out of range"

/-- An integer as four or more lower-case hexadecimal digits; a minus sign takes the place of
a digit. -/
def hexWord : Int → Text
  | .ofNat n => padLeft 4 '0' (hex n)
  | .negSucc n => byte '-' :: padLeft 3 '0' (hex (n + 1))

end ClassLinker.Text
