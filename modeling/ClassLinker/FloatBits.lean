import ClassLinker.Numeric

/-!
Binary floating-point numbers as bits. A number of a narrower format has one equal among the 64-bit
numbers, and a 64-bit number has a narrower form when widening that form gives it back. Integers
become the nearest 64-bit number, and of two nearest the one with an even significand.
-/

namespace ClassLinker

/-- A binary floating-point format: a sign bit, an exponent and a fraction. -/
structure FloatFormat where
  exponentBits : Nat
  fractionBits : Nat
deriving DecidableEq, Repr

namespace FloatFormat

/-- The 16-bit format. -/
def half : FloatFormat := ⟨5, 10⟩

/-- The 32-bit format. -/
def single : FloatFormat := ⟨8, 23⟩

/-- The exponent field of infinities and of what is no number. -/
def topExponent (f : FloatFormat) : Nat := twoPow f.exponentBits - 1

/-- The exponent field of the numbers from 1 up to 2. -/
def bias (f : FloatFormat) : Nat := twoPow (f.exponentBits - 1) - 1

end FloatFormat

namespace FloatBits

/-- Puts the fields of a 64-bit number together. -/
def ofFields (sign exponent fraction : Nat) : UInt64 :=
  (sign * 0x8000000000000000 + exponent * 0x10000000000000 + fraction).toUInt64

/-- The 64-bit number equal to a number of a narrower format. A number below the normal ones of its
format is a normal one among the 64-bit numbers. -/
def widen (f : FloatFormat) (bits : Nat) : UInt64 :=
  let fraction := bits % twoPow f.fractionBits
  let exponent := bits / twoPow f.fractionBits % twoPow f.exponentBits
  let sign := bits / twoPow (f.fractionBits + f.exponentBits) % 2
  if exponent = f.topExponent then ofFields sign 2047 (fraction * twoPow (52 - f.fractionBits))
  else if exponent = 0 then
    if fraction = 0 then ofFields sign 0 0
    else
      let top := fraction.log2
      ofFields sign (top + 1024 - f.bias - f.fractionBits)
        ((fraction - twoPow top) * twoPow (52 - top))
  else ofFields sign (exponent + 1023 - f.bias) (fraction * twoPow (52 - f.fractionBits))

/-- The number of a narrower format that a 64-bit number has when its low bits are dropped. -/
def truncate (f : FloatFormat) (bits : UInt64) : Nat :=
  let fraction := bits.toNat % 0x10000000000000
  let exponent := bits.toNat / 0x10000000000000 % 0x800
  let sign := bits.toNat / 0x8000000000000000
  let magnitude :=
    if exponent = 2047 then
      f.topExponent * twoPow f.fractionBits + fraction / twoPow (52 - f.fractionBits)
    else if 1023 < exponent + f.bias then
      (exponent + f.bias - 1023) * twoPow f.fractionBits + fraction / twoPow (52 - f.fractionBits)
    else (0x10000000000000 + fraction) / twoPow (52 - f.fractionBits + 1024 - f.bias - exponent)
  sign * twoPow (f.fractionBits + f.exponentBits) + magnitude

/-- The equal number of a narrower format, if there is one. -/
def narrow? (f : FloatFormat) (bits : UInt64) : Option Nat :=
  if widen f (truncate f bits) = bits then some (truncate f bits) else none

/-- Whether the bits stand for no number. -/
def isNan (bits : UInt64) : Bool := bits.toNat % 0x8000000000000000 > 2047 * 0x10000000000000

/-- Whether the bits stand for zero of either sign. -/
def isZero (bits : UInt64) : Bool := bits.toNat % 0x8000000000000000 = 0

/-- The quotient by a power of two, rounded to the nearest integer and halfway to the even one. -/
def roundShift (n shift : Nat) : Nat :=
  let low := n / twoPow shift
  let rest := 2 * (n % twoPow shift)
  if twoPow shift < rest || (rest = twoPow shift && low % 2 = 1) then low + 1 else low

/-- The 64-bit number nearest to a natural number below `2 ^ 64`. The significand includes its top
bit, which carries into the exponent. -/
def ofNat (n : Nat) : UInt64 :=
  if n = 0 then 0
  else
    let top := n.log2
    let significand := if top ≤ 52 then n * twoPow (52 - top) else roundShift n (top - 52)
    ((top + 1022) * 0x10000000000000 + significand).toUInt64

/-- The 64-bit number nearest to an integer. -/
def ofInt : Int → UInt64
  | .ofNat n => ofNat n
  | .negSucc n => (0x8000000000000000 + (ofNat (n + 1)).toNat).toUInt64

/-- Narrowing a number and widening it again gives it back. -/
theorem widen_of_narrow? {f : FloatFormat} {bits : UInt64} {n : Nat} (h : narrow? f bits = some n) :
    widen f n = bits := by
  unfold narrow? at h
  split at h
  · cases h
    assumption
  · cases h

end FloatBits

end ClassLinker
