/-!
# Binary floating-point formats

The interchange formats for binary floating-point numbers differ only in the widths of their
fields. A number is handled as its bits, read as a natural number: sign, exponent field, fraction.
Without the sign this reading is monotone, so rounding reduces to natural number arithmetic.

A positive ratio is rounded to the nearest number of a format, and a ratio in the middle between
two goes to the one with an even fraction. Ratios too large for the format become infinite.
-/

namespace Smalltalk.Number

/-- `num / den` rounded to the nearest natural number, halves to the even one. -/
def roundQuotient (num den : Nat) : Nat :=
  let quotient := num / den
  let twice := 2 * (num % den)
  if twice < den then quotient
  else if den < twice then quotient + 1
  else quotient + quotient % 2

/-- The number `digits * 10 ^ exponent`. -/
structure Decimal where
  /-- All digits, without a point. -/
  digits : Nat
  /-- The power of ten that the digits are multiplied with. -/
  exponent : Int
  deriving DecidableEq

/-- The field widths of a binary floating-point format. -/
structure BinaryFormat where
  /-- Bits of the fraction; the significand of a normal number has one bit more. -/
  fractionBits : Nat
  /-- Bits of the exponent field. -/
  exponentBits : Nat
  deriving DecidableEq

namespace BinaryFormat

/-- The 32-bit format. -/
def single : BinaryFormat := ⟨23, 8⟩

/-- The 64-bit format. -/
def double : BinaryFormat := ⟨52, 11⟩

variable (f : BinaryFormat)

/-- The smallest positive number of the format is two to this power. -/
def leastExponent : Int :=
  2 - Nat.pow 2 (f.exponentBits - 1) - f.fractionBits

/-- The bits of positive infinity; what lies above, below the sign, is no number. -/
def infinity : Nat := (Nat.pow 2 f.exponentBits - 1) * Nat.pow 2 f.fractionBits

/-- The bit that marks negative numbers. -/
def signBit : Nat := Nat.pow 2 (f.exponentBits + f.fractionBits)

/-- A number written as `significand * 2 ^ exponent`, from the bits of a finite magnitude. -/
def significand (magnitude : Nat) : Nat × Int :=
  let field := magnitude / Nat.pow 2 f.fractionBits
  let fraction := magnitude % Nat.pow 2 f.fractionBits
  if field = 0 then (fraction, f.leastExponent)
  else (fraction + Nat.pow 2 f.fractionBits, f.leastExponent + (field - 1))

/-- `num / den / 2 ^ q`, rounded. -/
def roundScaled (num den : Nat) (q : Int) : Nat :=
  roundQuotient (num * Nat.pow 2 (-q).toNat) (den * Nat.pow 2 q.toNat)

/-- The power of two just below or at `num / den`. -/
def floorLog (num den : Nat) : Int :=
  let k : Int := num.log2 - den.log2
  if den * Nat.pow 2 k.toNat ≤ num * Nat.pow 2 (-k).toNat then k else k - 1

/-- The bits of the number nearest to `num / den`. -/
def ofRatio (num den : Nat) : Nat :=
  if num = 0 then 0
  else
    let q := max f.leastExponent (floorLog num den - f.fractionBits)
    min f.infinity ((q - f.leastExponent).toNat * Nat.pow 2 f.fractionBits + roundScaled num den q)

/-- The bits of the number nearest to `m * 2 ^ q`. -/
def ofScaled (m : Nat) (q : Int) : Nat :=
  f.ofRatio (m * Nat.pow 2 q.toNat) (Nat.pow 2 (-q).toNat)

/-- Ten to this power is above, and its inverse is below, every positive number of the format. -/
def decimalLimit : Nat := Nat.pow 2 f.exponentBits + f.fractionBits

/-- The bits of the number nearest to a decimal. Decimals far outside the format are sorted out
first, so that no power of ten is built that the digits do not call for. -/
def ofDecimal (d : Decimal) : Nat :=
  if d.digits = 0 then 0
  else if (f.decimalLimit : Int) < d.exponent then f.infinity
  else if d.exponent + d.digits.log2 + 1 < -(f.decimalLimit : Int) then 0
  else f.ofRatio (d.digits * Nat.pow 10 d.exponent.toNat) (Nat.pow 10 (-d.exponent).toNat)

end BinaryFormat

/-- The 64-bit number nearest to a decimal. -/
def doubleOfDecimal (d : Decimal) : UInt64 :=
  UInt64.ofNat (BinaryFormat.double.ofDecimal d)

/-- The 64-bit number of the same magnitude and the other sign. -/
def negateDouble (bits : UInt64) : UInt64 :=
  bits ^^^ 0x8000000000000000

/-- The 32-bit number nearest to a 64-bit number. The sign is always kept. What is no number stays
none: the upper bits of its fraction are kept, and the first of them is set. -/
def narrow (bits : UInt64) : UInt32 :=
  let magnitude := bits.toNat % BinaryFormat.double.signBit
  let sign := if BinaryFormat.double.signBit ≤ bits.toNat then BinaryFormat.single.signBit else 0
  let narrowed :=
    if BinaryFormat.double.infinity < magnitude then
      BinaryFormat.single.infinity + Nat.pow 2 22 + magnitude / Nat.pow 2 29 % Nat.pow 2 22
    else if magnitude = BinaryFormat.double.infinity then BinaryFormat.single.infinity
    else
      let (m, q) := BinaryFormat.double.significand magnitude
      BinaryFormat.single.ofScaled m q
  UInt32.ofNat (sign + narrowed)

end Smalltalk.Number
