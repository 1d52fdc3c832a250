import Smalltalk.Number.Binary

/-!
# Shortest decimals

Every finite floating-point number stands for an interval: the reals that round to it. The shortest
decimal of the number is found on the coarsest grid of powers of ten that has a point in this
interval. Of two such points the one nearer to the number is taken, and of two equally near the
upper one.
-/

namespace Smalltalk.Number

/-- The reals that round to one number, all in units of `2 ^ unit`. -/
structure RoundingInterval where
  /-- The lower end. -/
  low : Nat
  /-- The number itself. -/
  value : Nat
  /-- The upper end. -/
  high : Nat
  /-- The exponent of the unit. -/
  unit : Int
  /-- Whether the ends belong to the interval. -/
  closed : Bool

namespace RoundingInterval

/-- The interval of the number with the given bits. Below a power of two the neighbours are closer
together, so there the lower end is half as far away. The ends round to even. -/
def ofMagnitude (f : BinaryFormat) (magnitude : Nat) : RoundingInterval :=
  let (m, q) := f.significand magnitude
  let tight := m = Nat.pow 2 f.fractionBits ∧ f.leastExponent < q
  { low := if tight then 4 * m - 1 else 4 * m - 2
    value := 4 * m
    high := 4 * m + 2
    unit := q - 2
    closed := m % 2 = 0 }

/-- The point of the grid `10 ^ g` that stands for the interval, as a multiple of the grid's unit,
if the grid has a point in it. -/
def gridPoint? (r : RoundingInterval) (g : Int) : Option Nat :=
  -- both sides are brought to integers: a point `a` is `a * step`, a bound `b` is `b * scale`
  let step := Nat.pow 10 g.toNat * Nat.pow 2 (-r.unit).toNat
  let scale := Nat.pow 10 (-g).toNat * Nat.pow 2 r.unit.toNat
  let value := r.value * scale
  let below := value / step
  let above := below + 1
  let belowIn := r.low * scale < below * step || (r.closed && r.low * scale = below * step)
  let aboveIn := above * step < r.high * scale || (r.closed && above * step = r.high * scale)
  if belowIn && aboveIn then
    some (if value - below * step < above * step - value then below else above)
  else if belowIn then some below
  else if aboveIn then some above
  else none

/-- The first grid, from `10 ^ g` on through `steps` finer ones, that has a point in the
interval. -/
def search (r : RoundingInterval) (g : Int) : Nat → Decimal
  | 0 => ⟨r.value, g⟩
  | steps + 1 =>
    match r.gridPoint? g with
    | some a => ⟨a, g⟩
    | none => search r (g - 1) steps

end RoundingInterval

/-- The shortest decimal that rounds to the number with the given bits. -/
def shortest (f : BinaryFormat) (magnitude : Nat) : Decimal :=
  let top : Nat := Nat.pow 2 (f.exponentBits - 1)
  (RoundingInterval.ofMagnitude f magnitude).search top (top + (3 - f.leastExponent).toNat)

/-- How floating-point numbers are written: magnitudes from `least` up to, and without, `bound` are
written positionally, the others with an exponent. -/
structure FloatStyle where
  /-- The smallest magnitude written positionally, zero apart. -/
  least : Decimal
  /-- From this magnitude on an exponent is written. -/
  bound : Decimal

namespace FloatStyle

/-- Digits with a point, and at least one digit on either side of it. -/
def positional (d : Decimal) : String :=
  let digits := Nat.toDigits 10 d.digits
  let places := (-d.exponent).toNat
  let padded := List.replicate (places + 1 - digits.length) '0' ++ digits
    ++ List.replicate d.exponent.toNat '0'
  let whole := padded.length - places
  let fraction := if places = 0 then ['0'] else padded.drop whole
  String.ofList (padded.take whole ++ '.' :: fraction)

/-- One digit, a point and the other digits if there are any, and the power of ten. -/
def scientific (d : Decimal) : String :=
  match Nat.toDigits 10 d.digits with
  | [] => ""
  | first :: others =>
    let fraction := if others.isEmpty then [] else '.' :: others
    String.ofList (first :: fraction ++ ['e']) ++ toString (d.exponent + others.length)

/-- The text of a 32-bit number, from its bits. What is no number has no sign. -/
def single (style : FloatStyle) (bits : UInt32) : String :=
  let f := BinaryFormat.single
  let magnitude := bits.toNat % f.signBit
  if f.infinity < magnitude then "NaN"
  else
    let sign := if f.signBit ≤ bits.toNat then "-" else ""
    if magnitude = f.infinity then sign ++ "inf"
    else if magnitude = 0 then sign ++ "0.0"
    else if f.ofDecimal style.least ≤ magnitude ∧ magnitude < f.ofDecimal style.bound then
      sign ++ positional (shortest f magnitude)
    else sign ++ scientific (shortest f magnitude)

end FloatStyle

end Smalltalk.Number
