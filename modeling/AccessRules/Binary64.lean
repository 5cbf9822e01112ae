import AccessRules.Decimal

/-!
# Binary floating-point numbers

A binary64 number is kept as its 64 bits. Its magnitude is a natural significand times a power of
two, so rounding questions are settled in exact arithmetic: `shortest` finds the decimal with the
fewest digits that rounds back to the number, and `ofInt?` the number nearest to an integer.
-/

namespace AccessRules

/-- A binary64 number, given by the bits of its interchange format. -/
structure Binary64 where
  bits : UInt64

namespace Binary64

/-- The weight of the sign bit. -/
def signWeight : Nat := 0x8000000000000000

/-- The weight of the bit above the fraction, where the exponent starts and which a significand of a
full binade has as its leading bit. -/
def hiddenBit : Nat := 0x10000000000000

/-- Whether the sign bit is set. -/
def isNegative (x : Binary64) : Bool :=
  signWeight ≤ x.bits.toNat

/-- The eleven exponent bits. -/
def exponentBits (x : Binary64) : Nat :=
  x.bits.toNat / hiddenBit % 2048

/-- The fifty-two fraction bits. -/
def fractionBits (x : Binary64) : Nat :=
  x.bits.toNat % hiddenBit

/-- Neither an infinity nor a NaN. -/
def isFinite (x : Binary64) : Bool :=
  x.exponentBits != 2047

def isNaN (x : Binary64) : Bool :=
  x.exponentBits == 2047 && x.fractionBits != 0

/-- One of the two zeros. -/
def isZero (x : Binary64) : Bool :=
  x.exponentBits == 0 && x.fractionBits == 0

/-- Numeric equality: the two zeros are equal and a NaN differs from everything. -/
instance : BEq Binary64 where
  beq x y := !x.isNaN && !y.isNaN && (x.isZero && y.isZero || x.bits == y.bits)

/-- A finite magnitude is `significand · 2 ^ scale`. -/
def significand (x : Binary64) : Nat :=
  if x.exponentBits = 0 then x.fractionBits else hiddenBit + x.fractionBits

/-- The power of two of the last bit of the significand. -/
def scale (x : Binary64) : Int :=
  (max x.exponentBits 1 : Nat) - 1075

/-- The reals that round to a magnitude, as numerators over one denominator. -/
structure Cell where
  low : Nat
  middle : Nat
  high : Nat
  denominator : Nat
  /-- Whether `low` and `high` themselves round to `middle`. -/
  closed : Bool

/-- The cell of a finite magnitude reaches halfway to both neighbours. The one below is only half as
far away when the significand is the least of its binade; ties go to the even significand. -/
def cell (x : Binary64) : Cell :=
  let unit := Nat.pow 2 (x.scale - 2).toNat
  let below := if x.fractionBits = 0 ∧ 1 < x.exponentBits then 1 else 2
  { low := (4 * x.significand - below) * unit
    middle := 4 * x.significand * unit
    high := (4 * x.significand + 2) * unit
    denominator := Nat.pow 2 (2 - x.scale).toNat
    closed := x.significand % 2 = 0 }

namespace Cell

/-- Of the two multiples of `10 ^ exponent` around the middle, the nearer one in the cell, as its
factor; the upper one when both are as near. -/
def multiple? (c : Cell) (exponent : Int) : Option Nat :=
  let step := c.denominator * Nat.pow 10 exponent.toNat
  let zoom := Nat.pow 10 (-exponent).toNat
  let inside (a b : Nat) : Bool := a < b || c.closed && a == b
  let below := c.middle * zoom / step
  let above := below + 1
  let belowFits := inside (c.low * zoom) (below * step)
  let aboveFits := inside (above * step) (c.high * zoom)
  if belowFits && aboveFits then
    if c.middle * zoom - below * step < above * step - c.middle * zoom then some below
    else some above
  else if belowFits then some below
  else if aboveFits then some above
  else none

/-- The coarsest power of ten, from `floor + n` down, with a multiple in the cell, and that multiple.
The middle itself is taken to be a multiple of `10 ^ floor`. -/
def coarsest (c : Cell) (floor : Int) : Nat → Nat × Int
  | 0 => (c.middle * Nat.pow 10 (-floor).toNat / (c.denominator * Nat.pow 10 floor.toNat), floor)
  | n + 1 =>
    match c.multiple? (floor + (n + 1 : Nat)) with
    | some factor => (factor, floor + (n + 1 : Nat))
    | none => c.coarsest floor n

end Cell

/-- The decimal with the fewest digits that rounds to a finite nonzero number, and of those the
nearest. The search starts at a power of ten above the number and ends at one that divides it. -/
def shortest (x : Binary64) : Decimal :=
  let floor := min x.scale 0
  let exact := x.significand * Nat.pow 2 x.scale.toNat * Nat.pow 5 (-x.scale).toNat
  let (significand, exponent) := x.cell.coarsest floor (Nat.toDigits 10 exact).length
  { negative := x.isNegative, significand, exponent }

/-- The magnitude nearest to a positive integer, a tie going to the even significand, as its bits
without the sign. -/
def roundNat (n : Nat) : Nat :=
  let log := n.log2
  let shift := log - 52
  let unit := Nat.pow 2 shift
  let quotient := n * Nat.pow 2 (52 - log) / unit
  let rest := n % unit
  let up := unit < 2 * rest || unit == 2 * rest && quotient % 2 == 1
  (log + 1022) * hiddenBit + quotient + if up then 1 else 0

/-- The finite number nearest to an integer. -/
def ofInt? (n : Int) : Option Binary64 :=
  if n = 0 then some ⟨0⟩
  else
    let magnitude := roundNat n.natAbs
    if magnitude < 2047 * hiddenBit then
      some ⟨.ofNat (magnitude + if n < 0 then signWeight else 0)⟩
    else none

end Binary64

end AccessRules
