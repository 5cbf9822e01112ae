/-!
# Decimals

A decimal number is a sign, a natural significand and a power of ten. A `Layout` says how its
digits are set: between two positions of the decimal point the number is written out in full,
outside of them with one digit before the point and an exponent.
-/

namespace AccessRules

/-- The number `± significand · 10 ^ exponent`. -/
structure Decimal where
  negative : Bool
  significand : Nat
  exponent : Int
deriving DecidableEq

/-- The choices left open when a decimal is written. A point position counts the digits before
the point; it is zero or negative for a number below one. -/
structure Decimal.Layout where
  /-- The least point position that is written without an exponent. -/
  least : Int
  /-- The greatest point position that is written without an exponent. -/
  greatest : Int
  /-- What ends a whole number that is written without an exponent. -/
  wholeEnd : String
  /-- The sign of an exponent that is not negative. -/
  plus : String

namespace Decimal

/-- The digits of the significand, the first one first. -/
def digits (d : Decimal) : List Char :=
  Nat.toDigits 10 d.significand

/-- How many digits stand before the point when the number is written in full. -/
def point (d : Decimal) : Int :=
  d.exponent + d.digits.length

/-- A run of zeros; no zeros for a negative count. -/
def zeros (n : Int) : List Char :=
  List.replicate n.toNat '0'

/-- One digit, the rest after a point, and the power of ten of the first digit. -/
def scientific (layout : Layout) (digits : List Char) (point : Int) : List Char :=
  let fraction := if digits.length ≤ 1 then [] else '.' :: digits.drop 1
  let sign := if point ≤ 0 then ['-'] else layout.plus.toList
  digits.take 1 ++ fraction ++ 'e' :: (sign ++ Nat.toDigits 10 (point - 1).natAbs)

/-- The digits with zeros and a point where they are needed, and no exponent. -/
def positional (layout : Layout) (digits : List Char) (point : Int) : List Char :=
  if digits.length ≤ point then
    digits ++ zeros (point - digits.length) ++ layout.wholeEnd.toList
  else if 0 < point then
    digits.take point.toNat ++ '.' :: digits.drop point.toNat
  else
    '0' :: '.' :: (zeros (-point) ++ digits)

/-- The written form of a decimal without its sign. -/
def magnitude (layout : Layout) (digits : List Char) (point : Int) : List Char :=
  if layout.least ≤ point ∧ point ≤ layout.greatest then
    positional layout digits point
  else
    scientific layout digits point

/-- The written form of a decimal. -/
def text (layout : Layout) (d : Decimal) : String :=
  let sign := if d.negative then ['-'] else []
  String.ofList (sign ++ magnitude layout d.digits d.point)

end Decimal

end AccessRules
