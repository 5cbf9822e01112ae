import AccessRules.Decimal

/-! Layout in machine arithmetic. Numbers are words of 32 bits, counts of zeros are not negative, and
digits are cut within their length; nothing is written where one of these fails. None fails while the
digits and the exponent are within `bound` (`magnitude?_eq`). -/

namespace AccessRules.Decimal.Checked

/-- A word of 32 bits, if the number fits one. -/
def word? (n : Int) : Option Int :=
  if -2147483648 ≤ n ∧ n < 2147483648 then some n else none

/-- A count, if the number is not negative. -/
def count? (n : Int) : Option Nat :=
  if 0 ≤ n then some n.toNat else none

/-- The size of a word. The least word has none. -/
def size? (n : Int) : Option Nat :=
  (word? n).bind fun n => if n = -2147483648 then none else some n.natAbs

def zeros? (n : Int) : Option (List Char) :=
  (count? n).map (List.replicate · '0')

/-- The digits before and behind a position, if it is within them. -/
def cut? (digits : List Char) (n : Int) : Option (List Char × List Char) := do
  let position ← count? n
  if position ≤ digits.length then some (digits.splitAt position) else none

def scientific? (layout : Layout) (digits : List Char) (point : Int) : Option (List Char) := do
  let (first, rest) ← cut? digits 1
  let fraction := if rest = [] then [] else '.' :: rest
  let sign := if 0 < point then layout.plus.toList else ['-']
  let size ← size? (point - 1)
  return first ++ fraction ++ 'e' :: (sign ++ Nat.toDigits 10 size)

def positional? (layout : Layout) (digits : List Char) (length point : Int) :
    Option (List Char) := do
  if length ≤ point then
    let zeros ← zeros? (← word? (point - length))
    return digits ++ zeros ++ layout.wholeEnd.toList
  else if 0 < point then
    let (whole, fraction) ← cut? digits point
    return whole ++ '.' :: fraction
  else
    let zeros ← zeros? (← word? (-point))
    return '0' :: '.' :: (zeros ++ digits)

/-- The written form of the digits, with the point behind the first of them, and a power of ten. -/
def magnitude? (layout : Layout) (digits : List Char) (exponent : Int) : Option (List Char) := do
  let length ← word? digits.length
  let point ← word? (exponent + 1)
  if layout.least ≤ point ∧ point ≤ layout.greatest then
    positional? layout digits length point
  else
    scientific? layout digits point

/-- What a length and an exponent stay below. -/
def bound : Nat := 1073741824

variable {layout : Layout} {digits : List Char} {n point exponent : Int}

theorem word?_eq (h : n.natAbs ≤ bound) : word? n = some n := by
  change n.natAbs ≤ 1073741824 at h
  exact if_pos (by omega)

theorem size?_eq (h : n.natAbs ≤ bound) : size? n = some n.natAbs := by
  rw [size?, word?_eq h, Option.bind_some]
  change n.natAbs ≤ 1073741824 at h
  exact if_neg (by omega)

theorem zeros?_eq (h : 0 ≤ n) : zeros? n = some (zeros n) := by
  rw [zeros?, count?, if_pos h]
  rfl

theorem cut?_eq (h : 0 ≤ n) (hn : n ≤ digits.length) :
    cut? digits n = some (digits.take n.toNat, digits.drop n.toNat) := by
  rw [cut?, count?, if_pos h, Option.bind_eq_bind, Option.bind_some, if_pos (Int.toNat_le.mpr hn),
    List.splitAt_eq]

theorem scientific?_eq (hne : digits ≠ []) (hexponent : (point - 1).natAbs ≤ bound) :
    scientific? layout digits point = some (scientific layout digits point) := by
  have hlen : 1 ≤ digits.length := List.length_pos_iff.mpr hne
  have hcut : cut? digits 1 = some (digits.take 1, digits.drop 1) :=
    cut?_eq Int.one_nonneg (Int.ofNat_le.mpr hlen)
  have hsign : (if 0 < point then layout.plus.toList else ['-']) =
      if point ≤ 0 then ['-'] else layout.plus.toList := by
    simp only [← Int.not_lt, ite_not]
  simp only [scientific?, hcut, size?_eq hexponent, hsign, scientific, Option.bind_eq_bind,
    Option.bind_some, List.drop_eq_nil_iff]
  rfl

theorem positional?_eq (hlen : digits.length < bound) (hpoint : point.natAbs ≤ bound) :
    positional? layout digits digits.length point = some (positional layout digits point) := by
  unfold positional? positional
  split
  next hwhole =>
    rw [word?_eq (by omega), Option.bind_eq_bind, Option.bind_some, zeros?_eq (by omega)]
    rfl
  next hwhole =>
    split
    next hpos => rw [cut?_eq (by omega) (by omega)]; rfl
    next hpos =>
      rw [word?_eq (by omega), Option.bind_eq_bind, Option.bind_some, zeros?_eq (by omega)]
      rfl

theorem magnitude?_eq (hne : digits ≠ []) (hlen : digits.length < bound)
    (hexponent : exponent.natAbs < bound) :
    magnitude? layout digits exponent = some (magnitude layout digits (exponent + 1)) := by
  rw [magnitude?, magnitude, word?_eq (by omega), word?_eq (by omega)]
  simp only [Option.bind_eq_bind, Option.bind_some]
  split
  · exact positional?_eq hlen (by omega)
  · exact scientific?_eq hne (by omega)

end AccessRules.Decimal.Checked
