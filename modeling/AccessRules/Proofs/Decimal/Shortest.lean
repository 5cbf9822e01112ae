import Mathlib.Algebra.Order.Field.Power
import Mathlib.Tactic.Linarith
import Mathlib.Tactic.Positivity
import AccessRules.Binary64
import AccessRules.Proofs.Decimal.Layout

/-! The shortest decimal of a number. The search ends with a multiple of a power of ten in the cell of
the number, and no coarser power of ten has one (`Cell.coarsest_spec`); so the digits end with no
superfluous zero (`exists_shortest_eq`). -/

namespace AccessRules.Binary64

/-- A power of any sign, without a fraction. -/
theorem zpow_mul_pow_toNat {b : ℚ} (hb : b ≠ 0) (e : ℤ) : b ^ e * b ^ (-e).toNat = b ^ e.toNat := by
  rw [← zpow_natCast, ← zpow_natCast, ← zpow_add₀ hb]
  congr 1
  omega

namespace Cell

variable {c : Cell} {v w : ℚ} {e floor : ℤ} {g n : ℕ}

/-- The number that the cell is about. -/
def value (c : Cell) : ℚ :=
  c.middle / c.denominator

def Above (c : Cell) (v : ℚ) : Prop :=
  c.low < v * c.denominator ∨ c.closed ∧ c.low = v * c.denominator

def Below (c : Cell) (v : ℚ) : Prop :=
  v * c.denominator < c.high ∨ c.closed ∧ v * c.denominator = c.high

/-- The number rounds to the middle of the cell. -/
def Contains (c : Cell) (v : ℚ) : Prop :=
  c.Above v ∧ c.Below v

/-- A cell of a positive number lies around it and reaches at most to its double. -/
structure Proper (c : Cell) : Prop where
  denominator_pos : 0 < c.denominator
  low_pos : 0 < c.low
  low_lt : c.low < c.middle
  lt_high : c.middle < c.high
  high_le : c.high ≤ 2 * c.middle

theorem Above.mono (h : c.Above v) (hvw : v ≤ w) : c.Above w := by
  have hden : (0 : ℚ) ≤ c.denominator := Nat.cast_nonneg _
  have hle := mul_le_mul_of_nonneg_right hvw hden
  obtain hlt | ⟨hclosed, heq⟩ := h
  · exact .inl (hlt.trans_le hle)
  · exact (heq.trans_le hle).lt_or_eq.imp id fun heq => ⟨hclosed, heq⟩

theorem Below.mono (h : c.Below w) (hvw : v ≤ w) : c.Below v := by
  have hden : (0 : ℚ) ≤ c.denominator := Nat.cast_nonneg _
  have hle := mul_le_mul_of_nonneg_right hvw hden
  obtain hlt | ⟨hclosed, heq⟩ := h
  · exact .inl (hle.trans_lt hlt)
  · exact (hle.trans_eq heq).lt_or_eq.imp id fun heq => ⟨hclosed, heq⟩

namespace Proper

variable (h : c.Proper)
include h

theorem cast_denominator_pos : (0 : ℚ) < c.denominator :=
  Nat.cast_pos.mpr h.denominator_pos

theorem value_mul : c.value * c.denominator = c.middle :=
  div_mul_cancel₀ _ h.cast_denominator_pos.ne'

theorem value_lt_iff : c.value < v ↔ c.middle < v * c.denominator := by
  rw [← h.value_mul, mul_lt_mul_iff_left₀ h.cast_denominator_pos]

theorem above (hv : c.value ≤ v) : c.Above v := by
  apply Above.mono _ hv
  left
  rw [h.value_mul]
  exact Nat.cast_lt.mpr h.low_lt

theorem below (hv : v ≤ c.value) : c.Below v := by
  apply Below.mono _ hv
  left
  rw [h.value_mul]
  exact Nat.cast_lt.mpr h.lt_high

theorem pos (hv : c.Above v) : 0 < v := by
  have hlow : (c.low : ℚ) ≤ v * c.denominator := hv.elim le_of_lt fun hv => hv.2.le
  have hpos := (Nat.cast_pos.mpr h.low_pos).trans_le hlow
  exact (mul_pos_iff_of_pos_right h.cast_denominator_pos).mp hpos

theorem le_double (hv : c.Below v) : v ≤ 2 * c.value := by
  apply le_of_mul_le_mul_right _ h.cast_denominator_pos
  rw [mul_assoc, h.value_mul]
  calc v * c.denominator ≤ c.high := hv.elim le_of_lt fun hv => hv.2.le
    _ ≤ 2 * c.middle := by exact_mod_cast h.high_le

end Proper

/-! ## Multiples of a power of ten -/

/-- Both sides of a comparison are made whole. -/
theorem cast_mul_step (g d : ℕ) (e : ℤ) : ((g * (d * Nat.pow 10 e.toNat) : ℕ) : ℚ) =
    g * 10 ^ e * d * (Nat.pow 10 (-e).toNat : ℕ) := by
  simp only [Nat.pow_eq]
  push_cast
  rw [← zpow_mul_pow_toNat (by norm_num)]
  ring

theorem zoom_pos (e : ℤ) : (0 : ℚ) < (Nat.pow 10 (-e).toNat : ℕ) :=
  Nat.cast_pos.mpr (Nat.pow_pos (by decide))

theorem step_lt_iff (a g d : ℕ) (e : ℤ) :
    g * (d * Nat.pow 10 e.toNat) < a * Nat.pow 10 (-e).toNat ↔ (g : ℚ) * 10 ^ e * d < a := by
  rw [← Nat.cast_lt (α := ℚ), cast_mul_step, Nat.cast_mul, mul_lt_mul_iff_left₀ (zoom_pos e)]

theorem lt_step_iff (a g d : ℕ) (e : ℤ) :
    a * Nat.pow 10 (-e).toNat < g * (d * Nat.pow 10 e.toNat) ↔ (a : ℚ) < g * 10 ^ e * d := by
  rw [← Nat.cast_lt (α := ℚ), cast_mul_step, Nat.cast_mul, mul_lt_mul_iff_left₀ (zoom_pos e)]

theorem eq_step_iff (a g d : ℕ) (e : ℤ) :
    a * Nat.pow 10 (-e).toNat = g * (d * Nat.pow 10 e.toNat) ↔ (a : ℚ) = g * 10 ^ e * d := by
  rw [← Nat.cast_inj (R := ℚ), cast_mul_step, Nat.cast_mul, mul_left_inj' (zoom_pos e).ne']

/-- The factor of the multiple below the middle. -/
def factorBelow (c : Cell) (e : ℤ) : ℕ :=
  c.middle * Nat.pow 10 (-e).toNat / (c.denominator * Nat.pow 10 e.toNat)

theorem Proper.step_pos (h : c.Proper) (e : ℤ) : 0 < c.denominator * Nat.pow 10 e.toNat :=
  Nat.mul_pos h.denominator_pos (Nat.pow_pos (by norm_num))

theorem Proper.factorBelow_le (h : c.Proper) (e : ℤ) : (c.factorBelow e : ℚ) * 10 ^ e ≤ c.value := by
  apply le_of_not_gt
  intro hlt
  have hle : c.factorBelow e * (c.denominator * Nat.pow 10 e.toNat) ≤
      c.middle * Nat.pow 10 (-e).toNat := Nat.div_mul_le_self _ _
  exact hle.not_gt ((lt_step_iff ..).mpr (h.value_lt_iff.mp hlt))

theorem Proper.lt_factorBelow (h : c.Proper) (e : ℤ) :
    c.value < ((c.factorBelow e + 1 : ℕ) : ℚ) * 10 ^ e := by
  apply h.value_lt_iff.mpr
  apply (lt_step_iff ..).mp
  rw [Nat.mul_comm (c.factorBelow e + 1)]
  exact Nat.lt_mul_div_succ _ (h.step_pos e)

theorem multiple?_cases (c : Cell) (e : ℤ) :
    (c.Above (c.factorBelow e * 10 ^ e) ∧ c.multiple? e = some (c.factorBelow e)) ∨
      (c.Below ((c.factorBelow e + 1 : ℕ) * 10 ^ e) ∧
        c.multiple? e = some (c.factorBelow e + 1)) ∨
      ¬c.Above (c.factorBelow e * 10 ^ e) ∧ ¬c.Below ((c.factorBelow e + 1 : ℕ) * 10 ^ e) ∧
        c.multiple? e = none := by
  unfold multiple?
  extract_lets step zoom inside below above belowFits aboveFits
  have habove : belowFits ↔ c.Above (c.factorBelow e * 10 ^ e) := by
    simp only [belowFits, inside, Above, Bool.or_eq_true, Bool.and_eq_true, decide_eq_true_eq,
      beq_iff_eq]
    exact or_congr (lt_step_iff ..) (and_congr_right fun _ => eq_step_iff ..)
  have hbelow : aboveFits ↔ c.Below ((c.factorBelow e + 1 : ℕ) * 10 ^ e) := by
    simp only [aboveFits, inside, Below, Bool.or_eq_true, Bool.and_eq_true, decide_eq_true_eq,
      beq_iff_eq]
    exact or_congr (step_lt_iff ..) (and_congr_right fun _ => eq_comm.trans ((eq_step_iff ..).trans eq_comm))
  rw [← habove, ← hbelow]
  clear_value belowFits aboveFits
  cases belowFits with
  | false =>
    right
    cases aboveFits with
    | false => exact .inr ⟨nofun, nofun, rfl⟩
    | true => exact .inl ⟨rfl, rfl⟩
  | true =>
    cases aboveFits with
    | false => exact .inl ⟨rfl, rfl⟩
    | true =>
      rw [Bool.and_self, if_pos rfl]
      split
      · exact .inl ⟨rfl, rfl⟩
      · exact .inr (.inl ⟨rfl, rfl⟩)

theorem contains_of_multiple? (h : c.Proper) (hg : c.multiple? e = some g) :
    c.Contains (g * 10 ^ e) := by
  obtain ⟨habove, hbelow⟩ | ⟨hbelow, habove⟩ | ⟨_, _, hnone⟩ := c.multiple?_cases e
  · obtain rfl := Option.some.inj (hbelow.symm.trans hg)
    exact ⟨habove, h.below (h.factorBelow_le e)⟩
  · obtain rfl := Option.some.inj (habove.symm.trans hg)
    exact ⟨h.above (h.lt_factorBelow e).le, hbelow⟩
  · cases hnone.symm.trans hg

theorem not_contains_of_multiple? (hnone : c.multiple? e = none) (g : ℕ) :
    ¬c.Contains (g * 10 ^ e) := by
  have hten : (0 : ℚ) ≤ 10 ^ e := (zpow_pos (by norm_num) _).le
  obtain ⟨_, hbelow⟩ | ⟨_, habove⟩ | ⟨hbelow, habove, _⟩ := c.multiple?_cases e
  · cases hbelow.symm.trans hnone
  · cases habove.symm.trans hnone
  · intro hg
    rcases Nat.lt_or_ge (c.factorBelow e) g with hlt | hle
    · exact habove (hg.2.mono (mul_le_mul_of_nonneg_right (Nat.cast_le.mpr hlt) hten))
    · exact hbelow (hg.1.mono (mul_le_mul_of_nonneg_right (Nat.cast_le.mpr hle) hten))

/-- The search finds a multiple in the cell, and there is none of a coarser power of ten. -/
theorem coarsest_spec (h : c.Proper) (hmultiple : ∃ m : ℕ, c.value = m * 10 ^ floor)
    (hcoarse : ∀ e, floor + n < e → ∀ g : ℕ, ¬c.Contains (g * 10 ^ e)) :
    c.Contains ((c.coarsest floor n).1 * 10 ^ (c.coarsest floor n).2) ∧
      ∀ e, (c.coarsest floor n).2 < e → ∀ g : ℕ, ¬c.Contains (g * 10 ^ e) := by
  induction n with
  | zero =>
    obtain ⟨m, hm⟩ := hmultiple
    have hmiddle : c.middle * Nat.pow 10 (-floor).toNat =
        m * (c.denominator * Nat.pow 10 floor.toNat) :=
      (eq_step_iff ..).mpr (by rw [← h.value_mul, hm])
    rw [coarsest, hmiddle, Nat.mul_div_cancel m (h.step_pos floor)]
    refine ⟨⟨h.above hm.le, h.below hm.ge⟩, fun e he => hcoarse e ?_⟩
    rwa [Int.natCast_zero, Int.add_zero]
  | succ n ih =>
    rw [coarsest]
    split
    next g hg => exact ⟨contains_of_multiple? h hg, hcoarse⟩
    next hnone =>
      apply ih
      intro e he
      obtain rfl | hlt : e = floor + (n + 1 : ℕ) ∨ floor + (n + 1 : ℕ) < e := by omega
      · exact not_contains_of_multiple? hnone
      · exact hcoarse e hlt

end Cell

variable {x : Binary64}

theorem significand_pos (hzero : ¬x.isZero) : 0 < x.significand := by
  unfold significand
  split
  next hexponent =>
    apply Nat.pos_of_ne_zero
    intro hfraction
    exact hzero (by simp [isZero, hexponent, hfraction])
  next => exact Nat.add_pos_left (by decide) _

theorem proper_cell (hzero : ¬x.isZero) : x.cell.Proper := by
  have hsignificand := significand_pos hzero
  have hunit : 0 < Nat.pow 2 (x.scale - 2).toNat := Nat.pow_pos (by decide)
  have hgap : 0 < (if x.fractionBits = 0 ∧ 1 < x.exponentBits then 1 else 2) ∧
      (if x.fractionBits = 0 ∧ 1 < x.exponentBits then 1 else 2) ≤ 2 := by
    split <;> decide
  constructor
  · exact Nat.pow_pos (by decide)
  · exact Nat.mul_pos (by omega) hunit
  · exact Nat.mul_lt_mul_of_pos_right (by omega) hunit
  · exact Nat.mul_lt_mul_of_pos_right (by omega) hunit
  · change (4 * x.significand + 2) * _ ≤ 2 * (4 * x.significand * _)
    rw [← Nat.mul_assoc]
    exact Nat.mul_le_mul_right _ (by omega)

theorem value_cell (x : Binary64) : x.cell.value = x.significand * 2 ^ x.scale := by
  have hden : ((Nat.pow 2 (2 - x.scale).toNat : ℕ) : ℚ) ≠ 0 :=
    Nat.cast_ne_zero.mpr (Nat.pow_pos (by decide)).ne'
  apply (div_eq_iff hden).mpr
  simp only [cell, Nat.pow_eq]
  push_cast
  rw [← zpow_mul_pow_toNat two_ne_zero, neg_sub, zpow_sub₀ two_ne_zero]
  ring

/-- The number in units of the power of ten at which the search ends. -/
def units (x : Binary64) : ℕ :=
  x.significand * Nat.pow 2 x.scale.toNat * Nat.pow 5 (-x.scale).toNat

theorem value_cell_eq_units (x : Binary64) : x.cell.value = x.units * 10 ^ min x.scale 0 := by
  have hfloor : min x.scale 0 = -((-x.scale).toNat : ℤ) := by omega
  rw [value_cell, hfloor, zpow_neg, zpow_natCast]
  simp only [units, Nat.pow_eq]
  push_cast
  have hten : (10 : ℚ) ^ (-x.scale).toNat = 2 ^ (-x.scale).toNat * 5 ^ (-x.scale).toNat := by
    rw [← mul_pow]
    norm_num
  rw [← zpow_mul_pow_toNat two_ne_zero, eq_mul_inv_iff_mul_eq₀ (by positivity), hten]
  ring

/-- The decimal rounds to the number, and none with a coarser power of ten does. -/
theorem shortest_spec (hzero : ¬x.isZero) :
    x.cell.Contains (x.shortest.significand * 10 ^ x.shortest.exponent) ∧
      ∀ e, x.shortest.exponent < e → ∀ g : ℕ, ¬x.cell.Contains (g * 10 ^ e) := by
  have hproper := proper_cell hzero
  apply Cell.coarsest_spec hproper ⟨_, x.value_cell_eq_units⟩
  intro e he g hg
  change min x.scale 0 + (Nat.toDigits 10 x.units).length < e at he
  have hunits : (x.units : ℚ) < 10 ^ (Nat.toDigits 10 x.units).length := by
    exact_mod_cast (Nat.length_toDigits_le_iff (by decide)
      (List.length_pos_iff.mpr Nat.toDigits_ne_nil)).mp le_rfl
  have hstep : (0 : ℚ) < 10 ^ e := zpow_pos (by norm_num) _
  have hg_pos : 0 < (g : ℚ) := (mul_pos_iff_of_pos_right hstep).mp (hproper.pos hg.1)
  apply lt_irrefl ((10 : ℚ) ^ e)
  calc (10 : ℚ) ^ e
      ≤ g * 10 ^ e := le_mul_of_one_le_left hstep.le (Nat.one_le_cast.mpr (Nat.cast_pos.mp hg_pos))
    _ ≤ 2 * x.cell.value := hproper.le_double hg.2
    _ = 2 * (x.units * 10 ^ min x.scale 0) := by rw [value_cell_eq_units]
    _ < 10 * (10 ^ (Nat.toDigits 10 x.units).length * 10 ^ min x.scale 0) := by gcongr; norm_num
    _ = 10 ^ (min x.scale 0 + (Nat.toDigits 10 x.units).length + 1) := by
      rw [zpow_add_one₀ (by norm_num), zpow_add₀ (by norm_num), zpow_natCast]
      ring
    _ ≤ 10 ^ e := zpow_le_zpow_right₀ (by norm_num) he

theorem shortest_mod_ten (hzero : ¬x.isZero) : x.shortest.significand % 10 ≠ 0 := by
  obtain ⟨hcontains, hcoarse⟩ := shortest_spec hzero
  intro hmod
  obtain ⟨g, hg⟩ := Nat.dvd_of_mod_eq_zero hmod
  apply hcoarse _ (Int.lt_succ _) g
  rwa [hg, Nat.cast_mul, Nat.cast_ofNat, mul_comm _ (g : ℚ), mul_assoc,
    ← zpow_one_add₀ (by norm_num), Int.add_comm] at hcontains

/-- The digits of the decimal end with no superfluous zero. -/
theorem exists_shortest_eq (hzero : ¬x.isZero) : ∃ s : Scientific, x.shortest = s.decimal :=
  Scientific.exists_decimal_eq (shortest_mod_ten hzero)

end AccessRules.Binary64
