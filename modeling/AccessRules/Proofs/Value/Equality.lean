import AccessRules.Proofs.Decimal.Shortest
import AccessRules.Proofs.Value.Structure

/-! Equality of values. Finite numbers are equal just if they denote the same number
(`Binary64.beq_iff_value_eq`), so the two zeros are equal wherever they stand, and a NaN is equal to
nothing. Equality is finer than having the same text (`Value.render_eq_of_equal`): this is settled at the
numbers (`Binary64.render_eq_of_beq`), and lists and maps are compared item by item. -/

namespace AccessRules

namespace Binary64
variable {x y : Binary64}

theorem beq_iff : x == y ↔ ¬x.isNaN ∧ ¬y.isNaN ∧ (x.isZero ∧ y.isZero ∨ x.bits = y.bits) := by
  change (!x.isNaN && !y.isNaN && (x.isZero && y.isZero || x.bits == y.bits)) = true ↔ _
  simp [and_assoc]

theorem not_isNaN_of_isFinite (h : x.isFinite) : ¬x.isNaN := by
  simp only [isFinite, bne_iff_ne] at h
  simp [isNaN, h]

theorem isFinite_of_isZero (h : x.isZero) : x.isFinite := by
  simp only [isZero, Bool.and_eq_true, beq_iff_eq] at h
  simp [isFinite, h.1]

/-! ## The number that finite bits denote -/

def value (x : Binary64) : ℚ :=
  (if x.isNegative then -1 else 1) * x.cell.value

theorem significand_lt (x : Binary64) : x.significand < 2 * hiddenBit := by
  have hfraction : x.fractionBits < hiddenBit := Nat.mod_lt _ (by decide)
  unfold significand
  split <;> omega

theorem le_scale (x : Binary64) : -1074 ≤ x.scale := by
  unfold scale
  omega

/-- Only at the least scale has a significand no leading bit. -/
theorem hiddenBit_le_significand (h : -1074 < x.scale) : hiddenBit ≤ x.significand := by
  unfold scale at h
  rw [significand, if_neg (by omega)]
  exact Nat.le_add_right _ _

theorem isZero_of_significand (h : x.significand = 0) : x.isZero := by
  by_contra hzero
  exact (significand_pos hzero).ne' h

theorem scale_le_of_value_cell_eq (h : x.cell.value = y.cell.value) : x.scale ≤ y.scale := by
  by_contra! hlt
  -- The significand of the coarser one would have to be at least twice a leading bit.
  have hhidden : hiddenBit ≤ x.significand := hiddenBit_le_significand (y.le_scale.trans_lt hlt)
  obtain ⟨k, hk⟩ := Int.le.dest hlt.le
  have htwo : (2 : ℚ) ^ y.scale ≠ 0 := (zpow_pos two_pos _).ne'
  rw [value_cell, value_cell, ← hk, zpow_add₀ two_ne_zero, zpow_natCast, mul_left_comm,
    mul_comm _ ((2 : ℚ) ^ y.scale), mul_right_inj' htwo] at h
  have hnat : x.significand * 2 ^ k = y.significand := by exact_mod_cast h
  have hpow : 2 ^ 1 ≤ 2 ^ k := Nat.pow_le_pow_right two_pos (by omega)
  have hmul := Nat.mul_le_mul hhidden hpow
  have hy := y.significand_lt
  omega

theorem significand_eq_of_value_cell_eq (h : x.cell.value = y.cell.value) :
    x.significand = y.significand ∧ x.scale = y.scale := by
  have hscale : x.scale = y.scale :=
    (scale_le_of_value_cell_eq h).antisymm (scale_le_of_value_cell_eq h.symm)
  rw [value_cell, value_cell, hscale, mul_left_inj' (zpow_pos two_pos _).ne'] at h
  exact ⟨Nat.cast_injective h, hscale⟩

theorem exponentBits_eq (hsignificand : x.significand = y.significand) (hscale : x.scale = y.scale) :
    x.exponentBits = y.exponentBits := by
  have hx : x.fractionBits < hiddenBit := Nat.mod_lt _ (by decide)
  have hy : y.fractionBits < hiddenBit := Nat.mod_lt _ (by decide)
  unfold significand at hsignificand
  unfold scale at hscale
  split at hsignificand <;> split at hsignificand <;> omega

/-- The sign, the significand and the scale settle the bits. -/
theorem bits_eq (hnegative : x.isNegative = y.isNegative) (hsignificand : x.significand = y.significand)
    (hscale : x.scale = y.scale) : x.bits = y.bits := by
  have hexponent := exponentBits_eq hsignificand hscale
  have hfraction : x.fractionBits = y.fractionBits := by
    unfold significand at hsignificand
    rw [hexponent] at hsignificand
    split at hsignificand <;> omega
  have hx := x.bits.toNat_lt
  have hy := y.bits.toNat_lt
  have hsign : signWeight ≤ x.bits.toNat ↔ signWeight ≤ y.bits.toNat := decide_eq_decide.mp hnegative
  simp only [exponentBits, fractionBits, signWeight, hiddenBit] at hexponent hfraction hsign
  apply UInt64.toNat_inj.mp
  omega

theorem value_cell_nonneg (x : Binary64) : 0 ≤ x.cell.value := by
  rw [value_cell]
  positivity

theorem value_eq_zero_iff : x.cell.value = 0 ↔ x.isZero := by
  rw [value_cell, mul_eq_zero, Nat.cast_eq_zero, or_iff_left (zpow_pos two_pos _).ne']
  refine ⟨isZero_of_significand, fun h => ?_⟩
  simp only [isZero, Bool.and_eq_true, beq_iff_eq] at h
  rw [significand, if_pos h.1, h.2]

/-- Finite numbers are compared as numbers. -/
theorem beq_iff_value_eq (hx : x.isFinite) (hy : y.isFinite) : x == y ↔ x.value = y.value := by
  rw [beq_iff, and_iff_right (not_isNaN_of_isFinite hx), and_iff_right (not_isNaN_of_isFinite hy)]
  constructor
  · rintro (⟨hzero, hzero'⟩ | hbits)
    · rw [value, value, value_eq_zero_iff.mpr hzero, value_eq_zero_iff.mpr hzero', mul_zero, mul_zero]
    · obtain ⟨bits⟩ := x
      obtain rfl : bits = y.bits := hbits
      rfl
  · intro h
    have hx := x.value_cell_nonneg
    have hy := y.value_cell_nonneg
    by_cases hnegative : x.isNegative = y.isNegative
    · have hcell : x.cell.value = y.cell.value := by
        unfold value at h
        rw [hnegative] at h
        split at h <;> linarith
      obtain ⟨hsignificand, hscale⟩ := significand_eq_of_value_cell_eq hcell
      exact .inr (bits_eq hnegative hsignificand hscale)
    · have hcells : x.cell.value = 0 ∧ y.cell.value = 0 := by
        unfold value at h
        split at h <;> split at h
        · simp_all
        · constructor <;> linarith
        · constructor <;> linarith
        · simp_all
      exact .inl ⟨value_eq_zero_iff.mp hcells.1, value_eq_zero_iff.mp hcells.2⟩

/-! ## Texts -/

theorem render_of_isZero (h : x.isZero) : x.render = "0" := by
  simp [render, isFinite_of_isZero h, h]

theorem render_eq_of_beq (h : x == y) : x.render = y.render := by
  obtain ⟨-, -, ⟨hx, hy⟩ | hbits⟩ := beq_iff.mp h
  · rw [render_of_isZero hx, render_of_isZero hy]
  · obtain ⟨bits⟩ := x
    obtain rfl : bits = y.bits := hbits
    rfl

end Binary64

namespace Value

theorem render_eq_of_equal_all :
    (∀ v w : Value, v.equal w → v.render = w.render) ∧
      (∀ es fs, equalEntries es fs → renderEntries es = renderEntries fs) ∧
      ∀ vs ws, equalItems vs ws → renderItems vs = renderItems ws := by
  refine equal.mutual_induct _ _ _ ?null ?bool ?int ?float ?string ?list ?map ?path ?other
    ?noItems ?items ?otherItems ?noEntries ?entries ?otherEntries
  case null => exact fun _ => rfl
  case bool | int | string | path =>
    intro a b h
    rw [eq_of_beq h]
  case float => exact fun x y h => Binary64.render_eq_of_beq h
  case list =>
    intro vs ws ih h
    rw [render, render, ih h]
  case map =>
    intro es fs ih h
    rw [render, render, ih h]
  case noItems | noEntries => exact fun _ => rfl
  case items =>
    intro v vs w ws ihv ihvs h
    obtain ⟨hv, hvs⟩ := Bool.and_eq_true_iff.mp h
    rw [renderItems, renderItems, ihv hv, ihvs hvs]
  case entries =>
    intro k v es l w fs ihv ihes h
    obtain ⟨hv, hes⟩ := Bool.and_eq_true_iff.mp h
    obtain ⟨hkey, hv⟩ := Bool.and_eq_true_iff.mp hv
    rw [renderEntries, renderEntries, eq_of_beq hkey, ihv hv, ihes hes]
  -- Two different constructors are never equal.
  case other =>
    intros
    simp_all only [equal, Bool.false_eq_true]
  case otherItems =>
    intros
    simp_all only [equalItems, Bool.false_eq_true]
  case otherEntries =>
    intros
    simp_all only [equalEntries, Bool.false_eq_true]

/-- Equal values have the same literal. -/
theorem render_eq_of_equal {v w : Value} (h : v.equal w) : v.render = w.render :=
  render_eq_of_equal_all.1 v w h

end Value

end AccessRules
