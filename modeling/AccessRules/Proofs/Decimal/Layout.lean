import Mathlib.Tactic.FieldSimp
import Mathlib.Tactic.Ring
import AccessRules.Proofs.Decimal.Numeral
import AccessRules.Value

/-! The layout of a number: the digits in full, among zeros and around a point, or with an exponent. In
each the point is moved and not a digit changed, so the text is that of a numeral which denotes the number
(`Scientific.exists_numeral`). Superfluous zeros stand nowhere, and a text belongs to one number only
(`Scientific.text_inj`). -/

namespace AccessRules

/-- Digits with a point behind the first of them, and a power of ten. No superfluous zero stands at
either end. -/
@[ext]
structure Scientific where
  negative : Bool
  digits : List Char
  exponent : Int
  ne_nil : digits ≠ []
  isDigit : ∀ c ∈ digits, c.isDigit
  head_ne_zero : digits.head? ≠ some '0'
  last_ne_zero : 1 < digits.length → digits.getLast? ≠ some '0'

namespace Scientific

/-- The number that is meant. -/
def value (s : Scientific) : ℚ :=
  (if s.negative then -1 else 1) *
    ((Nat.ofDigitChars 10 s.digits 0 : ℕ) / 10 ^ (s.digits.length - 1)) * 10 ^ s.exponent

/-- The decimal that is meant. -/
def decimal (s : Scientific) : Decimal :=
  ⟨s.negative, Nat.ofDigitChars 10 s.digits 0, s.exponent + 1 - s.digits.length⟩

/-- The decimal as a literal. -/
def text (s : Scientific) : String :=
  s.decimal.text Value.numberLayout

variable (s : Scientific)

theorem digits_decimal : s.decimal.digits = s.digits :=
  (toDigits_ofDigitChars_eq_iff s.ne_nil s.isDigit).mpr (not_isPadded_of_head s.head_ne_zero)

theorem toList_text : s.text.toList =
    Numeral.sign s.negative ++ Decimal.magnitude Value.numberLayout s.digits (s.exponent + 1) := by
  have hpoint : s.decimal.point = s.exponent + 1 := by
    rw [Decimal.point, digits_decimal]
    exact Int.sub_add_cancel _ _
  rw [text, Decimal.text, String.toList_ofList, digits_decimal, hpoint]
  rfl

theorem length_pos : 0 < s.digits.length :=
  List.length_pos_iff.mpr s.ne_nil

/-- The last digit is not a zero, also if it is the only one. -/
theorem getLast?_ne_zero : s.digits.getLast? ≠ some '0' := by
  by_cases hlen : 1 < s.digits.length
  · exact s.last_ne_zero hlen
  · obtain ⟨c, hc⟩ := List.length_eq_one_iff.mp (Nat.le_antisymm (Nat.le_of_not_lt hlen) s.length_pos)
    have hhead := s.head_ne_zero
    rw [hc] at hhead ⊢
    exact hhead

/-- Decimals without a zero at the end of their significand are those that are meant. -/
theorem exists_decimal_eq {d : Decimal} (hd : d.significand % 10 ≠ 0) :
    ∃ s : Scientific, d = s.decimal := by
  refine ⟨⟨d.negative, d.digits, d.point - 1, Nat.toDigits_ne_nil,
    fun c hc => Nat.isDigit_of_mem_toDigits (by decide) (by decide) hc, head?_toDigits (by omega),
    fun _ => mt getLast?_toDigits_eq_zero_iff.mp hd⟩, ?_⟩
  have hexponent : d.point - 1 + 1 - d.digits.length = d.exponent := by
    rw [Decimal.point]
    omega
  have hsignificand : Nat.ofDigitChars 10 d.digits 0 = d.significand :=
    Nat.ofDigitChars_ten_toDigits
  rw [decimal, hexponent, hsignificand]

theorem value_eq : s.value = (if s.negative then -1 else 1) * (Nat.ofDigitChars 10 s.digits 0 : ℕ) *
    10 ^ (s.exponent + 1 - s.digits.length) := by
  have hlen : s.exponent + 1 - s.digits.length = s.exponent - (s.digits.length - 1 : ℕ) := by
    have := s.length_pos
    omega
  rw [value, hlen, zpow_sub₀ (by norm_num), zpow_natCast]
  ring

end Scientific

/-- A numeral for a number, with an exponent if the point would be far from the digits. -/
structure Numeral.Writes (n : Numeral) (s : Scientific) : Prop where
  value_eq : n.value = s.value
  /-- No superfluous zero stands behind the point. -/
  fraction_last : n.fraction.getLast? ≠ some '0'
  exponent_iff : n.exponent.isSome ↔ s.exponent ≤ -7 ∨ 21 ≤ s.exponent
  exponent_sign : ∀ e ∈ n.exponent, e.sign ≠ []
  exponent_digits : ∀ e ∈ n.exponent, ¬IsPadded e.digits

/-- Zeros around the digits of a number move its point. -/
theorem Numeral.value_eq_value {n : Numeral} {s : Scientific} (hnegative : n.negative = s.negative)
    (a b : ℕ) (hdigits : n.whole ++ n.fraction =
      List.replicate a '0' ++ (s.digits ++ List.replicate b '0'))
    (hexponent : n.exponent.elim 0 Exponent.value - n.fraction.length =
      s.exponent + 1 - s.digits.length - b) : n.value = s.value := by
  rw [s.value_eq, value, hnegative, hdigits, hexponent, Nat.ofDigitChars_append,
    Nat.ofDigitChars_append, Nat.ofDigitChars_replicate_zero, Nat.ofDigitChars_replicate_zero,
    Nat.mul_zero, zpow_sub₀ (by norm_num), zpow_natCast]
  push_cast
  field_simp

namespace Scientific

variable (s : Scientific)

/-! ## Numbers written in full -/

theorem not_isPadded_take (k : ℕ) : ¬IsPadded (s.digits.take k) := by
  rintro ⟨c, cs, h⟩
  refine s.head_ne_zero ?_
  rw [← List.take_append_drop k s.digits, h]
  rfl

theorem getLast?_drop_ne_zero (k : ℕ) : (s.digits.drop k).getLast? ≠ some '0' := by
  rw [List.getLast?_drop]
  split
  · nofun
  · exact s.getLast?_ne_zero

/-- Without an exponent, the digits stand among zeros with the point at its place. -/
theorem exists_positional (whole fraction : List Char) (a b : ℕ) (hne : whole ≠ [])
    (hpadded : ¬IsPadded whole) (hlast : fraction.getLast? ≠ some '0')
    (hdigits : whole ++ fraction = List.replicate a '0' ++ (s.digits ++ List.replicate b '0'))
    (hlen : (fraction.length : ℤ) = s.digits.length + b - (s.exponent + 1))
    (hleast : -5 ≤ s.exponent + 1) (hgreatest : s.exponent + 1 ≤ 21)
    (htext : Decimal.positional Value.numberLayout s.digits (s.exponent + 1) =
      whole ++ Numeral.fractionText fraction) :
    ∃ n : Numeral, n.text = s.text.toList ∧ n.Writes s := by
  have hzero : ∀ k, ∀ c ∈ List.replicate k '0', c.isDigit := by
    intro k c hc
    rw [List.eq_of_mem_replicate hc]
    rfl
  have hall : ∀ c ∈ whole ++ fraction, c.isDigit := by
    rw [hdigits]
    exact List.forall_mem_append.mpr ⟨hzero a, List.forall_mem_append.mpr ⟨s.isDigit, hzero b⟩⟩
  obtain ⟨hwhole, hfraction⟩ := List.forall_mem_append.mp hall
  refine ⟨⟨s.negative, whole, fraction, none, hne, hwhole, hpadded, hfraction⟩, ?_, ?_, hlast, ?_,
    nofun, nofun⟩
  · rw [s.toList_text, Decimal.magnitude, if_pos ⟨hleast, hgreatest⟩, htext]
    simp [Numeral.text, Numeral.exponentText]
  · refine Numeral.value_eq_value rfl a b hdigits ?_
    simp only [Option.elim_none]
    omega
  · refine iff_of_false Bool.false_ne_true ?_
    omega

theorem exists_whole (hlen : s.digits.length ≤ s.exponent + 1) (hgreatest : s.exponent + 1 ≤ 21) :
    ∃ n : Numeral, n.text = s.text.toList ∧ n.Writes s := by
  obtain ⟨j, hj⟩ := Int.le.dest hlen
  have hzeros : Decimal.zeros (s.exponent + 1 - s.digits.length) = List.replicate j '0' := by
    rw [← hj, add_sub_cancel_left]
    rfl
  have hhead : (s.digits ++ List.replicate j '0').head? ≠ some '0' := by
    rw [List.head?_append_of_ne_nil _ s.ne_nil]
    exact s.head_ne_zero
  refine s.exists_positional (s.digits ++ List.replicate j '0') [] 0 j (by simp [s.ne_nil])
    (not_isPadded_of_head hhead) nofun (List.append_nil _) ?_ ?_ hgreatest ?_
  · rw [← hj]
    simp
  · omega
  · rw [Decimal.positional, if_pos hlen, hzeros]
    rfl

theorem exists_split (hpos : 0 < s.exponent + 1) (hlen : s.exponent + 1 < s.digits.length)
    (hgreatest : s.exponent + 1 ≤ 21) : ∃ n : Numeral, n.text = s.text.toList ∧ n.Writes s := by
  obtain ⟨j, hj⟩ := Int.eq_ofNat_of_zero_le hpos.le
  rw [hj] at hpos hlen
  have htake : s.digits.take j ≠ [] := by
    rw [Ne, List.take_eq_nil_iff]
    exact not_or.mpr ⟨by omega, s.ne_nil⟩
  have hdrop : s.digits.drop j ≠ [] := by
    rw [Ne, List.drop_eq_nil_iff]
    omega
  refine s.exists_positional (s.digits.take j) (s.digits.drop j) 0 0 htake (s.not_isPadded_take j)
    (s.getLast?_drop_ne_zero j) (by simp) ?_ (by omega) hgreatest ?_
  · rw [List.length_drop, hj]
    omega
  · rw [hj, Decimal.positional, if_neg (by omega), if_pos hpos, Numeral.fractionText, if_neg hdrop]
    rfl

theorem exists_below (hleast : -5 ≤ s.exponent + 1) (hpos : s.exponent + 1 ≤ 0) :
    ∃ n : Numeral, n.text = s.text.toList ∧ n.Writes s := by
  obtain ⟨j, hj⟩ := Int.eq_ofNat_of_zero_le (Int.neg_nonneg_of_nonpos hpos)
  have hlast : (List.replicate j '0' ++ s.digits).getLast? ≠ some '0' := by
    rw [List.getLast?_append_of_ne_nil _ s.ne_nil]
    exact s.getLast?_ne_zero
  have hne : List.replicate j '0' ++ s.digits ≠ [] := by simp [s.ne_nil]
  have hlen := s.length_pos
  refine s.exists_positional ['0'] (List.replicate j '0' ++ s.digits) (j + 1) 0
    (List.cons_ne_nil _ _) (fun ⟨_, _, h⟩ => nomatch (List.cons.inj h).2) hlast ?_ ?_ hleast
    (by omega) ?_
  · rw [List.replicate_succ]
    simp
  · rw [List.length_append, List.length_replicate]
    omega
  · rw [Decimal.positional, if_neg (by omega), if_neg (by omega), hj, Numeral.fractionText, if_neg hne]
    rfl

/-! ## Numbers written with an exponent -/

/-- An exponent with its sign and without superfluous zeros. -/
def exponentOf (e : ℤ) : Numeral.Exponent where
  marker := 'e'
  sign := if e < 0 then ['-'] else ['+']
  digits := Nat.toDigits 10 e.natAbs
  marker_mem := by decide
  sign_mem := by split <;> decide
  ne_nil := Nat.toDigits_ne_nil
  isDigit _ hc := Nat.isDigit_of_mem_toDigits (by decide) (by decide) hc

theorem value_exponentOf (e : ℤ) : (exponentOf e).value = e := by
  have hsign : (exponentOf e).sign = ['-'] ↔ e < 0 := by
    unfold exponentOf
    split <;> simp_all
  have hdigits : Nat.ofDigitChars 10 (exponentOf e).digits 0 = e.natAbs :=
    Nat.ofDigitChars_ten_toDigits
  rw [Numeral.Exponent.value, hdigits, if_congr hsign rfl rfl]
  split <;> omega

theorem exists_exponential (h : s.exponent ≤ -7 ∨ 21 ≤ s.exponent) :
    ∃ n : Numeral, n.text = s.text.toList ∧ n.Writes s := by
  have htake : s.digits.take 1 ≠ [] := by simp [s.ne_nil]
  have hrange : ¬(Value.numberLayout.least ≤ s.exponent + 1 ∧
      s.exponent + 1 ≤ Value.numberLayout.greatest) := by
    change ¬(-5 ≤ s.exponent + 1 ∧ s.exponent + 1 ≤ 21)
    omega
  refine ⟨⟨s.negative, s.digits.take 1, s.digits.drop 1, some (exponentOf s.exponent), htake,
    fun c hc => s.isDigit c (List.mem_of_mem_take hc), s.not_isPadded_take 1,
    fun c hc => s.isDigit c (List.mem_of_mem_drop hc)⟩, ?_, ?_, s.getLast?_drop_ne_zero 1, ?_, ?_, ?_⟩
  · have hfraction : (if s.digits.length ≤ 1 then [] else '.' :: s.digits.drop 1) =
        Numeral.fractionText (s.digits.drop 1) := by
      simp only [Numeral.fractionText, List.drop_eq_nil_iff]
    have hsign : (if s.exponent + 1 ≤ 0 then ['-'] else Value.numberLayout.plus.toList) =
        (exponentOf s.exponent).sign := by
      simp only [exponentOf, Int.add_one_le_iff]
      rfl
    rw [s.toList_text, Decimal.magnitude, if_neg hrange, Decimal.scientific, hfraction, hsign,
      Int.add_sub_cancel]
    simp [Numeral.text, Numeral.exponentText, Numeral.Exponent.text, exponentOf]
  · have hlen := s.length_pos
    refine Numeral.value_eq_value rfl 0 0 (by rw [List.take_append_drop]; simp) ?_
    simp only [Option.elim_some, value_exponentOf, List.length_drop]
    omega
  · exact iff_of_true rfl h
  · rintro e ⟨rfl⟩
    unfold exponentOf
    split <;> simp
  · rintro e ⟨rfl⟩
    exact not_isPadded_toDigits _

theorem exists_numeral : ∃ n : Numeral, n.text = s.text.toList ∧ n.Writes s := by
  by_cases hscientific : s.exponent ≤ -7 ∨ 21 ≤ s.exponent
  · exact s.exists_exponential hscientific
  by_cases hwhole : s.digits.length ≤ s.exponent + 1
  · exact s.exists_whole hwhole (by omega)
  by_cases hpos : 0 < s.exponent + 1
  · exact s.exists_split hpos (by omega) (by omega)
  · exact s.exists_below (by omega) (by omega)

/-! ## One number for each text -/

theorem mod_ten_ne_zero : Nat.ofDigitChars 10 s.digits 0 % 10 ≠ 0 := by
  intro h
  refine s.getLast?_ne_zero ?_
  rw [← s.digits_decimal]
  exact getLast?_toDigits_eq_zero_iff.mpr h

section
variable {m n : ℕ} {a b : ℤ}

theorem le_of_mul_zpow_eq (hm : m % 10 ≠ 0) (h : (m : ℚ) * 10 ^ a = n * 10 ^ b) : b ≤ a := by
  by_contra hlt
  obtain ⟨k, hk⟩ := Int.le.dest (Int.not_le.mp hlt)
  have hm' : (m : ℚ) = n * 10 ^ (k + 1) := by
    have hpos : (10 : ℚ) ^ a ≠ 0 := zpow_ne_zero _ (by norm_num)
    have hb : b = a + (k + 1 : ℕ) := by omega
    rw [hb, zpow_add₀ (by norm_num), zpow_natCast, mul_left_comm, mul_comm] at h
    exact mul_left_cancel₀ hpos h
  have hdvd : m = n * 10 ^ (k + 1) := by exact_mod_cast hm'
  rw [hdvd, pow_succ, ← Nat.mul_assoc] at hm
  exact hm (Nat.mul_mod_left _ _)

theorem mul_zpow_inj (hm : m % 10 ≠ 0) (hn : n % 10 ≠ 0) (h : (m : ℚ) * 10 ^ a = n * 10 ^ b) :
    m = n ∧ a = b := by
  obtain rfl := Int.le_antisymm (le_of_mul_zpow_eq hn h.symm) (le_of_mul_zpow_eq hm h)
  have hpos : (10 : ℚ) ^ a ≠ 0 := zpow_ne_zero _ (by norm_num)
  exact ⟨by exact_mod_cast mul_right_cancel₀ hpos h, rfl⟩

end

theorem value_neg_iff : s.value < 0 ↔ s.negative := by
  have hpos : 0 < (Nat.ofDigitChars 10 s.digits 0 : ℚ) * 10 ^ (s.exponent + 1 - s.digits.length) := by
    have hsignificand : 0 < Nat.ofDigitChars 10 s.digits 0 := by
      have := s.mod_ten_ne_zero
      omega
    exact mul_pos (Nat.cast_pos.mpr hsignificand) (zpow_pos (by norm_num) _)
  rw [value_eq, mul_assoc]
  split <;> simp_all [not_lt_of_gt]

theorem value_inj {s t : Scientific} (h : s.value = t.value) : s = t := by
  have hnegative : s.negative = t.negative := by
    rw [Bool.eq_iff_iff, ← value_neg_iff, ← value_neg_iff, h]
  have hsign : (if t.negative then (-1 : ℚ) else 1) ≠ 0 := by split <;> norm_num
  rw [value_eq, value_eq, hnegative, mul_assoc, mul_assoc] at h
  obtain ⟨hdigits, hexponent⟩ :=
    mul_zpow_inj s.mod_ten_ne_zero t.mod_ten_ne_zero (mul_left_cancel₀ hsign h)
  have hdigits' : s.digits = t.digits := by
    rw [← s.digits_decimal, ← t.digits_decimal]
    exact congrArg (Nat.toDigits 10) hdigits
  refine Scientific.ext hnegative hdigits' ?_
  rw [hdigits'] at hexponent
  omega

theorem text_inj {s t : Scientific} (h : s.text = t.text) : s = t := by
  obtain ⟨n, hn, hs⟩ := s.exists_numeral
  obtain ⟨m, hm, ht⟩ := t.exists_numeral
  obtain rfl := Numeral.text_inj (hn.trans (h ▸ hm.symm))
  exact value_inj (hs.value_eq.symm.trans ht.value_eq)

end Scientific

end AccessRules
