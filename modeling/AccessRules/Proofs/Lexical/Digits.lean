/-! Decimal digits. Digits are those that their number is written with just if they are not padded with
zeros (`toDigits_ofDigitChars_eq_iff`). -/

namespace AccessRules

theorem exists_digitChar (h : c.isDigit) : ∃ n < 10, Nat.digitChar n = c := by
  obtain ⟨hl, hu⟩ := Char.isDigit_iff_toNat.mp h
  have hlt : c.toNat - 48 < 10 := by
    change c.toNat ≤ 57 at hu
    omega
  refine ⟨c.toNat - 48, hlt, Char.toNat_inj.mp ?_⟩
  change 48 ≤ c.toNat at hl
  rw [Nat.toNat_digitChar_of_lt_ten hlt]
  omega

/-- Digits behind a number that is not zero are the digits that are written behind its own. -/
theorem toDigits_ofDigitChars (hn : 0 < n) (hd : ∀ c ∈ digits, c.isDigit) :
    Nat.toDigits 10 (Nat.ofDigitChars 10 digits n) = Nat.toDigits 10 n ++ digits := by
  induction digits generalizing n with
  | nil => simp
  | cons c cs ih =>
    obtain ⟨d, hlt, rfl⟩ := exists_digitChar (hd c List.mem_cons_self)
    rw [Nat.ofDigitChars_cons_digitChar_of_lt_ten hlt,
      ih (by omega) fun c hc => hd c (List.mem_cons_of_mem _ hc),
      ← Nat.toDigits_append_toDigits (by decide) hn hlt, Nat.toDigits_of_lt_base hlt,
      List.append_assoc, List.singleton_append]

/-- Digits with a zero in front of others. -/
def IsPadded (digits : List Char) : Prop :=
  ∃ c cs, digits = '0' :: c :: cs

theorem not_isPadded_of_head (h : digits.head? ≠ some '0') : ¬IsPadded digits := by
  rintro ⟨c, cs, rfl⟩
  exact h rfl

theorem head?_toDigits (hn : 0 < n) : (Nat.toDigits 10 n).head? ≠ some '0' := by
  induction n using Nat.strongRecOn with
  | ind n ih =>
    rcases Nat.lt_or_ge n 10 with hlt | hge
    · have hdigit : ∀ d < 10, 0 < d → Nat.digitChar d ≠ '0' := by decide
      rw [Nat.toDigits_of_lt_base hlt]
      exact fun h => hdigit n hlt hn (Option.some.inj h)
    · have hhead := ih (n / 10) (by omega) (by omega)
      obtain ⟨c, cs, hcons⟩ := List.exists_cons_of_ne_nil (@Nat.toDigits_ne_nil (n / 10) 10)
      rw [hcons] at hhead
      rw [Nat.toDigits_of_base_le (by decide) hge, hcons]
      exact hhead

theorem not_isPadded_toDigits (n : Nat) : ¬IsPadded (Nat.toDigits 10 n) := by
  obtain rfl | hn := n.eq_zero_or_pos
  · rintro ⟨c, cs, h⟩
    cases h
  · exact not_isPadded_of_head (head?_toDigits hn)

/-- The digits of a number end with a zero just if the number is a multiple of ten. -/
theorem getLast?_toDigits_eq_zero_iff :
    (Nat.toDigits 10 n).getLast? = some '0' ↔ n % 10 = 0 := by
  have hlast : (Nat.toDigits 10 n).getLast? = some (Nat.digitChar (n % 10)) := by
    rcases Nat.lt_or_ge n 10 with hlt | hge
    · rw [Nat.toDigits_of_lt_base hlt, Nat.mod_eq_of_lt hlt]
      rfl
    · rw [Nat.toDigits_of_base_le (by decide) hge, List.getLast?_concat]
  have hdigit : ∀ d < 10, Nat.digitChar d = '0' ↔ d = 0 := by decide
  rw [hlast, Option.some_inj]
  exact hdigit _ (Nat.mod_lt _ (by decide))

theorem toDigits_ofDigitChars_eq_iff (hne : digits ≠ []) (hd : ∀ c ∈ digits, c.isDigit) :
    Nat.toDigits 10 (Nat.ofDigitChars 10 digits 0) = digits ↔ ¬IsPadded digits := by
  refine ⟨fun h => h ▸ not_isPadded_toDigits _, fun h => ?_⟩
  obtain ⟨c, cs, rfl⟩ := List.exists_cons_of_ne_nil hne
  obtain ⟨hc, hcs⟩ := List.forall_mem_cons.mp hd
  obtain ⟨d, hlt, rfl⟩ := exists_digitChar hc
  rw [Nat.ofDigitChars_cons_digitChar_of_lt_ten hlt, Nat.mul_zero, Nat.zero_add]
  cases d with
  | zero =>
    cases cs with
    | nil => rfl
    | cons c cs => exact absurd ⟨c, cs, rfl⟩ h
  | succ d =>
    rw [toDigits_ofDigitChars d.succ_pos hcs, Nat.toDigits_of_lt_base hlt, List.singleton_append]

end AccessRules
