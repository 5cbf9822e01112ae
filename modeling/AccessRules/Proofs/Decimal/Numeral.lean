import Mathlib.Algebra.Order.Field.Rat
import AccessRules.Proofs.Lexical.Code
import AccessRules.Proofs.Lexical.Digits

/-! Numerals: numbers as JSON writes them, and the rational numbers that they denote. A text spells at
most one numeral (`Numeral.text_inj`), so what a numeral denotes is said of its text. -/

namespace AccessRules

/-- The power of ten of a numeral, as it is written. -/
@[ext]
structure Numeral.Exponent where
  marker : Char
  sign : List Char
  digits : List Char
  marker_mem : marker ∈ ['e', 'E']
  sign_mem : sign ∈ [[], ['+'], ['-']]
  ne_nil : digits ≠ []
  isDigit : ∀ c ∈ digits, c.isDigit

/-- A number as JSON writes it. The point is written if digits stand behind it. -/
@[ext]
structure Numeral where
  negative : Bool
  whole : List Char
  fraction : List Char
  exponent : Option Numeral.Exponent
  whole_ne_nil : whole ≠ []
  isDigit_whole : ∀ c ∈ whole, c.isDigit
  /-- No superfluous zero stands in front. -/
  not_padded : ¬IsPadded whole
  isDigit_fraction : ∀ c ∈ fraction, c.isDigit

namespace Numeral

def Exponent.text (e : Exponent) : List Char :=
  e.marker :: (e.sign ++ e.digits)

def Exponent.value (e : Exponent) : Int :=
  (if e.sign = ['-'] then -1 else 1) * (Nat.ofDigitChars 10 e.digits 0 : Nat)

def sign (negative : Bool) : List Char :=
  if negative then ['-'] else []

def fractionText (fraction : List Char) : List Char :=
  if fraction = [] then [] else '.' :: fraction

def exponentText (exponent : Option Exponent) : List Char :=
  exponent.elim [] Exponent.text

def text (n : Numeral) : List Char :=
  sign n.negative ++ (n.whole ++ (fractionText n.fraction ++ exponentText n.exponent))

/-- The number that a numeral denotes. -/
def value (n : Numeral) : ℚ :=
  (if n.negative then -1 else 1) * (Nat.ofDigitChars 10 (n.whole ++ n.fraction) 0 : ℕ) *
    10 ^ (n.exponent.elim 0 Exponent.value - n.fraction.length)

/-! ## One reading -/

section
variable {s s' t t' u : List Char}

/-- A sign ends where a digit follows. -/
theorem sign_append_inj (hs : s ∈ [[], ['+'], ['-']]) (hs' : s' ∈ [[], ['+'], ['-']])
    (ht : ∀ c ∈ t.head?, c.isDigit) (ht' : ∀ c ∈ t'.head?, c.isDigit) (h : s ++ t = s' ++ t') :
    s = s' ∧ t = t' := by
  have hsign : ∀ s ∈ [[], ['+'], ['-']], ∀ c ∈ s, !c.isDigit := by simp
  exact span_inj (p := fun c => !c.isDigit) (hsign s hs) (hsign s' hs')
    (fun c hc => by simp [ht c hc]) (fun c hc => by simp [ht' c hc]) h

theorem isDigit_head (ht : ∀ c ∈ t, c.isDigit) (hne : t ≠ []) : ∀ c ∈ (t ++ u).head?, c.isDigit := by
  obtain ⟨c, cs, rfl⟩ := List.exists_cons_of_ne_nil hne
  rintro d ⟨rfl⟩
  exact ht c List.mem_cons_self

end

theorem sign_mem (negative : Bool) : sign negative ∈ [[], ['+'], ['-']] := by
  cases negative <;> decide

theorem head_exponentText (e : Option Exponent) :
    ∀ c ∈ (exponentText e).head?, c.isDigit = false ∧ c ≠ '.' := by
  cases e with
  | none => nofun
  | some e =>
    have hmarker : ∀ c ∈ ['e', 'E'], c.isDigit = false ∧ c ≠ '.' := by simp
    rintro c ⟨rfl⟩
    exact hmarker _ e.marker_mem

theorem head_fractionText (f : List Char) (e : Option Exponent) :
    ∀ c ∈ (fractionText f ++ exponentText e).head?, c.isDigit = false := by
  unfold fractionText
  split
  · exact fun c hc => (head_exponentText e c hc).1
  · exact stop_cons rfl _

theorem Exponent.text_inj {e e' : Exponent} (h : e.text = e'.text) : e = e' := by
  obtain ⟨hmarker, htail⟩ := List.cons.inj h
  have hhead : ∀ e : Exponent, ∀ c ∈ e.digits.head?, c.isDigit :=
    fun e c hc => e.isDigit c (List.mem_of_mem_head? hc)
  obtain ⟨hsign, hdigits⟩ := sign_append_inj e.sign_mem e'.sign_mem (hhead e) (hhead e') htail
  exact Exponent.ext hmarker hsign hdigits

theorem exponentText_inj {e e' : Option Exponent} (h : exponentText e = exponentText e') : e = e' := by
  cases e <;> cases e'
  · rfl
  · cases h
  · cases h
  · exact congrArg some (Exponent.text_inj h)

theorem fractionText_inj {f f' : List Char} {e e' : Option Exponent} (hf : ∀ c ∈ f, c.isDigit)
    (hf' : ∀ c ∈ f', c.isDigit)
    (h : fractionText f ++ exponentText e = fractionText f' ++ exponentText e') : f = f' ∧ e = e' := by
  have hpoint : ∀ (e : Option Exponent) (t : List Char), exponentText e ≠ '.' :: t := by
    intro e t he
    exact (head_exponentText e '.' (by rw [he]; rfl)).2 rfl
  unfold fractionText at h
  split at h <;> split at h <;> rename_i hnil hnil'
  · exact ⟨hnil.trans hnil'.symm, exponentText_inj h⟩
  · exact absurd h (hpoint e _)
  · exact absurd h.symm (hpoint e' _)
  · obtain ⟨hdigits, hexponent⟩ := span_inj hf hf' (fun c hc => (head_exponentText e c hc).1)
      (fun c hc => (head_exponentText e' c hc).1) (List.cons.inj h).2
    exact ⟨hdigits, exponentText_inj hexponent⟩

theorem text_inj {n n' : Numeral} (h : n.text = n'.text) : n = n' := by
  obtain ⟨hsign, hrest⟩ := sign_append_inj (sign_mem _) (sign_mem _)
    (isDigit_head n.isDigit_whole n.whole_ne_nil) (isDigit_head n'.isDigit_whole n'.whole_ne_nil) h
  obtain ⟨hwhole, htail⟩ := span_inj n.isDigit_whole n'.isDigit_whole (head_fractionText _ _)
    (head_fractionText _ _) hrest
  obtain ⟨hfraction, hexponent⟩ := fractionText_inj n.isDigit_fraction n'.isDigit_fraction htail
  have hnegative : n.negative = n'.negative := by
    cases hn : n.negative <;> cases hn' : n'.negative <;> simp_all [sign]
  exact Numeral.ext hnegative hwhole hfraction hexponent

end Numeral

end AccessRules
