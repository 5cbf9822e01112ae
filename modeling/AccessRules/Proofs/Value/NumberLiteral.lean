import AccessRules.Proofs.Decimal.Checked
import AccessRules.Proofs.Decimal.Shortest

/-! Number literals. The literal of a number is a numeral that denotes just it, machine arithmetic is
enough to write it, and no two numbers share it (`Value.render_float`). -/

namespace AccessRules.Value

theorem render_float_iff (s : Scientific) {x : Binary64} (hfinite : x.isFinite)
    (hzero : ¬x.isZero) : render (.float x) = s.text ↔ x.shortest = s.decimal := by
  have hrender : render (.float x) = x.shortest.text numberLayout := by
    rw [render, Binary64.render, if_neg (by simp [hfinite]), if_neg hzero]
  obtain ⟨t, ht⟩ := Binary64.exists_shortest_eq hzero
  rw [hrender, ht]
  refine ⟨fun h => ?_, congrArg (Decimal.text numberLayout)⟩
  rw [Scientific.text_inj h]

/-- Machine arithmetic writes the digits of a number with none of its steps failing. The text is that of
one numeral, which denotes the number, and it is the text of no other number; so a number in binary is
written this way just if these are its shortest digits. -/
theorem render_float (s : Scientific) (hlength : s.digits.length < 2 ^ 30)
    (hexponent : s.exponent.natAbs < 2 ^ 30) :
    (Decimal.Checked.magnitude? numberLayout s.digits s.exponent).map
        (Numeral.sign s.negative ++ ·) = some s.text.toList ∧
      (∃ n : Numeral, (∀ m : Numeral, m.text = s.text.toList ↔ m = n) ∧ n.Writes s) ∧
      (∀ t : Scientific, t.text = s.text → t = s) ∧
      ∀ x : Binary64, x.isFinite → ¬x.isZero →
        (render (.float x) = s.text ↔ x.shortest = s.decimal) := by
  obtain ⟨n, htext, hwrites⟩ := s.exists_numeral
  refine ⟨?_, ⟨n, fun m => ?_, hwrites⟩, fun t => Scientific.text_inj, fun x => render_float_iff s⟩
  · rw [Decimal.Checked.magnitude?_eq s.ne_nil hlength hexponent, s.toList_text]
    rfl
  · rw [← htext]
    exact ⟨Numeral.text_inj, congrArg Numeral.text⟩

theorem render_float_small : ∃ s : Scientific, (s.negative ∧ s.digits = ['1', '2'] ∧ s.exponent = -7) ∧
    s.digits.length < 2 ^ 30 ∧ s.exponent.natAbs < 2 ^ 30 ∧ s.text = "-1.2e-7" ∧
      (Decimal.Checked.magnitude? numberLayout ['1', '2'] (-7)).map (['-'] ++ ·) =
        some "-1.2e-7".toList ∧
      ∀ t : Scientific, t.text = "-1.2e-7" → t = s := by
  let s : Scientific := ⟨true, ['1', '2'], -7, by simp, by simp, by simp, by simp⟩
  have htext : s.text = "-1.2e-7" := by decide
  obtain ⟨hchecked, _, hunique, _⟩ := render_float s (by decide) (by decide)
  rw [htext] at hchecked hunique
  exact ⟨s, ⟨rfl, rfl, rfl⟩, by decide, by decide, htext, hchecked, hunique⟩

end AccessRules.Value
