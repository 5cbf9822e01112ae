import AccessRules.Handle.Root
import AccessRules.Rule.Build
import AccessRules.Rule.Render
import AccessRules.Proofs.Lexical.Code

/-! Bytes in comparisons. The text of bytes is written as it stands, so a quote in it is no other than
the one that closes it, and what follows may be read as the sign and the bytes on the other side. Two
comparisons are written alike just if they are the same or the bytes on the left run past their quote
in one of them (`Rule.render_eqBytes_iff`); this takes a quote in front of ` == b` in the bytes on a
left side. -/

namespace AccessRules

/-- Where a mark starts with what it does not hold again, texts around it are the same as others around
it just if their parts are, or the mark stands in the first part of one of them as well. -/
theorem append_mark_eq_iff {α : Type} {a : α} {mark t t' u u' : List α} (ha : a ∉ mark) :
    t ++ (a :: mark ++ u) = t' ++ (a :: mark ++ u') ↔
      (t = t' ∧ u = u') ∨ (∃ w, t' = t ++ (a :: mark ++ w) ∧ u = w ++ (a :: mark ++ u')) ∨
        ∃ w, t = t' ++ (a :: mark ++ w) ∧ u' = w ++ (a :: mark ++ u) := by
  -- what one text holds between its start and that of the other mark begins with a mark of its own
  have hmark : ∀ {v u u' : List α}, v ≠ [] → a :: mark ++ u = v ++ (a :: mark ++ u') →
      ∃ w, v = a :: mark ++ w ∧ u = w ++ (a :: mark ++ u') := by
    intro v u u' hv h
    obtain ⟨b, v, rfl⟩ := List.exists_cons_of_ne_nil hv
    obtain ⟨rfl, htail⟩ := List.cons.inj h
    rcases List.append_eq_append_iff.mp htail with ⟨w, rfl, rfl⟩ | ⟨w, hw, hu⟩
    · exact ⟨w, rfl, rfl⟩
    · cases w with
      | nil =>
        rw [List.append_nil] at hw
        exact ⟨[], by rw [hw, List.append_nil], hu.symm⟩
      | cons c w =>
        obtain ⟨rfl, -⟩ := List.cons.inj hu
        exact absurd (hw ▸ List.mem_append_right v List.mem_cons_self) ha
  constructor
  · intro h
    rcases List.append_eq_append_iff.mp h with ⟨v, rfl, hu⟩ | ⟨v, rfl, hu⟩
    · by_cases hv : v = []
      · subst hv
        exact .inl ⟨(List.append_nil t).symm, List.append_cancel_left hu⟩
      · obtain ⟨w, rfl, rfl⟩ := hmark hv hu
        exact .inr (.inl ⟨w, rfl, rfl⟩)
    · by_cases hv : v = []
      · subst hv
        exact .inl ⟨List.append_nil t', (List.append_cancel_left hu).symm⟩
      · obtain ⟨w, rfl, rfl⟩ := hmark hv hu
        exact .inr (.inr ⟨w, rfl, rfl⟩)
  · rintro (⟨rfl, rfl⟩ | ⟨w, rfl, rfl⟩ | ⟨w, rfl, rfl⟩)
    · rfl
    · simp only [List.append_assoc]
    · simp only [List.append_assoc]

namespace Rule

/-- Whether the bytes of two texts are the same. -/
def eqBytes (left right : String) : Rule :=
  .eq (Handle.bytes left).operand (Handle.bytes right).operand

/-- The quote that closes the bytes on the left, and what stands between it and the quote that opens
those on the right. -/
def bytesMark : String := "' == b"

/-- Whether bytes on the left go on where others on the left are closed, up to a later quote. -/
def RunsPast (left right left' right' : String) : Prop :=
  ∃ w : String, left' = left ++ bytesMark ++ w ∧ "'" ++ right = w ++ bytesMark ++ "'" ++ right'

theorem toList_render_eqBytes (left right : String) : (eqBytes left right).render.toList =
    "b'".toList ++ (left.toList ++ (bytesMark.toList ++ ("'" ++ right).toList)) ++ "'".toList := by
  simp [eqBytes, eq, render, Operand.render, Operator.symbol, Handle.operand, Handle.bytes,
    Handle.ofText, bytesMark]

theorem runsPast_iff : RunsPast left right left' right' ↔
    ∃ w : List Char, left'.toList = left.toList ++ (bytesMark.toList ++ w) ∧
      ("'" ++ right).toList = w ++ (bytesMark.toList ++ ("'" ++ right').toList) := by
  constructor
  · rintro ⟨w, hleft, hright⟩
    exact ⟨w.toList, by simp [hleft], by simp [hright]⟩
  · rintro ⟨w, hleft, hright⟩
    refine ⟨String.ofList w, String.toList_inj.mp ?_, String.toList_inj.mp ?_⟩
    · simp [hleft]
    · simp only [hright, String.toList_append, String.toList_ofList, List.append_assoc]

/-- Comparisons of bytes are written alike just if they are the same or the bytes on the left run past
their quote in one of them. -/
theorem render_eqBytes_iff (left right left' right' : String) :
    (eqBytes left right).render = (eqBytes left' right').render ↔
      (left = left' ∧ right = right') ∨ RunsPast left right left' right' ∨
        RunsPast left' right' left right := by
  have hquote : ("'" ++ right).toList = ("'" ++ right').toList ↔ right = right' := by
    simp [String.toList_inj]
  rw [← String.toList_inj, toList_render_eqBytes, toList_render_eqBytes, List.append_cancel_right_eq,
    List.append_cancel_left_eq, runsPast_iff, runsPast_iff, ← hquote, ← @String.toList_inj left]
  exact append_mark_eq_iff (by decide)

/-- Bytes that hold no quote in front of the sign do not run past the one that closes them. -/
theorem not_runsPast (h : ¬bytesMark.toList <:+: left'.toList) :
    ¬RunsPast left right left' right' := by
  rintro ⟨w, rfl, -⟩
  exact h ⟨left.toList, w.toList, by simp⟩

/-- Two comparisons of bytes are written alike just if they are the same or the bytes on a left side run
past their quote. So the text settles both sides if no left side holds a quote in front of the sign,
whatever else stands in the bytes. -/
theorem eq_of_render_eqBytes (left right left' right' : String) :
    ((eqBytes left right).render = (eqBytes left' right').render ↔
      (left = left' ∧ right = right') ∨ RunsPast left right left' right' ∨
        RunsPast left' right' left right) ∧
    (¬bytesMark.toList <:+: left.toList → ¬bytesMark.toList <:+: left'.toList →
      (eqBytes left right).render = (eqBytes left' right').render → left = left' ∧ right = right') := by
  refine ⟨render_eqBytes_iff left right left' right', fun h h' heq => ?_⟩
  rcases (render_eqBytes_iff left right left' right').mp heq with hsame | hpast | hpast
  · exact hsame
  · exact absurd hpast (not_runsPast h')
  · exact absurd hpast (not_runsPast h)

/-- Quotes on the left that are not in front of the sign, and any on the right. -/
theorem eq_of_render_eqBytes_quotes :
    ¬bytesMark.toList <:+: "it's 'b' ==".toList ∧ ¬bytesMark.toList <:+: "it".toList ∧
      (eqBytes "it's 'b' ==" "' == b'").render ≠ (eqBytes "it" "s 'b' ==' == b'' == b'").render := by
  have h : ¬bytesMark.toList <:+: "it's 'b' ==".toList := by decide +kernel
  have h' : ¬bytesMark.toList <:+: "it".toList := by decide
  refine ⟨h, h', fun heq => ?_⟩
  obtain ⟨hleft, -⟩ := (eq_of_render_eqBytes "it's 'b' ==" _ "it" _).2 h h' heq
  exact absurd hleft (by decide)

/-- Bytes with a quote in front of the sign are written like others that stop there. -/
theorem render_eqBytes_eq_of_quote :
    (eqBytes "a' == b'b" "c").render = "b'a' == b'b' == b'c'" ∧
      (eqBytes "a" "b' == b'c").render = (eqBytes "a' == b'b" "c").render ∧
      "a" ≠ "a' == b'b" ∧ "b' == b'c" ≠ "c" := by
  refine ⟨by decide, ?_, by decide, by decide⟩
  exact (render_eqBytes_iff _ _ _ _).mpr (.inr (.inl ⟨"'b", by decide, by decide⟩))

end Rule

end AccessRules
