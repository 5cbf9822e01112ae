import AccessRules.Document.Basic
import AccessRules.Proofs.Value.Equality

/-! Equality of rules, rule sets and documents. What is equal is written alike, although equality
compares the numbers inside as numbers and not as they stand (`Document.texts_eq_of_beq`). The induction
on rules is that of their equality, with all kinds of lists together (`Rule.render_eq_of_equal_all`);
each level above follows from the one below it. -/

namespace AccessRules

theorem Rule.render_eq_of_equal_all :
    (∀ x y : Operand, x.equal y → x.render = y.render) ∧
      (∀ r s : Rule, r.equal s → r.render = s.render) ∧
      (∀ as bs, equalSlots as bs → renderSlots as = renderSlots bs) ∧
      ∀ rs ss, equalList rs ss → renderEach rs = renderEach ss := by
  refine Operand.equal.mutual_induct _ _ _ _ ?text ?nested ?otherOperands ?bool ?null ?binary ?within
    ?is ?not ?or ?and ?literal ?otherRules ?noSlots ?slots ?otherSlots ?noRules ?rules ?otherLists
  case text =>
    intro s t h
    rw [Operand.equal] at h
    rw [eq_of_beq h]
  case nested =>
    intro r s ih h
    rw [Operand.equal] at h
    exact ih h
  case bool =>
    intro b c h
    rw [equal] at h
    rw [eq_of_beq h]
  case null => exact fun _ => rfl
  case binary =>
    intro op left right op' left' right' ihleft ihright h
    simp only [equal, Bool.and_eq_true] at h
    obtain ⟨⟨hop, hleft⟩, hright⟩ := h
    rw [render, render, eq_of_beq hop, ihleft hleft, ihright hright]
  case within =>
    intro container item container' item' ih h
    simp only [equal, Bool.and_eq_true] at h
    rw [render, render, eq_of_beq h.1, ih h.2]
  case is =>
    intro value type value' type' h
    simp only [equal, Bool.and_eq_true] at h
    rw [eq_of_beq h.1, eq_of_beq h.2]
  case not =>
    intro x y ih h
    rw [equal] at h
    rw [render, render, ih h]
  case or | and =>
    intro as bs ih h
    rw [equal] at h
    rw [render, render, ih h]
  case literal =>
    intro v w h
    rw [equal] at h
    exact Value.render_eq_of_equal h
  case noSlots | noRules => exact fun _ => rfl
  case slots =>
    intro a as b bs ih ihs h
    simp only [equalSlots, Bool.and_eq_true] at h
    rw [renderSlots, renderSlots, ih h.1, ihs h.2]
  case rules =>
    intro r rs s ss ih ihs h
    simp only [equalList, Bool.and_eq_true] at h
    rw [renderEach, renderEach, ih h.1, ihs h.2]
  -- Two different constructors are never equal.
  case otherOperands =>
    intros
    simp_all only [Operand.equal, Bool.false_eq_true]
  case otherRules =>
    intros
    simp_all only [equal, Bool.false_eq_true]
  case otherSlots =>
    intros
    simp_all only [equalSlots, Bool.false_eq_true]
  case otherLists =>
    intros
    simp_all only [equalList, Bool.false_eq_true]

theorem Rule.renderAll_eq_of_equalList {rs ss : List Rule} (h : equalList rs ss) :
    renderAll rs = renderAll ss := by
  rw [renderAll, renderAll, ← renderEach_eq_map, ← renderEach_eq_map,
    render_eq_of_equal_all.2.2.2 rs ss h]

namespace CollectionRules

theorem allowances_eq_of_equalEntries {es fs : List (String × List Rule)}
    (h : RuleSet.equalEntries es fs) :
    es.map (fun e => "  " ++ allowance e.1 e.2) = fs.map fun e => "  " ++ allowance e.1 e.2 := by
  fun_induction RuleSet.equalEntries es fs with
  | case1 => rfl
  | case2 k rs es l ss fs ih =>
    simp only [Bool.and_eq_true] at h
    obtain ⟨⟨hkey, hrules⟩, hes⟩ := h
    rw [List.map_cons, List.map_cons, ih hes, allowance, allowance, eq_of_beq hkey,
      Rule.renderAll_eq_of_equalList hrules]
  | case3 => cases h

theorem render_eq_of_beq {c d : CollectionRules} (h : c == d) : c.render = d.render := by
  obtain ⟨hpath, hrules⟩ := Bool.and_eq_true_iff.mp h
  rw [render, render, eq_of_beq hpath, allowances_eq_of_equalEntries hrules]

end CollectionRules

namespace Document

theorem blocks_eq_of_beq {cs ds : List CollectionRules} (h : cs == ds) :
    cs.map (fun c => Indentation.indent 2 c.render) = ds.map fun c => Indentation.indent 2 c.render := by
  induction cs generalizing ds with
  | nil =>
    cases ds with
    | nil => rfl
    | cons d ds => cases h
  | cons c cs ih =>
    cases ds with
    | nil => cases h
    | cons d ds =>
      rw [List.cons_beq_cons, Bool.and_eq_true] at h
      rw [List.map_cons, List.map_cons, CollectionRules.render_eq_of_beq h.1, ih h.2]

theorem render_eq_of_beq {d e : Document} (h : d == e) : d.render = e.render := by
  obtain ⟨hservice, hcollections⟩ := Bool.and_eq_true_iff.mp h
  rw [← String.toList_inj, toList_render, toList_render, eq_of_beq hservice, renderBlocks, renderBlocks,
    blocks_eq_of_beq hcollections]

/-- Equality of numbers is that of what they denote, and a NaN is equal to nothing. What is equal by it
throughout has the same text, whether it is a value, a rule, the rules of a collection or a document. -/
theorem texts_eq_of_beq :
    (∀ x y : Binary64, x.isFinite → y.isFinite → (x == y ↔ x.value = y.value)) ∧
      (∀ x y : Binary64, x.isNaN → ¬x == y ∧ ¬y == x) ∧
      (∀ v w : Value, v == w → v.render = w.render) ∧
      (∀ r s : Rule, r == s → r.render = s.render) ∧
      (∀ c d : CollectionRules, c == d → c.render = d.render) ∧
      ∀ d e : Document, d == e → d.render = e.render := by
  refine ⟨fun x y => Binary64.beq_iff_value_eq, fun x y hnan => ⟨fun h => ?_, fun h => ?_⟩,
    fun v w => Value.render_eq_of_equal, Rule.render_eq_of_equal_all.2.1,
    fun c d => CollectionRules.render_eq_of_beq, fun d e => render_eq_of_beq⟩
  · exact (Binary64.beq_iff.mp h).1 hnan
  · exact (Binary64.beq_iff.mp h).2.1 hnan

/-- The two zeros inside of a map inside of a condition, with a condition on a NaN beside it. -/
theorem texts_eq_of_beq_zeros :
    let plus : Binary64 := ⟨0⟩
    let minus : Binary64 := ⟨0x8000000000000000⟩
    let nan : Binary64 := ⟨0x7ff8000000000000⟩
    let zeros (x : Binary64) : Rule := .not (.rule (.or [[.literal (.map [("k", .list [.float x])])], []]))
    let document (x : Binary64) : Document := .ofCollections [⟨"notes", ⟨[("read", [zeros x])]⟩⟩]
    plus.value = minus.value ∧ (¬nan == nan) ∧ (document plus == document minus) ∧
      (document plus).render = (document minus).render := by
  intro plus minus nan zeros document
  have hbeq : document plus == document minus := by cbv
  obtain ⟨hvalue, hnan, -, -, -, htext⟩ := texts_eq_of_beq
  refine ⟨(hvalue plus minus ?_ ?_).mp ?_, (hnan nan nan ?_).1, hbeq, htext _ _ hbeq⟩ <;> decide

end Document

end AccessRules
