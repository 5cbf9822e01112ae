import AccessRules.Rule.Render
import AccessRules.Proofs.Value.Structure

/-! Induction over operands and rules together, with a hypothesis for every rule of every slot, and
the numbers that stand anywhere inside of them. -/

namespace AccessRules

theorem Rule.ind {operand : Operand → Prop} {rule : Rule → Prop}
    (text : ∀ s, operand (.text s)) (nested : ∀ r, rule r → operand (.rule r))
    (bool : ∀ b, rule (.bool b)) (null : rule .null)
    (binary : ∀ op left right, operand left → operand right → rule (.binary op left right))
    (within : ∀ container item, operand item → rule (.within container item))
    (is : ∀ value type, rule (.is value type)) (not : ∀ x, operand x → rule (.not x))
    (or : ∀ slots, (∀ slot ∈ slots, ∀ r ∈ slot, rule r) → rule (.or slots))
    (and : ∀ slots, (∀ slot ∈ slots, ∀ r ∈ slot, rule r) → rule (.and slots))
    (literal : ∀ v, rule (.literal v)) : (∀ x, operand x) ∧ ∀ r, rule r := by
  have hrule : ∀ r, rule r := by
    intro r
    refine @Rule.rec operand rule (fun slots => ∀ slot ∈ slots, ∀ r ∈ slot, rule r)
      (fun rs => ∀ r ∈ rs, rule r) text nested bool null binary within is not or and literal
      ?_ ?_ ?_ ?_ r
    · exact fun slot h => nomatch h
    · exact fun slot slots hslot hslots => List.forall_mem_cons.mpr ⟨hslot, hslots⟩
    · exact fun r h => nomatch h
    · exact fun r rs hr hrs => List.forall_mem_cons.mpr ⟨hr, hrs⟩
  refine ⟨fun x => ?_, hrule⟩
  cases x with
  | text s => exact text s
  | rule r => exact nested r (hrule r)

theorem Rule.literalsOfEach_eq_flatMap (rs : List Rule) :
    literalsOfEach rs = rs.flatMap literals := by
  induction rs with
  | nil => rfl
  | cons r rs ih => rw [literalsOfEach, ih, List.flatMap_cons]

theorem Rule.literalsOfSlots_eq_flatMap (slots : List (List Rule)) :
    literalsOfSlots slots = slots.flatMap fun slot => slot.flatMap literals := by
  induction slots with
  | nil => rfl
  | cons slot slots ih =>
    rw [literalsOfSlots, ih, List.flatMap_cons, literalsOfEach_eq_flatMap]

/-- The numbers inside the literals below an operand. -/
def Operand.floats (x : Operand) : List Binary64 :=
  x.literals.flatMap Value.floats

/-- The numbers inside the literals of a rule. -/
def Rule.floats (r : Rule) : List Binary64 :=
  r.literals.flatMap Value.floats

namespace Rule

@[simp] theorem floats_binary : (binary op left right).floats = left.floats ++ right.floats :=
  List.flatMap_append

@[simp] theorem floats_within : (within container item).floats = item.floats := rfl

@[simp] theorem floats_not : (Rule.not x).floats = x.floats := rfl

@[simp] theorem floats_or (slots : List (List Rule)) :
    (or slots).floats = slots.flatMap fun slot => slot.flatMap floats := by
  simp only [floats, literals, literalsOfSlots_eq_flatMap, List.flatMap_assoc]
  rfl

@[simp] theorem floats_and (slots : List (List Rule)) :
    (and slots).floats = slots.flatMap fun slot => slot.flatMap floats :=
  floats_or slots

@[simp] theorem floats_literal (v : Value) : (literal v).floats = v.floats := by
  simp [floats, literals]

end Rule

end AccessRules
