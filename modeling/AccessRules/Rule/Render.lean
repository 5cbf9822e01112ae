import AccessRules.Rule.Basic

/-!
# The text of rules

`Rule.render` writes a condition, and `Rule.renderAll` a list of conditions that must all hold. A
list of two or more is put between parentheses and a list of one is not, both at the top and in
the slots of `or` and `and`.
-/

namespace AccessRules

namespace Rule

/-- The text of conditions that must all hold, from the text of each. -/
def conjoin (texts : List String) : String :=
  let joined := " && ".intercalate texts
  if 1 < texts.length then "(" ++ joined ++ ")" else joined

end Rule

mutual
/-- The text of an operand. A rule stands for itself, without parentheses. -/
def Operand.render : Operand → String
  | .text s => s
  | .rule r => r.render

/-- The text of a condition. -/
def Rule.render : Rule → String
  | .bool b => renderBool b
  | .null => "null"
  | .binary op left right => left.render ++ " " ++ op.symbol ++ " " ++ right.render
  | .within container item => item.render ++ " in " ++ container
  | .is value type => value ++ " is " ++ type.name
  | .not x => "!(" ++ x.render ++ ")"
  | .or slots => "(" ++ " || ".intercalate (Rule.renderSlots slots) ++ ")"
  | .and slots => "(" ++ " && ".intercalate (Rule.renderSlots slots) ++ ")"
  | .literal v => v.render

/-- The texts of the rules of a list. -/
def Rule.renderEach : List Rule → List String
  | [] => []
  | r :: rs => r.render :: Rule.renderEach rs

/-- The texts of slots. -/
def Rule.renderSlots : List (List Rule) → List String
  | [] => []
  | slot :: slots => Rule.conjoin (Rule.renderEach slot) :: Rule.renderSlots slots
end

theorem Operand.render_ofValue (v : Value) : (Operand.ofValue v).render = v.render := by
  cases v <;> simp [Operand.ofValue, Operand.render, Rule.render, Value.render]

theorem Rule.render_ofValue (v : Value) : (Rule.ofValue v).render = v.render := by
  cases v <;> simp [Rule.ofValue, Rule.render, Value.render]

namespace Rule

/-- The text of conditions that must all hold. -/
def renderAll (rules : List Rule) : String :=
  conjoin (rules.map render)

theorem renderEach_eq_map (rules : List Rule) : renderEach rules = rules.map render := by
  induction rules with
  | nil => rfl
  | cons r rs ih => rw [renderEach, ih, List.map_cons]

theorem renderSlots_eq_map (slots : List (List Rule)) : renderSlots slots = slots.map renderAll := by
  induction slots with
  | nil => rfl
  | cons slot slots ih => rw [renderSlots, ih, List.map_cons, renderAll, renderEach_eq_map]

end Rule

mutual
/-- The values that stand in the place of a condition below an operand. -/
def Operand.literals : Operand → List Value
  | .text _ => []
  | .rule r => r.literals

/-- The values that stand in the place of a condition, in the order in which they are written. -/
def Rule.literals : Rule → List Value
  | .bool _ => []
  | .null => []
  | .binary _ left right => left.literals ++ right.literals
  | .within _ item => item.literals
  | .is _ _ => []
  | .not x => x.literals
  | .or slots => Rule.literalsOfSlots slots
  | .and slots => Rule.literalsOfSlots slots
  | .literal v => [v]

/-- The values that stand in the place of a condition in a list of rules. -/
def Rule.literalsOfEach : List Rule → List Value
  | [] => []
  | r :: rs => r.literals ++ Rule.literalsOfEach rs

/-- The values that stand in the place of a condition in slots. -/
def Rule.literalsOfSlots : List (List Rule) → List Value
  | [] => []
  | slot :: slots => Rule.literalsOfEach slot ++ Rule.literalsOfSlots slots
end

end AccessRules
