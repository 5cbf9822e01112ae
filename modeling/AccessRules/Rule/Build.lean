import AccessRules.Rule.Basic

/-!
# Building rules

The combinators that rules are written with. Values turn into operands by themselves, and a slot
of `or` and `and` is a list of rules.
-/

namespace AccessRules.Rule

def eq (a b : Operand) : Rule := .binary .eq a b
def ne (a b : Operand) : Rule := .binary .ne a b
def lt (a b : Operand) : Rule := .binary .lt a b
def le (a b : Operand) : Rule := .binary .le a b
def gt (a b : Operand) : Rule := .binary .gt a b
def ge (a b : Operand) : Rule := .binary .ge a b

/-- A sum, to be used as an operand. -/
def add (a b : Operand) : Rule := .binary .add a b

/-- A difference, to be used as an operand. -/
def sub (a b : Operand) : Rule := .binary .sub a b

/-- Whether a list holds an item, or a map a key. -/
def contains (container : Value) (item : Operand) : Rule :=
  .within container.render item

/-- Whether a value has a type. -/
def hasType (value : Value) (type : TypeTag) : Rule :=
  .is value.render type

/-- Whether one of two or more slots holds. -/
def anyOf (first second : List Rule) (others : List (List Rule)) : Rule :=
  .or (first :: second :: others)

/-- Whether all of two or more slots hold. -/
def allOf (first second : List Rule) (others : List (List Rule)) : Rule :=
  .and (first :: second :: others)

end AccessRules.Rule
