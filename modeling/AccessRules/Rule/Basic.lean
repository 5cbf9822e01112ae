import AccessRules.Value

/-!
# Rules

A rule is a condition: a leaf, a relation between operands, or rules under `not`, `or` and `and`.
An operand is text that was settled when the rule was built, or a rule that is kept as a tree. A
slot of `or` and `and` is a list of rules that must all hold.
-/

namespace AccessRules

/-- What stands between two operands. -/
inductive Operator where
  | eq
  | ne
  | lt
  | le
  | gt
  | ge
  | add
  | sub
deriving DecidableEq

def Operator.symbol : Operator → String
  | .eq => "=="
  | .ne => "!="
  | .lt => "<"
  | .le => "<="
  | .gt => ">"
  | .ge => ">="
  | .add => "+"
  | .sub => "-"

/-- The types a value can be tested for. -/
inductive TypeTag where
  | bool
  | bytes
  | duration
  | float
  | int
  | latLng
  | list
  | map
  | number
  | path
  | set
  | string
  | timestamp
deriving DecidableEq

namespace TypeTag

def name : TypeTag → String
  | .bool => "bool"
  | .bytes => "bytes"
  | .duration => "duration"
  | .float => "float"
  | .int => "int"
  | .latLng => "latlng"
  | .list => "list"
  | .map => "map"
  | .number => "number"
  | .path => "path"
  | .set => "set"
  | .string => "string"
  | .timestamp => "timestamp"

/-- Every type that can be tested for. -/
def all : List TypeTag :=
  [.bool, .bytes, .duration, .float, .int, .latLng, .list, .map, .number, .path, .set, .string,
    .timestamp]

/-- The type of that name. -/
def ofName? (name : String) : Option TypeTag :=
  all.find? (·.name == name)

end TypeTag

mutual
/-- One side of a relation. -/
inductive Operand where
  | text (s : String)
  | rule (r : Rule)

/-- A condition. -/
inductive Rule where
  | bool (b : Bool)
  | null
  | binary (op : Operator) (left right : Operand)
  /-- Whether the item is in the container. -/
  | within (container : String) (item : Operand)
  /-- Whether the value has the type. -/
  | is (value : String) (type : TypeTag)
  | not (x : Operand)
  /-- One slot holds. -/
  | or (slots : List (List Rule))
  /-- Every slot holds. -/
  | and (slots : List (List Rule))
  /-- A value in the place of a condition, such as a captured path to a boolean. -/
  | literal (v : Value)
end

/-- A value as a rule. Null, true and false are rules of their own. -/
def Rule.ofValue : Value → Rule
  | .null => .null
  | .bool b => .bool b
  | v => .literal v

namespace Operand

/-- A value as an operand. Null, true and false stay rules, and all else becomes its text. -/
def ofValue : Value → Operand
  | .null => .rule .null
  | .bool b => .rule (.bool b)
  | v => .text v.render

/-- The rule that an operand holds. -/
def rule? : Operand → Option Rule
  | .rule r => some r
  | .text _ => none

instance : Coe Value Operand := ⟨ofValue⟩
instance : Coe Rule Operand := ⟨rule⟩

end Operand

mutual
/-- Equality of operands. -/
def Operand.equal : Operand → Operand → Bool
  | .text a, .text b => a == b
  | .rule a, .rule b => a.equal b
  | _, _ => false

/-- Equality of rules: the same tree, its values compared as values. -/
def Rule.equal : Rule → Rule → Bool
  | .bool a, .bool b => a == b
  | .null, .null => true
  | .binary op a b, .binary op' a' b' => op == op' && a.equal a' && b.equal b'
  | .within a b, .within a' b' => a == a' && b.equal b'
  | .is a t, .is a' t' => a == a' && t == t'
  | .not a, .not b => a.equal b
  | .or a, .or b => Rule.equalSlots a b
  | .and a, .and b => Rule.equalSlots a b
  | .literal a, .literal b => a == b
  | _, _ => false

/-- Equality of lists of rules, one by one. -/
def Rule.equalList : List Rule → List Rule → Bool
  | [], [] => true
  | a :: as, b :: bs => a.equal b && Rule.equalList as bs
  | _, _ => false

/-- Equality of slots, one by one. -/
def Rule.equalSlots : List (List Rule) → List (List Rule) → Bool
  | [], [] => true
  | a :: as, b :: bs => Rule.equalList a b && Rule.equalSlots as bs
  | _, _ => false
end

instance : BEq Operand := ⟨Operand.equal⟩
instance : BEq Rule := ⟨Rule.equal⟩

end AccessRules
