import AccessRules.Tree.Value
import AccessRules.Rule.Basic

/-!
# Stored rules

Rules and operands are stored by their variants. A variant with named fields holds an object with
them. Unlike a record it is never read from a list; fields of other names are passed over.
-/

namespace AccessRules

namespace Operator

/-- Every operator with the name of its variant. -/
def storedNames : List (String × Operator) :=
  [("Eq", .eq), ("Neq", .ne), ("Lt", .lt), ("Lte", .le), ("Gt", .gt), ("Gte", .ge), ("Add", .add),
    ("Sub", .sub)]

def storedName : Operator → String
  | .eq => "Eq"
  | .ne => "Neq"
  | .lt => "Lt"
  | .le => "Lte"
  | .gt => "Gt"
  | .ge => "Gte"
  | .add => "Add"
  | .sub => "Sub"

def toTree (op : Operator) : Tree :=
  .text op.storedName

def ofTree? (t : Tree) : Option Operator :=
  t.unitName?.bind fun name => storedNames.lookup name

end Operator

namespace TypeTag

/-- A type is stored under the name that is tested for. -/
def toTree (type : TypeTag) : Tree :=
  .text type.name

def ofTree? (t : Tree) : Option TypeTag :=
  t.unitName?.bind ofName?

end TypeTag

mutual
/-- The stored form of an operand. -/
def Operand.toTree : Operand → Tree
  | .text s => .variant "Text" (.text s)
  | .rule r => .variant "Rule" r.toTree

/-- The stored form of a rule. -/
def Rule.toTree : Rule → Tree
  | .bool b => .variant "Bool" (.bool b)
  | .null => .text "Null"
  | .binary op left right =>
    .variant "Binary"
      (.object [("op", op.toTree), ("left", left.toTree), ("right", right.toTree)])
  | .within container item =>
    .variant "In" (.object [("container", .text container), ("item", item.toTree)])
  | .is value type =>
    .variant "Is" (.object [("value", .text value), ("type_tag", type.toTree)])
  | .not x => .variant "Not" x.toTree
  | .or slots => .variant "Or" (.list (Rule.slotsToTrees slots))
  | .and slots => .variant "And" (.list (Rule.slotsToTrees slots))
  | .literal v => .variant "Literal" v.toTree

/-- The stored forms of the rules of a list. -/
def Rule.toTrees : List Rule → List Tree
  | [] => []
  | r :: rs => r.toTree :: Rule.toTrees rs

/-- The stored forms of slots. -/
def Rule.slotsToTrees : List (List Rule) → List Tree
  | [] => []
  | slot :: slots => .list (Rule.toTrees slot) :: Rule.slotsToTrees slots
end

mutual
/-- The operand of a stored form. -/
def Operand.ofTree? : Tree → Option Operand
  | .object [("Text", .text s)] => some (.text s)
  | .object [("Rule", t)] => (Rule.ofTree? t).map .rule
  | _ => none

/-- The rule of a stored form. -/
def Rule.ofTree? : Tree → Option Rule
  | .text name => if name = "Null" then some .null else none
  | .object [(name, payload)] => Rule.ofVariant? name payload
  | _ => none

/-- The rule of a variant with its payload. -/
def Rule.ofVariant? : String → Tree → Option Rule
  | "Null", .null => some .null
  | "Bool", .bool b => some (.bool b)
  | "Binary", .object fields => do
    let operands := Rule.operandsOfFields fields
    return .binary (← Operator.ofTree? (← fields.lookup "op")) (← (← operands.lookup "left"))
      (← (← operands.lookup "right"))
  | "In", .object fields => do
    let operands := Rule.operandsOfFields fields
    return .within (← (← fields.lookup "container").text?) (← (← operands.lookup "item"))
  | "Is", .object fields => do
    return .is (← (← fields.lookup "value").text?) (← TypeTag.ofTree? (← fields.lookup "type_tag"))
  | "Not", t => (Operand.ofTree? t).map .not
  | "Or", .list slots => (Rule.slotsOfTrees? slots).map .or
  | "And", .list slots => (Rule.slotsOfTrees? slots).map .and
  | "Literal", t => (Value.ofTree? t).map .literal
  | _, _ => none

/-- Every field of a record with the operand that it stores, if it stores one. -/
def Rule.operandsOfFields : List (String × Tree) → List (String × Option Operand)
  | [] => []
  | (name, t) :: fields => (name, Operand.ofTree? t) :: Rule.operandsOfFields fields

/-- The rules of stored forms. -/
def Rule.ofTrees? : List Tree → Option (List Rule)
  | [] => some []
  | t :: ts => do return (← Rule.ofTree? t) :: (← Rule.ofTrees? ts)

/-- The slots of stored forms. -/
def Rule.slotsOfTrees? : List Tree → Option (List (List Rule))
  | [] => some []
  | .list ts :: slots => do return (← Rule.ofTrees? ts) :: (← Rule.slotsOfTrees? slots)
  | _ => none
end

end AccessRules
