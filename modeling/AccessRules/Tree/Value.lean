import AccessRules.Tree.Basic
import AccessRules.Value

/-!
# Stored values

A value is stored by its variant. An entry of a map is a list of its key and its value, so order
and repeated keys survive, and a path is its text.
-/

namespace AccessRules

def Path.toTree (p : Path) : Tree :=
  .text p.text

/-- The path of a stored text, which is not checked. -/
def Path.ofTree? (t : Tree) : Option Path :=
  t.text?.map .mk

namespace Value

mutual
/-- The stored form of a value. -/
def toTree : Value → Tree
  | .null => .text "Null"
  | .bool b => .variant "Bool" (.bool b)
  | .int n => .variant "Int" (.int n.toInt)
  | .float x => .variant "Float" (.ofBinary64 x)
  | .string s => .variant "String" (.text s)
  | .list items => .variant "List" (.list (toTrees items))
  | .map entries => .variant "Map" (.list (entriesToTrees entries))
  | .path p => .variant "Path" p.toTree

/-- The stored forms of the items of a list. -/
def toTrees : List Value → List Tree
  | [] => []
  | v :: vs => v.toTree :: toTrees vs

/-- The stored forms of the entries of a map. -/
def entriesToTrees : List (String × Value) → List Tree
  | [] => []
  | (key, v) :: es => .list [.text key, v.toTree] :: entriesToTrees es
end

mutual
/-- The value of a stored form. -/
def ofTree? : Tree → Option Value
  | .text name => if name = "Null" then some .null else none
  | .object [(name, payload)] => ofVariant? name payload
  | _ => none

/-- The value of a variant with its payload. -/
def ofVariant? : String → Tree → Option Value
  | "Null", .null => some .null
  | "Bool", .bool b => some (.bool b)
  | "Int", .int n => (Tree.int64? n).map .int
  | "Float", t => t.binary64?.map .float
  | "String", .text s => some (.string s)
  | "List", .list items => (ofTrees? items).map .list
  | "Map", .list items => (entriesOfTrees? items).map .map
  | "Path", t => (Path.ofTree? t).map .path
  | _, _ => none

/-- The values of stored forms. -/
def ofTrees? : List Tree → Option (List Value)
  | [] => some []
  | t :: ts => do return (← ofTree? t) :: (← ofTrees? ts)

/-- The entries of a map. -/
def entriesOfTrees? : List Tree → Option (List (String × Value))
  | [] => some []
  | .list [.text key, t] :: ts => do return (key, ← ofTree? t) :: (← entriesOfTrees? ts)
  | _ => none
end

end Value

end AccessRules
