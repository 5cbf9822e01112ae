import AccessRules.Binary64

/-!
# Trees

The form in which values, rules and documents are stored: nothing, truth values, numbers, texts,
lists, and objects with named fields. A value of a sum is stored as its variant name alone, or as
an object whose only field is that name; a record is stored as an object with its fields.
-/

namespace AccessRules

/-- A stored form. Integers and floating-point numbers are kept apart. -/
inductive Tree where
  | null
  | bool (b : Bool)
  | int (n : Int)
  | float (x : Binary64)
  | text (s : String)
  | list (items : List Tree)
  | object (fields : List (String × Tree))

namespace Tree

/-- A variant that holds something. -/
def variant (name : String) (payload : Tree) : Tree :=
  .object [(name, payload)]

/-- The name of a variant that holds nothing. -/
def unitName? : Tree → Option String
  | .text name => some name
  | .object [(name, .null)] => some name
  | _ => none

/-- The components of a record with these fields. A list of as many items stands for it as well,
and fields of other names are passed over. -/
def components? (names : List String) : Tree → Option (List Tree)
  | .list items => if items.length = names.length then some items else none
  | .object fields => names.mapM fun name => fields.lookup name
  | _ => none

/-- A text that is stored as it stands. -/
def text? : Tree → Option String
  | .text s => some s
  | _ => none

/-- The items of a list, each read in the same way. -/
def listOf? {α : Type} (read : Tree → Option α) : Tree → Option (List α)
  | .list items => items.mapM read
  | _ => none

/-- The integer, if it fits into 64 bits with a sign. -/
def int64? (n : Int) : Option Int64 :=
  if Int64.minValue.toInt ≤ n ∧ n ≤ Int64.maxValue.toInt then some (.ofInt n) else none

/-- A floating-point number. An integer stands for the number nearest to it. -/
def binary64? : Tree → Option Binary64
  | .int n => Binary64.ofInt? n
  | .float x => if x.isFinite then some x else none
  | _ => none

/-- A floating-point number as it is stored. A number that is not finite is lost. -/
def ofBinary64 (x : Binary64) : Tree :=
  if x.isFinite then .float x else .null

end Tree

end AccessRules
