import AccessRules.Binary64
import AccessRules.Quoted
import AccessRules.Path.Basic

/-!
# Values

A value is written into a rule in place of something captured: a literal, a structure of literals,
or a captured path, which stands for itself. `render` gives the literal syntax, and `==` compares
numbers by their value, so that the two zeros are equal and a NaN differs from itself.
-/

namespace AccessRules

inductive Value where
  /-- Nothing, also written for a value that is absent. -/
  | null
  | bool (b : Bool)
  | int (n : Int64)
  | float (x : Binary64)
  | string (s : String)
  | list (items : List Value)
  /-- Keys and values in the order in which they are written; a key may come twice. -/
  | map (entries : List (String × Value))
  | path (p : Path)

/-- Numbers are written positionally while the point is at most twenty-one digits to the right and
five zeros to the left of the first digit, and a whole number has no fraction. -/
def Value.numberLayout : Decimal.Layout :=
  { least := -5, greatest := 21, wholeEnd := "", plus := "+" }

/-- A number as literal text. The two zeros are written alike, and a number that is not finite has
no literal form, so null stands for it. -/
def Binary64.render (x : Binary64) : String :=
  if !x.isFinite then "null"
  else if x.isZero then "0"
  else x.shortest.text Value.numberLayout

def renderBool (b : Bool) : String :=
  if b then "true" else "false"

namespace Value

mutual
/-- The literal text of a value. -/
def render : Value → String
  | .null => "null"
  | .bool b => renderBool b
  | .int n => n.toInt.repr
  | .float x => x.render
  | .string s => Quoted.quote s
  | .list items => "[" ++ ", ".intercalate (renderItems items) ++ "]"
  | .map entries => "\x7b " ++ ", ".intercalate (renderEntries entries) ++ " \x7d"
  | .path p => p.text

/-- The literal texts of the items of a list. -/
def renderItems : List Value → List String
  | [] => []
  | v :: vs => v.render :: renderItems vs

/-- The entries of a map, each with its key. -/
def renderEntries : List (String × Value) → List String
  | [] => []
  | (key, v) :: es => (key ++ ": " ++ v.render) :: renderEntries es
end

theorem renderItems_eq_map (vs : List Value) : renderItems vs = vs.map render := by
  induction vs with
  | nil => rfl
  | cons v vs ih => rw [renderItems, ih, List.map_cons]

theorem renderEntries_eq_map (es : List (String × Value)) :
    renderEntries es = es.map fun e => e.1 ++ ": " ++ e.2.render := by
  induction es with
  | nil => rfl
  | cons e es ih => rw [renderEntries, ih, List.map_cons]

mutual
/-- Equality of values. Numbers are compared as numbers, everything else as it stands. -/
def equal : Value → Value → Bool
  | .null, .null => true
  | .bool a, .bool b => a == b
  | .int a, .int b => a == b
  | .float a, .float b => a == b
  | .string a, .string b => a == b
  | .list a, .list b => equalItems a b
  | .map a, .map b => equalEntries a b
  | .path a, .path b => a == b
  | _, _ => false

/-- Equality of the items of two lists, one by one. -/
def equalItems : List Value → List Value → Bool
  | [], [] => true
  | a :: as, b :: bs => a.equal b && equalItems as bs
  | _, _ => false

/-- Equality of the entries of two maps, keys and order included. -/
def equalEntries : List (String × Value) → List (String × Value) → Bool
  | [], [] => true
  | (k, a) :: as, (l, b) :: bs => k == l && a.equal b && equalEntries as bs
  | _, _ => false
end

instance : BEq Value := ⟨equal⟩

/-- An absent value is null. -/
def ofOption : Option Value → Value
  | some v => v
  | none => .null

instance : Coe Bool Value := ⟨.bool⟩
instance : Coe Int64 Value := ⟨.int⟩
instance : Coe Binary64 Value := ⟨.float⟩
instance : Coe String Value := ⟨.string⟩
instance : Coe Path Value := ⟨.path⟩
instance : Coe (List Value) Value := ⟨.list⟩

end Value

/-- A call of what the path reaches, its arguments written out as literals. -/
def Path.call (p : Path) (args : List Value) : Path :=
  ⟨p.text ++ "(" ++ ", ".intercalate (args.map Value.render) ++ ")"⟩

end AccessRules
