import AccessRules.Handle.Root
import AccessRules.Inspect.Hidden

/-!
# Structural notation

`inspect` shows how a value is put together rather than the rule text it stands for: constructors
by name, texts in quotes, and numbers so that a whole floating-point number is told apart from an
integer. It is what messages use, and it is not read back.
-/

namespace AccessRules

namespace Inspect

/-- What stands for a character of a quoted text. -/
def escape (c : Char) : List Char :=
  if c = '\x00' then ['\\', '0']
  else if c = '\t' then ['\\', 't']
  else if c = '\r' then ['\\', 'r']
  else if c = '\n' then ['\\', 'n']
  else if c = '"' then ['\\', '"']
  else if c = '\\' then ['\\', '\\']
  else if isHidden c then ['\\', 'u', '\x7b'] ++ Nat.toDigits 16 c.toNat ++ ['\x7d']
  else [c]

def text (s : String) : String :=
  String.ofList ('"' :: (s.toList.flatMap escape ++ ['"']))

/-- Numbers are written positionally from `0.0001` up to `10 ^ 16`, and always with a fraction. -/
def numberLayout : Decimal.Layout :=
  { least := -3, greatest := 16, wholeEnd := ".0", plus := "" }

/-- A constructor with its arguments in parentheses. -/
def tuple (name : String) (args : List String) : String :=
  name ++ "(" ++ ", ".intercalate args ++ ")"

/-- A constructor with its fields in braces. -/
def record (name : String) (fields : List (String × String)) : String :=
  name ++ " \x7b " ++ ", ".intercalate (fields.map fun f => f.1 ++ ": " ++ f.2) ++ " \x7d"

/-- Items in brackets. -/
def list (items : List String) : String :=
  "[" ++ ", ".intercalate items ++ "]"

end Inspect

def Binary64.inspect (x : Binary64) : String :=
  let sign := if x.isNegative then "-" else ""
  if x.isNaN then "NaN"
  else if !x.isFinite then sign ++ "inf"
  else if x.isZero then sign ++ "0.0"
  else x.shortest.text Inspect.numberLayout

def Path.inspect (p : Path) : String :=
  Inspect.record "Path" [("path", Inspect.text p.text)]

namespace Value

mutual
def inspect : Value → String
  | .null => "Null"
  | .bool b => Inspect.tuple "Bool" [renderBool b]
  | .int n => Inspect.tuple "Int" [n.toInt.repr]
  | .float x => Inspect.tuple "Float" [x.inspect]
  | .string s => Inspect.tuple "String" [Inspect.text s]
  | .list items => Inspect.tuple "List" [Inspect.list (inspectItems items)]
  | .map entries => Inspect.tuple "Map" [Inspect.list (inspectEntries entries)]
  | .path p => Inspect.tuple "Path" [p.inspect]

def inspectItems : List Value → List String
  | [] => []
  | v :: vs => v.inspect :: inspectItems vs

/-- Each entry of a map as a pair. -/
def inspectEntries : List (String × Value) → List String
  | [] => []
  | (key, v) :: es => Inspect.tuple "" [Inspect.text key, v.inspect] :: inspectEntries es
end

end Value

/-- A handle of a parametrised type shows its path as an argument, any other as a field. -/
def Handle.inspect {t : HandleType} (h : Handle t) : String :=
  match t with
  | .path => h.path.inspect
  | .list _ | .set _ | .resource _ | .request _ => Inspect.tuple t.name [h.path.inspect]
  | _ => Inspect.record t.name [("path", h.path.inspect)]

def Collection.inspect {model : HandleType} (c : Collection model) : String :=
  Inspect.tuple "Collection" [Inspect.text c.path]

def Context.inspect {model : HandleType} (c : Context model) : String :=
  Inspect.record "RuleContext"
    [("request", c.request.inspect), ("resource", c.resource.inspect),
      ("resource_id", c.resourceId.inspect)]

end AccessRules
