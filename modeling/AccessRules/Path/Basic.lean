/-!
# Paths

A path is the text that a rule would write to reach a value, such as
`request.resource.data.memberIds[0]`. It never holds data: each operation gives a longer path.
-/

namespace AccessRules

/-- The text that reaches a value. -/
structure Path where
  text : String
deriving DecidableEq

namespace Path

/-- Whether a name can only be an index: one or more decimal digits. -/
def isIndexName (name : String) : Bool :=
  !name.toList.isEmpty && name.toList.all Char.isDigit

/-- The field of that name. Digits alone are no identifier, so they are written as an index. -/
def field (p : Path) (name : String) : Path :=
  if isIndexName name then ⟨p.text ++ "[" ++ name ++ "]"⟩ else ⟨p.text ++ "." ++ name⟩

/-- The item at a position. -/
def index (p : Path) (n : Nat) : Path :=
  ⟨p.text ++ "[" ++ n.repr ++ "]"⟩

end Path

end AccessRules
