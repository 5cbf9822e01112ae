import AccessRules.Handle.Basic

/-! What a step puts behind a path. The text depends on the step alone, so the path of a handle is the
path it started from with the texts of its steps behind it. -/

namespace AccessRules

namespace Path

/-- The text that reaches a field. -/
def fieldSuffix (name : String) : String :=
  if isIndexName name then "[" ++ name ++ "]" else "." ++ name

/-- The text of a call. -/
def callSuffix (args : List Value) : String :=
  "(" ++ ", ".intercalate (args.map Value.render) ++ ")"

theorem text_field (p : Path) (name : String) : (p.field name).text = p.text ++ fieldSuffix name := by
  unfold field fieldSuffix
  split <;> simp only [String.append_assoc]

theorem text_call (p : Path) (args : List Value) : (p.call args).text = p.text ++ callSuffix args := by
  simp only [call, callSuffix, String.append_assoc]

theorem text_index (p : Path) (n : Nat) : (p.index n).text = p.text ++ ("[" ++ n.repr ++ "]") := by
  simp only [index, String.append_assoc]

end Path

/-- The text that a step puts behind a path. -/
def Step.suffix {t u : HandleType} : Step t u → String
  | .field name => Path.fieldSuffix name
  | .index n => "[" ++ n.repr ++ "]"
  | .call args => Path.callSuffix args
  | .view _ => ""
  | .member m _ => Path.fieldSuffix m.key
  | .method m _ args _ => Path.fieldSuffix m.name ++ Path.callSuffix args
  | .get _ key default _ => Path.fieldSuffix "get" ++ Path.callSuffix [key, default]
  | .item n => "[" ++ n.repr ++ "]"

theorem Handle.text_step {t u : HandleType} (h : Handle t) (s : Step t u) :
    (h.step s).path.text = h.path.text ++ s.suffix := by
  have hinvoke : ∀ {w : HandleType} (name : String) (args : List Value),
      (h.invoke name args : Handle w).path.text =
        h.path.text ++ (Path.fieldSuffix name ++ Path.callSuffix args) := by
    intro w name args
    rw [invoke, Path.text_call, Path.text_field, String.append_assoc]
  cases s with
  | field name => exact h.path.text_field name
  | index n | item n => exact h.path.text_index n
  | call args => exact h.path.text_call args
  | view u => exact String.append_empty.symm
  | member m hm => exact h.path.text_field m.key
  | method m hm args hlen => exact hinvoke m.name args
  | get hmap key default u => exact hinvoke "get" [key, default]

end AccessRules
