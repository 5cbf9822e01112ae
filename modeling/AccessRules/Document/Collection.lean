import AccessRules.RuleSet
import AccessRules.Handle.Root

/-!
# The rules of a collection

The block of a collection matches its documents and allows each key of a rule set under the
conditions filed there.
-/

namespace AccessRules

/-- A collection path and the rules for its documents. -/
structure CollectionRules where
  path : String
  rules : RuleSet

instance : BEq CollectionRules := ⟨fun a b => a.path == b.path && a.rules == b.rules⟩

/-- The rules of a context for an operation key. -/
def RuleSet.forModel (model : HandleType) (key : OperationKey) (rules : Context model → List Rule) :
    RuleSet :=
  grant key (rules {})

/-- The rule sets merged in order, bound to the collection. -/
def Collection.secure {model : HandleType} (c : Collection model) (sets : List RuleSet) :
    CollectionRules :=
  ⟨c.path, (∅ : RuleSet).mergeAll sets⟩

namespace CollectionRules

/-- The statement that allows a key under its conditions. -/
def allowance (key : String) (rules : List Rule) : String :=
  "allow " ++ key ++ ": if " ++ Rule.renderAll rules

/-- The block of a collection. -/
def render (c : CollectionRules) : String :=
  let allowances := c.rules.entries.map fun e => "  " ++ allowance e.1 e.2
  "match /" ++ c.path ++ "/\x7bresourceId\x7d \x7b\n" ++ "\n\n".intercalate allowances ++ "\n\x7d"

theorem toList_render (c : CollectionRules) : c.render.toList =
    "match /".toList ++ (c.path.toList ++ ("/\x7bresourceId\x7d \x7b\n".toList ++
      ("\n\n".toList.intercalate
        (c.rules.entries.map fun e => "  ".toList ++ (allowance e.1 e.2).toList) ++
        "\n\x7d".toList))) := by
  simp only [render, String.toList_append, List.append_assoc, String.toList_intercalate,
    List.map_map, Function.comp_def]

end CollectionRules

end AccessRules
