import AccessRules.Tree.Rule
import AccessRules.Document.Basic

/-!
# Stored documents

Operations, rule sets, collections and documents. The entries of a rule set are kept as they are
stored, repeated keys included.
-/

namespace AccessRules

namespace Operation

def toTree (operation : Operation) : Tree :=
  .text operation.name

def ofTree? (t : Tree) : Option Operation :=
  t.unitName?.bind ofName?

end Operation

namespace RuleSet

/-- An entry is a list of its key and its rules. -/
def entryToTree (e : String × List Rule) : Tree :=
  .list [.text e.1, .list (Rule.toTrees e.2)]

def toTree (s : RuleSet) : Tree :=
  .object [("entries", .list (s.entries.map entryToTree))]

def entryOfTree? : Tree → Option (String × List Rule)
  | .list [.text key, .list rules] => (Rule.ofTrees? rules).map (key, ·)
  | _ => none

def ofTree? (t : Tree) : Option RuleSet :=
  match t.components? ["entries"] with
  | some [entries] => (entries.listOf? entryOfTree?).map .mk
  | _ => none

end RuleSet

namespace CollectionRules

def toTree (c : CollectionRules) : Tree :=
  .object [("path", .text c.path), ("rules", c.rules.toTree)]

def ofTree? (t : Tree) : Option CollectionRules :=
  match t.components? ["path", "rules"] with
  | some [.text path, rules] => (RuleSet.ofTree? rules).map (.mk path)
  | _ => none

end CollectionRules

namespace Document

def toTree (d : Document) : Tree :=
  .object [("service", .text d.service), ("collections", .list (d.collections.map (·.toTree)))]

def ofTree? (t : Tree) : Option Document :=
  match t.components? ["service", "collections"] with
  | some [.text service, collections] =>
    (collections.listOf? CollectionRules.ofTree?).map (.mk service)
  | _ => none

end Document

end AccessRules
