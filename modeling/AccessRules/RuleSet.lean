import AccessRules.Operation.Reader
import AccessRules.Rule.Render

/-!
# Rule sets

A rule set maps keys to the rules that must hold, in the order in which the keys were first
inserted. Inserting a key again keeps its place and replaces its rules. A set that was stored may
hold a key twice; then the first entry answers for it.
-/

namespace AccessRules

/-- Keys and their rules in order. -/
structure RuleSet where
  entries : List (String × List Rule)

namespace RuleSet

instance : EmptyCollection RuleSet := ⟨⟨[]⟩⟩

def size (s : RuleSet) : Nat :=
  s.entries.length

def isEmpty (s : RuleSet) : Bool :=
  s.entries.isEmpty

/-- The keys in order. -/
def keys (s : RuleSet) : List String :=
  s.entries.map Prod.fst

/-- The rules of a key. -/
def get? (s : RuleSet) (key : String) : Option (List Rule) :=
  s.entries.lookup key

/-- Whether the set has rules for a key. -/
def contains (s : RuleSet) (key : String) : Bool :=
  (s.get? key).isSome

/-- Entries with the rules of the first entry of that key replaced, or with a new entry at the end. -/
def insertEntry (key : String) (rules : List Rule) :
    List (String × List Rule) → List (String × List Rule)
  | [] => [(key, rules)]
  | (k, rs) :: es => if k = key then (k, rules) :: es else (k, rs) :: insertEntry key rules es

/-- The set with these rules for the key. -/
def insert (s : RuleSet) (key : String) (rules : List Rule) : RuleSet :=
  ⟨insertEntry key rules s.entries⟩

/-- The set with every entry of another one inserted, in its order. -/
def merge (s t : RuleSet) : RuleSet :=
  t.entries.foldl (fun acc e => acc.insert e.1 e.2) s

/-- The sets merged one after the other. -/
def mergeAll (s : RuleSet) (sets : List RuleSet) : RuleSet :=
  sets.foldl merge s

/-- The rules for an operation key. -/
def grant (key : OperationKey) (rules : List Rule) : RuleSet :=
  (∅ : RuleSet).insert key.text rules

/-- The rules for the operation key that a text holds. -/
def allow (key : String) (rules : List Rule) : Except ParseError RuleSet :=
  (grant · rules) <$> OperationKey.parse key

/-- Equality of entries, keys and order included. -/
def equalEntries : List (String × List Rule) → List (String × List Rule) → Bool
  | [], [] => true
  | (k, a) :: as, (l, b) :: bs => k == l && Rule.equalList a b && equalEntries as bs
  | _, _ => false

instance : BEq RuleSet := ⟨fun s t => equalEntries s.entries t.entries⟩

/-- The keys whose rules are replaced when entries are inserted one after the other. -/
def overwrittenBy (s : RuleSet) : List (String × List Rule) → List String
  | [] => []
  | (key, rules) :: es =>
    (if s.contains key then [key] else []) ++ (s.insert key rules).overwrittenBy es

end RuleSet

end AccessRules
