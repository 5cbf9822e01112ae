import AccessRules.Document.Basic
import AccessRules.Inspect.Basic

/-!
# Events

Rendering and merging can be watched. An operation itself is a plain function; beside it stands the
list of the events that occur while it runs, in order.
-/

namespace AccessRules

/-- What can be reported while rules are merged and rendered. -/
inductive Event where
  /-- The rules of a key that a set already had were replaced. -/
  | overwritten (key : String)
  /-- A document of so many collections was rendered. -/
  | documentRendered (count : Nat) (service : String)
  /-- A value was written in the place of a condition. -/
  | literalRendered (v : Value)

/-- How much detail must be asked for before an event is shown. -/
inductive Event.Level where
  | debug
  | trace
deriving DecidableEq

def Event.Level.name : Level → String
  | .debug => "DEBUG"
  | .trace => "TRACE"

namespace Event

def level : Event → Level
  | .overwritten _ => .debug
  | .documentRendered _ _ => .debug
  | .literalRendered _ => .trace

/-- The text of an event. -/
def message : Event → String
  | .overwritten key => "overwriting rules for '" ++ key ++ "'"
  | .documentRendered count service =>
    "rendering " ++ count.repr ++ " collection block(s) for service '" ++ service ++ "'"
  | .literalRendered v => "rendering literal in rule position: " ++ v.inspect

end Event

/-- The events of rendering a rule. -/
def Rule.renderEvents (r : Rule) : List Event :=
  r.literals.map .literalRendered

/-- The events of rendering rules that must all hold. -/
def Rule.renderAllEvents (rules : List Rule) : List Event :=
  rules.flatMap renderEvents

namespace RuleSet

/-- The events of rendering the rules of every key. -/
def renderEvents (s : RuleSet) : List Event :=
  s.entries.flatMap fun e => Rule.renderAllEvents e.2

/-- The events of `insert`. -/
def insertEvents (s : RuleSet) (key : String) (rules : List Rule) : List Event :=
  (s.overwrittenBy [(key, rules)]).map .overwritten

/-- The events of `merge`. -/
def mergeEvents (s t : RuleSet) : List Event :=
  (s.overwrittenBy t.entries).map .overwritten

/-- The events of `mergeAll`. -/
def mergeAllEvents (s : RuleSet) : List RuleSet → List Event
  | [] => []
  | t :: ts => s.mergeEvents t ++ (s.merge t).mergeAllEvents ts

end RuleSet

/-- The events of rendering the block of a collection. -/
def CollectionRules.renderEvents (c : CollectionRules) : List Event :=
  c.rules.renderEvents

/-- The events of rendering a document. -/
def Document.renderEvents (d : Document) : List Event :=
  .documentRendered d.collections.length d.service :: d.collections.flatMap (·.renderEvents)

end AccessRules
