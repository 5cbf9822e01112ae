import AccessRules.Handle.Basic

/-!
# Where handles start

A rule sees the request, the stored document and its id; these are the `Context`. Other documents
are reached by a look-up in a collection, and a few functions of the rule language give values that
depend on their arguments alone.
-/

namespace AccessRules

/-- What a rule about documents of a model can refer to. -/
structure Context (model : HandleType) where
  request : Handle (.request model) := .ofText "request"
  /-- The stored document. -/
  resource : Handle (.resource model) := .ofText "resource"
  /-- The id that the enclosing block binds. -/
  resourceId : Handle .text := .ofText "resourceId"

/-- A collection of documents of a model. -/
structure Collection (model : HandleType) where
  path : String
deriving DecidableEq

/-- Which document of a collection is meant. -/
inductive DocumentId where
  /-- An id that is known, written as it stands. -/
  | literal (id : String)
  /-- An id that a path reaches. -/
  | path (p : Path)
deriving DecidableEq

namespace DocumentId

/-- The id as the last component of a document path. -/
def render : DocumentId → String
  | .literal id => id
  | .path p => "$(" ++ p.text ++ ")"

instance : Coe String DocumentId := ⟨literal⟩
instance : Coe Path DocumentId := ⟨path⟩

end DocumentId

/-- A handle as the id of a document. -/
def Handle.documentId {t : HandleType} (h : Handle t) : DocumentId := .path h.path

/-- The document of a collection with that id. -/
def Collection.get {model : HandleType} (c : Collection model) (id : DocumentId) :
    Handle (.resource model) :=
  .ofText ("get(/databases/$(database)/documents/" ++ c.path ++ "/" ++ id.render ++ ")")

/-- The units of a duration. -/
inductive DurationUnit where
  | weeks
  | days
  | hours
  | minutes
  | seconds
  | milliseconds
  | nanoseconds
deriving DecidableEq

def DurationUnit.symbol : DurationUnit → String
  | .weeks => "w"
  | .days => "d"
  | .hours => "h"
  | .minutes => "m"
  | .seconds => "s"
  | .milliseconds => "ms"
  | .nanoseconds => "ns"

namespace Handle

/-- The boolean that a text spells. -/
def boolOf (text : Value) : Handle .boolean :=
  ⟨Path.call ⟨"bool"⟩ [text]⟩

/-- The bytes of a text, which is written as it stands. -/
def bytes (text : String) : Handle .bytes :=
  .ofText ("b'" ++ text ++ "'")

/-- A function of a name space of the rule language. -/
def function {t : HandleType} (space name : String) (args : List Value) : Handle t :=
  (ofText space : Handle .path).invoke name args

/-- A duration without its sign. -/
def durationAbs (duration : Value) : Handle .duration :=
  function "duration" "abs" [duration]

/-- The duration from midnight to a time of day. -/
def durationTime (hours minutes seconds nanos : Value) : Handle .duration :=
  function "duration" "time" [hours, minutes, seconds, nanos]

/-- The duration of so many units. -/
def durationValue (magnitude : Value) (unit : DurationUnit) : Handle .duration :=
  function "duration" "value" [magnitude, .string unit.symbol]

/-- The point at a latitude and a longitude. -/
def latLngValue (latitude longitude : Value) : Handle .latLng :=
  function "latlng" "value" [latitude, longitude]

end Handle

end AccessRules
