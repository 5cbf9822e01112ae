/-!
# Types of handles

The type of a handle says which members and methods its value has. Members are reached as fields;
methods are called. A record type is declared by a schema: each of its fields has an accessor, the
key it is stored under, and a type. Its value is a map, so it has the methods of a map as well.
-/

namespace AccessRules

/-- A member of a value: the name it is asked for by, the key that is written, and its type. -/
structure Member (τ : Type) where
  accessor : String
  key : String
  type : τ

/-- What a captured value is known to be. -/
inductive HandleType where
  /-- Nothing is known. -/
  | path
  | text
  | number
  | boolean
  | timestamp
  | duration
  | bytes
  | latLng
  /-- The result of comparing two maps. -/
  | mapDiff
  | map
  /-- Who sends a request. -/
  | auth
  /-- A map with declared fields. -/
  | record (name : String) (fields : List (Member HandleType))
  | list (item : HandleType)
  | set (item : HandleType)
  /-- A document that holds a model. -/
  | resource (model : HandleType)
  /-- A request for a document that holds a model. -/
  | request (model : HandleType)

/-- A method: its name, how many arguments it takes, and the type of its result. -/
structure Signature where
  name : String
  arity : Nat
  result : HandleType

namespace HandleType

/-- The name of a type without its parameters. -/
def name : HandleType → String
  | .path => "Path"
  | .text => "Text"
  | .number => "Number"
  | .boolean => "Boolean"
  | .timestamp => "Timestamp"
  | .duration => "Duration"
  | .bytes => "Bytes"
  | .latLng => "LatLng"
  | .mapDiff => "MapDiff"
  | .map => "Map"
  | .auth => "Auth"
  | .record name _ => name
  | .list _ => "List"
  | .set _ => "Set"
  | .resource _ => "Resource"
  | .request _ => "Request"

/-- Whether values of the type are maps. -/
def isMap : HandleType → Bool
  | .map | .record .. => true
  | _ => false

/-- The members of a type. -/
def members : HandleType → List (Member HandleType)
  | .auth => [⟨"uid", "uid", .text⟩, ⟨"token", "token", .map⟩]
  | .record _ fields => fields
  | .resource model => [⟨"data", "data", model⟩, ⟨"id", "id", .text⟩]
  | .request model =>
    [⟨"auth", "auth", .auth⟩, ⟨"resource", "resource", .resource model⟩, ⟨"time", "time", .timestamp⟩]
  | _ => []

/-- The methods of maps whose result does not depend on the caller. -/
def mapMethods : List Signature :=
  [⟨"keys", 0, .list .text⟩, ⟨"size", 0, .number⟩, ⟨"values", 0, .list .path⟩,
    ⟨"diff", 1, .mapDiff⟩]

/-- The methods that lists and sets share. -/
def collectionMethods : List Signature :=
  [⟨"hasAll", 1, .boolean⟩, ⟨"hasAny", 1, .boolean⟩, ⟨"hasOnly", 1, .boolean⟩, ⟨"size", 0, .number⟩]

/-- The methods of a type. -/
def methods : HandleType → List Signature
  | .text =>
    [⟨"size", 0, .number⟩, ⟨"lower", 0, .text⟩, ⟨"upper", 0, .text⟩, ⟨"trim", 0, .text⟩,
      ⟨"matches", 1, .boolean⟩, ⟨"split", 1, .list .text⟩]
  | .timestamp =>
    [⟨"date", 0, .timestamp⟩, ⟨"day", 0, .number⟩, ⟨"dayOfWeek", 0, .number⟩,
      ⟨"dayOfYear", 0, .number⟩, ⟨"hours", 0, .number⟩, ⟨"minutes", 0, .number⟩,
      ⟨"month", 0, .number⟩, ⟨"nanos", 0, .number⟩, ⟨"seconds", 0, .number⟩,
      ⟨"time", 0, .duration⟩, ⟨"toMillis", 0, .number⟩, ⟨"year", 0, .number⟩]
  | .duration => [⟨"nanos", 0, .number⟩, ⟨"seconds", 0, .number⟩]
  | .bytes => [⟨"size", 0, .number⟩, ⟨"toBase64", 0, .text⟩, ⟨"toHexString", 0, .text⟩]
  | .latLng => [⟨"distance", 1, .number⟩, ⟨"latitude", 0, .number⟩, ⟨"longitude", 0, .number⟩]
  | .mapDiff =>
    [⟨"addedKeys", 0, .set .text⟩, ⟨"affectedKeys", 0, .set .text⟩,
      ⟨"changedKeys", 0, .set .text⟩, ⟨"removedKeys", 0, .set .text⟩]
  | .map => mapMethods
  | .record .. => mapMethods
  | .list item => collectionMethods ++ [⟨"join", 1, .text⟩, ⟨"toSet", 0, .set item⟩]
  | .set item =>
    collectionMethods ++
      [⟨"difference", 1, .set item⟩, ⟨"intersection", 1, .set item⟩, ⟨"union", 1, .set item⟩]
  | _ => []

/-- The member with that accessor. -/
def member? (t : HandleType) (accessor : String) : Option (Member HandleType) :=
  t.members.find? (·.accessor == accessor)

/-- The method of that name. -/
def method? (t : HandleType) (name : String) : Option Signature :=
  t.methods.find? (·.name == name)

end HandleType

end AccessRules
