import AccessRules.Handle.Type
import AccessRules.Rule.Basic

/-!
# Handles

A handle is a captured path together with the type of the value it reaches. A `Step` goes from a
handle of one type to a handle of another and only ever makes the path longer; nothing is looked up
or computed. `Step.memberOfName?` and `Step.methodOfName?` find the step of a name when the type is
known only at run time.
-/

namespace AccessRules

/-- A captured path to a value of the type. -/
structure Handle (t : HandleType) where
  path : Path
deriving DecidableEq

/-- What can be asked of a handle of type `t`, giving one of the type on the right. -/
inductive Step : HandleType → HandleType → Type where
  /-- Any field of any value. -/
  | field {t : HandleType} (name : String) : Step t .path
  /-- Any item of any value. -/
  | index {t : HandleType} (n : Nat) : Step t .path
  /-- A call of any value. -/
  | call {t : HandleType} (args : List Value) : Step t .path
  /-- The same value, taken to be of another type. -/
  | view {t : HandleType} (u : HandleType) : Step t u
  /-- A member of the type. -/
  | member {t : HandleType} (m : Member HandleType) (mem : m ∈ t.members) : Step t m.type
  /-- A method of the type with as many arguments as it takes. -/
  | method {t : HandleType} (m : Signature) (mem : m ∈ t.methods) (args : List Value)
      (length_eq : args.length = m.arity) : Step t m.result
  /-- The value of a key of a map, or a default, taken to be of a type that the caller chooses. -/
  | get {t : HandleType} (isMap : t.isMap) (key default : Value) (u : HandleType) : Step t u
  /-- An item of a list. -/
  | item {t : HandleType} (n : Nat) : Step (.list t) t

namespace Handle

variable {t u : HandleType}

/-- The handle that starts at a text. -/
def ofText (seed : String) : Handle t := ⟨⟨seed⟩⟩

/-- A call of the method with that name. -/
def invoke (h : Handle t) (name : String) (args : List Value) : Handle u :=
  ⟨(h.path.field name).call args⟩

/-- The handle after a step. -/
def step (h : Handle t) : Step t u → Handle u
  | .field name => ⟨h.path.field name⟩
  | .index n => ⟨h.path.index n⟩
  | .call args => ⟨h.path.call args⟩
  | .view _ => ⟨h.path⟩
  | .member m _ => ⟨h.path.field m.key⟩
  | .method m _ args _ => h.invoke m.name args
  | .get _ key default _ => h.invoke "get" [key, default]
  | .item n => ⟨h.path.index n⟩

/-- A handle as a value: its path. -/
def value (h : Handle t) : Value := .path h.path

/-- A handle as an operand: the text of its path. -/
def operand (h : Handle t) : Operand := .text h.path.text

/-- A handle as a condition: its path in the place of one. -/
def rule (h : Handle t) : Rule := .literal h.value

instance : CoeOut (Handle t) Value := ⟨value⟩
instance : Coe (Handle .boolean) Rule := ⟨rule⟩
instance : Coe (Handle .path) Rule := ⟨rule⟩

end Handle

namespace Step

/-- The step to the member with that accessor. -/
def memberOfName? (t : HandleType) (accessor : String) : Option ((u : HandleType) × Step t u) :=
  match h : t.member? accessor with
  | some m => some ⟨m.type, .member m (List.mem_of_find?_eq_some h)⟩
  | none => none

/-- The call of the method with that name, if it takes as many arguments. -/
def methodOfName? (t : HandleType) (name : String) (args : List Value) :
    Option ((u : HandleType) × Step t u) :=
  match h : t.method? name with
  | some m =>
    if hargs : args.length = m.arity then
      some ⟨m.result, .method m (List.mem_of_find?_eq_some h) args hargs⟩
    else none
  | none => none

/-- The look-up of a key in a map, if values of the type are maps. -/
def get? (t : HandleType) (key default : Value) (u : HandleType) : Option (Step t u) :=
  if h : t.isMap then some (.get h key default u) else none

/-- The step to an item, if the type is a list. -/
def item? (n : Nat) : (t : HandleType) → Option ((u : HandleType) × Step t u)
  | .list u => some ⟨u, .item n⟩
  | _ => none

end Step

/-- A sequence of steps from a handle of type `t` to one of type `u`. -/
inductive Chain : HandleType → HandleType → Type where
  | nil {t : HandleType} : Chain t t
  | cons {t u v : HandleType} (s : Step t u) (rest : Chain u v) : Chain t v

namespace Chain

/-- One chain after the other. -/
def append {t u v : HandleType} : Chain t u → Chain u v → Chain t v
  | .nil, d => d
  | .cons s c, d => .cons s (c.append d)

/-- The handle at the end of a chain. -/
def run {t u : HandleType} (h : Handle t) : Chain t u → Handle u
  | .nil => h
  | .cons s c => c.run (h.step s)

/-- The path texts at the start, after each step and so at the end. -/
def trace {t u : HandleType} (h : Handle t) : Chain t u → List String
  | .nil => [h.path.text]
  | .cons s c => h.path.text :: c.trace (h.step s)

end Chain

end AccessRules
