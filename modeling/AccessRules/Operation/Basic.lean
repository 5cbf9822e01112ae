import AccessRules.ParseError

/-!
# Operations

What an access rule can allow, and the keys under which a rule set files its conditions: one or
more operations, written one after the other with commas between them.
-/

namespace AccessRules

inductive Operation where
  | read
  | get
  | list
  | write
  | create
  | update
  | delete
deriving DecidableEq

namespace Operation

def name : Operation → String
  | .read => "read"
  | .get => "get"
  | .list => "list"
  | .write => "write"
  | .create => "create"
  | .update => "update"
  | .delete => "delete"

/-- Every operation. -/
def all : List Operation :=
  [.read, .get, .list, .write, .create, .update, .delete]

/-- The operation of that name. -/
def ofName? (name : String) : Option Operation :=
  all.find? (·.name == name)

/-- The operation that a name stands for, without blanks around it. -/
def parse (name : String) : Except ParseError Operation :=
  match ofName? name with
  | some operation => .ok operation
  | none => .error (.unknownOperation name)

/-- The text of a list of operations. -/
def join (operations : List Operation) : String :=
  ", ".intercalate (operations.map name)

end Operation

/-- The operations that one condition allows, at least one of them. -/
structure OperationKey where
  operations : List Operation
  ne_nil : operations ≠ []
deriving DecidableEq

/-- Why operations make no key. -/
inductive KeyError where
  | noOperations
deriving DecidableEq

def KeyError.message : KeyError → String
  | .noOperations => "rule() needs at least one rule type"

namespace OperationKey

/-- The text under which a rule set files the key. -/
def text (key : OperationKey) : String :=
  Operation.join key.operations

def ofList (operations : List Operation) : Except KeyError OperationKey :=
  if h : operations = [] then .error .noOperations else .ok ⟨operations, h⟩

end OperationKey

end AccessRules
