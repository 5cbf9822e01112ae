import AccessRules.Operation.Basic

/-!
# Reading operation keys

A key is a list of operation names with a comma between two of them and blanks around each. A name
is read from the front of what follows, so a longer word that starts with a name fails behind it.
A comma that no name follows is not part of the key, and the reader stops at it.
-/

namespace AccessRules

/-- The blanks of a key. -/
def isKeyBlank (c : Char) : Bool :=
  c == ' ' || c == '\t' || c == '\r' || c == '\n'

namespace Operation

/-- The operation whose name a text starts with, and what follows. -/
def front? (s : List Char) : Option (Operation × List Char) :=
  (all.find? fun operation => operation.name.toList.isPrefixOf s).map fun operation =>
    (operation, s.drop operation.name.length)

/-- The operation after a comma with blanks around it, and what follows. -/
def next? (s : List Char) : Option (Operation × List Char) :=
  match s.dropWhile isKeyBlank with
  | ',' :: r => front? (r.dropWhile isKeyBlank)
  | _ => none

theorem length_of_front? {s rest : List Char} {operation : Operation}
    (h : front? s = some (operation, rest)) : rest.length ≤ s.length := by
  obtain ⟨o, -, ho⟩ := Option.map_eq_some_iff.mp h
  cases ho
  rw [List.length_drop]
  omega

theorem length_of_next? {s rest : List Char} {operation : Operation}
    (h : next? s = some (operation, rest)) : rest.length < s.length := by
  unfold next? at h
  split at h
  · rename_i r hr
    have h₁ := (List.dropWhile_sublist isKeyBlank (l := s)).length_le
    have h₂ := (List.dropWhile_sublist isKeyBlank (l := r)).length_le
    have h₃ := length_of_front? h
    rw [hr, List.length_cons] at h₁
    omega
  · cases h

/-- The operations that follow one, each after its comma, and the text behind the last name. -/
def others (s : List Char) : List Operation × List Char :=
  match h : next? s with
  | none => ([], s)
  | some (operation, rest) =>
    have := length_of_next? h
    let (operations, rest) := others rest
    (operation :: operations, rest)
termination_by s.length

end Operation

namespace OperationKey

/-- The key that a text holds. -/
def read (s : List Char) : Except Failure OperationKey :=
  let start := s.dropWhile isKeyBlank
  match Operation.front? start with
  | none => .error ⟨s.length - start.length, .expected .operation⟩
  | some (first, rest) =>
    let (operations, rest) := Operation.others rest
    match rest.dropWhile isKeyBlank with
    | [] => .ok ⟨first :: operations, List.cons_ne_nil _ _⟩
    | left => .error ⟨s.length - left.length, .unexpected⟩

/-- Reads an operation key such as `read, write`. -/
def parse (input : String) : Except ParseError OperationKey :=
  match read input.toList with
  | .ok key => .ok key
  | .error failure => .error (.malformed input failure)

end OperationKey

end AccessRules
