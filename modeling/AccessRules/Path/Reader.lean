import AccessRules.ParseError
import AccessRules.Value

/-!
# Reading paths

Path text is an identifier followed by segments: a point and an identifier, an index in brackets,
or an empty call. `Path.parse` reads it and writes it again with the operations on paths, which
drops the leading zeros of every index and keeps everything else.
-/

namespace AccessRules.Path

/-- What may follow in path text. -/
inductive Segment where
  | field (name : String)
  | index (n : Nat)
  /-- A call without arguments. -/
  | call
deriving DecidableEq

/-- The path with a segment added. -/
def append (p : Path) : Segment → Path
  | .field name => p.field name
  | .index n => p.index n
  | .call => p.call []

/-- A path from its root and its segments. -/
def ofSegments (root : String) (segments : List Segment) : Path :=
  segments.foldl append ⟨root⟩

def isIdentStart (c : Char) : Bool :=
  c.isAlpha || c == '_' || c == '$'

def isIdentRest (c : Char) : Bool :=
  c.isAlphanum || c == '_' || c == '$'

/-- The longest identifier that a text starts with, and what follows it. -/
def ident? : List Char → Option (List Char × List Char)
  | [] => none
  | c :: cs =>
    if isIdentStart c then some (c :: cs.takeWhile isIdentRest, cs.dropWhile isIdentRest) else none

theorem append_of_ident? {s name rest : List Char} (h : ident? s = some (name, rest)) :
    name ++ rest = s := by
  cases s with
  | nil => cases h
  | cons c cs =>
    simp only [ident?] at h
    split at h
    · cases h
      exact congrArg (c :: ·) List.takeWhile_append_dropWhile
    · cases h

/-- Indices are below this bound. -/
def indexBound : Nat := UInt64.size

/-- The segments of a text up to its end. The offset counts what was read before it. -/
def segments (offset : Nat) (s : List Char) : Except Failure (List Segment) :=
  match s with
  | [] => .ok []
  | '.' :: r =>
    match h : ident? r with
    | none => .error ⟨offset + 1, .expected .fieldName⟩
    | some (name, rest) =>
      have : rest.length ≤ r.length := by
        have := congrArg List.length (append_of_ident? h)
        rw [List.length_append] at this
        omega
      (.field (String.ofList name) :: ·) <$> segments (offset + 1 + name.length) rest
  | '[' :: r =>
    let digits := r.takeWhile Char.isDigit
    let n := Nat.ofDigitChars 10 digits 0
    if digits = [] then .error ⟨offset + 1, .expected .index⟩
    else if indexBound ≤ n then .error ⟨offset + 1, .indexTooLarge⟩
    else
      match h : r.dropWhile Char.isDigit with
      | ']' :: rest =>
        have : rest.length < r.length := by
          have := (List.dropWhile_sublist Char.isDigit (l := r)).length_le
          rw [h, List.length_cons] at this
          omega
        (.index n :: ·) <$> segments (offset + digits.length + 2) rest
      | _ => .error ⟨offset + 1 + digits.length, .expected .index⟩
  | '(' :: ')' :: rest => (.call :: ·) <$> segments (offset + 2) rest
  | _ => .error ⟨offset, .unexpected⟩
termination_by s.length

/-- The root and the segments of a text. -/
def read (s : List Char) : Except Failure (String × List Segment) :=
  match ident? s with
  | none => .error ⟨0, .expected .root⟩
  | some (root, rest) => (String.ofList root, ·) <$> segments root.length rest

/-- Reads path text such as `request.resource.data.memberIds[0]`. -/
def parse (input : String) : Except ParseError Path :=
  match read input.toList with
  | .ok (root, segments) => .ok (ofSegments root segments)
  | .error failure => .error (.malformed input failure)

end AccessRules.Path
