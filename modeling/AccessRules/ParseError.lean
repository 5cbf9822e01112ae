/-!
# Errors of the readers

A reader that stops gives a `Failure`: how many characters it had accepted, and what it expected
next. Everything a reader accepts is ASCII, so the offset counts bytes as well as characters.
`ParseError` adds the input, and `message` shows the place under the line that holds it.
-/

namespace AccessRules

/-- What a reader can be waiting for. -/
inductive Expectation where
  /-- The identifier that a path starts with. -/
  | root
  /-- The identifier after a point. -/
  | fieldName
  /-- The digits or the closing bracket of an index. -/
  | index
  /-- The name of an operation. -/
  | operation
deriving DecidableEq

/-- Why a reader stops. -/
inductive Reason where
  /-- What follows can neither continue the text nor end it. -/
  | unexpected
  | expected (what : Expectation)
  /-- An index of `2 ^ 64` or more. -/
  | indexTooLarge
deriving DecidableEq

/-- Where and why a reader stops. -/
structure Failure where
  offset : Nat
  reason : Reason
deriving DecidableEq

inductive ParseError where
  /-- A single name that is no operation. -/
  | unknownOperation (name : String)
  /-- A text that a reader did not accept to its end. -/
  | malformed (input : String) (failure : Failure)
deriving DecidableEq

def Expectation.description : Expectation → String
  | .root => "root"
  | .fieldName => "field name"
  | .index => "index"
  | .operation => "rule type"

/-- The last lines of a report. -/
def Reason.detail : Reason → String
  | .unexpected => ""
  | .expected what => "expected " ++ what.description
  | .indexTooLarge =>
    "expected " ++ Expectation.index.description ++ "\nnumber too large to fit in target type"

namespace Failure

/-- What stands before the place that is marked, not more than the input without its last
character: a failure at the end is marked behind that character, on its line. -/
def before (f : Failure) (input : List Char) : List Char :=
  input.take (min f.offset (input.length - 1))

/-- The index of the line with the mark. -/
def lineIndex (f : Failure) (input : List Char) : Nat :=
  (f.before input).count '\n'

/-- How many characters stand before the mark on its line. -/
def column (f : Failure) (input : List Char) : Nat :=
  let before := f.before input
  f.offset - (before.length - (before.reverse.takeWhile (· != '\n')).length)

def spaces (n : Nat) : String :=
  String.ofList (List.replicate n ' ')

/-- The report for an input of one line: the input, a mark below the place, and the detail. -/
def lineReport (f : Failure) (input : String) : String :=
  input ++ "\n" ++ spaces f.offset ++ "^\n" ++ f.reason.detail

/-- The report for an input of more lines: the line and the column, counted from one, and the line
itself with the mark, beside a gutter that holds its number. -/
def blockReport (f : Failure) (input : String) : String :=
  let lines := input.toList.splitOn '\n'
  let number := (f.lineIndex input.toList + 1).repr
  let column := f.column input.toList
  let line := lines.getD (f.lineIndex input.toList) []
  let gutter := spaces number.length
  "parse error at line " ++ number ++ ", column " ++ (column + 1).repr ++ "\n" ++
    gutter ++ " |\n" ++
    number ++ " | " ++ String.ofList line ++ "\n" ++
    gutter ++ " | " ++ spaces column ++ "^\n" ++ f.reason.detail

/-- The report that shows a failure in its input. -/
def report (f : Failure) (input : String) : String :=
  if '\n' ∈ input.toList then f.blockReport input else f.lineReport input

end Failure

/-- The text of an error. -/
def ParseError.message : ParseError → String
  | .unknownOperation name => "parse error: unknown rule type '" ++ name ++ "'"
  | .malformed input failure =>
    "parse error: invalid input '" ++ input ++ "'\n" ++ failure.report input

end AccessRules
