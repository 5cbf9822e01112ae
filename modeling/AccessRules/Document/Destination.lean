import AccessRules.Document.Basic

/-!
# Writing documents

Where a document is written decides whether it can be: a new file takes the text of the document,
and a place inside a directory that does not exist or a directory itself takes nothing.
-/

namespace AccessRules

/-- What stands at the place a document is written to. -/
inductive Destination where
  /-- A file, or nothing in a directory that exists. -/
  | file
  /-- A place in a directory that does not exist. -/
  | missing
  | directory
deriving DecidableEq

/-- Why a document is not written. -/
inductive WriteError where
  | notFound
  | isDirectory
deriving DecidableEq

/-- The text of an error. -/
def WriteError.message (e : WriteError) : String :=
  "failed to write rules document: " ++
    match e with
    | .notFound => "No such file or directory (os error 2)"
    | .isDirectory => "Is a directory (os error 21)"

/-- The content of the file after a document is written to it. -/
def Document.write (d : Document) : Destination → Except WriteError String
  | .file => .ok d.render
  | .missing => .error .notFound
  | .directory => .error .isDirectory

end AccessRules
