/-!
# Indentation

A level of indentation is two spaces at the start of every line that holds anything. Lines end at
line feeds only.
-/

namespace AccessRules.Indentation

/-- The lines of a text, one more than it has line feeds. -/
def lines (text : List Char) : List (List Char) :=
  text.splitOn '\n'

/-- Lines put together again. -/
def unlines (lines : List (List Char)) : List Char :=
  ['\n'].intercalate lines

/-- A line moved to the right; an empty one stays empty. -/
def indentLine (levels : Nat) (line : List Char) : List Char :=
  if line = [] then [] else List.replicate (2 * levels) ' ' ++ line

/-- A text with every line moved to the right. -/
def indent (levels : Nat) (text : String) : String :=
  String.ofList (unlines ((lines text.toList).map (indentLine levels)))

end AccessRules.Indentation
