import AccessRules.Proofs.Document.Lines

/-! Levels of indentation add up, and can be taken back. Moving a text to the right keeps its lines and
which of them are empty, moves the parts of a text on their own, and loses nothing: what it gives is
moved back by taking the blanks away again (`Indentation.outdent?_indent`). -/

namespace AccessRules.Indentation

@[simp] theorem indentLine_eq_nil_iff : indentLine n l = [] ↔ l = [] := by
  unfold indentLine
  split
  next h => exact iff_of_true rfl h
  next h => exact iff_of_false (List.append_ne_nil_of_right_ne_nil _ h) h

theorem indentLine_of_ne_nil (h : l ≠ []) :
    indentLine n l = List.replicate (2 * n) ' ' ++ l := by
  rw [indentLine, if_neg h]

theorem indentLine_indentLine (m n : Nat) (l : List Char) :
    indentLine n (indentLine m l) = indentLine (m + n) l := by
  by_cases h : l = []
  · rw [h]
    rfl
  · have hblanks : List.replicate (2 * n) ' ' ++ List.replicate (2 * m) ' ' =
        List.replicate (2 * (m + n)) ' ' := by
      rw [List.replicate_append_replicate, ← Nat.mul_add, Nat.add_comm]
    rw [indentLine_of_ne_nil (mt indentLine_eq_nil_iff.mp h), indentLine_of_ne_nil h,
      indentLine_of_ne_nil h, ← List.append_assoc, hblanks]

/-- Levels that are added one after the other are added at once. -/
theorem indent_indent (m n : Nat) (t : String) : indent n (indent m t) = indent (m + n) t := by
  refine String.toList_inj.mp (lines_inj ?_)
  rw [lines_indent, lines_indent, lines_indent, List.map_map]
  exact List.map_congr_left fun l _ => indentLine_indentLine m n l

theorem lines_indent_getElem? (n i : Nat) (t : String) :
    (lines (indent n t).toList)[i]? = (lines t.toList)[i]?.map (indentLine n) := by
  rw [lines_indent, List.getElem?_map]

/-- The empty lines stay where they are, and no others come. -/
theorem lines_indent_eq_nil_iff (n i : Nat) (t : String) :
    (lines (indent n t).toList)[i]? = some [] ↔ (lines t.toList)[i]? = some [] := by
  simp [lines_indent_getElem?]

/-- Texts on both sides of a line feed are moved each on its own. -/
theorem indent_append_newline (n : Nat) (a b : String) :
    indent n (a ++ "\n" ++ b) = indent n a ++ "\n" ++ indent n b := by
  have hcut : ∀ t u : String,
      lines (t ++ "\n" ++ u).toList = lines t.toList ++ lines u.toList := by
    intro t u
    rw [← lines_append_cons]
    simp
  refine String.toList_inj.mp (lines_inj ?_)
  rw [lines_indent, hcut, hcut, lines_indent, lines_indent, List.map_append]

/-- A line without as many levels of blanks, if it has them. An empty line has none to lose. -/
def outdentLine? (levels : Nat) (line : List Char) : Option (List Char) :=
  let blanks := List.replicate (2 * levels) ' '
  if line = [] then some []
  else if blanks.isPrefixOf line then some (line.drop blanks.length)
  else none

/-- A text with every line moved to the left, if each that is not empty can be. -/
def outdent? (levels : Nat) (text : String) : Option String :=
  ((lines text.toList).mapM (outdentLine? levels)).map fun ls => String.ofList (unlines ls)

theorem outdentLine?_indentLine (n : Nat) (l : List Char) :
    outdentLine? n (indentLine n l) = some l := by
  unfold outdentLine?
  by_cases h : l = []
  · rw [h]
    rfl
  · rw [indentLine_of_ne_nil h]
    simp [h]

/-- A text is what is left of the indented one without the blanks in front of its lines. -/
theorem outdent?_indent (n : Nat) (t : String) : outdent? n (indent n t) = some t := by
  have hlines : ∀ ls : List (List Char),
      (ls.map (indentLine n)).mapM (outdentLine? n) = some ls := by
    intro ls
    induction ls with
    | nil => rfl
    | cons l ls ih =>
      rw [List.map_cons, List.mapM_cons, outdentLine?_indentLine, ih]
      rfl
  rw [outdent?, lines_indent, hlines, Option.map_some, unlines_lines, String.ofList_toList]

/-- Moving texts to the right adds levels up and loses nothing. Lines stay lines, just the empty ones
are empty afterwards, and without its blanks each text is there again, so no two texts are moved to the
same one; a line feed parts what is moved on its own. -/
theorem indent_faithful (m n : Nat) (t : String) :
    indent n (indent m t) = indent (m + n) t ∧
      (lines (indent n t).toList).length = (lines t.toList).length ∧
      (∀ i : Nat, (lines (indent n t).toList)[i]? = some [] ↔ (lines t.toList)[i]? = some []) ∧
      outdent? n (indent n t) = some t ∧
      Function.Injective (indent n) ∧
      ∀ a b : String, indent n (a ++ "\n" ++ b) = indent n a ++ "\n" ++ indent n b := by
  refine ⟨indent_indent m n t, ?_, fun i => lines_indent_eq_nil_iff n i t, outdent?_indent n t,
    fun _ _ => indent_inj, indent_append_newline n⟩
  rw [lines_indent, List.length_map]

end AccessRules.Indentation
