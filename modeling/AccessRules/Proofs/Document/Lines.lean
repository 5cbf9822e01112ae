import AccessRules.Indentation
import AccessRules.Proofs.Lexical.Scanner

/-! Lines and indentation. Cutting a text at its line feeds and putting the lines together are
inverse, an indented text has the indented lines, texts are read back from paragraphs
(`paragraphs_inj`), and a scanner that is not behind a backslash reads an indented text as it reads
the text itself. -/

namespace AccessRules.Indentation

@[simp] theorem unlines_lines (t : List Char) : unlines (lines t) = t :=
  List.intercalate_splitOn '\n'

theorem lines_unlines {ls : List (List Char)} (h : ∀ l ∈ ls, '\n' ∉ l) (hne : ls ≠ []) :
    lines (unlines ls) = ls :=
  List.splitOn_intercalate '\n' h hne

theorem lines_ne_nil (t : List Char) : lines t ≠ [] := List.splitOn_ne_nil _ _

theorem lines_inj (h : lines t = lines u) : t = u := by
  rw [← unlines_lines t, h, unlines_lines]

/-- A text that is cut at a line feed. -/
theorem lines_append_cons (t u : List Char) : lines (t ++ '\n' :: u) = lines t ++ lines u :=
  List.splitOn_append_cons_self t u

theorem lines_of_not_mem (h : '\n' ∉ t) : lines t = [t] :=
  List.splitOn_eq_singleton h

theorem lines_newline_cons (t : List Char) : lines ('\n' :: t) = [] :: lines t :=
  lines_append_cons [] t

/-- Any other character goes in front of the first line. -/
theorem lines_cons (hc : c ≠ '\n') (h : lines t = l :: ls) : lines (c :: t) = (c :: l) :: ls := by
  unfold lines at h ⊢
  rw [List.splitOn_cons_eq_if_modifyHead, if_neg (by simpa using hc), h, List.modifyHead_cons]

theorem not_mem_of_mem_lines (h : l ∈ lines t) : '\n' ∉ l := by
  induction t generalizing l with
  | nil =>
    rw [List.mem_singleton.mp h]
    exact List.not_mem_nil
  | cons c t ih =>
    by_cases hc : c = '\n'
    · rw [hc, lines_newline_cons] at h
      rcases List.mem_cons.mp h with rfl | h
      · exact List.not_mem_nil
      · exact ih h
    · obtain ⟨first, others, hl⟩ := List.exists_cons_of_ne_nil (lines_ne_nil t)
      rw [lines_cons hc hl] at h
      rw [hl] at ih
      rcases List.mem_cons.mp h with rfl | h
      · intro hm
        rcases List.mem_cons.mp hm with rfl | hm
        · exact hc rfl
        · exact ih List.mem_cons_self hm
      · exact ih (List.mem_cons_of_mem _ h)

theorem indentLine_not_mem (h : '\n' ∉ l) : '\n' ∉ indentLine n l := by
  unfold indentLine
  split
  · simp
  · simp [h]

/-- The lines of an indented text are its indented lines. -/
theorem lines_indent (n : Nat) (t : String) :
    lines (indent n t).toList = (lines t.toList).map (indentLine n) := by
  unfold indent
  rw [String.toList_ofList]
  refine lines_unlines ?_ (by simp [lines_ne_nil])
  intro l hl
  obtain ⟨l', hl', rfl⟩ := List.mem_map.mp hl
  exact indentLine_not_mem (not_mem_of_mem_lines hl')

theorem indentLine_inj (h : indentLine n l = indentLine n l') : l = l' := by
  unfold indentLine at h
  split at h <;> split at h <;> rename_i h₁ h₂
  · rw [h₁, h₂]
  · exact absurd h.symm (List.append_ne_nil_of_right_ne_nil _ h₂)
  · exact absurd h (List.append_ne_nil_of_right_ne_nil _ h₁)
  · exact List.append_cancel_left h

theorem indent_inj (h : indent n t = indent n u) : t = u := by
  have hl : (lines t.toList).map (indentLine n) = (lines u.toList).map (indentLine n) := by
    rw [← lines_indent, h, lines_indent]
  refine String.toList_inj.mp (lines_inj (List.map_inj_right ?_ |>.mp hl))
  exact fun _ _ => indentLine_inj

/-! ## Character by character -/

/-- A text moved to the right, read from the start of a line or from inside of one. -/
def indentFrom (n : Nat) : Bool → List Char → List Char
  | _, [] => []
  | atStart, c :: t =>
    if c = '\n' then '\n' :: indentFrom n true t
    else (if atStart then List.replicate (2 * n) ' ' else []) ++ c :: indentFrom n false t

theorem unlines_append_cons (t l : List Char) (ls : List (List Char)) :
    unlines ((t ++ l) :: ls) = t ++ unlines (l :: ls) := by
  unfold unlines
  cases ls with
  | nil => rw [List.intercalate_singleton, List.intercalate_singleton]
  | cons l' ls => simp only [List.intercalate_cons_cons, List.append_assoc]

theorem unlines_nil_cons {ls : List (List Char)} (h : ls ≠ []) :
    unlines ([] :: ls) = '\n' :: unlines ls := by
  unfold unlines
  cases ls with
  | nil => exact absurd rfl h
  | cons l ls => rw [List.intercalate_cons_cons, List.nil_append, List.singleton_append]

/-- Indented lines are read character by character, also if the first line was begun before. -/
theorem unlines_indentLine (n : Nat) (t : List Char) :
    unlines ((lines t).map (indentLine n)) = indentFrom n true t ∧
      ∀ l ls, lines t = l :: ls → unlines (l :: ls.map (indentLine n)) = indentFrom n false t := by
  induction t with
  | nil =>
    refine ⟨rfl, fun l ls h => ?_⟩
    cases h
    rfl
  | cons c t ih =>
    obtain ⟨hstart, hinside⟩ := ih
    by_cases hc : c = '\n'
    · have hcut : unlines ([] :: (lines t).map (indentLine n)) = '\n' :: indentFrom n true t := by
        rw [unlines_nil_cons (by simp [lines_ne_nil]), hstart]
      rw [hc, lines_newline_cons, indentFrom, if_pos rfl, indentFrom, if_pos rfl]
      refine ⟨hcut, fun l ls h => ?_⟩
      cases h
      exact hcut
    · obtain ⟨l, ls, hl⟩ := List.exists_cons_of_ne_nil (lines_ne_nil t)
      have hcons : unlines ((c :: l) :: ls.map (indentLine n)) = c :: indentFrom n false t := by
        rw [← hinside l ls hl]
        exact unlines_append_cons [c] l _
      rw [lines_cons hc hl, indentFrom, if_neg hc, if_pos rfl, indentFrom, if_neg hc,
        if_neg Bool.false_ne_true, List.nil_append]
      refine ⟨?_, fun l' ls' h => ?_⟩
      · rw [List.map_cons, indentLine, if_neg (List.cons_ne_nil _ _), unlines_append_cons, hcons]
      · cases h
        exact hcons

theorem toList_indent (n : Nat) (t : String) :
    (indent n t).toList = indentFrom n true t.toList := by
  rw [indent, String.toList_ofList]
  exact (unlines_indentLine n t.toList).1

theorem indentFrom_append_cons (hc : c ≠ '\n') (t u : List Char) :
    indentFrom n start (t ++ c :: u) = indentFrom n start (t ++ [c]) ++ indentFrom n false u := by
  induction t generalizing start with
  | nil => simp [indentFrom, hc]
  | cons b t ih =>
    rw [List.cons_append, List.cons_append, indentFrom, indentFrom]
    split
    · rw [ih, List.cons_append]
    · rw [ih, List.append_assoc, List.cons_append]

/-- Behind a line feed a line starts, whatever is in front of it. -/
theorem indentFrom_append_newline (t u : List Char) :
    indentFrom n start (t ++ '\n' :: u) = indentFrom n start t ++ '\n' :: indentFrom n true u := by
  induction t generalizing start with
  | nil => rfl
  | cons c t ih =>
    rw [List.cons_append, indentFrom, indentFrom]
    split
    · rw [ih, List.cons_append]
    · rw [ih, List.append_assoc, List.cons_append]

/-- Inside of a line, a text that does not end it is followed by the inside of a line again. -/
theorem indentFrom_append {t : List Char} (ht : t.getLast? ≠ some '\n') (u : List Char) :
    indentFrom n false (t ++ u) = indentFrom n false t ++ indentFrom n false u := by
  obtain rfl | ⟨t, c, rfl⟩ := List.eq_nil_or_concat t
  · rfl
  · rw [List.concat_append, List.concat_eq_append]
    exact indentFrom_append_cons (by simpa using ht) t u

/-- Inside of a line, what has no line feed stays as it is. -/
theorem indentFrom_of_notMem (h : '\n' ∉ t) (u : List Char) :
    indentFrom n false (t ++ u) = t ++ indentFrom n false u := by
  induction t with
  | nil => rfl
  | cons c t ih =>
    obtain ⟨hc, ht⟩ := not_or.mp (mt List.mem_cons.mpr h)
    rw [List.cons_append, indentFrom, if_neg (Ne.symm hc), if_neg Bool.false_ne_true, ih ht]
    rfl

/-! ## Paragraphs -/

theorem lines_intercalate {ts : List (List Char)} (h : ts ≠ []) :
    lines ("\n\n".toList.intercalate ts) = [[]].intercalate (ts.map lines) := by
  induction ts with
  | nil => exact absurd rfl h
  | cons t ts ih =>
    cases ts with
    | nil => rw [List.intercalate_singleton, List.map_singleton, List.intercalate_singleton]
    | cons u ts =>
      have hcut : t ++ "\n\n".toList ++ "\n\n".toList.intercalate (u :: ts) =
          t ++ '\n' :: ([] ++ '\n' :: "\n\n".toList.intercalate (u :: ts)) := by simp
      have hnil : lines [] = [[]] := rfl
      rw [List.intercalate_cons_cons, hcut, lines_append_cons, lines_append_cons,
        ih (List.cons_ne_nil _ _), hnil, List.map_cons, List.map_cons, List.map_cons,
        List.intercalate_cons_cons, List.append_assoc]

/-- A line of separated texts is empty or a line of one of the texts. -/
theorem eq_nil_or_of_mem_lines {ts : List (List Char)}
    (h : l ∈ lines ("\n\n".toList.intercalate ts)) : l = [] ∨ ∃ t ∈ ts, l ∈ lines t := by
  cases ts with
  | nil => exact .inl (List.mem_singleton.mp h)
  | cons t ts =>
    rw [lines_intercalate (List.cons_ne_nil _ _)] at h
    obtain h | ⟨ls, hls, hl⟩ := mem_or_of_mem_intercalate h
    · exact .inl (List.mem_singleton.mp h)
    · obtain ⟨t', ht', rfl⟩ := List.mem_map.mp hls
      exact .inr ⟨t', ht', hl⟩

/-- Texts are read back from their paragraphs if each has a line that is not empty and their lines
can be told apart in front of an empty one. -/
theorem paragraphs_inj {P : List (List Char) → Prop} {ts us : List (List Char)}
    (hne : ∀ a, P a → ∃ l ∈ a, l ≠ [])
    (hcode : ∀ {a b u v}, P a → P b → Follows [[]] u → Follows [[]] v → a ++ u = b ++ v →
      a = b ∧ u = v)
    (ht : ∀ t ∈ ts, P (lines t)) (hu : ∀ u ∈ us, P (lines u))
    (h : "\n\n".toList.intercalate ts = "\n\n".toList.intercalate us) : ts = us := by
  have hcons : ∀ {t ts}, P (lines t) → "\n\n".toList.intercalate (t :: ts) ≠ [] := by
    intro t ts hP hnil
    obtain ⟨l, hl, hlne⟩ := hne _ hP
    have hmem : l ∈ lines ("\n\n".toList.intercalate (t :: ts)) := by
      rw [lines_intercalate (List.cons_ne_nil _ _)]
      exact mem_intercalate_cons hl _
    rw [hnil] at hmem
    exact hlne (List.mem_singleton.mp hmem)
  match ts, us with
  | [], [] => rfl
  | [], u :: us => exact absurd h.symm (hcons (hu u List.mem_cons_self))
  | t :: ts, [] => exact absurd h (hcons (ht t List.mem_cons_self))
  | t :: ts, u :: us =>
    have hl := congrArg lines h
    rw [lines_intercalate (List.cons_ne_nil _ _), lines_intercalate (List.cons_ne_nil _ _)] at hl
    obtain ⟨hmap, -⟩ := intercalate_inj (by simp) rfl hcode (by simp) (by simp)
      (List.forall_mem_map.mpr ht) (List.forall_mem_map.mpr hu) hl
    exact List.map_inj_right (fun _ _ => lines_inj) |>.mp hmap

/-! ## Scanning indented texts -/

open Scanner

theorem scan_indentLine {s : Scanner} (hs : s.mode ≠ .escaped) :
    scan (fun _ => false) s (indentLine n l) = scan (fun _ => false) s l := by
  have hstep : step (fun _ => false) s ' ' = some s := by
    obtain ⟨due, mode⟩ := s
    cases mode with
    | outside => simp [step, bracket, closer?, isCloser]
    | quoted => rfl
    | escaped => contradiction
  have hblank : ∀ k, scan (fun _ => false) s (List.replicate k ' ') = some s := by
    intro k
    induction k with
    | zero => rfl
    | succ k ih => rw [List.replicate_succ, scan_cons, hstep, Option.bind_some, ih]
  unfold indentLine
  split
  · simp_all
  · rw [scan_append, hblank, Option.bind_some]

/-- Behind a line feed a scanner is not behind a backslash. -/
theorem mode_of_step_newline {s s' : Scanner} (h : step stops s '\n' = some s') :
    s'.mode ≠ .escaped := by
  obtain ⟨due, mode⟩ := s
  cases mode with
  | outside =>
    simp only [step, bracket] at h
    split at h
    · cases h
    · cases h
      simp
  | quoted | escaped =>
    cases h
    simp

theorem scan_unlines_indentLine {s : Scanner} (hs : s.mode ≠ .escaped) (ls : List (List Char)) :
    scan (fun _ => false) s (unlines (ls.map (indentLine n))) =
      scan (fun _ => false) s (unlines ls) := by
  unfold unlines
  induction ls generalizing s with
  | nil => rfl
  | cons l ls ih =>
    cases ls with
    | nil => simpa using scan_indentLine hs
    | cons l' ls =>
      simp only [List.map_cons, List.intercalate_cons_cons, List.append_assoc,
        List.singleton_append] at ih ⊢
      rw [scan_append, scan_append, scan_indentLine hs]
      refine Option.bind_congr fun s₁ _ => ?_
      rw [scan_cons, scan_cons]
      refine Option.bind_congr fun s₂ h₂ => ?_
      exact ih (mode_of_step_newline h₂)

theorem closed_indent {t : String} (h : Closed t.toList) : Closed (indent n t).toList := by
  unfold Closed Sealed indent
  rw [String.toList_ofList, scan_unlines_indentLine (by decide), unlines_lines]
  exact h

end AccessRules.Indentation
