import AccessRules.Proofs.Position.Span

/-! Conditions in documents. The text of the conditions stands behind their key, with the lines after its
first one moved to the right (`Document.render_of_mem`), so it stands there as it is just if these lines
are empty. Strings bring no lines into it, but bytes that are written with a line feed do, and are
changed (`Document.not_isInfix_of_bytes`). -/

namespace AccessRules

namespace Indentation

/-- A text that stands behind others on its line, with all other lines moved to the right. -/
def indentRest (levels : Nat) (text : String) : String :=
  match lines text.toList with
  | [] => ""
  | first :: rest => String.ofList (unlines (first :: rest.map (indentLine levels)))

theorem indentRest_eq (h : lines text.toList = first :: rest) :
    indentRest n text = String.ofList (unlines (first :: rest.map (indentLine n))) := by
  rw [indentRest, h]

theorem toList_indentRest (n : Nat) (text : String) :
    (indentRest n text).toList = indentFrom n false text.toList := by
  obtain ⟨first, rest, h⟩ := List.exists_cons_of_ne_nil (lines_ne_nil text.toList)
  rw [indentRest_eq h, String.toList_ofList, (unlines_indentLine n text.toList).2 first rest h]

theorem indentLine_eq_self_iff (hn : 0 < n) : indentLine n l = l ↔ l = [] := by
  unfold indentLine
  split
  next h => exact iff_of_true h.symm h
  next h =>
    refine iff_of_false (fun heq => h ?_) h
    have hlength := congrArg List.length heq
    rw [List.length_append, List.length_replicate] at hlength
    omega

/-- A text behind others stays as it is just if its other lines are empty. -/
theorem indentRest_eq_self_iff (hn : 0 < n) :
    indentRest n text = text ↔ ∀ l ∈ (lines text.toList).tail, l = [] := by
  obtain ⟨first, rest, h⟩ := List.exists_cons_of_ne_nil (lines_ne_nil text.toList)
  have hline : ∀ l ∈ first :: rest, '\n' ∉ l := fun l hl => not_mem_of_mem_lines (h ▸ hl)
  have hnewline : ∀ l ∈ first :: rest.map (indentLine n), '\n' ∉ l := by
    intro l hl
    obtain rfl | hl := List.mem_cons.mp hl
    · exact hline l List.mem_cons_self
    · obtain ⟨l', hl', rfl⟩ := List.mem_map.mp hl
      exact indentLine_not_mem (hline l' (List.mem_cons_of_mem _ hl'))
  have hlines : lines (indentRest n text).toList = first :: rest.map (indentLine n) := by
    rw [indentRest_eq h, String.toList_ofList]
    exact lines_unlines hnewline (List.cons_ne_nil _ _)
  calc indentRest n text = text
      ↔ lines (indentRest n text).toList = lines text.toList :=
        ⟨fun heq => by rw [heq], fun heq => String.toList_inj.mp (lines_inj heq)⟩
    _ ↔ rest.map (indentLine n) = rest.map id := by rw [hlines, h, List.cons_inj_right, List.map_id]
    _ ↔ ∀ l ∈ (lines text.toList).tail, l = [] := by
        rw [List.map_inj_left, h]
        exact forall₂_congr fun l _ => indentLine_eq_self_iff hn

theorem indentRest_of_notMem (hn : 0 < n) (h : '\n' ∉ text.toList) : indentRest n text = text := by
  rw [indentRest_eq_self_iff hn, lines_of_not_mem h]
  exact fun _ hl => absurd hl List.not_mem_nil

end Indentation

open Indentation

/-- The allowance of an entry stands in the document with the lines after its first one moved. -/
theorem Document.exists_allowance_eq {d : Document} {c : CollectionRules} {key : OperationKey}
    {rules : List Rule} (hc : c ∈ d.collections) (he : (key.text, rules) ∈ c.rules.entries) :
    ∃ pre post : String, d.render =
      pre ++ "allow " ++ key.text ++ ": if " ++ indentRest 2 (Rule.renderAll rules) ++ post := by
  obtain ⟨service, collections⟩ := d
  obtain ⟨before, after, rfl⟩ := List.append_of_mem hc
  obtain ⟨path, ⟨entries⟩⟩ := c
  obtain ⟨first, last, rfl⟩ := List.append_of_mem he
  obtain ⟨a, b, hdocument⟩ := exists_render_eq service before after
  obtain ⟨a', b', hblock⟩ := CollectionRules.exists_allowance_eq path key.text first last
  have hhead : '\n' ∉ ("allow " ++ key.text ++ ": if ").toList := by
    have K := Kept.inline
    simpa using K.append (K.lit "allow ") (K.append key.notMem_text.2 (K.lit ": if "))
  refine ⟨.ofList (a ++ indentFrom 2 true (a' ++ [' '])), .ofList ('\n' :: (indentFrom 2 true b' ++ b)),
    String.toList_inj.mp ?_⟩
  have hallowance : (CollectionRules.allowance key.text rules).toList =
      ("allow " ++ key.text ++ ": if ").toList ++ (Rule.renderAll rules).toList :=
    String.toList_append
  rw [hdocument, toList_indent, hblock, indentFrom_append_cons (by decide), hallowance,
    indentFrom_append_newline, indentFrom_of_notMem hhead, ← toList_indentRest]
  simp

/-- The conditions of every entry of every collection stand in the document behind their key, as they
are if nothing but the first of their lines holds anything. Among what can be built this fails only if
a text that is written as it stands has a line feed; strings never make it fail. -/
theorem Document.render_of_mem {d : Document} {c : CollectionRules} {key : OperationKey}
    {rules : List Rule} (hc : c ∈ d.collections) (he : (key.text, rules) ∈ c.rules.entries) :
    (∃ pre post : String, d.render =
      pre ++ "allow " ++ key.text ++ ": if " ++ indentRest 2 (Rule.renderAll rules) ++ post) ∧
    (indentRest 2 (Rule.renderAll rules) = Rule.renderAll rules ↔
      ∀ l ∈ (lines (Rule.renderAll rules).toList).tail, l = []) ∧
    ((∀ r ∈ rules, r.Built Inline) →
      indentRest 2 (Rule.renderAll rules) = Rule.renderAll rules) := by
  refine ⟨exists_allowance_eq hc he, indentRest_eq_self_iff (by decide), fun hrules => ?_⟩
  apply indentRest_of_notMem (by decide)
  exact Rule.kept_renderAll Kept.inline (by decide) fun r hr => (hrules r hr).inline

/-- The line feed in a string is escaped; that in bytes ends a line, and the next one is moved. -/
theorem Document.render_of_mem_bytes :
    let rule : Rule := .eq (Handle.bytes "a\nb").operand (.ofValue "c\nd")
    let key : OperationKey := ⟨[.read], by simp⟩
    let c : CollectionRules := (⟨"notes"⟩ : Collection .path).secure [.grant key [rule]]
    let d : Document := .ofActions [.collection c]
    c ∈ d.collections ∧ (key.text, [rule]) ∈ c.rules.entries ∧
      ∃ pre post : String,
        d.render = pre ++ "allow " ++ "read" ++ ": if " ++ "b'a\n    b' == \"c\\nd\"" ++ post := by
  intro rule key c d
  have hc : c ∈ d.collections := List.mem_singleton.mpr rfl
  have he : (key.text, [rule]) ∈ c.rules.entries := List.mem_singleton.mpr rfl
  have htext : indentRest 2 (Rule.renderAll [rule]) = "b'a\n    b' == \"c\\nd\"" := by decide +kernel
  obtain ⟨pre, post, hrender⟩ := (Document.render_of_mem hc he).1
  rw [htext] at hrender
  exact ⟨hc, he, pre, post, hrender⟩

/-- Bytes with a line feed do not stand in a document as they are. -/
theorem Document.not_isInfix_of_bytes :
    let rule : Rule := .eq (Handle.bytes "a\nb").operand (.ofValue (.int 1))
    let key : OperationKey := ⟨[.read], by simp⟩
    let c : CollectionRules := (⟨"notes"⟩ : Collection .path).secure [.grant key [rule]]
    let d : Document := .ofActions [.collection c]
    c ∈ d.collections ∧ (key.text, [rule]) ∈ c.rules.entries ∧
      ¬("allow " ++ key.text ++ ": if " ++ Rule.renderAll [rule]).toList <:+: d.render.toList := by
  intro rule key c d
  refine ⟨List.mem_singleton.mpr rfl, List.mem_singleton.mpr rfl, ?_⟩
  -- evaluated as characters, without the strings in between
  rw [render_eq]
  simp only [toList_indent]
  decide +kernel

end AccessRules
