import Mathlib.Data.List.Infix
import AccessRules.ParseError
import AccessRules.Proofs.Lexical.Code

/-! Where readers fail. A failure is placed behind the longest start of the text that the reader accepts
(`Longest`), of which there is one at most. The report shows it on the first line if no line feed stands
in front of it (`Failure.report_of_notMem`). -/

namespace AccessRules

variable {α : Type}

/-- Of all starts of `t ++ u` that have a property, `t` is the longest. -/
structure Longest (P : List α → Prop) (t u : List α) : Prop where
  holds : P t
  length_le : ∀ t', P t' → t' <+: t ++ u → t'.length ≤ t.length

theorem Longest.unique {P : List α → Prop} {t u t' u' : List α} (h : Longest P t u)
    (h' : Longest P t' u') (heq : t ++ u = t' ++ u') : t = t' ∧ u = u' := by
  have hle : t.length ≤ t'.length := h'.length_le t h.holds ⟨u, heq⟩
  have hge : t'.length ≤ t.length := h.length_le t' h'.holds ⟨u', heq.symm⟩
  exact List.append_inj heq (Nat.le_antisymm hle hge)

theorem Longest.congr {P Q : List α → Prop} {t u : List α} (hPQ : ∀ t, P t ↔ Q t) (h : Longest P t u) :
    Longest Q t u :=
  ⟨(hPQ t).mp h.holds, fun t' ht' => h.length_le t' ((hPQ t').mpr ht')⟩

/-- The longest start goes on with the longest one behind a part that each other start goes through or
ends in. -/
theorem Longest.append {P Q : List α → Prop} {t u v : List α} (h : Longest P u v) (hQ : Q (t ++ u))
    (hcases : ∀ t', Q t' → t' <+: t ++ (u ++ v) →
      (∃ u', t' = t ++ u' ∧ P u' ∧ u' <+: u ++ v) ∨ t' <+: t) : Longest Q (t ++ u) v := by
  refine ⟨hQ, fun t' ht' hpre => ?_⟩
  rw [List.append_assoc] at hpre
  rw [List.length_append]
  obtain ⟨u', rfl, hu', hrest⟩ | hfirst := hcases t' ht' hpre
  · rw [List.length_append]
    exact Nat.add_le_add_left (h.length_le u' hu' hrest) _
  · exact Nat.le_trans hfirst.length_le (Nat.le_add_right _ _)

/-- A text that starts with members of one kind and goes on with the other kind, if it goes on at all,
starts another such text only as far as these members go. -/
theorem span_prefix {p : α → Bool} {t t' u u' : List α} (ht : ∀ a ∈ t, p a) (ht' : ∀ a ∈ t', p a)
    (hu : ∀ a ∈ u.head?, p a = false) (hu' : ∀ a ∈ u'.head?, p a = false) (h : t' ++ u' <+: t ++ u) :
    t' = t ∧ u' <+: u ∨ u' = [] ∧ t' <+: t := by
  obtain ⟨w, hw⟩ := h
  rw [List.append_assoc] at hw
  cases u' with
  | nil =>
    refine .inr ⟨rfl, ?_⟩
    have htake := congrArg (List.takeWhile p) hw
    rw [List.nil_append, List.takeWhile_append_of_pos ht', takeWhile_append_stop ht hu] at htake
    exact ⟨_, htake⟩
  | cons a u' =>
    obtain ⟨rfl, hrest⟩ := span_inj ht' ht (by simpa using hu') hu hw
    exact .inl ⟨rfl, w, hrest⟩

/-- A reader that hands its errors on in a report has failed with the one that is reported. -/
theorem exists_error_of_mapError {ε δ : Type} {x : Except ε α} {g : ε → δ} {e : δ}
    (h : x.mapError g = .error e) : ∃ f, x = .error f ∧ e = g f := by
  cases x with
  | error f => exact ⟨f, rfl, (Except.error.inj h).symm⟩
  | ok a => cases h

namespace Failure
variable {f : Failure} {input : List Char}

theorem before_eq_take (h : f.offset < input.length) : f.before input = input.take f.offset := by
  rw [before, Nat.min_eq_left (Nat.le_sub_one_of_lt h)]

theorem lineIndex_eq_zero (hlt : f.offset < input.length) (h : '\n' ∉ input.take f.offset) :
    f.lineIndex input = 0 := by
  rw [lineIndex, before_eq_take hlt, List.count_eq_zero.mpr h]

theorem column_eq_offset (hlt : f.offset < input.length) (h : '\n' ∉ input.take f.offset) :
    f.column input = f.offset := by
  have hline : ∀ c ∈ (input.take f.offset).reverse, c != '\n' := by
    intro c hc
    rw [bne_iff_ne]
    exact ne_of_mem_of_not_mem (List.mem_reverse.mp hc) h
  have htake : (input.take f.offset).reverse.takeWhile (· != '\n') = (input.take f.offset).reverse := by
    have hnil := takeWhile_append_stop (u := []) hline nofun
    rwa [List.append_nil] at hnil
  simp only [column, before_eq_take hlt, htake, List.length_reverse, Nat.sub_self, Nat.sub_zero]

/-- The report of a failure with no line feed in front of it. -/
theorem report_of_notMem {input : String} (hmem : '\n' ∈ input.toList)
    (h : '\n' ∉ input.toList.take f.offset) :
    f.report input = "parse error at line 1, column " ++ (f.offset + 1).repr ++ "\n  |\n1 | " ++
      String.ofList (input.toList.takeWhile (· != '\n')) ++ "\n  | " ++ spaces f.offset ++ "^\n" ++
      f.reason.detail := by
  have hlt : f.offset < input.toList.length := by
    apply Nat.lt_of_not_le
    intro hle
    rw [List.take_of_length_le hle] at h
    exact h hmem
  have hfirst : (input.toList.splitOn '\n').getD 0 [] = input.toList.takeWhile (· != '\n') := by
    obtain ⟨first, rest, hcut, hnone⟩ := List.eq_append_cons_of_mem hmem
    have hline : ∀ c ∈ first, c != '\n' := by
      intro c hc
      rw [bne_iff_ne]
      exact ne_of_mem_of_not_mem hc hnone
    rw [hcut, List.splitOn_append_cons_self, List.splitOn_eq_singleton hnone,
      takeWhile_append_stop hline (stop_cons rfl rest)]
    rfl
  have hnumber : (0 + 1).repr = "1" := rfl
  have hgutter : spaces "1".length = " " := rfl
  have hhead : "parse error at line " ++ ("1" ++ ", column ") = "parse error at line 1, column " := rfl
  have hrule : "\n" ++ (" " ++ (" |\n" ++ ("1" ++ " | "))) = "\n  |\n1 | " := rfl
  have hmark : "\n" ++ (" " ++ " | ") = "\n  | " := rfl
  have hblock : f.report input = f.blockReport input := if_pos hmem
  rw [hblock]
  unfold blockReport
  simp only [lineIndex_eq_zero hlt h, column_eq_offset hlt h, hfirst, hnumber]
  rw [hgutter]
  simp only [← hhead, ← hrule, ← hmark, String.append_assoc]

end Failure

end AccessRules
