import AccessRules.Proofs.Lexical.Failure
import AccessRules.Proofs.Path.Spelling

/-! Where the reader of paths fails. Text that starts with no identifier is refused at its start. Any
other text that is refused starts with a path, the reader takes the longest one, and what stands behind
it settles where in it the failure is placed and what was expected there (`Path.stop`). Nothing in
front of that place is a line feed, so a report of more lines is about the first one. -/

namespace AccessRules.Path

/-! ## Segments that stand first -/

theorem ident?_eq_none_iff : ident? s = none ↔ ¬∃ name, isIdent name ∧ name <+: s := by
  constructor
  · rintro h ⟨name, hname, u, rfl⟩
    cases name with
    | nil => cases hname
    | cons c cs =>
      rw [List.cons_append, ident?, if_pos (Bool.and_eq_true_iff.mp hname).1] at h
      cases h
  · intro h
    apply Option.eq_none_iff_forall_ne_some.mpr
    rintro ⟨name, rest⟩ hi
    exact h ⟨name, isIdent_of_ident? hi, rest, append_of_ident? hi⟩

theorem head_of_ident? (h : ident? s = some (name, rest)) : ∀ c ∈ rest.head?, isIdentRest c = false := by
  cases s with
  | nil => cases h
  | cons d ds =>
    simp only [ident?] at h
    split at h <;> cases h
    intro c hc
    have hnot := List.head?_dropWhile_not isIdentRest ds
    rw [hc] at hnot
    simpa using hnot

/-- The place and the reason of a failure in an index with these digits. -/
def indexStop (digits : List Char) : Failure :=
  if digits = [] then ⟨1, .expected .index⟩
  else if indexBound ≤ Nat.ofDigitChars 10 digits 0 then ⟨1, .indexTooLarge⟩
  else ⟨1 + digits.length, .expected .index⟩

/-- Where no segment stands first, the place in the text and the reason of the failure. -/
def stop : List Char → Failure
  | '.' :: _ => ⟨1, .expected .fieldName⟩
  | '[' :: r => indexStop (r.takeWhile Char.isDigit)
  | _ => ⟨0, .unexpected⟩

theorem indexStop_offset_le (digits : List Char) : (indexStop digits).offset ≤ digits.length + 1 := by
  unfold indexStop
  split
  · exact Nat.le_add_left _ _
  · split
    · exact Nat.le_add_left _ _
    · exact Nat.le_of_eq (Nat.add_comm _ _)

theorem stop_other (hpoint : ∀ r, u ≠ '.' :: r) (hopen : ∀ r, u ≠ '[' :: r) :
    stop u = ⟨0, .unexpected⟩ := by
  unfold stop
  split
  · exact absurd rfl (hpoint _)
  · exact absurd rfl (hopen _)
  · rfl

namespace Segment.Spelled

/-- Two segments with text behind them, one of which is the start of the other. Where they differ, both
are fields and the shorter one has nothing behind it. -/
theorem prefix_cases (h : Spelled s t) (h' : Spelled s' t')
    (hu : t.head? = some '.' → ∀ c ∈ u.head?, isIdentRest c = false)
    (hu' : ∀ c ∈ u'.head?, isIdentRest c = false) (hpre : t' ++ u' <+: t ++ u) :
    t' = t ∧ u' <+: u ∨ u' = [] ∧ t' <+: t := by
  cases h with
  | field hn =>
    cases h' with
    | field hn' =>
      obtain ⟨rfl, hrest⟩ | ⟨rfl, hname⟩ := span_prefix (fun c hc => isIdentRest_of_mem hn hc)
        (fun c hc => isIdentRest_of_mem hn' hc) (hu rfl) hu' (List.cons_prefix_cons.mp hpre).2
      · exact .inl ⟨rfl, hrest⟩
      · exact .inr ⟨rfl, List.cons_prefix_cons.mpr ⟨rfl, hname⟩⟩
    | index _ _ _ | call => cases (List.cons_prefix_cons.mp hpre).1
  | index hne hd _ =>
    cases h' with
    | index hne' hd' _ =>
      obtain ⟨w, hw⟩ := hpre
      simp only [List.cons_append, List.append_assoc, List.nil_append, List.cons.injEq,
        true_and] at hw
      obtain ⟨rfl, hrest⟩ := cut_inj (notMem_of_isDigit hd') (notMem_of_isDigit hd) hw
      exact .inl ⟨rfl, w, hrest⟩
    | field _ | call => cases (List.cons_prefix_cons.mp hpre).1
  | call =>
    cases h' with
    | call => exact .inl ⟨rfl, (List.prefix_append_right_inj _).mp hpre⟩
    | field _ | index _ _ _ => cases (List.cons_prefix_cons.mp hpre).1

theorem ident?_ne_none (h : Spelled s t) (heq : t ++ u = '.' :: r) : ident? r ≠ none := by
  cases h with
  | @field name hn =>
    rw [Ne, ident?_eq_none_iff, not_not]
    exact ⟨name, hn, u, (List.cons.inj heq).2⟩
  | index _ _ _ | call => cases heq

theorem digits_of_eq (h : Spelled s t) (heq : t ++ u = '[' :: r) :
    r.takeWhile Char.isDigit ≠ [] ∧ Nat.ofDigitChars 10 (r.takeWhile Char.isDigit) 0 < indexBound ∧
      r.dropWhile Char.isDigit = ']' :: u := by
  cases h with
  | @index digits hne hd hlt =>
    simp only [List.cons_append, List.append_assoc, List.nil_append, List.cons.injEq, true_and] at heq
    rw [← heq, takeWhile_append_stop hd (stop_cons rfl u), dropWhile_append_stop hd (stop_cons rfl u)]
    exact ⟨hne, hlt, rfl⟩
  | field _ | call => cases heq

end Segment.Spelled

/-! ## Segments up to the failure -/

/-- The failure behind the longest start that is spelled, where the text is read from an offset. -/
def Stops (offset : Nat) (s : List Char) (f : Failure) : Prop :=
  ∃ t u, s = t ++ u ∧ Longest (fun t => ∃ segs, SegmentsSpelled segs t) t u ∧
    f = ⟨offset + t.length + (stop u).offset, (stop u).reason⟩

namespace Stops

theorem of_no_segment (h : ∀ s t u, Segment.Spelled s t → t ++ u ≠ v)
    (hf : f = ⟨offset + (stop v).offset, (stop v).reason⟩) : Stops offset v f := by
  refine ⟨[], v, rfl, ⟨⟨[], .nil⟩, ?_⟩, hf⟩
  rintro t' ⟨segs, hsegs⟩ ⟨w, hw⟩
  cases hsegs with
  | nil => exact Nat.le_refl _
  | @cons s t segs u hs _ =>
    rw [List.append_assoc] at hw
    exact absurd hw (h s t (u ++ w) hs)

/-- A segment in front is part of the longest start; a field is taken as far as it goes. -/
theorem append (hs : Segment.Spelled s t)
    (hv : t.head? = some '.' → ∀ c ∈ v.head?, isIdentRest c = false)
    (h : Stops (offset + t.length) v f) : Stops offset (t ++ v) f := by
  obtain ⟨u, w, rfl, hlongest, rfl⟩ := h
  obtain ⟨segs, hsegs⟩ := hlongest.holds
  refine ⟨t ++ u, w, (List.append_assoc _ _ _).symm,
    hlongest.append ⟨s :: segs, .cons hs hsegs⟩ ?_, ?_⟩
  · rintro t' ⟨segs', hsegs'⟩ hpre
    cases hsegs' with
    | nil => exact .inr List.nil_prefix
    | @cons s' t' segs' u' hs' hmore =>
      obtain ⟨rfl, hrest⟩ | ⟨rfl, hfirst⟩ := hs.prefix_cases hs' hv hmore.head hpre
      · exact .inl ⟨u', rfl, ⟨segs', hmore⟩, hrest⟩
      · rw [List.append_nil]
        exact .inr hfirst
  · rw [List.length_append, Nat.add_assoc offset]

end Stops

/-- No field starts with another character, so what follows does not matter. -/
theorem not_field {P : Prop} {c : Char} (hc : c ≠ '.') (h : (c :: t).head? = some '.') : P :=
  absurd (Option.some.inj h) hc

theorem error_of_map {ε α β : Type} {g : α → β} {x : Except ε α} {e : ε}
    (h : g <$> x = .error e) : x = .error e := by
  cases x with
  | error e' => exact congrArg _ (Except.error.inj h)
  | ok a => cases h

/-- A run that fails has taken the longest start that is spelled. -/
theorem stops_of_segments (h : segments offset s = .error f) : Stops offset s f := by
  -- A branch that goes on has a segment in front, and in one that fails none can stand there.
  fun_induction segments offset s generalizing f with
  | case1 => cases h
  | case2 offset r hr =>
    cases h
    exact .of_no_segment (fun s t u hs heq => hs.ident?_ne_none heq hr) rfl
  | case3 offset r name rest hr _ ih =>
    have hrest := ih (error_of_map h)
    rw [Nat.add_assoc, Nat.add_comm 1] at hrest
    rw [← append_of_ident? hr]
    exact .append (.field (isIdent_of_ident? hr)) (fun _ => head_of_ident? hr) hrest
  | case4 offset r digits =>
    rename_i hnil
    have hstop : stop ('[' :: r) = ⟨1, .expected .index⟩ := if_pos hnil
    cases h
    refine .of_no_segment (fun s t u hs heq => (hs.digits_of_eq heq).1 hnil) ?_
    rw [hstop]
  | case5 offset r digits n hne =>
    rename_i hle
    have hstop : stop ('[' :: r) = ⟨1, .indexTooLarge⟩ := (if_neg hne).trans (if_pos hle)
    cases h
    refine .of_no_segment (fun s t u hs heq => Nat.not_lt_of_le hle (hs.digits_of_eq heq).2.1) ?_
    rw [hstop]
  | case6 offset r digits n hne hlt rest hr _ =>
    rename_i ih
    have hlength : ('[' :: (digits ++ [']'])).length = digits.length + 2 := by
      rw [List.length_cons, List.length_append, List.length_singleton]
    have hrest := ih (error_of_map h)
    rw [Nat.add_assoc, ← hlength] at hrest
    rw [← append_of_index hr]
    have hdigits : ∀ c ∈ digits, c.isDigit := fun c => List.mem_takeWhile_imp
    exact .append (.index hne hdigits (Nat.lt_of_not_le hlt)) (not_field (by decide)) hrest
  | case7 offset r digits n hne hlt =>
    rename_i hr
    have hstop : stop ('[' :: r) = ⟨1 + digits.length, .expected .index⟩ :=
      (if_neg hne).trans (if_neg hlt)
    cases h
    refine .of_no_segment (fun s t u hs heq => hr u (hs.digits_of_eq heq).2.2) ?_
    rw [hstop, Nat.add_assoc]
  | case8 offset rest ih =>
    exact .append (t := ['(', ')']) .call (not_field (by decide)) (ih (error_of_map h))
  | case9 offset s hnil hpoint hopen hcall =>
    cases h
    refine .of_no_segment (fun s t u hs heq => ?_) ?_
    · cases hs with
      | field hn => exact hpoint _ heq.symm
      | index _ _ _ => exact hopen _ heq.symm
      | call => exact hcall _ heq.symm
    · rw [stop_other hpoint hopen, Nat.add_zero]

/-! ## Paths up to the failure -/

theorem read_unrooted (h : ¬∃ name, isIdent name ∧ name <+: s) :
    read s = .error ⟨0, .expected .root⟩ := by
  rw [read, ident?_eq_none_iff.mpr h]

theorem exists_longest_of_read (h : read s = .error f) (hs : ∃ name, isIdent name ∧ name <+: s) :
    ∃ t u, s = t ++ u ∧ Longest (fun t => ∃ root segs, Spelled root segs t) t u ∧
      f = ⟨t.length + (stop u).offset, (stop u).reason⟩ := by
  rw [read] at h
  split at h
  · rename_i hi
    exact absurd hs (ident?_eq_none_iff.mp hi)
  · rename_i root rest hi
    obtain ⟨t, u, rfl, hlongest, rfl⟩ := stops_of_segments (error_of_map h)
    obtain ⟨segs, hsegs⟩ := hlongest.holds
    have hroot := isIdent_of_ident? hi
    refine ⟨root ++ t, u, ?_, hlongest.append ⟨_, segs, .intro hroot hsegs⟩ ?_, ?_⟩
    · rw [List.append_assoc, append_of_ident? hi]
    · rintro t' ⟨root', segs', hspelled⟩ hpre
      cases hspelled with
      | @intro name _ more hname hmore =>
        obtain ⟨rfl, hrest⟩ | ⟨rfl, hfirst⟩ := span_prefix (fun c hc => isIdentRest_of_mem hroot hc)
          (fun c hc => isIdentRest_of_mem hname hc) (head_of_ident? hi) hmore.head hpre
        · exact .inl ⟨more, rfl, ⟨segs', hmore⟩, hrest⟩
        · rw [List.append_nil]
          exact .inr hfirst
    · rw [List.length_append]

theorem exists_parse_iff_spelled {t : List Char} :
    (∃ p, parse (String.ofList t) = .ok p) ↔ ∃ root segs, Spelled root segs t := by
  constructor
  · rintro ⟨p, hp⟩
    obtain ⟨root, segs, hs, -⟩ := spelled_of_parse hp
    rw [String.toList_ofList] at hs
    exact ⟨root, segs, hs⟩
  · rintro ⟨root, segs, hs⟩
    rw [← String.toList_ofList (l := t)] at hs
    exact ⟨_, parse_of_spelled hs⟩

/-! ## What stands in front of the failure -/

theorem toNat_lt_of_isAlphanum {c : Char} (h : c.isAlphanum) : c.toNat < 128 := by
  obtain hletter | hdigit := Bool.or_eq_true_iff.mp h
  · obtain hupper | hlower := Bool.or_eq_true_iff.mp hletter
    · have hle : c.toNat ≤ 'Z'.toNat := (of_decide_eq_true hupper).2
      exact Nat.lt_of_le_of_lt hle (by decide)
    · have hle : c.toNat ≤ 'z'.toNat := of_decide_eq_true (Bool.and_eq_true_iff.mp hlower).2
      exact Nat.lt_of_le_of_lt hle (by decide)
  · exact Nat.lt_of_le_of_lt (Char.isDigit_iff_toNat.mp hdigit).2 (by decide)

theorem toNat_lt_of_isIdentRest (h : isIdentRest c) : c.toNat < 128 := by
  simp only [isIdentRest, Bool.or_eq_true, beq_iff_eq] at h
  obtain (h | rfl) | rfl := h
  · exact toNat_lt_of_isAlphanum h
  · decide
  · decide

theorem ascii_of_mem (h : isIdentRest c ∨ c ∈ ".[]()".toList) : c.toNat < 128 ∧ c ≠ '\n' := by
  obtain h | h := h
  · refine ⟨toNat_lt_of_isIdentRest h, ?_⟩
    rintro rfl
    cases h
  · have hall : ".[]()".toList.all (fun c => decide (c.toNat < 128) && c != '\n') = true := by rfl
    simpa using List.all_eq_true.mp hall c h

theorem of_mem_take_stop {u : List Char} (h : c ∈ u.take (stop u).offset) :
    isIdentRest c ∨ c ∈ ".[]()".toList := by
  by_cases hpoint : ∃ r, u = '.' :: r
  · obtain ⟨r, rfl⟩ := hpoint
    exact .inr (List.mem_append_left "[]()".toList h)
  by_cases hopen : ∃ r, u = '[' :: r
  · obtain ⟨r, rfl⟩ := hopen
    have hmem := List.take_subset_take_left _ (indexStop_offset_le _) h
    rw [List.take_succ_cons, ← List.prefix_iff_eq_take.mp (List.takeWhile_prefix _)] at hmem
    obtain rfl | hmem := List.mem_cons.mp hmem
    · exact .inr (by decide)
    · have hdigit := List.mem_takeWhile_imp hmem
      exact .inl (by simp [isIdentRest, Char.isAlphanum, hdigit])
  · rw [stop_other (not_exists.mp hpoint) (not_exists.mp hopen)] at h
    cases h

theorem ascii_of_read (h : read s = .error f) : ∀ c ∈ s.take f.offset, c.toNat < 128 ∧ c ≠ '\n' := by
  intro c hc
  by_cases hroot : ∃ name, isIdent name ∧ name <+: s
  · obtain ⟨t, u, rfl, hlongest, rfl⟩ := exists_longest_of_read h hroot
    rw [List.take_length_add_append] at hc
    rcases List.mem_append.mp hc with hc | hc
    · obtain ⟨p, hp⟩ := exists_parse_iff_spelled.mpr hlongest.holds
      obtain ⟨d, hd⟩ := Spelling.exists_of_parse hp
      rw [← String.toList_ofList (l := t), ← hd] at hc
      exact ascii_of_mem (d.isIdentRest_or_of_mem hc)
    · exact ascii_of_mem (of_mem_take_stop hc)
  · rw [read_unrooted hroot] at h
    cases h
    cases hc

theorem parse_eq_mapError (s : String) :
    parse s = ((fun r => ofSegments r.1 r.2) <$> read s.toList).mapError (.malformed s) := by
  unfold parse
  cases read s.toList <;> rfl

/-- A text that is refused without an identifier in front is marked at its start. Any other one is
marked by what stands behind its longest start that is read: behind a point, at an index of `2 ^ 64` or
more, behind the digits of one that is not closed, or right there. All in front of the mark is on the
first line. -/
theorem failure_of_parse (s : String) (e : ParseError) (h : parse s = .error e) :
    ∃ f, e = .malformed s f ∧
      ((¬∃ name, isIdent name ∧ name <+: s.toList) →
        f.offset = 0 ∧ f.reason.detail = "expected root") ∧
      ((∃ name, isIdent name ∧ name <+: s.toList) →
        ∃ t u, s.toList = t ++ u ∧ Longest (fun t => ∃ p, parse (String.ofList t) = .ok p) t u ∧
          (∀ r, u = '.' :: r →
            f.offset = t.length + 1 ∧ f.reason.detail = "expected field name") ∧
          (∀ digits r, u = '[' :: (digits ++ r) → (∀ c ∈ digits, c.isDigit) →
            (∀ c ∈ r.head?, c.isDigit = false) →
            (digits = [] → f.offset = t.length + 1 ∧ f.reason.detail = "expected index") ∧
            (digits ≠ [] → UInt64.size ≤ Nat.ofDigitChars 10 digits 0 → f.offset = t.length + 1 ∧
              f.reason.detail = "expected index\nnumber too large to fit in target type") ∧
            (digits ≠ [] → Nat.ofDigitChars 10 digits 0 < UInt64.size →
              f.offset = t.length + 1 + digits.length ∧ f.reason.detail = "expected index")) ∧
          ((∀ r, u ≠ '.' :: r) → (∀ r, u ≠ '[' :: r) →
            f.offset = t.length ∧ f.reason.detail = "")) ∧
      (∀ c ∈ s.toList.take f.offset, c.toNat < 128 ∧ c ≠ '\n') ∧
      ('\n' ∈ s.toList → f.report s =
        "parse error at line 1, column " ++ (f.offset + 1).repr ++ "\n  |\n1 | " ++
          String.ofList (s.toList.takeWhile (· != '\n')) ++ "\n  | " ++ Failure.spaces f.offset ++
          "^\n" ++ f.reason.detail) := by
  rw [parse_eq_mapError] at h
  obtain ⟨f, hmap, rfl⟩ := exists_error_of_mapError h
  have hread := error_of_map hmap
  have hascii := ascii_of_read hread
  have hline : '\n' ∉ s.toList.take f.offset := fun hmem => (hascii _ hmem).2 rfl
  refine ⟨f, rfl, ?_, ?_, hascii, fun hmem => Failure.report_of_notMem hmem hline⟩
  · intro hroot
    rw [read_unrooted hroot] at hread
    cases hread
    exact ⟨rfl, rfl⟩
  · intro hroot
    obtain ⟨t, u, heq, hlongest, rfl⟩ := exists_longest_of_read hread hroot
    refine ⟨t, u, heq, hlongest.congr fun t => exists_parse_iff_spelled.symm, ?_, ?_, ?_⟩
    · rintro r rfl
      exact ⟨rfl, rfl⟩
    · rintro digits r rfl hd hr
      rw [stop, takeWhile_append_stop hd hr, indexStop]
      have hbound : indexBound = UInt64.size := rfl
      refine ⟨fun hnil => ?_, fun hne hle => ?_, fun hne hlt => ?_⟩
      · rw [if_pos hnil]
        exact ⟨rfl, rfl⟩
      · rw [if_neg hne, hbound, if_pos hle]
        exact ⟨rfl, rfl⟩
      · rw [if_neg hne, hbound, if_neg (Nat.not_le_of_lt hlt)]
        exact ⟨(Nat.add_assoc _ _ _).symm, rfl⟩
    · intro hpoint hopen
      rw [stop_other hpoint hopen]
      exact ⟨rfl, rfl⟩

/-- The least index that is too large, in the first of two lines. -/
theorem failure_of_parse_overflow :
    let s := "ab[18446744073709551616]\n"
    parse s = .error (.malformed s ⟨3, .indexTooLarge⟩) ∧
      ∃ f, ParseError.malformed s ⟨3, .indexTooLarge⟩ = .malformed s f ∧
        (∀ c ∈ s.toList.take f.offset, c.toNat < 128 ∧ c ≠ '\n') ∧
        f.report s = "parse error at line 1, column 4\n  |\n1 | ab[18446744073709551616]\n  |    ^\n" ++
          "expected index\nnumber too large to fit in target type" := by
  intro s
  have hsegments : segments 2 "[18446744073709551616]\n".toList = .error ⟨3, .indexTooLarge⟩ := by
    change segments 2 ('[' :: "18446744073709551616]\n".toList) = _
    rw [segments]
    exact (if_neg (by decide)).trans (if_pos (by decide))
  have hread : read s.toList = .error ⟨3, .indexTooLarge⟩ := by
    have hident : ident? s.toList = some ("ab".toList, "[18446744073709551616]\n".toList) := by decide
    simp only [read, hident]
    exact congrArg _ hsegments
  have hparse : parse s = .error (.malformed s ⟨3, .indexTooLarge⟩) := by
    rw [parse, hread]
  obtain ⟨f, heq, -, -, hascii, hreport⟩ := failure_of_parse s _ hparse
  refine ⟨hparse, f, heq, hascii, ?_⟩
  cases heq
  rw [hreport (by decide)]
  decide +kernel

end AccessRules.Path
