import AccessRules.Proofs.Lexical.Code
import AccessRules.Proofs.Lexical.Digits
import AccessRules.Proofs.Path.Grammar

/-! What path text reads as. A text is read if and only if it can be cut into a root and parts that
are spelled as segments (`Path.Spelling`); it can then be cut in one way only
(`Path.Spelling.text_inj`), and the path has the same parts with the superfluous zeros of its indices
dropped (`Path.Spelling.parse_text`). Reading goes part by part: one part is a step of the reader
(`Path.segments_append`) and a run of the reader takes all of them (`Path.segments_of_spelled`). -/

namespace AccessRules.Path

/-! ## Reading what is spelled -/

theorem ident?_append (h : isIdent name) (hu : ∀ c ∈ u.head?, isIdentRest c = false) :
    ident? (name ++ u) = some (name, u) := by
  cases name with
  | nil => cases h
  | cons d ds =>
    obtain ⟨hd, hds⟩ := Bool.and_eq_true_iff.mp h
    have hds' := List.all_eq_true.mp hds
    simp only [List.cons_append, ident?, if_pos hd, takeWhile_append_stop hds' hu,
      dropWhile_append_stop hds' hu]

/-- Segments do not go on with an identifier in front of them. -/
theorem SegmentsSpelled.head (h : SegmentsSpelled segs u) : ∀ c ∈ u.head?, isIdentRest c = false := by
  cases h with
  | nil => exact fun c hc => nomatch hc
  | cons h _ =>
    cases h <;> exact stop_cons rfl _

/-- One segment is one step of the reader. -/
theorem segments_append (h : Segment.Spelled s t) (hu : ∀ c ∈ u.head?, isIdentRest c = false) :
    segments offset (t ++ u) = (s :: ·) <$> segments (offset + t.length) u := by
  cases h with
  | @field name h =>
    rw [List.cons_append, segments]
    split
    · rename_i hi
      rw [ident?_append h hu] at hi
      cases hi
    · rename_i hi
      rw [ident?_append h hu] at hi
      cases hi
      rw [List.length_cons, Nat.add_assoc, Nat.add_comm 1]
  | @index digits hne hd hlt =>
    have htake : (digits ++ ']' :: u).takeWhile Char.isDigit = digits :=
      takeWhile_append_stop hd (stop_cons rfl u)
    have hdrop : (digits ++ ']' :: u).dropWhile Char.isDigit = ']' :: u :=
      dropWhile_append_stop hd (stop_cons rfl u)
    rw [List.cons_append, List.append_assoc, List.singleton_append, segments]
    simp only [htake, if_neg hne, if_neg (Nat.not_le_of_lt hlt)]
    split
    · rename_i hr
      rw [hdrop] at hr
      cases hr
      simp [Nat.add_assoc]
    · rename_i hr
      exact absurd hdrop (hr u)
  | call =>
    rw [List.cons_append, List.cons_append, List.nil_append, segments]
    rfl

theorem segments_of_spelled (h : SegmentsSpelled segs t) : segments offset t = .ok segs := by
  induction h generalizing offset with
  | nil => rw [segments]
  | cons hs hsegs ih =>
    rw [segments_append hs hsegs.head, ih]
    rfl

theorem parse_of_spelled (h : Spelled root segs input.toList) :
    parse input = .ok (ofSegments root segs) := by
  have hread : read input.toList = .ok (root, segs) := by
    generalize input.toList = t at h
    cases h with
    | intro hr hs =>
      simp only [read, ident?_append hr hs.head, segments_of_spelled hs]
      rfl
  rw [parse, hread]

/-! ## Superfluous zeros -/

/-- Digits without the zeros in front of another digit. -/
def trimZeros : List Char → List Char
  | '0' :: c :: cs => if c.isDigit then trimZeros (c :: cs) else '0' :: c :: cs
  | cs => cs

theorem trimZeros_cons (h : c ≠ '0') : trimZeros (c :: cs) = c :: cs := by
  unfold trimZeros
  split
  · rename_i heq
    exact absurd (List.cons.inj heq).1 h
  · rfl

theorem trimZeros_append (hne : digits ≠ []) (hd : ∀ c ∈ digits, c.isDigit) :
    trimZeros (digits ++ [']']) = Nat.toDigits 10 (Nat.ofDigitChars 10 digits 0) ++ [']'] := by
  induction digits with
  | nil => exact absurd rfl hne
  | cons c cs ih =>
    have hcs : ∀ c ∈ cs, c.isDigit := fun c hc => hd c (List.mem_cons_of_mem _ hc)
    obtain ⟨d, hlt, rfl⟩ := exists_digitChar (hd c List.mem_cons_self)
    rw [Nat.ofDigitChars_cons_digitChar_of_lt_ten hlt, Nat.mul_zero, Nat.zero_add]
    -- A zero in front is dropped; from the first other digit on nothing is.
    cases d with
    | zero =>
      cases cs with
      | nil => rfl
      | cons c' cs =>
        rw [← ih (List.cons_ne_nil _ _) hcs]
        exact if_pos (hcs c' List.mem_cons_self)
    | succ d =>
      rw [toDigits_ofDigitChars d.succ_pos hcs, Nat.toDigits_of_lt_base hlt, List.cons_append,
        trimZeros_cons (by simp)]
      rfl

/-- The text of a segment without superfluous zeros. -/
def canonicalPart : List Char → List Char
  | '[' :: r => '[' :: trimZeros r
  | t => t

/-! ## Parts -/

theorem isDigit_of_isIdentStart (h : isIdentStart c) : c.isDigit = false := by
  have hdigit : ∀ d < 10, isIdentStart (Nat.digitChar d) = false := by decide
  refine Bool.eq_false_iff.mpr fun hc => ?_
  obtain ⟨d, hlt, rfl⟩ := exists_digitChar hc
  rw [hdigit d hlt] at h
  cases h

theorem isIndexName_of_isIdent (h : isIdent name) : isIndexName (String.ofList name) = false := by
  cases name with
  | nil => cases h
  | cons c cs =>
    have hc := isDigit_of_isIdentStart (Bool.and_eq_true_iff.mp h).1
    simp [isIndexName, hc]

/-- Digits stop in front of the bracket that closes an index. -/
theorem notMem_of_isDigit {digits : List Char} (h : ∀ c ∈ digits, c.isDigit) : ']' ∉ digits :=
  fun hm => absurd (h _ hm) (by decide)

namespace Segment.Spelled

theorem canonical (h : Spelled s t) : Spelled s (canonicalPart t) := by
  cases h with
  | field h => exact .field h
  | @index digits hne hd hlt =>
    have hindex := @Spelled.index (Nat.toDigits 10 (Nat.ofDigitChars 10 digits 0))
      Nat.toDigits_ne_nil fun c hc => Nat.isDigit_of_mem_toDigits (by decide) (by decide) hc
    rw [Nat.ofDigitChars_ten_toDigits] at hindex
    rw [canonicalPart, trimZeros_append hne hd]
    exact hindex hlt
  | call => exact .call

theorem text_append (h : Spelled s t) (p : Path) :
    (append p s).text.toList = p.text.toList ++ canonicalPart t := by
  cases h with
  | field h => simp [append, Path.field, isIndexName_of_isIdent h, canonicalPart]
  | index hne hd _ => simp [append, Path.index, canonicalPart, trimZeros_append hne hd]
  | call => simp [append, Path.call, canonicalPart]

theorem append_inj (h : Spelled s t) (h' : Spelled s' t')
    (hu : ∀ c ∈ u.head?, isIdentRest c = false) (hu' : ∀ c ∈ u'.head?, isIdentRest c = false)
    (heq : t ++ u = t' ++ u') : t = t' ∧ u = u' := by
  cases h with
  | field hn =>
    cases h' with
    | field hn' =>
      obtain ⟨rfl, rfl⟩ := span_inj (fun c hc => isIdentRest_of_mem hn hc)
        (fun c hc => isIdentRest_of_mem hn' hc) hu hu' (List.cons.inj heq).2
      exact ⟨rfl, rfl⟩
    | index _ _ _ | call => cases heq
  | index hne hd _ =>
    cases h' with
    | index hne' hd' _ =>
      simp only [List.cons_append, List.append_assoc, List.nil_append, List.cons.injEq,
        true_and] at heq
      obtain ⟨rfl, rfl⟩ := cut_inj (notMem_of_isDigit hd) (notMem_of_isDigit hd') heq
      exact ⟨rfl, rfl⟩
    | field _ | call => cases heq
  | call =>
    cases h' with
    | call => exact ⟨rfl, List.append_cancel_left heq⟩
    | field _ | index _ _ _ => cases heq

theorem ne_nil (h : Spelled s t) : t ≠ [] := by
  cases h <;> exact List.cons_ne_nil _ _

theorem isIdentRest_or_of_mem (h : Spelled s t) (hc : c ∈ t) :
    isIdentRest c ∨ c ∈ ".[]()".toList := by
  cases h with
  | field hn =>
    rcases List.mem_cons.mp hc with rfl | hc
    · exact .inr (by decide)
    · exact .inl (isIdentRest_of_mem hn hc)
  | index _ hd _ =>
    simp only [List.mem_cons, List.mem_append, List.not_mem_nil, or_false] at hc
    rcases hc with rfl | hc | rfl
    · exact .inr (by decide)
    · exact .inl (by simp [isIdentRest, Char.isAlphanum, hd c hc])
    · exact .inr (by decide)
  | call => exact .inr (List.mem_append_right ".[]".toList hc)

end Segment.Spelled

/-- Text that spells a segment. -/
def IsPart (t : List Char) : Prop :=
  ∃ s, Segment.Spelled s t

/-- Parts spell segments, and so they do without superfluous zeros; those segments write the latter
behind any path. -/
theorem exists_segments {parts : List (List Char)} (h : ∀ t ∈ parts, IsPart t) :
    ∃ segs, SegmentsSpelled segs parts.flatten ∧
      SegmentsSpelled segs (parts.map canonicalPart).flatten ∧
      ∀ p : Path, (segs.foldl append p).text.toList =
        p.text.toList ++ (parts.map canonicalPart).flatten := by
  induction parts with
  | nil => exact ⟨[], .nil, .nil, fun p => by simp⟩
  | cons t ts ih =>
    obtain ⟨⟨s, hs⟩, hts⟩ := List.forall_mem_cons.mp h
    obtain ⟨segs, hsegs, hcanon, htext⟩ := ih hts
    refine ⟨s :: segs, .cons hs hsegs, .cons hs.canonical hcanon, fun p => ?_⟩
    rw [List.foldl_cons, htext, hs.text_append, List.append_assoc, List.map_cons,
      List.flatten_cons]

theorem SegmentsSpelled.exists_parts (h : SegmentsSpelled segs t) :
    ∃ parts : List (List Char), (∀ t ∈ parts, IsPart t) ∧ parts.flatten = t := by
  induction h with
  | nil => exact ⟨[], by simp, rfl⟩
  | @cons s t segs u hs _ ih =>
    obtain ⟨parts, hparts, rfl⟩ := ih
    exact ⟨t :: parts, List.forall_mem_cons.mpr ⟨⟨s, hs⟩, hparts⟩, rfl⟩

theorem head_flatten {parts : List (List Char)} (h : ∀ t ∈ parts, IsPart t) :
    ∀ c ∈ parts.flatten.head?, isIdentRest c = false := by
  obtain ⟨segs, hsegs, -⟩ := exists_segments h
  exact hsegs.head

theorem flatten_inj {parts parts' : List (List Char)} (h : ∀ t ∈ parts, IsPart t)
    (h' : ∀ t ∈ parts', IsPart t) (heq : parts.flatten = parts'.flatten) : parts = parts' := by
  induction parts generalizing parts' with
  | nil =>
    cases parts' with
    | nil => rfl
    | cons t ts =>
      obtain ⟨s, hs⟩ := h' t List.mem_cons_self
      exact absurd (List.append_eq_nil_iff.mp heq.symm).1 hs.ne_nil
  | cons t ts ih =>
    obtain ⟨⟨s, hs⟩, hts⟩ := List.forall_mem_cons.mp h
    cases parts' with
    | nil => exact absurd (List.append_eq_nil_iff.mp heq).1 hs.ne_nil
    | cons t' ts' =>
      obtain ⟨⟨s', hs'⟩, hts'⟩ := List.forall_mem_cons.mp h'
      obtain ⟨rfl, hflatten⟩ := hs.append_inj hs' (head_flatten hts) (head_flatten hts') heq
      rw [ih hts hts' hflatten]

/-! ## Spellings -/

/-- Path text cut into its root and its segments, each as it is written. -/
@[ext]
structure Spelling where
  root : List Char
  parts : List (List Char)
  isIdent_root : isIdent root
  isPart_parts : ∀ t ∈ parts, IsPart t

namespace Spelling

def text (d : Spelling) : List Char :=
  d.root ++ d.parts.flatten

/-- The spelling without superfluous zeros and with nothing else changed. -/
def canonical (d : Spelling) : Spelling where
  root := d.root
  parts := d.parts.map canonicalPart
  isIdent_root := d.isIdent_root
  isPart_parts := List.forall_mem_map.mpr fun t ht =>
    (d.isPart_parts t ht).imp fun _ h => h.canonical

theorem text_inj {d d' : Spelling} (h : d.text = d'.text) : d = d' := by
  obtain ⟨hroot, hparts⟩ := span_inj (fun c hc => isIdentRest_of_mem d.isIdent_root hc)
    (fun c hc => isIdentRest_of_mem d'.isIdent_root hc) (head_flatten d.isPart_parts)
    (head_flatten d'.isPart_parts) h
  exact Spelling.ext hroot (flatten_inj d.isPart_parts d'.isPart_parts hparts)

theorem isIdentRest_or_of_mem (d : Spelling) (hc : c ∈ d.text) :
    isIdentRest c ∨ c ∈ ".[]()".toList := by
  rcases List.mem_append.mp hc with hc | hc
  · exact .inl (isIdentRest_of_mem d.isIdent_root hc)
  · obtain ⟨t, ht, hc⟩ := List.mem_flatten.mp hc
    obtain ⟨s, hs⟩ := d.isPart_parts t ht
    exact hs.isIdentRest_or_of_mem hc

/-- What is spelled is read, and so is the text of the path that it gives. -/
theorem parse_text (d : Spelling) (h : d.text = s.toList) :
    ∃ p, parse s = .ok p ∧ p.text.toList = d.canonical.text ∧ parse p.text = .ok p := by
  obtain ⟨segs, hsegs, hcanon, htext⟩ := exists_segments d.isPart_parts
  have hspelled : Path.Spelled (String.ofList d.root) segs s.toList := by
    rw [← h]
    exact .intro d.isIdent_root hsegs
  have hp : (ofSegments (String.ofList d.root) segs).text.toList = d.canonical.text := by
    rw [ofSegments, htext, String.toList_ofList]
    rfl
  refine ⟨_, parse_of_spelled hspelled, hp, parse_of_spelled ?_⟩
  rw [hp]
  exact .intro d.isIdent_root hcanon

theorem exists_of_parse (h : parse s = .ok p) : ∃ d : Spelling, d.text = s.toList := by
  obtain ⟨root, segs, hs, rfl⟩ := spelled_of_parse h
  generalize s.toList = t at hs
  cases hs with
  | @intro root _ _ hr hsegs =>
    obtain ⟨parts, hparts, rfl⟩ := hsegs.exists_parts
    exact ⟨⟨root, parts, hr, hparts⟩, rfl⟩

end Spelling

theorem exists_parse_iff_spelling :
    (∃ p, parse s = .ok p) ↔ ∃ d : Spelling, d.text = s.toList := by
  refine ⟨fun ⟨p, hp⟩ => Spelling.exists_of_parse hp, fun ⟨d, hd⟩ => ?_⟩
  exact (d.parse_text hd).imp fun p h => h.1

/-- The text of an accepted path is made of identifiers and of the marks around its segments. -/
theorem Accepted.notMem (h : Accepted p) (hident : isIdentRest c = false)
    (hmark : c ∉ ".[]()".toList) : c ∉ p.text.toList := by
  intro hc
  obtain ⟨d, hd⟩ := exists_parse_iff_spelling.mp h
  rw [← hd] at hc
  rcases d.isIdentRest_or_of_mem hc with hc | hc
  · rw [hident] at hc
    cases hc
  · exact hmark hc

/-- Text is read as a path just where it has a spelling. It has at most one, and the path it gives is
spelled alike without superfluous zeros and is read as itself. -/
theorem parse_iff_spelling (s : String) :
    ((∃ p, parse s = .ok p) ↔ ∃ d : Spelling, d.text = s.toList) ∧
      (∀ d d' : Spelling, d.text = s.toList → d'.text = s.toList → d = d') ∧
      ∀ d : Spelling, d.text = s.toList →
        ∃ p, parse s = .ok p ∧ p.text.toList = d.canonical.text ∧ parse p.text = .ok p := by
  exact ⟨exists_parse_iff_spelling, fun d d' hd hd' => Spelling.text_inj (hd.trans hd'.symm),
    fun d hd => d.parse_text hd⟩

/-- The largest index, with zeros in front of it. -/
def paddedSpelling : Spelling where
  root := ['a']
  parts := ["[0018446744073709551615]".toList, ".b".toList, "()".toList]
  isIdent_root := by decide
  isPart_parts := by
    have hdigits : ∀ c ∈ "0018446744073709551615".toList, c.isDigit := List.all_eq_true.mp rfl
    have hindex := Segment.Spelled.index (by decide) hdigits (by decide)
    have hfield := @Segment.Spelled.field ['b'] (by decide)
    exact List.forall_mem_cons.mpr ⟨⟨_, hindex⟩, List.forall_mem_cons.mpr ⟨⟨_, hfield⟩,
      List.forall_mem_cons.mpr ⟨⟨_, .call⟩, nofun⟩⟩⟩

theorem parse_padded :
    paddedSpelling.text = "a[0018446744073709551615].b()".toList ∧
      ∃ p, parse "a[0018446744073709551615].b()" = .ok p ∧
        p.text.toList = "a[18446744073709551615].b()".toList ∧ parse p.text = .ok p :=
  ⟨rfl, (parse_iff_spelling "a[0018446744073709551615].b()").2.2 paddedSpelling rfl⟩

end AccessRules.Path
