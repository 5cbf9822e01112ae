import Mathlib.Data.List.TakeWhile
import AccessRules.Handle.Type
import AccessRules.Path.Reader
import AccessRules.Proofs.Value.Text

/-! The grammar of path text: an identifier and then segments, each a point and an identifier, an
index in brackets or an empty call. What `Path.parse` accepts is spelled by it
(`Path.spelled_of_parse`), and so both the text that was read and the path it gives are plain but
for their brackets (`Path.Spelled.kept`, `Path.Spelled.kept_path`). A path is accepted if its own text
is read (`Path.Accepted`), be it as this path or as another one. -/

namespace AccessRules.Path

def isIdent : List Char → Bool
  | [] => false
  | c :: cs => isIdentStart c && cs.all isIdentRest

/-- How a segment is spelled; an index may have any number of leading zeros. -/
inductive Segment.Spelled : Segment → List Char → Prop
  | field (h : isIdent name) : Spelled (.field (String.ofList name)) ('.' :: name)
  | index (hne : digits ≠ []) (hd : ∀ c ∈ digits, c.isDigit)
      (hlt : Nat.ofDigitChars 10 digits 0 < indexBound) :
      Spelled (.index (Nat.ofDigitChars 10 digits 0)) ('[' :: (digits ++ [']']))
  | call : Spelled .call ['(', ')']

inductive SegmentsSpelled : List Segment → List Char → Prop
  | nil : SegmentsSpelled [] []
  | cons : Segment.Spelled s t → SegmentsSpelled segs u → SegmentsSpelled (s :: segs) (t ++ u)

/-- How a root with its segments is spelled. -/
inductive Spelled : String → List Segment → List Char → Prop
  | intro (h : isIdent root) (hs : SegmentsSpelled segs t) :
      Spelled (String.ofList root) segs (root ++ t)

/-- A path whose text is read, which may give another path. -/
def Accepted (p : Path) : Prop :=
  ∃ q, parse p.text = .ok q

/-! ## What the reader accepts -/

theorem isIdent_of_ident? (h : ident? s = some (name, rest)) : isIdent name := by
  cases s with
  | nil => cases h
  | cons c cs =>
    simp only [ident?] at h
    split at h <;> cases h
    rename_i hc
    simp [isIdent, hc]

private theorem ok_of_map {ε α β : Type} {f : α → β} {x : Except ε α} {b : β}
    (h : f <$> x = .ok b) :
    ∃ a, x = .ok a ∧ f a = b := by
  cases x with
  | error e => cases h
  | ok a => exact ⟨a, rfl, Except.ok.inj h⟩

theorem append_of_index (h : r.dropWhile Char.isDigit = ']' :: rest) :
    '[' :: (r.takeWhile Char.isDigit ++ [']']) ++ rest = '[' :: r := by
  rw [List.cons_append, List.append_assoc, List.singleton_append, ← h, List.takeWhile_append_dropWhile]

theorem spelled_of_segments (h : segments offset s = .ok segs) : SegmentsSpelled segs s := by
  fun_induction segments offset s generalizing segs with
  | case1 =>
    cases h
    exact .nil
  | case3 offset r name rest hr _ ih =>
    obtain ⟨more, hmore, rfl⟩ := ok_of_map h
    rw [← append_of_ident? hr]
    exact .cons (.field (isIdent_of_ident? hr)) (ih hmore)
  | case6 offset r digits n hne hlt rest hr _ =>
    rename_i ih
    obtain ⟨more, hmore, rfl⟩ := ok_of_map h
    rw [← append_of_index hr]
    have hdigits : ∀ c ∈ digits, c.isDigit := fun c => List.mem_takeWhile_imp
    exact .cons (.index hne hdigits (Nat.lt_of_not_le hlt)) (ih hmore)
  | case8 offset rest ih =>
    obtain ⟨more, hmore, rfl⟩ := ok_of_map h
    exact .cons .call (ih hmore)
  | case2 | case4 | case5 | case7 | case9 => cases h

theorem spelled_of_parse (h : parse input = .ok p) :
    ∃ root segs, Spelled root segs input.toList ∧ p = ofSegments root segs := by
  unfold parse at h
  split at h
  · rename_i root segs hread
    cases h
    refine ⟨root, segs, ?_, rfl⟩
    unfold read at hread
    split at hread
    · cases hread
    · rename_i name rest hi
      obtain ⟨more, hmore, heq⟩ := ok_of_map hread
      cases heq
      rw [← append_of_ident? hi]
      exact .intro (isIdent_of_ident? hi) (spelled_of_segments hmore)
  · cases h

theorem Accepted.exists_spelled (h : Accepted p) : ∃ root segs, Spelled root segs p.text.toList := by
  obtain ⟨q, hq⟩ := h
  obtain ⟨root, segs, hs, -⟩ := spelled_of_parse hq
  exact ⟨root, segs, hs⟩

/-! ## The characters of path text -/

theorem isPlain_of_isIdentRest (h : isIdentRest c) : isPlain c := by
  have hc : ∀ d : Char, isIdentRest d = false → c ≠ d := by
    rintro d hd rfl
    rw [h] at hd
    cases hd
  simp [isPlain, Scanner.isInert, Scanner.isCloser, Scanner.closer?, hc, isIdentRest]

theorem isIdentRest_of_isIdentStart (h : isIdentStart c) : isIdentRest c := by
  simp only [isIdentStart, Bool.or_eq_true] at h
  simp only [isIdentRest, Char.isAlphanum, Bool.or_eq_true]
  rcases h with (h | h) | h
  · exact .inl (.inl (.inl h))
  · exact .inl (.inr h)
  · exact .inr h

theorem isIdentRest_of_mem (h : isIdent name) (hc : c ∈ name) : isIdentRest c := by
  cases name with
  | nil => cases hc
  | cons d ds =>
    obtain ⟨hd, hds⟩ := Bool.and_eq_true_iff.mp h
    rcases List.mem_cons.mp hc with rfl | hc
    · exact isIdentRest_of_isIdentStart hd
    · exact List.all_eq_true.mp hds c hc

theorem isPlain_of_mem_ident (h : isIdent name) (hc : c ∈ name) : isPlain c :=
  isPlain_of_isIdentRest (isIdentRest_of_mem h hc)

theorem exists_cons_of_isIdent (h : isIdent name) : ∃ c cs, name = c :: cs ∧ isIdentStart c := by
  cases name with
  | nil => cases h
  | cons c cs => exact ⟨c, cs, rfl, (Bool.and_eq_true_iff.mp h).1⟩

/-- The text of an accepted path starts like an identifier. -/
theorem Accepted.exists_cons (h : Accepted p) : ∃ c cs, p.text.toList = c :: cs ∧ isIdentStart c := by
  obtain ⟨root, segs, hs⟩ := h.exists_spelled
  generalize p.text.toList = text at hs
  cases hs with
  | intro hroot _ =>
    obtain ⟨c, cs, rfl, hc⟩ := exists_cons_of_isIdent hroot
    exact ⟨c, _, List.cons_append, hc⟩

section
variable {P : List Char → Prop} (K : Kept P)
include K

theorem kept_field (hp : P p.text.toList) (hn : P name.toList) : P (field p name).text.toList := by
  unfold field
  split
  · have henc := K.append hp (K.enclosed (o := '[') rfl hn)
    simpa using henc
  · have happ := K.append hp (K.append (K.lit ".") hn)
    simpa using happ

theorem kept_index (hp : P p.text.toList) : P (index p n).text.toList := by
  have hn : P (Nat.toDigits 10 n) :=
    K.plain fun c hc => isPlain_of_isNumeric (isNumeric_of_mem_toDigits hc)
  have henc := K.append hp (K.enclosed (o := '[') rfl hn)
  simpa [index] using henc

theorem kept_call (hp : P p.text.toList) (ha : ∀ v ∈ args, P (Value.render v).toList) :
    P (call p args).text.toList := by
  have hargs : ∀ s ∈ args.map Value.render, P s.toList := by simpa using ha
  have happ := K.append hp (K.arguments hargs)
  simpa [call] using happ

theorem Segment.Spelled.kept (h : Spelled s t) : P t := by
  cases h with
  | field h =>
    refine K.plain fun c hc => ?_
    rcases List.mem_cons.mp hc with rfl | hc
    · rfl
    · exact isPlain_of_mem_ident h hc
  | index _ hd _ =>
    exact K.enclosed rfl (K.plain fun c hc => isPlain_of_isNumeric (by simp [isNumeric, hd c hc]))
  | call => exact K.enclosed rfl K.nil

theorem SegmentsSpelled.kept (h : SegmentsSpelled segs t) : P t := by
  induction h with
  | nil => exact K.nil
  | cons hs _ ih => exact K.append (hs.kept K) ih

/-- Text that a path is read from. -/
theorem Spelled.kept (h : Spelled root segs t) : P t := by
  cases h with
  | intro hr hs => exact K.append (K.plain fun c hc => isPlain_of_mem_ident hr hc) (hs.kept K)

theorem Accepted.kept (h : Accepted p) : P p.text.toList := by
  obtain ⟨root, segs, hs⟩ := h.exists_spelled
  exact hs.kept K

theorem kept_append (hs : Segment.Spelled s t) (hp : P p.text.toList) :
    P (append p s).text.toList := by
  cases hs with
  | field h =>
    refine kept_field K hp (K.plain fun c hc => isPlain_of_mem_ident h ?_)
    rwa [String.toList_ofList] at hc
  | index _ _ _ => exact kept_index K hp
  | call => exact kept_call K hp fun v hv => nomatch hv

/-- A path that was read. -/
theorem Spelled.kept_path (h : Spelled root segs t) : P (ofSegments root segs).text.toList := by
  cases h with
  | @intro root segs t hr hs =>
    have hroot : P (Path.mk (String.ofList root)).text.toList := by
      rw [String.toList_ofList]
      exact K.plain fun c hc => isPlain_of_mem_ident hr hc
    unfold ofSegments
    generalize Path.mk (String.ofList root) = p at hroot
    induction hs generalizing p with
    | nil => exact hroot
    | cons h _ ih => exact ih (append _ _) (kept_append K h hroot)

end

end AccessRules.Path

namespace AccessRules

/-- Every method is called by an identifier. -/
theorem HandleType.isIdent_of_mem_methods {t : HandleType} (h : m ∈ t.methods) :
    Path.isIdent m.name.toList := by
  have hall : (t.methods.map (·.name)).all (fun n => Path.isIdent n.toList) = true := by
    cases t <;> simp only [methods, mapMethods, collectionMethods, List.cons_append,
      List.nil_append, List.map_cons, List.map_nil] <;> rfl
  exact List.all_eq_true.mp hall _ (List.mem_map_of_mem h)

/-- A literal whose keys are identifiers and whose paths are accepted. -/
structure Value.Grammatical (v : Value) : Prop where
  keys : ∀ k ∈ v.keys, Path.isIdent k.toList
  paths : ∀ p ∈ v.paths, p.Accepted

theorem Value.Grammatical.kept {v : Value} {P : List Char → Prop} (K : Kept P)
    (h : v.Grammatical) : P v.render.toList :=
  v.kept_render K (fun k hk => K.plain fun _ hc => Path.isPlain_of_mem_ident (h.keys k hk) hc)
    fun p hp => (h.paths p hp).kept K

end AccessRules
