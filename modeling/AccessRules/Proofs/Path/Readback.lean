import AccessRules.Proofs.Handle.Suffix
import AccessRules.Proofs.Path.Spelling

/-! Paths that are read from their own text (`Path.Readable`). Text behind such a path is read just if
it is made of parts that spell segments (`Path.Readable.exists_parse_iff`), and a segment keeps a path
readable (`Path.Readable.append`). So it is settled which fields can be read back, and a chain of steps
that write segments from a root that is an identifier is read back whatever its length
(`Path.readable_steps`). -/

namespace AccessRules.Path

/-! ## Parts behind a spelling -/

/-- Text that no identifier goes on with in front of it. -/
def Delimited (u : List Char) : Prop :=
  ∀ c ∈ u.head?, isIdentRest c = false

theorem delimited_flatten_append {parts : List (List Char)} (h : ∀ t ∈ parts, IsPart t)
    (hu : Delimited u) : Delimited (parts.flatten ++ u) := by
  cases parts with
  | nil => exact hu
  | cons t ts =>
    obtain ⟨s, hs⟩ := h t List.mem_cons_self
    obtain ⟨c, t, rfl⟩ := List.exists_cons_of_ne_nil hs.ne_nil
    exact head_flatten h

theorem exists_more_parts {parts parts' : List (List Char)} (h : ∀ t ∈ parts, IsPart t)
    (h' : ∀ t ∈ parts', IsPart t) (hu : Delimited u) (heq : parts.flatten ++ u = parts'.flatten) :
    ∃ more, parts' = parts ++ more ∧ more.flatten = u := by
  induction parts generalizing parts' with
  | nil => exact ⟨parts', rfl, heq.symm⟩
  | cons t ts ih =>
    obtain ⟨⟨s, hs⟩, hts⟩ := List.forall_mem_cons.mp h
    rw [List.flatten_cons, List.append_assoc] at heq
    cases parts' with
    | nil => exact absurd (List.append_eq_nil_iff.mp heq).1 hs.ne_nil
    | cons t' ts' =>
      obtain ⟨⟨s', hs'⟩, hts'⟩ := List.forall_mem_cons.mp h'
      obtain ⟨rfl, hrest⟩ :=
        hs.append_inj hs' (delimited_flatten_append hts hu) (head_flatten hts') heq
      obtain ⟨more, rfl, rfl⟩ := ih hts hts' hrest
      exact ⟨more, rfl, rfl⟩

namespace Spelling

/-- The spelling with parts behind it. -/
def extend (d : Spelling) (more : List (List Char)) (h : ∀ t ∈ more, IsPart t) : Spelling where
  root := d.root
  parts := d.parts ++ more
  isIdent_root := d.isIdent_root
  isPart_parts := List.forall_mem_append.mpr ⟨d.isPart_parts, h⟩

theorem text_extend (d : Spelling) (h : ∀ t ∈ more, IsPart t) :
    (d.extend more h).text = d.text ++ more.flatten := by
  simp [extend, text]

theorem exists_extend {d d' : Spelling} (hu : Delimited u) (heq : d'.text = d.text ++ u) :
    ∃ more h, d' = d.extend more h ∧ more.flatten = u := by
  obtain ⟨root', parts', hroot', hparts'⟩ := d'
  unfold text at heq
  rw [List.append_assoc] at heq
  obtain ⟨rfl, hrest⟩ := span_inj (fun c hc => isIdentRest_of_mem hroot' hc)
    (fun c hc => isIdentRest_of_mem d.isIdent_root hc) (head_flatten hparts')
    (delimited_flatten_append d.isPart_parts hu) heq
  obtain ⟨more, rfl, hmore⟩ := exists_more_parts d.isPart_parts hparts' hu hrest.symm
  exact ⟨more, (List.forall_mem_append.mp hparts').2, rfl, hmore⟩

/-- A text is read as itself just if none of its parts has superfluous zeros. -/
theorem eq_iff_canonical {d : Spelling} (h : d.text = s.toList) (hq : parse s = .ok q) :
    q = ⟨s⟩ ↔ ∀ t ∈ d.parts, canonicalPart t = t := by
  obtain ⟨q', hq', htext, -⟩ := d.parse_text h
  rw [hq] at hq'
  cases hq'
  have hparts : d.canonical = d ↔ d.parts.map canonicalPart = d.parts.map id := by
    rw [List.map_id]
    exact ⟨congrArg parts, fun h => Spelling.ext rfl h⟩
  calc q = ⟨s⟩ ↔ q.text.toList = s.toList := by rw [String.toList_inj, Path.mk.injEq]
    _ ↔ d.canonical = d := by rw [htext, ← h]; exact ⟨text_inj, congrArg text⟩
    _ ↔ ∀ t ∈ d.parts, canonicalPart t = t := by rw [hparts]; exact List.map_inj_left

end Spelling

/-! ## Readable paths -/

/-- A path that its own text is read as. -/
def Readable (p : Path) : Prop :=
  parse p.text = .ok p

theorem readable_iff : Readable p ↔
    ∃ d : Spelling, d.text = p.text.toList ∧ ∀ t ∈ d.parts, canonicalPart t = t := by
  constructor
  · intro hp
    obtain ⟨d, hd⟩ := Spelling.exists_of_parse hp
    exact ⟨d, hd, (d.eq_iff_canonical hd hp).mp rfl⟩
  · rintro ⟨d, hd, hcanon⟩
    obtain ⟨q, hq, -⟩ := d.parse_text hd
    obtain rfl := (d.eq_iff_canonical hd hq).mpr hcanon
    exact hq

namespace Readable

variable {p q : Path} {u : List Char}

/-- Text behind a readable path is read just if it is cut into parts. -/
theorem exists_parse_iff (hp : Readable p) (hu : Delimited u)
    (hs : s.toList = p.text.toList ++ u) :
    (∃ q, parse s = .ok q) ↔ ∃ more : List (List Char), (∀ t ∈ more, IsPart t) ∧ more.flatten = u := by
  obtain ⟨d, hd, -⟩ := readable_iff.mp hp
  constructor
  · rintro ⟨q, hq⟩
    obtain ⟨d', hd'⟩ := Spelling.exists_of_parse hq
    obtain ⟨more, hmore, -, hflatten⟩ :=
      Spelling.exists_extend hu (hd'.trans (hs.trans (congrArg (· ++ u) hd.symm)))
    exact ⟨more, hmore, hflatten⟩
  · rintro ⟨more, hmore, rfl⟩
    obtain ⟨q, hq, -⟩ := (d.extend more hmore).parse_text (s := s) (by rw [d.text_extend, hd, hs])
    exact ⟨q, hq⟩

/-- And it is read as itself just if none of those has superfluous zeros. -/
theorem eq_iff_canonical (hp : Readable p) {more : List (List Char)} (hmore : ∀ t ∈ more, IsPart t)
    (hs : s.toList = p.text.toList ++ more.flatten) (hq : parse s = .ok q) :
    q = ⟨s⟩ ↔ ∀ t ∈ more, canonicalPart t = t := by
  obtain ⟨d, hd, hcanon⟩ := readable_iff.mp hp
  have htext : (d.extend more hmore).text = s.toList := by rw [d.text_extend, hd, hs]
  rw [Spelling.eq_iff_canonical htext hq]
  exact ⟨fun h t ht => h t (List.mem_append_right _ ht),
    fun h t ht => (List.mem_append.mp ht).elim (hcanon t) (h t)⟩

theorem accepted (hp : Readable p) : Accepted p :=
  ⟨p, hp⟩

theorem append (hp : Readable p) (h : Segment.Spelled s t) : Readable (append p s) := by
  obtain ⟨d, hd, hcanon⟩ := readable_iff.mp hp
  have htwice : canonicalPart (canonicalPart t) = canonicalPart t :=
    List.append_cancel_left ((h.canonical.text_append p).symm.trans (h.text_append p))
  have hmore : ∀ t' ∈ [canonicalPart t], IsPart t' := List.forall_mem_singleton.mpr ⟨s, h.canonical⟩
  refine readable_iff.mpr ⟨d.extend _ hmore, ?_, List.forall_mem_append.mpr
    ⟨hcanon, List.forall_mem_singleton.mpr htwice⟩⟩
  rw [d.text_extend, hd, h.text_append, List.flatten_singleton]

theorem index (hp : Readable p) (hn : n < indexBound) : Readable (p.index n) := by
  have hspelled := @Segment.Spelled.index (Nat.toDigits 10 n) Nat.toDigits_ne_nil
    fun c hc => Nat.isDigit_of_mem_toDigits (by decide) (by decide) hc
  rw [Nat.ofDigitChars_ten_toDigits] at hspelled
  have hindex := hp.append (hspelled hn)
  exact hindex

theorem call (hp : Readable p) : Readable (p.call []) := by
  have hcall := hp.append .call
  exact hcall

theorem field (hp : Readable p) (h : isIdent name.toList) : Readable (p.field name) := by
  have hfield := hp.append (.field h)
  rwa [String.ofList_toList] at hfield

end Readable

theorem readable_root (h : isIdent seed.toList) : Readable ⟨seed⟩ :=
  readable_iff.mpr ⟨⟨seed.toList, [], h, List.forall_mem_nil _⟩, List.append_nil _, List.forall_mem_nil _⟩

/-! ## Names of fields -/

theorem isIndexName_iff : isIndexName name ↔ name.toList ≠ [] ∧ ∀ c ∈ name.toList, c.isDigit := by
  simp [isIndexName]

theorem isIndexName_repr (n : Nat) : isIndexName n.repr := by
  rw [isIndexName_iff, Nat.toList_repr]
  exact ⟨Nat.toDigits_ne_nil, fun c hc => Nat.isDigit_of_mem_toDigits (by decide) (by decide) hc⟩

theorem index_eq_field (p : Path) (n : Nat) : p.index n = p.field n.repr :=
  (if_pos (isIndexName_repr n)).symm

/-- A number is no path. -/
theorem Spelling.not_isIndexName (d : Spelling) (h : d.text = name.toList) : ¬isIndexName name := by
  intro hname
  obtain ⟨c, cs, hroot, hc⟩ := exists_cons_of_isIdent d.isIdent_root
  have hdigit : c.isDigit := (isIndexName_iff.mp hname).2 c (by simp [← h, text, hroot])
  rw [isDigit_of_isIdentStart hc] at hdigit
  cases hdigit

theorem delimited_fieldSuffix (name : String) : Delimited (fieldSuffix name).toList := by
  unfold Delimited fieldSuffix
  split <;> simp [isIdentRest]

theorem isPart_index_iff (hne : digits ≠ []) (hd : ∀ c ∈ digits, c.isDigit) :
    IsPart ('[' :: (digits ++ [']'])) ↔ Nat.ofDigitChars 10 digits 0 < indexBound := by
  refine ⟨fun ⟨s, hs⟩ => ?_, fun hlt => ⟨_, .index hne hd hlt⟩⟩
  generalize ht : '[' :: (digits ++ [']']) = t at hs
  cases hs with
  | index _ _ hlt =>
    obtain rfl := List.append_cancel_right (List.cons.inj ht).2
    exact hlt
  | field _ | call => cases ht

/-- The text that reaches a field is one index, or a point and what is a path by itself. -/
theorem flatten_eq_fieldSuffix_iff {more : List (List Char)} :
    (∀ t ∈ more, IsPart t) ∧ more.flatten = (fieldSuffix name).toList ↔
      (isIndexName name ∧ Nat.ofDigitChars 10 name.toList 0 < indexBound ∧
          more = ['[' :: (name.toList ++ [']'])]) ∨
        ∃ d : Spelling, d.text = name.toList ∧ more = ('.' :: d.root) :: d.parts := by
  constructor
  · rintro ⟨hmore, hflatten⟩
    obtain ⟨t, ts, rfl⟩ : ∃ t ts, more = t :: ts := by
      refine List.exists_cons_of_ne_nil fun hnil => ?_
      rw [hnil, fieldSuffix] at hflatten
      split at hflatten <;> simp at hflatten
    obtain ⟨⟨s, hs⟩, hts⟩ := List.forall_mem_cons.mp hmore
    unfold fieldSuffix at hflatten
    split at hflatten
    · rename_i hname
      obtain ⟨hne, hd⟩ := isIndexName_iff.mp hname
      refine .inl ⟨hname, ?_⟩
      cases hs with
      | @index digits _ hd' hlt =>
        have hcut : digits ++ ']' :: ts.flatten = name.toList ++ ']' :: [] := by
          simpa using hflatten
        obtain ⟨rfl, hnil⟩ := cut_inj (notMem_of_isDigit hd') (notMem_of_isDigit hd) hcut
        obtain rfl : ts = [] := flatten_inj hts (List.forall_mem_nil _) hnil
        exact ⟨hlt, rfl⟩
      | field _ | call => simp at hflatten
    · cases hs with
      | @field root hroot => exact .inr ⟨⟨root, ts, hroot, hts⟩, by simpa [Spelling.text] using hflatten, rfl⟩
      | index _ _ _ | call => simp at hflatten
  · rintro (⟨hname, hlt, rfl⟩ | ⟨d, hd, rfl⟩)
    · obtain ⟨hne, hd⟩ := isIndexName_iff.mp hname
      exact ⟨List.forall_mem_singleton.mpr ((isPart_index_iff hne hd).mpr hlt),
        by simp [fieldSuffix, hname]⟩
    · have hname : isIndexName name = false := Bool.eq_false_iff.mpr (d.not_isIndexName hd)
      exact ⟨List.forall_mem_cons.mpr ⟨⟨_, .field d.isIdent_root⟩, d.isPart_parts⟩,
        by simp [fieldSuffix, hname, ← hd, Spelling.text]⟩

theorem canonicalPart_index_iff (hne : digits ≠ []) (hd : ∀ c ∈ digits, c.isDigit) :
    canonicalPart ('[' :: (digits ++ [']'])) = '[' :: (digits ++ [']']) ↔ ¬IsPadded digits := by
  rw [canonicalPart, trimZeros_append hne hd, List.cons.injEq, List.append_left_inj]
  simpa using toDigits_ofDigitChars_eq_iff hne hd

/-- The digits of an index in the text that reaches a field: the name itself if it is a number, and
otherwise what stands between brackets in the path that it is. -/
def IndexIn (name : String) (digits : List Char) : Prop :=
  isIndexName name ∧ digits = name.toList ∨
    ∃ d : Spelling, d.text = name.toList ∧ '[' :: (digits ++ [']']) ∈ d.parts

theorem Spelling.forall_canonicalPart_iff (d : Spelling) :
    (∀ t ∈ d.parts, canonicalPart t = t) ↔
      ∀ digits, '[' :: (digits ++ [']']) ∈ d.parts → ¬IsPadded digits := by
  have hindex : ∀ digits, '[' :: (digits ++ [']']) ∈ d.parts →
      (canonicalPart ('[' :: (digits ++ [']'])) = '[' :: (digits ++ [']']) ↔ ¬IsPadded digits) := by
    intro digits hm
    obtain ⟨s, hs⟩ := d.isPart_parts _ hm
    generalize ht : '[' :: (digits ++ [']']) = t at hs
    cases hs with
    | index hne hd _ =>
      obtain rfl := List.append_cancel_right (List.cons.inj ht).2
      rw [← ht]
      exact canonicalPart_index_iff hne hd
    | field _ | call => cases ht
  constructor
  · exact fun h digits hm => (hindex digits hm).mp (h _ hm)
  · intro h t ht
    obtain ⟨s, hs⟩ := d.isPart_parts t ht
    cases hs with
    | index _ _ _ => exact (hindex _ ht).mpr (h _ ht)
    | field _ | call => rfl

namespace Readable

variable {p : Path}

theorem toList_field (p : Path) (name : String) :
    (p.field name).text.toList = p.text.toList ++ (fieldSuffix name).toList := by
  rw [text_field, String.toList_append]

theorem exists_parse_field_iff (hp : Readable p) (name : String) :
    (∃ q, parse (p.field name).text = .ok q) ↔ (∃ q, parse name = .ok q) ∨
      isIndexName name ∧ Nat.ofDigitChars 10 name.toList 0 < indexBound := by
  rw [exists_parse_iff_spelling (s := name),
    hp.exists_parse_iff (delimited_fieldSuffix name) (toList_field p name)]
  constructor
  · rintro ⟨more, hmore⟩
    obtain ⟨hname, hlt, -⟩ | ⟨d, hd, -⟩ := flatten_eq_fieldSuffix_iff.mp hmore
    · exact .inr ⟨hname, hlt⟩
    · exact .inl ⟨d, hd⟩
  · rintro (⟨d, hd⟩ | ⟨hname, hlt⟩)
    · exact ⟨_, flatten_eq_fieldSuffix_iff.mpr (.inr ⟨d, hd, rfl⟩)⟩
    · exact ⟨_, flatten_eq_fieldSuffix_iff.mpr (.inl ⟨hname, hlt, rfl⟩)⟩

theorem eq_field_iff (hp : Readable p) (hq : parse (p.field name).text = .ok q) :
    q = p.field name ↔ ∀ digits, IndexIn name digits → ¬IsPadded digits := by
  obtain ⟨more, hmore⟩ :=
    (hp.exists_parse_iff (delimited_fieldSuffix name) (toList_field p name)).mp ⟨q, hq⟩
  have htext := toList_field p name
  rw [← hmore.2] at htext
  rw [show p.field name = ⟨(p.field name).text⟩ from rfl, hp.eq_iff_canonical hmore.1 htext hq]
  obtain ⟨hname, -, rfl⟩ | ⟨d, hd, rfl⟩ := flatten_eq_fieldSuffix_iff.mp hmore
  · obtain ⟨hne, hdigits⟩ := isIndexName_iff.mp hname
    rw [List.forall_mem_singleton, canonicalPart_index_iff hne hdigits]
    refine ⟨fun h digits hin => ?_, fun h => h _ (.inl ⟨hname, rfl⟩)⟩
    obtain ⟨-, rfl⟩ | ⟨d, hd, -⟩ := hin
    · exact h
    · exact absurd hname (d.not_isIndexName hd)
  · have hpoint : canonicalPart ('.' :: d.root) = '.' :: d.root := rfl
    rw [List.forall_mem_cons, hpoint, eq_self, true_and, d.forall_canonicalPart_iff]
    refine ⟨fun h digits hin => ?_, fun h digits hm => h digits (.inr ⟨d, hd, hm⟩)⟩
    obtain ⟨hname, -⟩ | ⟨d', hd', hm⟩ := hin
    · exact absurd hname (d.not_isIndexName hd)
    · obtain rfl := Spelling.text_inj (hd'.trans hd.symm)
      exact h digits hm

end Readable

end AccessRules.Path

namespace AccessRules

/-! ## Steps -/

/-- A step that writes no more than an identifier, an index or an empty call. -/
inductive Step.Bare : {t u : HandleType} → Step t u → Prop
  | field {t : HandleType} (h : Path.isIdent name.toList) : Bare (t := t) (.field name)
  | index {t : HandleType} (h : n < Path.indexBound) : Bare (t := t) (.index n)
  | call {t : HandleType} : Bare (t := t) (.call [])
  | view {t : HandleType} (u : HandleType) : Bare (t := t) (.view u)
  | member {t : HandleType} {mem : m ∈ t.members} (h : Path.isIdent m.key.toList) :
      Bare (.member m mem)
  | method {t : HandleType} {mem : m ∈ t.methods} {length_eq : [].length = m.arity} :
      Bare (.method m mem [] length_eq)
  | item {t : HandleType} (h : n < Path.indexBound) : Bare (t := .list t) (.item n)

def Chain.Bare {t u : HandleType} : Chain t u → Prop
  | .nil => True
  | .cons s c => s.Bare ∧ c.Bare

theorem Step.Bare.readable {t u : HandleType} {s : Step t u} (hs : s.Bare) {h : Handle t}
    (hh : h.path.Readable) : (h.step s).path.Readable := by
  cases hs with
  | field hname | member hname => exact hh.field hname
  | index hn | item hn => exact hh.index hn
  | call => exact hh.call
  | view => exact hh
  | @method _ m mem => exact (hh.field (HandleType.isIdent_of_mem_methods mem)).call

theorem Chain.Bare.readable {t u : HandleType} {c : Chain t u} (hc : c.Bare) {h : Handle t}
    (hh : h.path.Readable) : (c.run h).path.Readable := by
  induction c with
  | nil => exact hh
  | cons s c ih => exact ih hc.2 (hc.1.readable hh)

/-- A step from a path that is read as itself gives one again if it writes an index or an empty call;
a field gives text that is read if its name is a path or a small number, and then as itself if no
index in it is padded. So chains of steps without arguments from an identifier are read as
themselves. -/
theorem Path.readable_steps :
    (∀ p : Path, p.Readable →
      (∀ n < indexBound, p.index n = p.field n.repr ∧ (p.index n).Readable) ∧
      (p.call []).Readable ∧
      ∀ name : String,
        ((∃ q, parse (p.field name).text = .ok q) ↔ (∃ q, parse name = .ok q) ∨
          isIndexName name ∧ Nat.ofDigitChars 10 name.toList 0 < indexBound) ∧
        ∀ q, parse (p.field name).text = .ok q →
          (q = p.field name ↔ ∀ digits, IndexIn name digits → ¬IsPadded digits)) ∧
    ∀ (seed : String) (t u : HandleType) (c : Chain t u), isIdent seed.toList → c.Bare →
      (c.run (.ofText seed)).path.Readable := by
  refine ⟨fun p hp => ⟨fun n hn => ⟨p.index_eq_field n, hp.index hn⟩, hp.call, fun name =>
    ⟨hp.exists_parse_field_iff name, fun q hq => hp.eq_field_iff hq⟩⟩, fun seed t u c hseed hc => ?_⟩
  exact hc.readable (readable_root hseed)

/-- A name that is a path with a padded index is read behind a path, but not as itself. -/
theorem Path.readable_steps_padded :
    let p : Path := (Path.index ⟨"list"⟩ 18446744073709551615).call []
    let c : Chain .path .number :=
      .cons (.field "tags") (.cons (.view (.list .text)) (.cons (.item 0) (.cons (.method
        ⟨"size", 0, .number⟩ (.head _) [] rfl) .nil)))
    p.Readable ∧ (∃ q, parse (p.field "a[00]").text = .ok q ∧ q ≠ p.field "a[00]") ∧
      (c.run (.ofText "doc")).path.Readable := by
  intro p c
  have hroot : Path.Readable ⟨"list"⟩ := readable_root (by decide)
  have hp : p.Readable := (hroot.index (by decide)).call
  have hindex := @Segment.Spelled.index ['0', '0'] (by simp) (by simp) (by decide)
  let d : Spelling := ⟨['a'], ["[00]".toList], by decide, List.forall_mem_singleton.mpr ⟨_, hindex⟩⟩
  obtain ⟨hread, hself⟩ := (readable_steps.1 p hp).2.2 "a[00]"
  obtain ⟨q, hq⟩ := hread.mpr (.inl (exists_parse_iff_spelling.mpr ⟨d, rfl⟩))
  have hpadded : IndexIn "a[00]" ['0', '0'] := .inr ⟨d, rfl, List.mem_cons_self⟩
  have hc : c.Bare := ⟨.field (by decide), .view _, .item (by decide), .method, trivial⟩
  refine ⟨hp, ⟨q, hq, fun heq => ?_⟩, readable_steps.2 "doc" _ _ c (by decide) hc⟩
  exact (hself q hq).mp heq _ hpadded ⟨'0', [], rfl⟩

end AccessRules
