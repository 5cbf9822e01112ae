import AccessRules.Proofs.Lexical.Quoted
import AccessRules.Proofs.Path.Readback

/-! Values without fractions are read back from their texts (`Value.eq_of_render_eq`). The first
character of a text shows which kind of value it is of, except that null, the booleans and paths are
all words. A text holds no comma outside of brackets and strings, so the items of a list and the
entries of a map are told apart in front of the commas that follow them, and the key of an entry ends
at its first colon. -/

namespace AccessRules

open Scanner

def isComma (c : Char) : Bool :=
  c == ','

theorem sealed_of_comma_notMem (h : Closed t) (hm : ',' ∉ t) : Sealed isComma t := by
  apply Sealed.of_closed h
  intro c hc
  rw [isComma, beq_eq_false_iff_ne]
  rintro rfl
  exact hm hc

namespace Value

/-- A literal without fractions whose keys are identifiers and whose paths are accepted, but are no
words for something else. -/
structure Legible (v : Value) : Prop extends v.Grammatical where
  floats : v.floats = []
  words : ∀ p ∈ v.paths, p.text ∉ ["null", "true", "false"]

/-- What the first character of a text shows of a value. -/
inductive Kind where
  | word
  | number
  | string
  | list
  | map
deriving DecidableEq

def Kind.ofChar (c : Char) : Kind :=
  if c = '"' then .string
  else if c = '[' then .list
  else if c = '\x7b' then .map
  else if Path.isIdentStart c then .word
  else .number

theorem Kind.ofChar_of_isIdentStart (h : Path.isIdentStart c) : ofChar c = .word := by
  have hne : ∀ d, Path.isIdentStart d = false → c ≠ d := by
    rintro d hd rfl
    rw [h] at hd
    cases hd
  rw [ofChar, if_neg (hne '"' rfl), if_neg (hne '[' rfl), if_neg (hne '\x7b' rfl), if_pos h]

def kind : Value → Kind
  | .null | .bool _ | .path _ => .word
  | .int _ | .float _ => .number
  | .string _ => .string
  | .list _ => .list
  | .map _ => .map

/-- The value that a word stands for. -/
def ofWord (s : String) : Value :=
  if s = "null" then .null
  else if s = "true" then .bool true
  else if s = "false" then .bool false
  else .path ⟨s⟩

namespace Legible

variable {v w : Value} {items : List Value} {entries : List (String × Value)}

/-! ## Parts -/

theorem item (h : (Value.list items).Legible) (hv : v ∈ items) : v.Legible where
  keys k hk := h.keys k (by simpa using ⟨v, hv, hk⟩)
  paths p hp := h.paths p (by simpa using ⟨v, hv, hp⟩)
  floats := List.flatMap_eq_nil_iff.mp ((floats_list items).symm.trans h.floats) v hv
  words p hp := h.words p (by simpa using ⟨v, hv, hp⟩)

theorem entry (h : (Value.map entries).Legible) (he : e ∈ entries) : e.2.Legible where
  keys k hk := h.keys k (by simpa using ⟨e.1, e.2, he, .inr hk⟩)
  paths p hp := h.paths p (by simpa using ⟨e.1, e.2, he, hp⟩)
  floats := List.flatMap_eq_nil_iff.mp ((floats_map entries).symm.trans h.floats) e he
  words p hp := h.words p (by simpa using ⟨e.1, e.2, he, hp⟩)

theorem key (h : (Value.map entries).Legible) (he : e ∈ entries) : Path.isIdent e.1.toList :=
  h.keys e.1 (by simpa using ⟨e.1, e.2, he, .inl rfl⟩)

theorem accepted (h : (Value.path p).Legible) : p.Accepted :=
  h.paths p List.mem_cons_self

/-! ## Texts -/

theorem closed (h : v.Legible) : Closed v.render.toList :=
  h.kept Kept.closed

theorem closed_key (h : (Value.map entries).Legible) (he : e ∈ entries) : Closed e.1.toList :=
  Kept.closed.plain fun _ hc => Path.isPlain_of_mem_ident (h.key he) hc

/-- The text of a value has no comma outside of brackets and strings. -/
theorem sealed (h : v.Legible) : Sealed isComma v.render.toList := by
  cases v with
  | null => rfl
  | bool b => cases b <;> rfl
  | int n =>
    apply sealed_of_comma_notMem h.closed
    intro hm
    rcases isDigit_or_of_mem_intRepr hm with hcomma | hcomma <;> cases hcomma
  | float x => cases h.floats
  | string s => exact Sealed.quote rfl s
  | list items =>
    rw [toList_render_list]
    apply Sealed.enclosed rfl rfl
    apply Kept.closed.intercalate (Kept.closed.lit ", ")
    exact List.forall_mem_map.mpr fun v hv => (h.item hv).closed
  | map entries =>
    have hblank := Kept.closed.lit " "
    rw [toList_render_map]
    apply Sealed.enclosed rfl rfl
    apply hblank.append (Sealed.append (Kept.closed.intercalate (Kept.closed.lit ", ") ?_) hblank)
    exact List.forall_mem_map.mpr fun e he =>
      Kept.closed.append (h.closed_key he) ((Kept.closed.lit ": ").append (h.entry he).closed)
  | path p =>
    have hcomma : ',' ∉ p.text.toList := h.accepted.notMem rfl (by decide)
    exact sealed_of_comma_notMem h.closed hcomma

theorem sealed_entry (h : (Value.map entries).Legible) (he : e ∈ entries) :
    Sealed isComma (entryText e) := by
  have hkey : Sealed isComma e.1.toList :=
    sealed_of_comma_notMem (h.closed_key he) fun hm => nomatch Path.isIdentRest_of_mem (h.key he) hm
  exact hkey.append (Sealed.append (t := [':', ' ']) rfl (h.entry he).sealed)

theorem head (h : v.Legible) : v.render.toList.head?.map Kind.ofChar = some v.kind := by
  cases v with
  | null => rfl
  | bool b => cases b <;> rfl
  | int n =>
    have hdigit : ∀ d < 10, Kind.ofChar (Nat.digitChar d) = .number := by decide
    rw [render]
    cases hn : n.toInt.repr.toList with
    | nil => exact absurd hn (intRepr_ne_nil _)
    | cons c cs =>
      rcases isDigit_or_of_mem_intRepr (hn ▸ List.mem_cons_self) with hc | rfl
      · obtain ⟨d, hlt, rfl⟩ := exists_digitChar hc
        rw [List.head?_cons, Option.map_some, hdigit d hlt, kind]
      · rfl
  | float x => cases h.floats
  | string s => rw [render, Quoted.quote, String.toList_ofList]; rfl
  | list items => rw [toList_render_list]; rfl
  | map entries => rw [toList_render_map]; rfl
  | path p =>
    obtain ⟨c, cs, hp, hc⟩ := h.accepted.exists_cons
    rw [render, hp]
    exact congrArg some (Kind.ofChar_of_isIdentStart hc)

theorem eq_ofWord (h : v.Legible) (hk : v.kind = .word) : ofWord v.render = v := by
  cases v with
  | null => rfl
  | bool b => cases b <;> rfl
  | path p =>
    have hword := h.words p List.mem_cons_self
    simp only [List.mem_cons, List.not_mem_nil, or_false, not_or] at hword
    rw [render, ofWord, if_neg hword.1, if_neg hword.2.1, if_neg hword.2.2]
  | int n | float x | string s | list items | map entries => cases hk

theorem kind_eq (hv : v.Legible) (hw : w.Legible) (h : v.render = w.render) : v.kind = w.kind := by
  have hhead := hv.head
  rw [h, hw.head] at hhead
  exact (Option.some.inj hhead).symm

theorem ne_nil (h : v.Legible) : v.render.toList ≠ [] := by
  intro hnil
  have hhead := h.head
  rw [hnil] at hhead
  cases hhead

end Legible

/-! ## Separated texts -/

/-- Texts that have no comma outside of brackets and strings are told apart between commas. -/
theorem commas_inj {ts us : List (List Char)} (ht : ∀ t ∈ ts, Sealed isComma t ∧ t ≠ [])
    (hu : ∀ u ∈ us, Sealed isComma u ∧ u ≠ [])
    (h : ", ".toList.intercalate ts = ", ".toList.intercalate us) : ts = us := by
  have hne : ∀ {t : List Char} {ts : List (List Char)}, t ≠ [] →
      ", ".toList.intercalate (t :: ts) ≠ [] := by
    intro t ts ht hnil
    obtain ⟨c, hc⟩ := List.exists_mem_of_ne_nil t ht
    have hmem : c ∈ ", ".toList.intercalate (t :: ts) := mem_intercalate_cons hc ts
    rw [hnil] at hmem
    cases hmem
  cases ts with
  | nil =>
    cases us with
    | nil => rfl
    | cons u us => exact absurd h.symm (hne (hu u List.mem_cons_self).2)
  | cons t ts =>
    cases us with
    | nil => exact absurd h (hne (ht t List.mem_cons_self).2)
    | cons u us =>
      have hsep : ", ".toList = [] ++ ',' :: [' '] := rfl
      rw [hsep] at h
      exact (intercalate_inj (List.cons_ne_nil _ _) rfl (Sealed.nil.code rfl rfl)
        (List.cons_ne_nil t ts) (List.cons_ne_nil u us) (fun t hm => (ht t hm).1)
        (fun u hm => (hu u hm).1) h).1

/-- The key of an entry ends at its first colon. -/
theorem entryText_inj {e f : String × Value} (he : Path.isIdent e.1.toList)
    (hf : Path.isIdent f.1.toList) (h : entryText e = entryText f) :
    e.1 = f.1 ∧ e.2.render = f.2.render := by
  have hcolon : ∀ {k : List Char}, Path.isIdent k → ':' ∉ k :=
    fun hk hm => absurd (Path.isIdentRest_of_mem hk hm) (by decide)
  obtain ⟨hkey, hvalue⟩ := cut_inj (hcolon he) (hcolon hf) h
  exact ⟨String.toList_inj.mp hkey, String.toList_inj.mp (List.cons.inj hvalue).2⟩

/-- Values without fractions that are written alike are equal. -/
theorem eq_of_render_eq (v w : Value) (hv : v.Legible) (hw : w.Legible) (h : v.render = w.render) :
    v = w := by
  induction v generalizing w with
  | null | bool b | path p => rw [← hv.eq_ofWord rfl, h, hw.eq_ofWord (hv.kind_eq hw h).symm]
  | int n =>
    cases w with
    | int m => rw [Int64.toInt_inj.mp (intRepr_inj h)]
    | float x => cases hw.floats
    | _ => cases hv.kind_eq hw h
  | float x => cases hv.floats
  | string s =>
    cases w with
    | string t => rw [Quoted.quote_inj h]
    | _ => cases hv.kind_eq hw h
  | list items ih =>
    cases w with
    | list items' =>
      have htexts := congrArg String.toList h
      rw [toList_render_list, toList_render_list] at htexts
      have hitems := commas_inj
        (List.forall_mem_map.mpr fun v hm => ⟨(hv.item hm).sealed, (hv.item hm).ne_nil⟩)
        (List.forall_mem_map.mpr fun w hm => ⟨(hw.item hm).sealed, (hw.item hm).ne_nil⟩)
        (List.append_cancel_right (List.cons.inj htexts).2)
      rw [eq_of_map_eq (fun a ha b hb hab =>
        ih a ha b (hv.item ha) (hw.item hb) (String.toList_inj.mp hab)) hitems]
    | _ => cases hv.kind_eq hw h
  | map entries ih =>
    cases w with
    | map entries' =>
      have htexts := congrArg String.toList h
      rw [toList_render_map, toList_render_map] at htexts
      have hinner := List.append_cancel_right (List.cons.inj htexts).2
      have hentries := commas_inj
        (List.forall_mem_map.mpr fun e hm => ⟨hv.sealed_entry hm, by simp [entryText]⟩)
        (List.forall_mem_map.mpr fun e hm => ⟨hw.sealed_entry hm, by simp [entryText]⟩)
        (List.append_cancel_right (List.cons.inj hinner).2)
      have heq : entries = entries' := by
        refine eq_of_map_eq (fun e he f hf hef => ?_) hentries
        obtain ⟨hkey, hvalue⟩ := entryText_inj (hv.key he) (hw.key hf) hef
        exact Prod.ext hkey (ih e he f.2 (hv.entry he) (hw.entry hf) hvalue)
      rw [heq]
    | _ => cases hv.kind_eq hw h

/-- An index that is written as a field, beside a string that looks like the end of its list. -/
theorem eq_of_render_eq_index :
    let v : Value := .list ["], \"", .map [("k", (⟨"a"⟩ : Path).field "0")]]
    let w : Value := .list ["], \"", .map [("k", (⟨"a"⟩ : Path).index 0)]]
    v.Legible ∧ w.Legible ∧ v.render = w.render ∧ v = w := by
  intro v w
  have hroot : Path.Readable ⟨"a"⟩ := Path.readable_root (by decide)
  have hlegible : ∀ p : Path, p.Accepted → p.text = "a[0]" →
      (Value.list ["], \"", .map [("k", .path p)]]).Legible := by
    intro p haccepted hp
    refine ⟨⟨?_, ?_⟩, rfl, ?_⟩
    · simp [Path.isIdent, Path.isIdentStart]
    · simp [haccepted]
    · simp [hp]
  have hindex : (Path.index ⟨"a"⟩ 0).Accepted := (hroot.index (by decide)).accepted
  have hv : v.Legible := hlegible ((⟨"a"⟩ : Path).field "0") hindex rfl
  have hw : w.Legible := hlegible ((⟨"a"⟩ : Path).index 0) hindex rfl
  have hrender : v.render = w.render := rfl
  exact ⟨hv, hw, hrender, eq_of_render_eq v w hv hw hrender⟩

end Value

end AccessRules
