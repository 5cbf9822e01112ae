import AccessRules.Proofs.Lexical.Scanner
import AccessRules.Proofs.Value.Structure

/-! Which characters the texts of values are made of. Outside of keys, paths and strings everything
is written in plain characters and matched brackets, so a property of texts that plain texts and
strings have and that putting texts together keeps (`Kept`) holds of the text of a value as soon as
it holds of its keys and paths (`Value.kept_render`). -/

namespace AccessRules

/-! ## Numbers -/

/-- The characters of written numbers. -/
def isNumeric (c : Char) : Bool :=
  c.isDigit || c == '-' || c == '+' || c == '.' || c == 'e'

theorem isNumeric_of_mem_toDigits (h : c ∈ Nat.toDigits 10 n) : isNumeric c := by
  simp [isNumeric, Nat.isDigit_of_mem_toDigits (by decide) (by decide) h]

namespace Decimal

theorem isNumeric_of_mem_zeros (h : c ∈ zeros n) : isNumeric c := by
  rw [(List.mem_replicate.mp h).2]
  rfl

variable {layout : Layout} {digits : List Char} {point : Int}

theorem isNumeric_of_mem_positional (hend : ∀ c ∈ layout.wholeEnd.toList, isNumeric c)
    (hd : ∀ c ∈ digits, isNumeric c) (hc : c ∈ positional layout digits point) : isNumeric c := by
  unfold positional at hc
  split at hc
  · simp only [List.mem_append] at hc
    rcases hc with (hc | hc) | hc
    · exact hd c hc
    · exact isNumeric_of_mem_zeros hc
    · exact hend c hc
  split at hc
  · simp only [List.mem_append, List.mem_cons] at hc
    rcases hc with hc | rfl | hc
    · exact hd c (List.mem_of_mem_take hc)
    · rfl
    · exact hd c (List.mem_of_mem_drop hc)
  · simp only [List.mem_append, List.mem_cons] at hc
    rcases hc with rfl | rfl | hc | hc
    · rfl
    · rfl
    · exact isNumeric_of_mem_zeros hc
    · exact hd c hc

theorem isNumeric_of_mem_scientific (hplus : ∀ c ∈ layout.plus.toList, isNumeric c)
    (hd : ∀ c ∈ digits, isNumeric c) (hc : c ∈ scientific layout digits point) : isNumeric c := by
  simp only [scientific, List.mem_append, List.mem_cons] at hc
  rcases hc with (hc | hc) | rfl | hc | hc
  · exact hd c (List.mem_of_mem_take hc)
  · split at hc
    · cases hc
    · rcases List.mem_cons.mp hc with rfl | hc
      · rfl
      · exact hd c (List.mem_of_mem_drop hc)
  · rfl
  · split at hc
    · rw [List.mem_singleton.mp hc]
      rfl
    · exact hplus c hc
  · exact isNumeric_of_mem_toDigits hc

theorem isNumeric_of_mem_text {d : Decimal} (hend : ∀ c ∈ layout.wholeEnd.toList, isNumeric c)
    (hplus : ∀ c ∈ layout.plus.toList, isNumeric c) (hc : c ∈ (d.text layout).toList) :
    isNumeric c := by
  have hd : ∀ c ∈ d.digits, isNumeric c := fun c hc => isNumeric_of_mem_toDigits hc
  rw [text, String.toList_ofList, List.mem_append] at hc
  rcases hc with hc | hc
  · split at hc
    · rw [List.mem_singleton.mp hc]
      rfl
    · cases hc
  · unfold magnitude at hc
    split at hc
    · exact isNumeric_of_mem_positional hend hd hc
    · exact isNumeric_of_mem_scientific hplus hd hc

theorem text_ne_nil {d : Decimal} : (d.text layout).toList ≠ [] := by
  have hd : d.digits ≠ [] := Nat.toDigits_ne_nil
  rw [text, String.toList_ofList]
  refine List.append_ne_nil_of_right_ne_nil _ ?_
  simp only [magnitude, positional, scientific]
  split
  · split
    · simp [hd]
    · split <;> simp
  · simp

end Decimal

/-- A number is written in numeric characters, or as null if it is not finite. -/
theorem Binary64.render_cases (x : Binary64) :
    x.render = "null" ∨ x.render.toList ≠ [] ∧ ∀ c ∈ x.render.toList, isNumeric c := by
  unfold Binary64.render
  split
  · exact .inl rfl
  split
  · refine .inr ⟨List.cons_ne_nil _ _, fun c hc => ?_⟩
    rw [List.mem_singleton.mp hc]
    rfl
  · have hend : ∀ c ∈ Value.numberLayout.wholeEnd.toList, isNumeric c := fun c hc => nomatch hc
    have hplus : ∀ c ∈ Value.numberLayout.plus.toList, isNumeric c := by
      intro c hc
      rw [List.mem_singleton.mp hc]
      rfl
    exact .inr ⟨Decimal.text_ne_nil, fun c hc => Decimal.isNumeric_of_mem_text hend hplus hc⟩

theorem intRepr_ne_nil (n : Int) : n.repr.toList ≠ [] := by
  cases n with
  | ofNat n =>
    change n.repr.toList ≠ []
    rw [Nat.toList_repr]
    exact Nat.toDigits_ne_nil
  | negSucc n =>
    change ("-" ++ (n + 1).repr).toList ≠ []
    simp

theorem isDigit_of_mem_natRepr {n : Nat} (h : c ∈ n.repr.toList) : c.isDigit := by
  rw [Nat.toList_repr] at h
  exact Nat.isDigit_of_mem_toDigits (by decide) (by decide) h

theorem isDigit_or_of_mem_intRepr {n : Int} (h : c ∈ n.repr.toList) : c.isDigit ∨ c = '-' := by
  cases n with
  | ofNat n => exact .inl (isDigit_of_mem_natRepr h)
  | negSucc n =>
    change c ∈ ("-" ++ (n + 1).repr).toList at h
    rw [String.toList_append] at h
    rcases List.mem_append.mp h with h | h
    · exact .inr (List.mem_singleton.mp h)
    · exact .inl (isDigit_of_mem_natRepr h)

theorem intRepr_numeric (n : Int) : n.repr.toList ≠ [] ∧ ∀ c ∈ n.repr.toList, isNumeric c := by
  refine ⟨intRepr_ne_nil n, fun c hc => ?_⟩
  rcases isDigit_or_of_mem_intRepr hc with h | rfl
  · simp [isNumeric, h]
  · rfl

theorem natRepr_inj {m n : Nat} (h : m.repr = n.repr) : m = n := by
  have hdigits := congrArg String.toList h
  rw [Nat.toList_repr, Nat.toList_repr] at hdigits
  rw [← Nat.ofDigitChars_ten_toDigits (n := m), hdigits, Nat.ofDigitChars_ten_toDigits]

theorem natRepr_ne_neg (m n : Nat) : m.repr ≠ "-" ++ n.repr := by
  intro h
  have hsign : '-' ∈ m.repr.toList := by simp [h]
  cases isDigit_of_mem_natRepr hsign

theorem intRepr_inj {m n : Int} (h : m.repr = n.repr) : m = n := by
  cases m with
  | ofNat a =>
    cases n with
    | ofNat b => rw [natRepr_inj h]
    | negSucc b => exact absurd h (natRepr_ne_neg a (b + 1))
  | negSucc a =>
    cases n with
    | ofNat b => exact absurd h.symm (natRepr_ne_neg b (a + 1))
    | negSucc b =>
      have habs : (a + 1).repr = (b + 1).repr := (String.append_right_inj "-").mp h
      rw [Nat.succ.inj (natRepr_inj habs)]

/-! ## Plain characters -/

/-- The characters that the text around strings and free texts is written in: no line feed, no
quote, no bracket, and none of the signs between conditions. -/
def isPlain (c : Char) : Bool :=
  Scanner.isInert c && c != '\n' && c != '&' && c != '|'

theorem isPlain_of_isNumeric (h : isNumeric c) : isPlain c := by
  simp only [isNumeric, Bool.or_eq_true, beq_iff_eq] at h
  rcases h with (((h | rfl) | rfl) | rfl) | rfl
  · have hc : ∀ d : Char, d.isDigit = false → c ≠ d := by
      rintro d hd rfl
      rw [h] at hd
      cases hd
    simp [isPlain, Scanner.isInert, Scanner.isCloser, Scanner.closer?, hc]
  all_goals rfl

/-- A property of texts that plain texts and strings have, and that putting texts one after the
other or between brackets keeps. -/
structure Kept (P : List Char → Prop) : Prop where
  plain : ∀ {t : List Char}, (∀ c ∈ t, isPlain c) → P t
  append : ∀ {t u : List Char}, P t → P u → P (t ++ u)
  enclosed : ∀ {o d : Char} {t : List Char}, Scanner.closer? o = some d → P t → P (o :: (t ++ [d]))
  quote : ∀ s : String, P (Quoted.quote s).toList

namespace Kept

variable {P : List Char → Prop}

theorem nil (K : Kept P) : P [] := K.plain (by simp)

/-- A fixed text, which is plain by evaluation. -/
theorem lit (K : Kept P) (s : String) (h : s.toList.all isPlain = true := by rfl) : P s.toList :=
  K.plain (List.all_eq_true.mp h)

theorem intercalate (K : Kept P) (hsep : P sep) {ts : List (List Char)} (hts : ∀ t ∈ ts, P t) :
    P (sep.intercalate ts) :=
  intercalate_of_append K.nil K.append hsep hts

/-- Sealing with stops that are not plain. -/
theorem sealed {stops : Char → Bool} (hs : ∀ c, stops c = true → c = '&' ∨ c = '|') :
    Kept (Scanner.Sealed stops) where
  plain h := Scanner.Sealed.of_inert fun c hc => by
    have hp := h c hc
    simp only [isPlain, Bool.and_eq_true, bne_iff_ne, ne_eq] at hp
    obtain ⟨⟨⟨hi, -⟩, hand⟩, hor⟩ := hp
    refine ⟨hi, Bool.eq_false_iff.mpr fun hc => ?_⟩
    rcases hs c hc with rfl | rfl
    · exact hand rfl
    · exact hor rfl
  append := Scanner.Sealed.append
  enclosed ho h := by
    refine h.enclosed ho (Bool.eq_false_iff.mpr fun hc => ?_)
    rcases hs _ hc with rfl | rfl <;> cases ho
  quote s := Scanner.Sealed.quote (Bool.eq_false_iff.mpr fun hc => by simpa using hs _ hc) s

theorem closed : Kept Scanner.Closed := sealed (by simp)

theorem binary64 (K : Kept P) (x : Binary64) : P x.render.toList := by
  rcases x.render_cases with h | ⟨-, h⟩
  · rw [h]
    exact K.lit "null"
  · exact K.plain fun c hc => isPlain_of_isNumeric (h c hc)

theorem renderBool (K : Kept P) (b : Bool) : P (renderBool b).toList := by
  cases b with
  | false => exact K.lit "false"
  | true => exact K.lit "true"

/-- Texts between parentheses with commas between them. -/
theorem arguments (K : Kept P) {texts : List String} (h : ∀ s ∈ texts, P s.toList) :
    P ("(" ++ ", ".intercalate texts ++ ")").toList := by
  have hi : P (", ".toList.intercalate (texts.map String.toList)) :=
    K.intercalate (K.lit ", ") (by simpa using h)
  simpa using K.enclosed (o := '(') rfl hi

end Kept

/-! ## Values -/

namespace Value

/-- The text of an entry of a map. -/
def entryText (e : String × Value) : List Char :=
  e.1.toList ++ ':' :: ' ' :: e.2.render.toList

theorem toList_render_list (items : List Value) : (Value.list items).render.toList =
    '[' :: (", ".toList.intercalate (items.map fun v => v.render.toList) ++ [']']) := by
  simp [render, renderItems_eq_map, Function.comp_def]

theorem toList_render_map (entries : List (String × Value)) : (Value.map entries).render.toList =
    '\x7b' :: ((' ' :: (", ".toList.intercalate (entries.map entryText) ++ [' '])) ++ ['\x7d']) := by
  have hentries : entries.map entryText =
      entries.map fun e => e.1.toList ++ ':' :: ' ' :: e.2.render.toList := rfl
  simp [render, renderEntries_eq_map, Function.comp_def, hentries]

end Value

theorem Value.kept_render (K : Kept P) (v : Value) (hk : ∀ k ∈ v.keys, P k.toList)
    (hp : ∀ p ∈ v.paths, P p.text.toList) : P v.render.toList := by
  induction v with
  | null => exact K.lit "null"
  | bool b => exact K.renderBool b
  | int n => exact K.plain fun c hc => isPlain_of_isNumeric ((intRepr_numeric _).2 c hc)
  | float x => exact K.binary64 x
  | string s => exact K.quote s
  | path p => exact hp p List.mem_cons_self
  | list items ih =>
    have hi : P (", ".toList.intercalate ((items.map render).map String.toList)) := by
      refine K.intercalate (K.lit ", ") (List.forall_mem_map.mpr (List.forall_mem_map.mpr ?_))
      intro v hv
      exact ih v hv (fun k hkv => hk k (by simpa using ⟨v, hv, hkv⟩))
        fun p hpv => hp p (by simpa using ⟨v, hv, hpv⟩)
    have henc := K.enclosed (o := '[') rfl hi
    simpa [render, renderItems_eq_map] using henc
  | map entries ih =>
    have hi : P (", ".toList.intercalate
        ((entries.map fun e => e.1 ++ ": " ++ e.2.render).map String.toList)) := by
      refine K.intercalate (K.lit ", ") (List.forall_mem_map.mpr (List.forall_mem_map.mpr ?_))
      intro e he
      rw [String.toList_append, String.toList_append]
      refine K.append (K.append (hk e.1 ?_) (K.lit ": ")) (ih e he (fun k hkv => hk k ?_)
        fun p hpv => hp p ?_)
      · simpa using ⟨e.1, e.2, he, .inl rfl⟩
      · simpa using ⟨e.1, e.2, he, .inr hkv⟩
      · simpa using ⟨e.1, e.2, he, hpv⟩
    have henc := K.enclosed (o := '\x7b') rfl (K.append (K.append (K.lit " ") hi) (K.lit " "))
    simpa [render, renderEntries_eq_map] using henc

end AccessRules
