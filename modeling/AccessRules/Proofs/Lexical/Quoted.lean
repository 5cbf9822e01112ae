import AccessRules.Quoted

/-! Quoted texts are read back character by character. `Quoted.next?` reads by the rules for strings
in JSON, which know more escapes than are written here; it undoes the escape of every character,
whatever follows (`Quoted.next?_escape`). So a quoted text is read up to its last quote, also in front
of other text (`Quoted.read?_quote`), and no two strings are written alike (`Quoted.quote_inj`). -/

namespace AccessRules.Quoted

/-- The value of a hexadecimal digit. -/
def hexDigit? (c : Char) : Option Nat :=
  if '0' ≤ c ∧ c ≤ '9' then some (c.toNat - '0'.toNat)
  else if 'a' ≤ c ∧ c ≤ 'f' then some (10 + (c.toNat - 'a'.toNat))
  else if 'A' ≤ c ∧ c ≤ 'F' then some (10 + (c.toNat - 'A'.toNat))
  else none

/-- The number that four hexadecimal digits stand for, and what follows them. -/
def codeUnit? : List Char → Option (Nat × List Char)
  | a :: b :: c :: d :: r =>
    ([a, b, c, d].mapM hexDigit?).map fun digits => (digits.foldl (fun n k => 16 * n + k) 0, r)
  | _ => none

/-- The character behind `\u`: one code unit, or two that are the halves of a pair. -/
def codePoint? (s : List Char) : Option (Char × List Char) :=
  match codeUnit? s with
  | none => none
  | some (high, r) =>
    if high < 0xD800 ∨ 0xE000 ≤ high then some (Char.ofNat high, r)
    else if 0xDC00 ≤ high then none
    else match r with
      | '\\' :: 'u' :: r =>
        match codeUnit? r with
        | none => none
        | some (low, r) =>
          if 0xDC00 ≤ low ∧ low < 0xE000 then
            some (Char.ofNat (0x10000 + 0x400 * (high - 0xD800) + (low - 0xDC00)), r)
          else none
      | _ => none

/-- What a letter behind a backslash stands for. -/
def letters : List (Char × Char) :=
  [('"', '"'), ('\\', '\\'), ('/', '/'), ('b', '\x08'), ('f', '\x0c'), ('n', '\n'), ('r', '\r'),
    ('t', '\t')]

/-- The first character of a text between quotes, and what follows it. -/
def next? : List Char → Option (Char × List Char)
  | '\\' :: 'u' :: r => codePoint? r
  | '\\' :: c :: r => (letters.lookup c).map fun d => (d, r)
  | c :: r => if c = '\\' ∨ c = '"' ∨ c.toNat < 0x20 then none else some (c, r)
  | [] => none

theorem hexDigit?_digitChar (h : n < 16) : hexDigit? (Nat.digitChar n) = some n := by
  revert n
  decide

theorem next?_numericEscape {c : Char} (h : c.toNat < 0x20) (u : List Char) :
    next? (numericEscape c ++ u) = some (c, u) := by
  have hhigh : hexDigit? (Nat.digitChar (c.toNat / 16)) = some (c.toNat / 16) :=
    hexDigit?_digitChar (by omega)
  have hlow : hexDigit? (Nat.digitChar (c.toNat % 16)) = some (c.toNat % 16) :=
    hexDigit?_digitChar (by omega)
  have hzero : hexDigit? '0' = some 0 := rfl
  have hsum : 16 * (c.toNat / 16) + c.toNat % 16 = c.toNat := Nat.div_add_mod _ _
  have hunit : codeUnit? ('0' :: '0' :: Nat.digitChar (c.toNat / 16) ::
      Nat.digitChar (c.toNat % 16) :: u) = some (c.toNat, u) := by
    simp [codeUnit?, hzero, hhigh, hlow, hsum]
  change codePoint? ('0' :: '0' :: _ :: _ :: u) = some (c, u)
  have hfirst : c.toNat < 0xD800 := by omega
  simp only [codePoint?, hunit, if_pos (Or.inl hfirst), Char.ofNat_toNat]

theorem next?_self {c : Char} (hquote : c ≠ '"') (hbackslash : c ≠ '\\') (hlow : ¬c.toNat < 0x20)
    (u : List Char) : next? (c :: u) = some (c, u) := by
  rw [next?]
  · simp [hquote, hbackslash, hlow]
  · rintro r rfl
    contradiction
  · rintro d r rfl
    contradiction

/-- An escape is read as the character that it stands for. -/
theorem next?_escape (c : Char) (u : List Char) : next? (escape c ++ u) = some (c, u) := by
  unfold escape
  iterate 7
    split
    · rename_i h
      rw [h]
      rfl
  split
  · exact next?_numericEscape ‹_› u
  · exact next?_self ‹_› ‹_› ‹_› u

/-! ## Whole texts -/

theorem length_of_codeUnit? (h : codeUnit? s = some (n, r)) : r.length < s.length := by
  unfold codeUnit? at h
  split at h
  · obtain ⟨digits, -, heq⟩ := Option.map_eq_some_iff.mp h
    cases heq
    simp only [List.length_cons]
    omega
  · cases h

theorem length_of_codePoint? (h : codePoint? s = some (c, r)) : r.length < s.length := by
  unfold codePoint? at h
  split at h
  · cases h
  rename_i high r' hhigh
  have hlen := length_of_codeUnit? hhigh
  split at h
  · cases h
    exact hlen
  split at h
  · cases h
  split at h
  · split at h
    · cases h
    rename_i low r'' hlow
    have hlen' := length_of_codeUnit? hlow
    split at h
    · obtain ⟨-, rfl⟩ := Prod.mk.inj (Option.some.inj h)
      simp only [List.length_cons] at hlen
      omega
    · cases h
  · cases h

theorem length_of_next? (h : next? s = some (c, r)) : r.length < s.length := by
  unfold next? at h
  split at h
  · have hlen := length_of_codePoint? h
    simp only [List.length_cons]
    omega
  · obtain ⟨d, -, heq⟩ := Option.map_eq_some_iff.mp h
    cases heq
    simp only [List.length_cons]
    omega
  · split at h <;> cases h
    exact Nat.lt_succ_self _
  · cases h

/-- The characters in front of the first quote that is no part of an escape, and what follows it. -/
def body? (s : List Char) : Option (List Char × List Char) :=
  match s with
  | '"' :: r => some ([], r)
  | s =>
    match h : next? s with
    | none => none
    | some (c, r) =>
      have := length_of_next? h
      (body? r).map fun (cs, u) => (c :: cs, u)
termination_by s.length

/-- The string that a text starts with, and what follows it. -/
def read? : List Char → Option (List Char × List Char)
  | '"' :: r => body? r
  | _ => none

theorem body?_escape (c : Char) (u : List Char) :
    body? (escape c ++ u) = (body? u).map fun (cs, v) => (c :: cs, v) := by
  have hquote : ∀ r, escape c ++ u ≠ '"' :: r := by
    intro r h
    obtain ⟨d, -, he⟩ | ⟨m, n, -, -, he⟩ | ⟨hc, -, -, he⟩ := escape_cases c <;> rw [he] at h
    · cases h
    · cases h
    · exact hc (List.cons.inj h).1
  rw [body?]
  · split
    · rename_i hnext
      rw [next?_escape] at hnext
      cases hnext
    · rename_i hnext
      rw [next?_escape] at hnext
      cases hnext
      rfl
  · exact hquote

theorem body?_encode (s u : List Char) : body? (encode s ++ '"' :: u) = some (s, u) := by
  induction s with
  | nil => rw [encode, List.flatMap_nil, List.nil_append, body?]
  | cons c s ih =>
    have hcons : encode (c :: s) = escape c ++ encode s := List.flatMap_cons
    rw [hcons, List.append_assoc, body?_escape, ih]
    rfl

/-- A quoted text ends at its last quote, whatever it stands in front of. -/
theorem read?_quote (s : String) (u : List Char) :
    read? ((quote s).toList ++ u) = some (s.toList, u) := by
  have hquote : (quote s).toList ++ u = '"' :: (encode s.toList ++ '"' :: u) := by
    simp [quote]
  rw [hquote, read?, body?_encode]

theorem quote_inj {s t : String} (h : quote s = quote t) : s = t := by
  have hread := read?_quote s []
  rw [h, read?_quote] at hread
  exact String.toList_inj.mp (Prod.mk.inj (Option.some.inj hread)).1.symm

/-! ## Pieces -/

/-- Characters that stand for themselves between quotes. -/
def IsOrdinary (c : Char) : Prop :=
  c ≠ '"' ∧ c ≠ '\\' ∧ 0x20 ≤ c.toNat

/-- A whole escape: a letter behind a backslash, or four digits behind `\u`. -/
inductive IsEscape : List Char → Prop
  | letter (h : (letters.lookup c).isSome) : IsEscape ['\\', c]
  | numeric (hlen : digits.length = 4) (hd : ∀ d ∈ digits, (hexDigit? d).isSome) :
      IsEscape ('\\' :: 'u' :: digits)

/-- What may stand for a character between quotes. -/
inductive StandsFor : Char → List Char → Prop
  | ordinary (h : IsOrdinary c) : StandsFor c [c]
  | escaped (h : ¬IsOrdinary c) (ht : IsEscape t) : StandsFor c t

theorem escape_of_isOrdinary (h : IsOrdinary c) : escape c = [c] := by
  have hlow : ∀ d : Char, d.toNat < 0x20 → c ≠ d := by
    rintro d hd rfl
    exact absurd h.2.2 (Nat.not_le_of_lt hd)
  unfold escape
  rw [if_neg h.1, if_neg h.2.1, if_neg (hlow _ (by decide)), if_neg (hlow _ (by decide)),
    if_neg (hlow _ (by decide)), if_neg (hlow _ (by decide)), if_neg (hlow _ (by decide)),
    if_neg (Nat.not_lt_of_le h.2.2)]

theorem isSome_hexDigit? (h : n < 16) : (hexDigit? (Nat.digitChar n)).isSome := by
  rw [hexDigit?_digitChar h]
  rfl

theorem standsFor_escape (c : Char) : StandsFor c (escape c) := by
  by_cases hc : IsOrdinary c
  · rw [escape_of_isOrdinary hc]
    exact .ordinary hc
  · refine .escaped hc ?_
    obtain ⟨d, hd, h⟩ | ⟨m, n, hm, hn, h⟩ | ⟨hquote, hbackslash, hlow, -⟩ := escape_cases c
    · have hletters : ∀ d ∈ ['"', '\\', 'b', 't', 'n', 'f', 'r'], (letters.lookup d).isSome :=
        List.all_eq_true.mp rfl
      rw [h]
      exact .letter (hletters d hd)
    · rw [h]
      refine .numeric rfl ?_
      simp only [List.forall_mem_cons]
      exact ⟨rfl, rfl, isSome_hexDigit? hm, isSome_hexDigit? hn, nofun⟩
    · exact absurd ⟨hquote, hbackslash, hlow⟩ hc

theorem le_toNat_of_hexDigit? (h : (hexDigit? d).isSome) : 0x20 ≤ d.toNat := by
  have hlow : ∀ n < 0x20, hexDigit? (Char.ofNat n) = none := by decide
  refine Nat.le_of_not_lt fun hd => ?_
  rw [← Char.ofNat_toNat d, hlow _ hd] at h
  cases h

theorem le_toNat_of_letters (h : (letters.lookup c).isSome) : 0x20 ≤ c.toNat := by
  have hlow : ∀ n < 0x20, letters.lookup (Char.ofNat n) = none := by decide
  refine Nat.le_of_not_lt fun hc => ?_
  rw [← Char.ofNat_toNat c, hlow _ hc] at h
  cases h

/-- Neither ordinary characters nor escapes hold any character below the space. -/
theorem StandsFor.le_toNat (h : StandsFor c t) : ∀ d ∈ t, 0x20 ≤ d.toNat := by
  cases h with
  | ordinary h => exact List.forall_mem_singleton.mpr h.2.2
  | escaped _ ht =>
    cases ht with
    | letter h =>
      exact List.forall_mem_cons.mpr ⟨by decide, List.forall_mem_singleton.mpr (le_toNat_of_letters h)⟩
    | numeric _ hd =>
      exact List.forall_mem_cons.mpr ⟨by decide, List.forall_mem_cons.mpr ⟨by decide, fun d hm =>
        le_toNat_of_hexDigit? (hd d hm)⟩⟩

end AccessRules.Quoted
