/-!
# Quoted texts

A text between double quotes. Quotes, backslashes and the characters below the space are written
with a backslash; every other character stands for itself.
-/

namespace AccessRules.Quoted

/-- The escape of a character that has no shorter one, `\u` and four hexadecimal digits. Only
characters below the space need it, so two of the digits are zero. -/
def numericEscape (c : Char) : List Char :=
  ['\\', 'u', '0', '0', Nat.digitChar (c.toNat / 16), Nat.digitChar (c.toNat % 16)]

/-- What stands for a character between the quotes. -/
def escape (c : Char) : List Char :=
  if c = '"' then ['\\', '"']
  else if c = '\\' then ['\\', '\\']
  else if c = '\x08' then ['\\', 'b']
  else if c = '\t' then ['\\', 't']
  else if c = '\n' then ['\\', 'n']
  else if c = '\x0c' then ['\\', 'f']
  else if c = '\r' then ['\\', 'r']
  else if c.toNat < 0x20 then numericEscape c
  else [c]

/-- The three shapes of what stands for a character. -/
theorem escape_cases (c : Char) :
    (∃ d ∈ ['"', '\\', 'b', 't', 'n', 'f', 'r'], escape c = ['\\', d]) ∨
    (∃ m n, m < 16 ∧ n < 16 ∧
      escape c = ['\\', 'u', '0', '0', Nat.digitChar m, Nat.digitChar n]) ∨
    c ≠ '"' ∧ c ≠ '\\' ∧ 0x20 ≤ c.toNat ∧ escape c = [c] := by
  generalize h : escape c = e
  unfold escape at h
  iterate 7
    split at h
    · exact .inl ⟨_, by simp, h.symm⟩
  split at h
  · rename_i hlow
    exact .inr (.inl ⟨c.toNat / 16, c.toNat % 16, by omega, by omega, h.symm⟩)
  · rename_i hquote hbackslash _ _ _ _ _ hlow
    exact .inr (.inr ⟨hquote, hbackslash, Nat.le_of_not_lt hlow, h.symm⟩)

/-- The text between the quotes. -/
def encode (s : List Char) : List Char :=
  s.flatMap escape

/-- A text with its quotes. -/
def quote (s : String) : String :=
  String.ofList ('"' :: (encode s.toList ++ ['"']))

end AccessRules.Quoted
