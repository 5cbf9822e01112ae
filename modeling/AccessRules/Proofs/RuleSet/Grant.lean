import AccessRules.Document.Collection
import AccessRules.Proofs.Operation.Spelling
import AccessRules.Proofs.RuleSet.Insertion

/-! Rule sets for one operation key. The key under which they file their rules is read back from its
text, so two of them collide when they are merged just if their keys hold the same operations in the
same order, however the keys were written (`RuleSet.grant_canonical`). -/

namespace AccessRules.RuleSet

variable {key key' : OperationKey} {a b rules : List Rule} {s s' : RuleSet}

theorem entries_grant (key : OperationKey) (rules : List Rule) :
    (grant key rules).entries = [(key.text, rules)] := rfl

theorem allow_eq_ok_iff :
    allow text rules = .ok s ↔ ∃ key, OperationKey.parse text = .ok key ∧ s = grant key rules := by
  rw [allow]
  cases OperationKey.parse text with
  | error e => exact ⟨nofun, fun ⟨_, h, _⟩ => nomatch h⟩
  | ok key =>
    constructor
    · intro h
      exact ⟨key, rfl, (Except.ok.inj h).symm⟩
    · rintro ⟨key', hkey, rfl⟩
      cases hkey
      rfl

theorem allow_of_parse (h : OperationKey.parse text = .ok key) (model : HandleType) :
    allow text rules = .ok (forModel model key fun _ => rules) :=
  allow_eq_ok_iff.mpr ⟨key, h, rfl⟩

/-- The second of two grants goes into the place of the first if their keys are the same, and behind
it otherwise. -/
theorem entries_merge_grant (key key' : OperationKey) (a b : List Rule) :
    ((grant key a).merge (grant key' b)).entries =
      if key = key' then [(key.text, b)] else [(key.text, a), (key'.text, b)] := by
  have hmerge : (grant key a).merge (grant key' b) = (grant key a).insert key'.text b := rfl
  rw [hmerge, insert, entries_grant, insertEntry]
  by_cases h : key = key'
  · rw [if_pos (congrArg OperationKey.text h), if_pos h]
  · have htext : key.text ≠ key'.text := fun ht => h (OperationKey.text_inj ht)
    rw [if_neg htext, if_neg h]
    rfl

/-- The operations of a rule set are read back from its key. A text gives the rule set of the
operations that are read from it, if any are. And of two texts the later one takes the place of the
earlier one just if the same operations are read from both; otherwise both stay, in order. -/
theorem grant_canonical :
    (∀ (model : HandleType) (operations : List Operation) (rules : Context model → List Rule),
      operations ≠ [] → ∃ key : OperationKey, OperationKey.ofList operations = .ok key ∧
        (forModel model key rules).keys = [key.text] ∧
        OperationKey.parse key.text = .ok key ∧ key.operations = operations) ∧
    (∀ (model : HandleType) (text : String) (rules : List Rule),
      ((∃ s, allow text rules = .ok s) ↔ ∃ key, OperationKey.parse text = .ok key) ∧
      ∀ key, OperationKey.parse text = .ok key →
        allow text rules = .ok (forModel model key fun _ => rules)) ∧
    ∀ (text text' : String) (key key' : OperationKey) (a b : List Rule) (s s' : RuleSet),
      OperationKey.parse text = .ok key → OperationKey.parse text' = .ok key' →
      allow text a = .ok s → allow text' b = .ok s' →
      ((∃ k, (s.merge s').entries = [(k, b)]) ↔ key.operations = key'.operations) ∧
      (key.operations ≠ key'.operations →
        (s.merge s').entries = [(key.text, a), (key'.text, b)]) := by
  refine ⟨fun model operations rules hne => ?_, fun model text rules => ⟨⟨?_, ?_⟩, ?_⟩, ?_⟩
  · let key : OperationKey := ⟨operations, hne⟩
    exact ⟨key, dif_neg hne, rfl, key.parse_text, rfl⟩
  · rintro ⟨s, hs⟩
    obtain ⟨key, hkey, -⟩ := allow_eq_ok_iff.mp hs
    exact ⟨key, hkey⟩
  · rintro ⟨key, hkey⟩
    exact ⟨_, allow_of_parse hkey model⟩
  · exact fun key hkey => allow_of_parse hkey model
  · intro text text' key key' a b s s' hkey hkey' hs hs'
    obtain ⟨k, hk, rfl⟩ := allow_eq_ok_iff.mp hs
    obtain ⟨k', hk', rfl⟩ := allow_eq_ok_iff.mp hs'
    rw [hkey] at hk
    rw [hkey'] at hk'
    cases hk
    cases hk'
    have hiff : key = key' ↔ key.operations = key'.operations := by
      cases key
      cases key'
      rw [OperationKey.mk.injEq]
    rw [entries_merge_grant, ← hiff]
    by_cases h : key = key'
    · simp [h]
    · simp [h]

/-- Blanks do not keep two keys apart, and the order of the operations does. -/
theorem grant_canonical_respelled :
    let key : OperationKey := ⟨[.write, .read], List.cons_ne_nil _ _⟩
    let key' : OperationKey := ⟨[.read, .write], List.cons_ne_nil _ _⟩
    let rules : List Rule := [.ofValue (.bool true)]
    (forModel .path key fun _ => rules).keys = [key.text] ∧
      allow "write,read" [] = .ok (grant key []) ∧
      allow " write\t, read" rules = .ok (grant key rules) ∧
      allow "read,write" rules = .ok (grant key' rules) ∧
      (∃ k, ((grant key []).merge (grant key rules)).entries = [(k, rules)]) ∧
      ((grant key []).merge (grant key' rules)).entries =
        [("write, read", []), ("read, write", rules)] := by
  intro key key' rules
  have hparse : OperationKey.parse "write,read" = .ok key :=
    OperationKey.parse_eq_ok_iff_map.mpr rfl
  have hblanks : OperationKey.parse " write\t, read" = .ok key :=
    OperationKey.parse_eq_ok_iff_map.mpr rfl
  have hturned : OperationKey.parse "read,write" = .ok key' :=
    OperationKey.parse_eq_ok_iff_map.mpr rfl
  obtain ⟨hkey, htext, hmerge⟩ := grant_canonical
  have hfirst := (htext .path "write,read" []).2 key hparse
  have hsecond := (htext .path " write\t, read" rules).2 key hblanks
  have hthird := (htext .path "read,write" rules).2 key' hturned
  obtain ⟨k, hk, hkeys, -⟩ := hkey .path [.write, .read] (fun _ => rules) (List.cons_ne_nil _ _)
  cases hk
  refine ⟨hkeys, hfirst, hsecond, hthird, ?_, ?_⟩
  · exact (hmerge _ _ key key [] rules _ _ hparse hblanks hfirst hsecond).1.mpr rfl
  · exact (hmerge _ _ key key' [] rules _ _ hparse hturned hfirst hthird).2 (by decide)

end AccessRules.RuleSet
