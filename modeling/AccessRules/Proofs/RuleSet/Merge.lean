import AccessRules.Proofs.RuleSet.Insertion

/-! Merging rule sets. A merge is an insertion after the other, so it goes on where a part of the
entries was merged before (`RuleSet.merge_append`). That one insertion may be made in the set that is
merged instead of behind the merge (`RuleSet.merge_insert`) takes distinct keys there; from it follow
associativity and that sets may be merged in groups (`RuleSet.mergeAll_groups`). -/

namespace AccessRules.RuleSet

variable {s t : RuleSet} {k : String} {rules : List Rule}

theorem merge_empty (s : RuleSet) : s.merge ∅ = s := rfl

theorem merge_cons (s : RuleSet) (e : String × List Rule) (es : List (String × List Rule)) :
    s.merge ⟨e :: es⟩ = (s.insert e.1 e.2).merge ⟨es⟩ := rfl

theorem merge_append (s : RuleSet) (es fs : List (String × List Rule)) :
    s.merge ⟨es ++ fs⟩ = (s.merge ⟨es⟩).merge ⟨fs⟩ :=
  List.foldl_append

theorem insert_merge (hs : k ∈ s.keys) (ht : k ∉ t.keys) :
    (s.merge t).insert k rules = (s.insert k rules).merge t := by
  obtain ⟨es⟩ := t
  induction es generalizing s with
  | nil => rfl
  | cons e es ih =>
    have hne : k ≠ e.1 := fun h => ht (h ▸ List.mem_cons_self)
    have hes : k ∉ keys ⟨es⟩ := fun h => ht (List.mem_cons_of_mem _ h)
    rw [merge_cons, merge_cons, ih (mem_keys_insert.mpr (.inr hs)) hes, insert_comm hs hne]

theorem merge_insert (ht : t.keys.Nodup) :
    s.merge (t.insert k rules) = (s.merge t).insert k rules := by
  obtain ⟨es⟩ := t
  induction es generalizing s with
  | nil => rfl
  | cons e es ih =>
    obtain ⟨he, hes⟩ := List.nodup_cons.mp ht
    by_cases hek : e.1 = k
    · subst hek
      have hinsert : insert ⟨e :: es⟩ e.1 rules = ⟨(e.1, rules) :: es⟩ := by
        simp [insert, insertEntry]
      -- The key is not met again, so its rules may be replaced at once.
      rw [hinsert, merge_cons, merge_cons, insert_merge (mem_keys_insert.mpr (.inl rfl)) he,
        insert_self]
    · have hinsert : insert ⟨e :: es⟩ k rules = ⟨e :: insertEntry k rules es⟩ := by
        simp [insert, insertEntry, hek]
      rw [hinsert, merge_cons, merge_cons]
      exact ih hes

theorem merge_assoc (ht : t.keys.Nodup) (u : RuleSet) :
    (s.merge t).merge u = s.merge (t.merge u) := by
  obtain ⟨es⟩ := u
  induction es generalizing t with
  | nil => rfl
  | cons e es ih => rw [merge_cons, merge_cons, ← merge_insert ht, ih (nodup_insert ht)]

theorem merge_self (h : s.keys.Nodup) : s.merge s = s := by
  suffices H : ∀ es, es ⊆ s.entries → s.merge ⟨es⟩ = s from H _ (List.Subset.refl _)
  intro es hes
  induction es with
  | nil => rfl
  | cons e es ih =>
    obtain ⟨he, hes⟩ := List.cons_subset.mp hes
    rw [merge_cons, insert_of_mem h he, ih hes]

theorem mergeAll_eq_merge (s : RuleSet) (sets : List RuleSet) :
    s.mergeAll sets = s.merge ⟨sets.flatMap entries⟩ := by
  induction sets generalizing s with
  | nil => rfl
  | cons t sets ih =>
    rw [List.flatMap_cons, merge_append, ← ih]
    rfl

theorem merge_mergeAll (s : RuleSet) (sets : List RuleSet) :
    s.merge ((∅ : RuleSet).mergeAll sets) = s.mergeAll sets := by
  have hempty : (∅ : RuleSet).keys.Nodup := by simp
  rw [mergeAll_eq_merge, mergeAll_eq_merge, ← merge_assoc hempty, merge_empty]

/-- Merging does not depend on how the sets are grouped. -/
theorem mergeAll_groups :
    (∀ (s : RuleSet) (groups : List (List RuleSet)),
      s.mergeAll (groups.map fun g => (∅ : RuleSet).mergeAll g) = s.mergeAll groups.flatten) ∧
    (∀ s t u : RuleSet, t.keys.Nodup → (s.merge t).merge u = s.merge (t.merge u)) ∧
    (∀ s : RuleSet, s.merge ∅ = s) ∧
    ∀ s : RuleSet, s.keys.Nodup → s.merge s = s := by
  refine ⟨fun s groups => ?_, fun s t u h => merge_assoc h u, merge_empty, fun s => merge_self⟩
  induction groups generalizing s with
  | nil => rfl
  | cons g groups ih =>
    calc
      s.mergeAll ((g :: groups).map fun g => (∅ : RuleSet).mergeAll g) =
          (s.merge ((∅ : RuleSet).mergeAll g)).mergeAll
            (groups.map fun g => (∅ : RuleSet).mergeAll g) := rfl
      _ = (s.mergeAll g).mergeAll groups.flatten := by rw [merge_mergeAll, ih]
      _ = s.mergeAll (g :: groups).flatten := List.foldl_append.symm

theorem merge_regrouped :
    let s : RuleSet := ⟨[("read", []), ("get", [.ofValue (.bool true)]), ("read", [])]⟩
    let t : RuleSet := ⟨[("get", []), ("list", [.ofValue (.bool false)])]⟩
    t.keys.Nodup ∧ (s.merge t).merge s = s.merge (t.merge s) ∧ t.merge t = t := by
  intro s t
  have ht : t.keys.Nodup := by decide
  exact ⟨ht, mergeAll_groups.2.1 s t s ht, mergeAll_groups.2.2.2 t ht⟩

/-- A key that stands twice in the set in the middle is replaced there in its first place only. -/
example :
    let t : RuleSet := ⟨[("get", []), ("get", [])]⟩
    let u : RuleSet := ⟨[("get", [.ofValue (.bool true)])]⟩
    (t.merge u).entries = [("get", [.ofValue (.bool true)]), ("get", [])] ∧
      ((∅ : RuleSet).merge (t.merge u)).get? "get" = some [] ∧
      (((∅ : RuleSet).merge t).merge u).get? "get" = some [.ofValue (.bool true)] :=
  ⟨rfl, rfl, rfl⟩

end AccessRules.RuleSet
