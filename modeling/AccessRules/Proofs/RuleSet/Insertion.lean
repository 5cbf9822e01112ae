import AccessRules.RuleSet

/-! Inserting into a rule set. The keys of the result (`RuleSet.keys_insert`) and the rules of each
key (`RuleSet.get?_insert`) say all that an insertion does; two insertions at one key count as the
later one, and an insertion at a key that is already there can change places with any other. -/

namespace AccessRules.RuleSet

variable {s : RuleSet} {k l : String} {a b rules : List Rule} {es : List (String × List Rule)}

/-! ## Entries -/

theorem lookup_cons_eq (k l : String) (rules : List Rule) (es : List (String × List Rule)) :
    ((k, rules) :: es).lookup l = if l = k then some rules else es.lookup l := by
  rw [List.lookup_cons]
  split <;> simp_all

theorem map_fst_insertEntry (k : String) (rules : List Rule) (es : List (String × List Rule)) :
    (insertEntry k rules es).map Prod.fst =
      if k ∈ es.map Prod.fst then es.map Prod.fst else es.map Prod.fst ++ [k] := by
  induction es with
  | nil => rfl
  | cons e es ih =>
    rw [insertEntry]
    split <;> rename_i h
    · simp [h]
    · rw [List.map_cons, List.map_cons, ih]
      simp only [List.mem_cons, Ne.symm h, false_or]
      split <;> rfl

theorem lookup_insertEntry (k l : String) (rules : List Rule) (es : List (String × List Rule)) :
    (insertEntry k rules es).lookup l = if l = k then some rules else es.lookup l := by
  induction es with
  | nil => exact lookup_cons_eq k l rules []
  | cons e es ih =>
    rw [insertEntry]
    split <;> rename_i h
    · rw [lookup_cons_eq, lookup_cons_eq, h]
      split <;> rfl
    · rw [lookup_cons_eq, lookup_cons_eq, ih]
      split
      · rename_i hl
        rw [if_neg (hl ▸ h)]
      · rfl

theorem insertEntry_self (k : String) (a b : List Rule) (es : List (String × List Rule)) :
    insertEntry k b (insertEntry k a es) = insertEntry k b es := by
  induction es with
  | nil => simp [insertEntry]
  | cons e es ih =>
    simp only [insertEntry]
    split <;> rename_i h
    · simp [insertEntry, h]
    · simp [insertEntry, h, ih]

theorem insertEntry_comm (hk : k ∈ es.map Prod.fst) (hne : k ≠ l) :
    insertEntry k a (insertEntry l b es) = insertEntry l b (insertEntry k a es) := by
  induction es with
  | nil => cases hk
  | cons e es ih =>
    by_cases hek : e.1 = k
    · simp [insertEntry, hek, hne]
    · have hk' : k ∈ es.map Prod.fst := by simpa [Ne.symm hek] using hk
      by_cases hel : e.1 = l
      · simp [insertEntry, hel, hne.symm]
      · simp [insertEntry, hel, hek, ih hk']

theorem insertEntry_of_mem (hn : (es.map Prod.fst).Nodup) (h : (k, rules) ∈ es) :
    insertEntry k rules es = es := by
  induction es with
  | nil => cases h
  | cons e es ih =>
    obtain ⟨he, hes⟩ := List.nodup_cons.mp hn
    rcases List.mem_cons.mp h with rfl | h
    · simp [insertEntry]
    · have hne : e.1 ≠ k := by
        rintro rfl
        exact he (List.mem_map.mpr ⟨_, h, rfl⟩)
      simp [insertEntry, hne, ih hes h]

/-- Where rules are put does not depend on them. -/
theorem insertEntry_eq_append (k : String) (es : List (String × List Rule)) :
    ∃ before after, k ∉ before.map Prod.fst ∧
      ∀ rules, insertEntry k rules es = before ++ (k, rules) :: after := by
  induction es with
  | nil => exact ⟨[], [], List.not_mem_nil, fun _ => rfl⟩
  | cons e es ih =>
    by_cases h : e.1 = k
    · refine ⟨[], es, List.not_mem_nil, fun rules => ?_⟩
      rw [insertEntry, if_pos h, h, List.nil_append]
    · obtain ⟨before, after, hk, hes⟩ := ih
      refine ⟨e :: before, after, ?_, fun rules => ?_⟩
      · exact fun hm => (List.mem_cons.mp hm).elim (h ·.symm) hk
      · rw [insertEntry, if_neg h, hes, List.cons_append]

/-- Putting rules under another key does not depend on the rules of an entry. -/
theorem insertEntry_append_of_ne (hne : k ≠ l) (b : List Rule)
    (before after : List (String × List Rule)) :
    ∃ before' after', before'.map Prod.fst = before.map Prod.fst ∧
      ∀ a, insertEntry l b (before ++ (k, a) :: after) = before' ++ (k, a) :: after' := by
  induction before with
  | nil =>
    refine ⟨[], insertEntry l b after, rfl, fun a => ?_⟩
    rw [List.nil_append, insertEntry, if_neg hne, List.nil_append]
  | cons e before ih =>
    by_cases h : e.1 = l
    · refine ⟨(e.1, b) :: before, after, rfl, fun a => ?_⟩
      rw [List.cons_append, insertEntry, if_pos h, List.cons_append]
    · obtain ⟨before', after', hkeys, hes⟩ := ih
      refine ⟨e :: before', after', by rw [List.map_cons, hkeys, List.map_cons], fun a => ?_⟩
      rw [List.cons_append, insertEntry, if_neg h, hes, List.cons_append]

theorem insertEntry_append_self {before : List (String × List Rule)}
    (hk : k ∉ before.map Prod.fst) (a b : List Rule) (after : List (String × List Rule)) :
    insertEntry k b (before ++ (k, a) :: after) = before ++ (k, b) :: after := by
  induction before with
  | nil => rw [List.nil_append, insertEntry, if_pos rfl, List.nil_append]
  | cons e before ih =>
    obtain ⟨hne, hbefore⟩ := not_or.mp (mt List.mem_cons.mpr hk)
    rw [List.cons_append, insertEntry, if_neg (Ne.symm hne), ih hbefore, List.cons_append]

/-! ## Rule sets -/

@[simp] theorem keys_empty : (∅ : RuleSet).keys = [] := rfl

theorem contains_iff : s.contains k ↔ k ∈ s.keys := by
  simp only [contains, get?, keys, List.lookup_isSome_iff, beq_iff_eq, List.mem_map,
    eq_comm (a := k)]

theorem keys_insert (s : RuleSet) (k : String) (rules : List Rule) :
    (s.insert k rules).keys = if k ∈ s.keys then s.keys else s.keys ++ [k] :=
  map_fst_insertEntry k rules s.entries

theorem get?_insert (s : RuleSet) (k l : String) (rules : List Rule) :
    (s.insert k rules).get? l = if l = k then some rules else s.get? l :=
  lookup_insertEntry k l rules s.entries

theorem mem_keys_insert : l ∈ (s.insert k rules).keys ↔ l = k ∨ l ∈ s.keys := by
  rw [keys_insert]
  split <;> rename_i hk
  · refine ⟨.inr, ?_⟩
    rintro (rfl | hl)
    · exact hk
    · exact hl
  · simp [or_comm]

theorem nodup_insert (h : s.keys.Nodup) : (s.insert k rules).keys.Nodup := by
  rw [keys_insert]
  split <;> rename_i hk
  · exact h
  · refine List.nodup_append.mpr ⟨h, by simp, ?_⟩
    rintro l hl m hm rfl
    exact hk (List.mem_singleton.mp hm ▸ hl)

theorem insert_self (s : RuleSet) (k : String) (a b : List Rule) :
    (s.insert k a).insert k b = s.insert k b :=
  congrArg mk (insertEntry_self k a b s.entries)

theorem insert_comm (hk : k ∈ s.keys) (hne : k ≠ l) :
    (s.insert l b).insert k a = (s.insert k a).insert l b :=
  congrArg mk (insertEntry_comm hk hne)

theorem insert_of_mem (hn : s.keys.Nodup) (h : (k, rules) ∈ s.entries) : s.insert k rules = s :=
  congrArg mk (insertEntry_of_mem hn h)

end AccessRules.RuleSet
