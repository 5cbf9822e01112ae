import AccessRules.Tree.Value
import AccessRules.Proofs.Tree.Lossless
import AccessRules.Proofs.Value.Structure

/-! Stored values are lossless on finite numbers. -/

namespace AccessRules.Value

/-- An entry of a map as it is stored. -/
def entryToTree (e : String × Value) : Tree :=
  .list [.text e.1, e.2.toTree]

/-- The entry of a stored form. -/
def entryOfTree? : Tree → Option (String × Value)
  | .list [.text key, t] => (ofTree? t).map (key, ·)
  | _ => none

theorem toTrees_eq_map (vs : List Value) : toTrees vs = vs.map toTree := by
  induction vs with
  | nil => rfl
  | cons v vs ih => rw [toTrees, ih, List.map_cons]

theorem entriesToTrees_eq_map (es : List (String × Value)) :
    entriesToTrees es = es.map entryToTree := by
  induction es with
  | nil => rfl
  | cons e es ih => rw [entriesToTrees, ih, List.map_cons, entryToTree]

theorem ofTrees?_eq_mapM (ts : List Tree) : ofTrees? ts = ts.mapM ofTree? := by
  induction ts with
  | nil => rfl
  | cons t ts ih => rw [ofTrees?, ih, List.mapM_cons]

theorem entriesOfTrees?_eq_mapM (ts : List Tree) : entriesOfTrees? ts = ts.mapM entryOfTree? := by
  induction ts with
  | nil => rfl
  | cons t ts ih =>
    rw [List.mapM_cons, ← ih]
    unfold entryOfTree?
    split
    · rename_i key t
      rw [entriesOfTrees?]
      cases ofTree? t <;> rfl
    · rename_i h
      rw [entriesOfTrees?]
      · rfl
      · exact List.cons_ne_nil _ _
      · exact fun key u us heq => h key u (List.cons.inj heq).1

theorem entryOfTree?_entryToTree {e : String × Value}
    (h : ofTree? e.2.toTree = keep e.2.floats e.2) :
    entryOfTree? (entryToTree e) = keep e.2.floats e := by
  rw [entryToTree, entryOfTree?, h, keep_map]

/-- A value is read back from its stored form if its numbers are finite. -/
theorem ofTree?_toTree (v : Value) : ofTree? v.toTree = keep v.floats v := by
  induction v with
  | null | bool b | string s | path p => rfl
  | int n =>
    rw [toTree, Tree.variant, ofTree?, ofVariant?, Tree.int64?_toInt]
    rfl
  | float x =>
    rw [toTree, Tree.variant, ofTree?, ofVariant?, Tree.binary64?_ofBinary64, keep_map,
      floats_float]
  | list items ih =>
    rw [toTree, Tree.variant, ofTree?, ofVariant?, toTrees_eq_map, ofTrees?_eq_mapM, mapM_keep ih,
      keep_map, floats_list]
  | map entries ih =>
    have hentries := @mapM_keep _ entryToTree entryOfTree? (fun e => e.2.floats) entries
      fun e he => entryOfTree?_entryToTree (ih e he)
    rw [toTree, Tree.variant, ofTree?, ofVariant?, entriesToTrees_eq_map, entriesOfTrees?_eq_mapM,
      hentries, keep_map, floats_map]

/-- An infinity is lost, in whatever it stands. -/
example : ofTree? (Value.toTree (.list [.map [("k", .float ⟨0x7ff0000000000000⟩)]])) = none := rfl

/-! ## What is read -/

theorem ofTree?_cases (h : ofTree? t = some v) :
    v = .null ∨
      ∃ name payload, t = .object [(name, payload)] ∧ ofVariant? name payload = some v := by
  unfold ofTree? at h
  split at h
  · split at h <;> cases h
    exact .inl rfl
  · exact .inr ⟨_, _, rfl, h⟩
  · cases h

theorem entryOfTree?_cases {e : String × Value} (h : entryOfTree? t = some e) :
    ∃ u, t = .list [.text e.1, u] ∧ ofTree? u = some e.2 := by
  unfold entryOfTree? at h
  split at h
  · obtain ⟨v, hv, rfl⟩ := Option.map_eq_some_iff.mp h
    exact ⟨_, rfl, hv⟩
  · cases h

/-- Only a payload that is a list has values inside. -/
theorem ofVariant?_cases (h : ofVariant? name t = some v) :
    AllFinite v.floats ∨
      (∃ vs, t.children.mapM ofTree? = some vs ∧ v = .list vs) ∨
      ∃ es, t.children.mapM entryOfTree? = some es ∧ v = .map es := by
  unfold ofVariant? at h
  split at h
  · cases h
    exact .inl .nil
  · cases h
    exact .inl .nil
  · obtain ⟨n, -, rfl⟩ := Option.map_eq_some_iff.mp h
    exact .inl .nil
  · obtain ⟨x, hx, rfl⟩ := Option.map_eq_some_iff.mp h
    exact .inl (List.forall_mem_singleton.mpr (Tree.isFinite_of_binary64? hx))
  · cases h
    exact .inl .nil
  · obtain ⟨vs, hvs, rfl⟩ := Option.map_eq_some_iff.mp h
    rw [ofTrees?_eq_mapM] at hvs
    exact .inr (.inl ⟨vs, hvs, rfl⟩)
  · obtain ⟨es, hes, rfl⟩ := Option.map_eq_some_iff.mp h
    rw [entriesOfTrees?_eq_mapM] at hes
    exact .inr (.inr ⟨es, hes, rfl⟩)
  · obtain ⟨p, -, rfl⟩ := Option.map_eq_some_iff.mp h
    exact .inl .nil
  · cases h

/-- Every way to read a tree gives finite numbers only. -/
structure ReadsFinite (t : Tree) : Prop where
  value : ∀ v, ofTree? t = some v → AllFinite v.floats
  variant : ∀ name v, ofVariant? name t = some v → AllFinite v.floats
  entry : ∀ e, entryOfTree? t = some e → AllFinite e.2.floats

theorem readsFinite (t : Tree) : ReadsFinite t := by
  induction t using Tree.ind with
  | node t ih =>
    refine ⟨fun v h => ?_, fun name v h => ?_, fun e h => ?_⟩
    · obtain rfl | ⟨name, payload, rfl, hvariant⟩ := ofTree?_cases h
      · exact .nil
      · exact (ih payload List.mem_cons_self).variant name v hvariant
    · obtain h | ⟨vs, hvs, rfl⟩ | ⟨es, hes, rfl⟩ := ofVariant?_cases h
      · exact h
      · rw [floats_list]
        exact allFinite_of_mapM hvs fun u hu => (ih u hu).value
      · rw [floats_map]
        exact allFinite_of_mapM hes fun u hu => (ih u hu).entry
    · obtain ⟨u, rfl, hu⟩ := entryOfTree?_cases h
      exact (ih u (List.mem_cons_of_mem _ List.mem_cons_self)).value e.2 hu

theorem lossless : Lossless toTree ofTree? floats :=
  .intro ofTree?_toTree fun t => (readsFinite t).value

end AccessRules.Value
