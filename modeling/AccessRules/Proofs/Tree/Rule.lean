import AccessRules.Tree.Rule
import AccessRules.Proofs.Rule.Structure
import AccessRules.Proofs.Tree.Value

/-! Stored operands and rules are lossless on finite numbers. -/

namespace AccessRules

theorem Operator.ofTree?_toTree (op : Operator) : ofTree? op.toTree = some op := by
  cases op <;> rfl

theorem TypeTag.ofTree?_toTree (type : TypeTag) : ofTree? type.toTree = some type := by
  cases type <;> rfl

namespace Rule

/-- The slot of a stored form. -/
def slotOfTree? : Tree → Option (List Rule) :=
  Tree.listOf? ofTree?

theorem toTrees_eq_map (rs : List Rule) : toTrees rs = rs.map toTree := by
  induction rs with
  | nil => rfl
  | cons r rs ih => rw [toTrees, ih, List.map_cons]

theorem slotsToTrees_eq_map (slots : List (List Rule)) :
    slotsToTrees slots = slots.map fun slot => .list (slot.map toTree) := by
  induction slots with
  | nil => rfl
  | cons slot slots ih => rw [slotsToTrees, ih, List.map_cons, toTrees_eq_map]

theorem ofTrees?_eq_mapM (ts : List Tree) : ofTrees? ts = ts.mapM ofTree? := by
  induction ts with
  | nil => rw [ofTrees?]; rfl
  | cons t ts ih => rw [ofTrees?, ih, List.mapM_cons]

theorem slotsOfTrees?_eq_mapM (ts : List Tree) : slotsOfTrees? ts = ts.mapM slotOfTree? := by
  induction ts with
  | nil => rw [slotsOfTrees?]; rfl
  | cons t ts ih =>
    rw [List.mapM_cons, ← ih]
    unfold slotOfTree? Tree.listOf?
    split
    · rw [slotsOfTrees?, ofTrees?_eq_mapM]
    · rename_i h
      rw [slotsOfTrees?]
      · rfl
      · exact List.cons_ne_nil _ _
      · exact fun us vs heq => h us (List.cons.inj heq).1

theorem lookup_operandsOfFields (fields : List (String × Tree)) (name : String) :
    (operandsOfFields fields).lookup name = (fields.lookup name).map Operand.ofTree? := by
  induction fields with
  | nil => rw [operandsOfFields]; rfl
  | cons field fields ih =>
    obtain ⟨key, t⟩ := field
    rw [operandsOfFields, List.lookup_cons, List.lookup_cons, ih]
    split <;> rfl

/-- A slot is read back if its rules are. -/
theorem slotOfTree?_toTree {slot : List Rule}
    (h : ∀ r ∈ slot, ofTree? r.toTree = keep r.floats r) :
    slotOfTree? (.list (slot.map toTree)) = keep (slot.flatMap floats) slot :=
  mapM_keep h

theorem slotsOfTrees?_toTree {slots : List (List Rule)}
    (h : ∀ slot ∈ slots, ∀ r ∈ slot, ofTree? r.toTree = keep r.floats r) :
    slotsOfTrees? (slotsToTrees slots) =
      keep (slots.flatMap fun slot => slot.flatMap floats) slots := by
  rw [slotsToTrees_eq_map, slotsOfTrees?_eq_mapM]
  exact mapM_keep fun slot hslot => slotOfTree?_toTree (h slot hslot)

/-- Operands and rules are read back from their stored forms if their numbers are finite. -/
theorem ofTree?_toTree_all : (∀ x : Operand, Operand.ofTree? x.toTree = keep x.floats x) ∧
    ∀ r : Rule, ofTree? r.toTree = keep r.floats r := by
  apply Rule.ind
  case text =>
    intro s
    rw [Operand.toTree, Tree.variant, Operand.ofTree?]
    rfl
  case nested =>
    intro r ih
    rw [Operand.toTree, Tree.variant, Operand.ofTree?, ih, keep_map]
    rfl
  case bool =>
    intro b
    rw [toTree, Tree.variant, ofTree?, ofVariant?]
    rfl
  case null =>
    rw [toTree, ofTree?]
    rfl
  case binary =>
    intro op left right ihl ihr
    have hop := op.ofTree?_toTree
    rw [toTree, Tree.variant, ofTree?, ofVariant?]
    simpa [lookup_operandsOfFields, List.lookup_cons, ihl, ihr, hop]
      using keep_bind_keep (Rule.binary op) left right
  case within =>
    intro container item ih
    rw [toTree, Tree.variant, ofTree?, ofVariant?]
    simpa [lookup_operandsOfFields, List.lookup_cons, Tree.text?, ih, Option.map_eq_bind,
      Function.comp_def]
      using keep_map (Rule.within container)
  case is =>
    intro value type
    have htype := type.ofTree?_toTree
    rw [toTree, Tree.variant, ofTree?, ofVariant?]
    simp [List.lookup_cons, Tree.text?, htype, floats, literals]
  case not =>
    intro x ih
    rw [toTree, Tree.variant, ofTree?, ofVariant?, ih, keep_map, floats_not]
  case or =>
    intro slots ih
    rw [toTree, Tree.variant, ofTree?, ofVariant?, slotsOfTrees?_toTree ih, keep_map, floats_or]
  case and =>
    intro slots ih
    rw [toTree, Tree.variant, ofTree?, ofVariant?, slotsOfTrees?_toTree ih, keep_map, floats_and]
  case literal =>
    intro v
    rw [toTree, Tree.variant, ofTree?, ofVariant?, Value.ofTree?_toTree, keep_map, floats_literal]

/-! ## What is read -/

theorem ofTree?_cases (h : ofTree? t = some r) :
    r = .null ∨
      ∃ name payload, t = .object [(name, payload)] ∧ ofVariant? name payload = some r := by
  unfold ofTree? at h
  split at h
  · split at h <;> cases h
    exact .inl rfl
  · exact .inr ⟨_, _, rfl, h⟩
  · cases h

/-- A field of a record that stores an operand. -/
theorem mem_of_lookup_operandsOfFields {fields : List (String × Tree)}
    (h : (operandsOfFields fields).lookup name = some (some x)) :
    ∃ u ∈ (Tree.object fields).children, Operand.ofTree? u = some x := by
  rw [lookup_operandsOfFields] at h
  obtain ⟨u, hu, hx⟩ := Option.map_eq_some_iff.mp h
  obtain ⟨before, after, rfl, -⟩ := List.lookup_eq_some_iff.mp hu
  exact ⟨u, by simp [Tree.children], hx⟩

theorem finite_of_ofVariant? (hx : ∀ x, Operand.ofTree? t = some x → AllFinite x.floats)
    (hfields : ∀ u ∈ t.children, ∀ x, Operand.ofTree? u = some x → AllFinite x.floats)
    (hslots : ∀ u ∈ t.children, ∀ slot, slotOfTree? u = some slot →
      AllFinite (slot.flatMap floats))
    (h : ofVariant? name t = some r) : AllFinite r.floats := by
  unfold ofVariant? at h
  split at h
  · cases h
    exact .nil
  · cases h
    exact .nil
  · simp only [Option.bind_eq_bind, Option.bind_eq_some_iff, Option.pure_def,
      Option.some.injEq] at h
    obtain ⟨-, -, op, -, -, hl, left, rfl, -, hr, right, rfl, rfl⟩ := h
    obtain ⟨u, hu, hul⟩ := mem_of_lookup_operandsOfFields hl
    obtain ⟨w, hw, hwr⟩ := mem_of_lookup_operandsOfFields hr
    rw [floats_binary]
    exact (hfields u hu left hul).append (hfields w hw right hwr)
  · simp only [Option.bind_eq_bind, Option.bind_eq_some_iff, Option.pure_def,
      Option.some.injEq] at h
    obtain ⟨-, -, container, -, -, hi, item, rfl, rfl⟩ := h
    obtain ⟨u, hu, hui⟩ := mem_of_lookup_operandsOfFields hi
    exact hfields u hu item hui
  · simp only [Option.bind_eq_bind, Option.bind_eq_some_iff, Option.pure_def,
      Option.some.injEq] at h
    obtain ⟨-, -, value, -, -, -, type, -, rfl⟩ := h
    exact .nil
  · obtain ⟨x, hxt, rfl⟩ := Option.map_eq_some_iff.mp h
    exact hx x hxt
  · obtain ⟨slots, hs, rfl⟩ := Option.map_eq_some_iff.mp h
    rw [slotsOfTrees?_eq_mapM] at hs
    rw [floats_or]
    exact allFinite_of_mapM hs hslots
  · obtain ⟨slots, hs, rfl⟩ := Option.map_eq_some_iff.mp h
    rw [slotsOfTrees?_eq_mapM] at hs
    rw [floats_and]
    exact allFinite_of_mapM hs hslots
  · obtain ⟨v, hv, rfl⟩ := Option.map_eq_some_iff.mp h
    rw [floats_literal]
    exact (Value.readsFinite _).value v hv
  · cases h

/-- Every way to read a tree gives finite numbers only. -/
structure ReadsFinite (t : Tree) : Prop where
  rule : ∀ r, ofTree? t = some r → AllFinite r.floats
  operand : ∀ x, Operand.ofTree? t = some x → AllFinite x.floats
  variant : ∀ name r, ofVariant? name t = some r → AllFinite r.floats
  slot : ∀ rs, slotOfTree? t = some rs → AllFinite (rs.flatMap floats)

theorem readsFinite (t : Tree) : ReadsFinite t := by
  induction t using Tree.ind with
  | node t ih =>
    have hrule : ∀ r, ofTree? t = some r → AllFinite r.floats := by
      intro r h
      obtain rfl | ⟨name, payload, rfl, hvariant⟩ := ofTree?_cases h
      · exact .nil
      · exact (ih payload List.mem_cons_self).variant name r hvariant
    have hoperand : ∀ x, Operand.ofTree? t = some x → AllFinite x.floats := by
      intro x h
      unfold Operand.ofTree? at h
      split at h
      · cases h
        exact .nil
      · rename_i u
        obtain ⟨r, hr, rfl⟩ := Option.map_eq_some_iff.mp h
        exact (ih u List.mem_cons_self).rule r hr
      · cases h
    -- the payload of a negation is an operand itself, so operands come before variants
    refine ⟨hrule, hoperand, fun name r h => ?_, fun rs h => ?_⟩
    · exact finite_of_ofVariant? hoperand (fun u hu => (ih u hu).operand)
        (fun u hu => (ih u hu).slot) h
    · exact allFinite_of_listOf? h fun u hu => (ih u hu).rule

theorem lossless : Lossless toTree ofTree? floats :=
  .intro ofTree?_toTree_all.2 fun t => (readsFinite t).rule

end Rule

theorem Operand.lossless : Lossless toTree ofTree? floats :=
  .intro Rule.ofTree?_toTree_all.1 fun t => (Rule.readsFinite t).operand

end AccessRules
