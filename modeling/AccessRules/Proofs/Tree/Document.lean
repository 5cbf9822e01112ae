import AccessRules.Tree.Document
import AccessRules.Proofs.Tree.Rule

/-! Stored rule sets, collections and documents are lossless on finite numbers, as are the values,
operands and rules in them (`lossless_of_finite`). -/

namespace AccessRules

namespace RuleSet

/-- The numbers inside the rules of an entry. -/
def entryFloats (e : String × List Rule) : List Binary64 :=
  e.2.flatMap Rule.floats

/-- The numbers inside the rules of a set. -/
def floats (s : RuleSet) : List Binary64 :=
  s.entries.flatMap entryFloats

theorem entryOfTree?_toTree (e : String × List Rule) :
    entryOfTree? (entryToTree e) = keep (entryFloats e) e := by
  have hrules := mapM_keep fun r (_ : r ∈ e.2) => Rule.ofTree?_toTree_all.2 r
  rw [entryToTree, entryOfTree?, Rule.toTrees_eq_map, Rule.ofTrees?_eq_mapM, hrules, keep_map]
  rfl

theorem finite_of_entry (h : entryOfTree? t = some e) : AllFinite (entryFloats e) := by
  unfold entryOfTree? at h
  split at h
  · obtain ⟨rs, hrs, rfl⟩ := Option.map_eq_some_iff.mp h
    rw [Rule.ofTrees?_eq_mapM] at hrs
    exact allFinite_of_mapM hrs fun u _ => (Rule.readsFinite u).rule
  · cases h

theorem ofTree?_toTree (s : RuleSet) : ofTree? s.toTree = keep s.floats s := by
  have hentries := mapM_keep fun e (_ : e ∈ s.entries) => entryOfTree?_toTree e
  have hread : ofTree? s.toTree = ((s.entries.map entryToTree).mapM entryOfTree?).map .mk := rfl
  rw [hread, hentries, keep_map]
  rfl

theorem finite_of_read (h : ofTree? t = some s) : AllFinite s.floats := by
  unfold ofTree? at h
  split at h
  · obtain ⟨es, hes, rfl⟩ := Option.map_eq_some_iff.mp h
    exact allFinite_of_listOf? hes fun u _ e he => finite_of_entry he
  · cases h

end RuleSet

namespace CollectionRules

/-- The numbers inside the rules of a collection. -/
def floats (c : CollectionRules) : List Binary64 :=
  c.rules.floats

theorem ofTree?_toTree (c : CollectionRules) : ofTree? c.toTree = keep c.floats c := by
  have hread : ofTree? c.toTree = (RuleSet.ofTree? c.rules.toTree).map (.mk c.path) := rfl
  rw [hread, RuleSet.ofTree?_toTree, keep_map]
  rfl

theorem finite_of_read (h : ofTree? t = some c) : AllFinite c.floats := by
  unfold ofTree? at h
  split at h
  · obtain ⟨s, hs, rfl⟩ := Option.map_eq_some_iff.mp h
    exact RuleSet.finite_of_read hs
  · cases h

end CollectionRules

namespace Document

/-- The numbers inside the rules of a document. -/
def floats (d : Document) : List Binary64 :=
  d.collections.flatMap CollectionRules.floats

theorem ofTree?_toTree (d : Document) : ofTree? d.toTree = keep d.floats d := by
  have hcollections := mapM_keep fun c (_ : c ∈ d.collections) => c.ofTree?_toTree
  have hread : ofTree? d.toTree =
      ((d.collections.map CollectionRules.toTree).mapM CollectionRules.ofTree?).map
        (.mk d.service) := rfl
  rw [hread, hcollections, keep_map]
  rfl

theorem finite_of_read (h : ofTree? t = some d) : AllFinite d.floats := by
  unfold ofTree? at h
  split at h
  · obtain ⟨cs, hcs, rfl⟩ := Option.map_eq_some_iff.mp h
    exact allFinite_of_listOf? hcs fun u _ c hc => CollectionRules.finite_of_read hc
  · cases h

end Document

/-- The stored form of everything that is stored is lossless just on finite numbers. -/
theorem lossless_of_finite :
    Lossless Value.toTree Value.ofTree? Value.floats ∧
    Lossless Operand.toTree Operand.ofTree? Operand.floats ∧
    Lossless Rule.toTree Rule.ofTree? Rule.floats ∧
    Lossless RuleSet.toTree RuleSet.ofTree? RuleSet.floats ∧
    Lossless CollectionRules.toTree CollectionRules.ofTree? CollectionRules.floats ∧
    Lossless Document.toTree Document.ofTree? Document.floats :=
  ⟨Value.lossless, Operand.lossless, Rule.lossless,
    .intro RuleSet.ofTree?_toTree fun _ _ => RuleSet.finite_of_read,
    .intro CollectionRules.ofTree?_toTree fun _ _ => CollectionRules.finite_of_read,
    .intro Document.ofTree?_toTree fun _ _ => Document.finite_of_read⟩

end AccessRules
