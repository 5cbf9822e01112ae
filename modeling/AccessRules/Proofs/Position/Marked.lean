import AccessRules.Proofs.Construction
import AccessRules.Proofs.RuleSet.Merge

/-! Positions of a value in what is built. A construction with one marked position is a function of the
value that stands there; `Marked` says that the value is put into one place and that everything else
is fixed. A rule set that is filled further may lose the position, so from rule sets on `Marked` names
the key that the position is filed under, or none once the rules of that key were replaced
(`RuleSet.Marked.placed`). -/

namespace AccessRules

/-! ## Values and handles -/

/-- A step with the value among its arguments. -/
inductive Step.Marked (f : Value → Value) : {t u : HandleType} → (Value → Step t u) → Prop
  | call {t : HandleType} (before after : List Value) :
      Marked f (t := t) fun v => .call (before ++ f v :: after)
  | method {t : HandleType} (m : Signature) (mem : m ∈ t.methods) (before after : List Value)
      (length_eq : ∀ v, (before ++ f v :: after).length = m.arity) :
      Marked f fun v => .method m mem (before ++ f v :: after) (length_eq v)
  | key {t : HandleType} (isMap : t.isMap) (default : Value) (u : HandleType) :
      Marked f fun v => .get isMap (f v) default u
  | default {t : HandleType} (isMap : t.isMap) (key : Value) (u : HandleType) :
      Marked f fun v => .get isMap key (f v) u

/-- A handle with the value among the arguments of one of its calls. -/
inductive Handle.Marked (f : Value → Value) : {t : HandleType} → (Value → Handle t) → Prop
  | boolOf : Marked f fun v => Handle.boolOf (f v)
  | function (space name : String) (before after : List Value) :
      Marked f fun v => Handle.function (t := t) space name (before ++ f v :: after)
  | step (h : Handle t) {s : Value → Step t u} (hs : Step.Marked f s) :
      Marked f fun v => h.step (s v)
  | next {h : Value → Handle t} (hh : Marked f h) (s : Step t u) : Marked f fun v => (h v).step s
  /-- The id of a document may be captured. -/
  | lookup (c : Collection model) {h : Value → Handle t} (hh : Marked f h) :
      Marked f fun v => c.get (h v).documentId

/-- A value with the value inside of it. -/
inductive Value.Marked : (Value → Value) → Prop
  | here : Marked fun v => v
  | item (before after : List Value) (hf : Marked f) : Marked fun v => .list (before ++ f v :: after)
  | entry (before after : List (String × Value)) (key : String) (hf : Marked f) :
      Marked fun v => .map (before ++ (key, f v) :: after)
  | captured {h : Value → Handle t} (hf : Marked f) (hh : Handle.Marked f h) :
      Marked fun v => (h v).value

/-! ## Rules -/

mutual
inductive Operand.Marked : (Value → Operand) → Prop
  | value (hf : Value.Marked f) : Operand.Marked fun v => .ofValue (f v)
  | handle {h : Value → Handle t} (hf : Value.Marked f) (hh : Handle.Marked f h) :
      Operand.Marked fun v => (h v).operand
  | rule (hr : Rule.Marked r) : Operand.Marked fun v => .rule (r v)

/-- A rule with the value inside of it. -/
inductive Rule.Marked : (Value → Rule) → Prop
  | literal (hf : Value.Marked f) : Rule.Marked fun v => .ofValue (f v)
  | captured {h : Value → Handle t} (hf : Value.Marked f) (hh : Handle.Marked f h) :
      Rule.Marked fun v => (h v).rule
  | left (op : Operator) (hx : Operand.Marked x) (b : Operand) :
      Rule.Marked fun v => .binary op (x v) b
  | right (op : Operator) (a : Operand) (hx : Operand.Marked x) :
      Rule.Marked fun v => .binary op a (x v)
  | container (hf : Value.Marked f) (item : Operand) : Rule.Marked fun v => .contains (f v) item
  | item (container : Value) (hx : Operand.Marked x) : Rule.Marked fun v => .contains container (x v)
  | hasType (hf : Value.Marked f) (type : TypeTag) : Rule.Marked fun v => .hasType (f v) type
  | not (hx : Operand.Marked x) : Rule.Marked fun v => .not (x v)
  | or (before after : List (List Rule)) (hs : Rules.Marked slot) :
      Rule.Marked fun v => .or (before ++ slot v :: after)
  | and (before after : List (List Rule)) (hs : Rules.Marked slot) :
      Rule.Marked fun v => .and (before ++ slot v :: after)

/-- Rules that must all hold, with the value inside of one. -/
inductive Rules.Marked : (Value → List Rule) → Prop
  | rule (before after : List Rule) (hr : Rule.Marked r) :
      Rules.Marked fun v => before ++ r v :: after
end

/-! ## Rule sets -/

/-- A rule set with the value inside the rules of a key, or lost with rules that were replaced. -/
inductive RuleSet.Marked : Option String → (Value → RuleSet) → Prop
  | insert (s : RuleSet) (key : String) (hr : Rules.Marked rules) :
      Marked (some key) fun v => s.insert key (rules v)
  | put (hs : Marked key s) (k : String) (rules : List Rule) :
      Marked (key.filter (· ≠ k)) fun v => (s v).insert k rules
  | merge (hs : Marked key s) (t : RuleSet) :
      Marked (key.filter (· ∉ t.keys)) fun v => (s v).merge t
  /-- If the merged set holds the key again, those rules replace the ones in front of them. Which keys
  it holds does not depend on the value. -/
  | into (s : RuleSet) (ht : Marked key t) :
      Marked (key.filter ((t .null).keys.count · = 1)) fun v => s.merge (t v)

namespace RuleSet

variable {key : Option String} {s : Value → RuleSet}

/-- The first rules of a key hold the value and all other entries are fixed, or the whole set is. -/
def Placed : Option String → (Value → RuleSet) → Prop
  | some key, s => ∃ before after rules, key ∉ before.map Prod.fst ∧ Rules.Marked rules ∧
      s = fun v => ⟨before ++ (key, rules v) :: after⟩
  | none, s => ∃ t, s = fun _ => t

theorem placed_insert (t : RuleSet) (key : String) (hr : Rules.Marked rules) :
    Placed (some key) fun v => t.insert key (rules v) := by
  obtain ⟨before, after, hkey, hes⟩ := insertEntry_eq_append key t.entries
  exact ⟨before, after, rules, hkey, hr, funext fun v => congrArg mk (hes _)⟩

theorem Placed.put (h : Placed key s) (k : String) (rules : List Rule) :
    Placed (key.filter (· ≠ k)) fun v => (s v).insert k rules := by
  cases key with
  | none =>
    obtain ⟨t, rfl⟩ := h
    exact ⟨t.insert k rules, rfl⟩
  | some key =>
    obtain ⟨before, after, rs, hkey, hrs, rfl⟩ := h
    by_cases hk : key = k
    · subst hk
      rw [Option.filter_some_neg (by simp)]
      exact ⟨⟨before ++ (key, rules) :: after⟩,
        funext fun v => congrArg mk (insertEntry_append_self hkey _ _ _)⟩
    · obtain ⟨before', after', hkeys, hput⟩ := insertEntry_append_of_ne hk rules before after
      rw [Option.filter_some_pos (by simpa using hk)]
      exact ⟨before', after', rs, hkeys ▸ hkey, hrs, funext fun v => congrArg mk (hput _)⟩

theorem Placed.merge (h : Placed key s) (t : RuleSet) :
    Placed (key.filter (· ∉ t.keys)) fun v => (s v).merge t := by
  obtain ⟨es⟩ := t
  induction es generalizing key s with
  | nil =>
    have hkey : key.filter (· ∉ keys ⟨[]⟩) = key := by cases key <;> rfl
    rw [hkey]
    exact h
  | cons e es ih =>
    have hkey : key.filter (· ∉ keys ⟨e :: es⟩) =
        (key.filter (· ≠ e.1)).filter (· ∉ keys ⟨es⟩) := by
      rw [Option.filter_filter]
      refine congrArg (Option.filter · key) (funext fun k => ?_)
      have hmem : k ∈ keys ⟨e :: es⟩ ↔ k = e.1 ∨ k ∈ keys ⟨es⟩ := List.mem_cons
      rw [Bool.eq_iff_iff]
      simp [hmem]
    rw [hkey]
    exact ih (h.put e.1 e.2)

theorem Placed.into (h : Placed key s) (t : RuleSet) :
    Placed (key.filter ((s .null).keys.count · = 1)) fun v => t.merge (s v) := by
  cases key with
  | none =>
    obtain ⟨u, rfl⟩ := h
    exact ⟨t.merge u, rfl⟩
  | some key =>
    obtain ⟨before, after, rules, hkey, hr, rfl⟩ := h
    -- Merging is inserting the rules behind the first entries and in front of the last ones.
    have hmerge : ∀ v, t.merge ⟨before ++ (key, rules v) :: after⟩ =
        ((t.merge ⟨before⟩).insert key (rules v)).merge ⟨after⟩ := by
      intro v
      rw [merge_append, merge_cons]
    have hcount : (keys ⟨before ++ (key, rules .null) :: after⟩).count key = 1 ↔
        key ∉ keys ⟨after⟩ := by
      rw [keys, List.map_append, List.map_cons, List.count_append, List.count_cons_self,
        List.count_eq_zero.mpr hkey, Nat.zero_add, Nat.succ_inj, List.count_eq_zero]
      rfl
    have hplaced := (placed_insert (t.merge ⟨before⟩) key hr).merge ⟨after⟩
    simp only [hmerge]
    simpa only [Option.filter_some, hcount] using hplaced

theorem Placed.secured (h : Placed key s) (before after : List RuleSet) :
    Placed ((key.filter ((s .null).keys.count · = 1)).filter (· ∉ after.flatMap keys)) fun v =>
      (∅ : RuleSet).mergeAll (before ++ s v :: after) := by
  have hafter := (h.into ((∅ : RuleSet).mergeAll before)).merge ⟨after.flatMap entries⟩
  have hkeys : keys ⟨after.flatMap entries⟩ = after.flatMap keys := List.map_flatMap ..
  have hmerge : ∀ v, (∅ : RuleSet).mergeAll (before ++ s v :: after) =
      (((∅ : RuleSet).mergeAll before).merge (s v)).merge ⟨after.flatMap entries⟩ := by
    intro v
    rw [← mergeAll_eq_merge]
    exact List.foldl_append
  rw [hkeys] at hafter
  simpa only [hmerge] using hafter

theorem Marked.placed (h : Marked key s) : Placed key s := by
  induction h with
  | insert t key hr => exact placed_insert t key hr
  | put _ k rules ih => exact ih.put k rules
  | merge _ t ih => exact ih.merge t
  | into t _ ih => exact ih.into t

end RuleSet

/-! ## Documents -/

inductive CollectionRules.Marked : Option String → (Value → CollectionRules) → Prop
  | secure (c : Collection model) (before after : List RuleSet) (hs : RuleSet.Marked key s) :
      Marked ((key.filter ((s .null).keys.count · = 1)).filter (· ∉ after.flatMap RuleSet.keys))
        fun v => c.secure (before ++ s v :: after)
  | bound (path : String) (hs : RuleSet.Marked key s) : Marked key fun v => ⟨path, s v⟩
  /-- A stored set may hold the key more than once. -/
  | stored (path : String) (before after : List (String × List Rule)) (key : String)
      (hr : Rules.Marked rs) : Marked (some key) fun v => ⟨path, ⟨before ++ (key, rs v) :: after⟩⟩

inductive Document.Builder.Action.Marked : Option String → (Value → Action) → Prop
  | collection (hc : CollectionRules.Marked key c) : Marked key fun v => .collection (c v)
  | collections (before after : List CollectionRules) (hc : CollectionRules.Marked key c) :
      Marked key fun v => .collections (before ++ c v :: after)

/-- A document with the value inside the rules of a key of a collection. -/
inductive Document.Marked : Option String → (Value → Document) → Prop
  | ofActions (before after : List Builder.Action) (ha : Builder.Action.Marked key a) :
      Marked key fun v => .ofActions (before ++ a v :: after)
  | stored (service : String) (before after : List CollectionRules)
      (hc : CollectionRules.Marked key c) : Marked key fun v => ⟨service, before ++ c v :: after⟩

/-- The rules of one entry hold the value and everything else is fixed, or the whole block is. -/
def CollectionRules.Placed : Option String → (Value → CollectionRules) → Prop
  | some key, c => ∃ path before after rules, Rules.Marked rules ∧
      c = fun v => ⟨path, ⟨before ++ (key, rules v) :: after⟩⟩
  | none, c => ∃ b, c = fun _ => b

theorem RuleSet.Placed.bound {key : Option String} {s : Value → RuleSet} (h : Placed key s)
    (path : String) : CollectionRules.Placed key fun v => ⟨path, s v⟩ := by
  cases key with
  | none =>
    obtain ⟨t, rfl⟩ := h
    exact ⟨⟨path, t⟩, rfl⟩
  | some key =>
    obtain ⟨before, after, rules, -, hr, rfl⟩ := h
    exact ⟨path, before, after, rules, hr, rfl⟩

theorem CollectionRules.Marked.placed {key : Option String} {c : Value → CollectionRules}
    (h : Marked key c) : Placed key c := by
  cases h with
  | secure c before after hs => exact (hs.placed.secured before after).bound c.path
  | bound path hs => exact hs.placed.bound path
  | stored path before after key hr => exact ⟨path, before, after, _, hr, rfl⟩

/-- One block of the document holds the value, and its service and all other blocks are fixed. -/
theorem Document.Marked.exists_block {key : Option String} {d : Value → Document}
    (h : Marked key d) : ∃ service before after c, CollectionRules.Placed key c ∧
      d = fun v => ⟨service, before ++ c v :: after⟩ := by
  cases h with
  | stored service before after hc => exact ⟨service, before, after, _, hc.placed, rfl⟩
  | ofActions before after ha =>
    cases ha with
    | collection hc =>
      refine ⟨lastService (before ++ after), allAdded before, allAdded after, _, hc.placed,
        funext fun v => ?_⟩
      rw [ofActions_eq]
      simp [lastService, allAdded, Builder.Action.service?, Builder.Action.added]
    | collections first last hc =>
      refine ⟨lastService (before ++ after), allAdded before ++ first, last ++ allAdded after, _,
        hc.placed, funext fun v => ?_⟩
      rw [ofActions_eq]
      simp [lastService, allAdded, Builder.Action.service?, Builder.Action.added]

end AccessRules
