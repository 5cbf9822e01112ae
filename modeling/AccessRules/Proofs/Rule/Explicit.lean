import AccessRules.Rule.Build
import AccessRules.Proofs.Rule.Structure

/-! Conjunctions that are written out. A slot of two or more conditions means that all of them hold, and
so does an `and` with a slot for each of them, which is written alike (`Rule.render_conjunction`). Where
every such slot is replaced by one that holds the `and`, at every depth, no slot has more than one
condition and the text is the same (`Rule.render_explicit`); rules of which this holds before are not
changed (`Rule.explicit_eq_self_iff`). -/

namespace AccessRules

/-- The conditions of a list, each in a slot of its own. -/
def Rule.conjunction (rules : List Rule) : Rule :=
  .and (rules.map fun r => [r])

/-- A slot with at most one condition: two or more become their conjunction. -/
def Rule.single (slot : List Rule) : List Rule :=
  if 1 < slot.length then [conjunction slot] else slot

mutual
/-- An operand in whose rule the slots have at most one condition. -/
def Operand.explicit : Operand → Operand
  | .text s => .text s
  | .rule r => .rule r.explicit

/-- A rule with every slot of two or more conditions replaced by one that holds their conjunction. -/
def Rule.explicit : Rule → Rule
  | .bool b => .bool b
  | .null => .null
  | .binary op left right => .binary op left.explicit right.explicit
  | .within container item => .within container item.explicit
  | .is value type => .is value type
  | .not x => .not x.explicit
  | .or slots => .or (Rule.explicitSlots slots)
  | .and slots => .and (Rule.explicitSlots slots)
  | .literal v => .literal v

/-- The same in every rule of a list. -/
def Rule.explicitEach : List Rule → List Rule
  | [] => []
  | r :: rs => r.explicit :: Rule.explicitEach rs

/-- The same in every rule of the slots and then in the slots themselves. -/
def Rule.explicitSlots : List (List Rule) → List (List Rule)
  | [] => []
  | slot :: slots => Rule.single (Rule.explicitEach slot) :: Rule.explicitSlots slots
end

mutual
/-- The slots that stand anywhere inside of an operand. -/
def Operand.allSlots : Operand → List (List Rule)
  | .text _ => []
  | .rule r => r.allSlots

/-- The slots that stand anywhere inside of a rule. -/
def Rule.allSlots : Rule → List (List Rule)
  | .bool _ => []
  | .null => []
  | .binary _ left right => left.allSlots ++ right.allSlots
  | .within _ item => item.allSlots
  | .is _ _ => []
  | .not x => x.allSlots
  | .or slots => Rule.allSlotsOfSlots slots
  | .and slots => Rule.allSlotsOfSlots slots
  | .literal _ => []

/-- The slots that stand anywhere inside of the rules of a list. -/
def Rule.allSlotsOfEach : List Rule → List (List Rule)
  | [] => []
  | r :: rs => r.allSlots ++ Rule.allSlotsOfEach rs

/-- Slots, each with those that stand inside of its rules. -/
def Rule.allSlotsOfSlots : List (List Rule) → List (List Rule)
  | [] => []
  | slot :: slots => slot :: (Rule.allSlotsOfEach slot ++ Rule.allSlotsOfSlots slots)
end

/-- Whether no slot of an operand has more than one condition. -/
def Operand.IsExplicit (x : Operand) : Prop :=
  ∀ slot ∈ x.allSlots, slot.length ≤ 1

namespace Rule

/-- Whether no slot of a rule has more than one condition. -/
def IsExplicit (r : Rule) : Prop :=
  ∀ slot ∈ r.allSlots, slot.length ≤ 1

theorem explicitEach_eq_map (rs : List Rule) : explicitEach rs = rs.map explicit := by
  induction rs with
  | nil => rfl
  | cons r rs ih => rw [explicitEach, ih, List.map_cons]

theorem explicitSlots_eq_map (slots : List (List Rule)) :
    explicitSlots slots = slots.map fun slot => single (slot.map explicit) := by
  induction slots with
  | nil => rfl
  | cons slot slots ih => rw [explicitSlots, ih, List.map_cons, explicitEach_eq_map]

theorem allSlotsOfEach_eq_flatMap (rs : List Rule) : allSlotsOfEach rs = rs.flatMap allSlots := by
  induction rs with
  | nil => rfl
  | cons r rs ih => rw [allSlotsOfEach, ih, List.flatMap_cons]

theorem allSlotsOfSlots_eq_flatMap (slots : List (List Rule)) :
    allSlotsOfSlots slots = slots.flatMap fun slot => slot :: slot.flatMap allSlots := by
  induction slots with
  | nil => rfl
  | cons slot slots ih =>
    rw [allSlotsOfSlots, ih, List.flatMap_cons, allSlotsOfEach_eq_flatMap, List.cons_append]

theorem forall_allSlotsOfSlots {slots : List (List Rule)} :
    (∀ slot ∈ allSlotsOfSlots slots, slot.length ≤ 1) ↔
      ∀ slot ∈ slots, slot.length ≤ 1 ∧ ∀ r ∈ slot, r.IsExplicit := by
  simp only [allSlotsOfSlots_eq_flatMap, IsExplicit, List.mem_flatMap, List.mem_cons]
  constructor
  · exact fun h slot hslot => ⟨h slot ⟨slot, hslot, .inl rfl⟩,
      fun r hr inner hinner => h inner ⟨slot, hslot, .inr ⟨r, hr, hinner⟩⟩⟩
  · rintro h slot ⟨outer, houter, rfl | ⟨r, hr, hslot⟩⟩
    · exact (h slot houter).1
    · exact (h outer houter).2 r hr slot hslot

/-! ## Single slots -/

theorem single_of_length_le (h : slot.length ≤ 1) : single slot = slot :=
  if_neg (Nat.not_lt.mpr h)

theorem single_of_lt_length (h : 1 < slot.length) : single slot = [conjunction slot] :=
  if_pos h

theorem length_single_le (slot : List Rule) : (single slot).length ≤ 1 := by
  by_cases h : 1 < slot.length
  · rw [single_of_lt_length h]
    exact Nat.le_refl 1
  · rw [single_of_length_le (Nat.not_lt.mp h)]
    exact Nat.not_lt.mp h

theorem isExplicit_conjunction (h : ∀ r ∈ rules, IsExplicit r) : (conjunction rules).IsExplicit := by
  refine forall_allSlotsOfSlots.mpr (List.forall_mem_map.mpr fun r hr => ⟨Nat.le_refl 1, ?_⟩)
  exact List.forall_mem_singleton.mpr (h r hr)

theorem isExplicit_of_mem_single (h : ∀ r ∈ slot, IsExplicit r) : ∀ r ∈ single slot, r.IsExplicit := by
  by_cases hlen : 1 < slot.length
  · rw [single_of_lt_length hlen]
    exact List.forall_mem_singleton.mpr (isExplicit_conjunction h)
  · rwa [single_of_length_le (Nat.not_lt.mp hlen)]

theorem renderAll_singleton (r : Rule) : renderAll [r] = r.render := by
  simp [renderAll, conjoin]

theorem renderAll_of_lt_length (h : 1 < rules.length) :
    renderAll rules = "(" ++ " && ".intercalate (rules.map render) ++ ")" := by
  simp [renderAll, conjoin, h]

/-- Two or more conditions are written as their conjunction is. -/
theorem render_conjunction (h : 1 < rules.length) : (conjunction rules).render = renderAll rules := by
  have hslots : (rules.map fun r => [r]).map renderAll = rules.map render := by
    rw [List.map_map]
    exact List.map_congr_left fun r _ => renderAll_singleton r
  rw [conjunction, render, renderSlots_eq_map, hslots, renderAll_of_lt_length h]

/-- A single condition is written bare, so its slot shows nothing but its conjunction. -/
theorem renderAll_single (slot : List Rule) : renderAll (single slot) = renderAll slot := by
  by_cases h : 1 < slot.length
  · rw [single_of_lt_length h, renderAll_singleton, render_conjunction h]
  · rw [single_of_length_le (Nat.not_lt.mp h)]

/-! ## Rules in which every slot is single

Each statement about rules is proved together with the one about operands; in `or` and `and` it holds of
every rule of every slot before, and then of the slots. -/

theorem isExplicit_binary :
    (binary op left right).IsExplicit ↔ left.IsExplicit ∧ right.IsExplicit :=
  List.forall_mem_append

theorem isExplicit_explicitSlots {slots : List (List Rule)}
    (h : ∀ slot ∈ slots, ∀ r ∈ slot, r.explicit.IsExplicit) :
    ∀ slot ∈ allSlotsOfSlots (explicitSlots slots), slot.length ≤ 1 := by
  rw [forall_allSlotsOfSlots, explicitSlots_eq_map]
  refine List.forall_mem_map.mpr fun slot hslot => ⟨length_single_le _, ?_⟩
  exact isExplicit_of_mem_single (List.forall_mem_map.mpr (h slot hslot))

theorem isExplicit_explicit :
    (∀ x : Operand, x.explicit.IsExplicit) ∧ ∀ r : Rule, r.explicit.IsExplicit := by
  apply Rule.ind
  case binary => exact fun op left right hleft hright => isExplicit_binary.mpr ⟨hleft, hright⟩
  case or | and => exact fun slots ih => isExplicit_explicitSlots ih
  case nested => exact fun r ih => ih
  case within => exact fun container item ih => ih
  case not => exact fun x ih => ih
  case text | bool | literal => exact fun _ _ h => nomatch h
  case null => exact fun _ h => nomatch h
  case is => exact fun _ _ _ h => nomatch h

theorem renderSlots_explicitSlots {slots : List (List Rule)}
    (h : ∀ slot ∈ slots, ∀ r ∈ slot, r.explicit.render = r.render) :
    renderSlots (explicitSlots slots) = renderSlots slots := by
  rw [explicitSlots_eq_map, renderSlots_eq_map, renderSlots_eq_map, List.map_map]
  refine List.map_congr_left fun slot hslot => ?_
  rw [Function.comp_apply, renderAll_single, renderAll, renderAll, List.map_map]
  exact congrArg conjoin (List.map_congr_left (h slot hslot))

theorem render_explicit_eq :
    (∀ x : Operand, x.explicit.render = x.render) ∧ ∀ r : Rule, r.explicit.render = r.render := by
  apply Rule.ind
  case binary =>
    intro op left right hleft hright
    rw [explicit, render, render, hleft, hright]
  case within =>
    intro container item ih
    rw [explicit, render, render, ih]
  case not =>
    intro x ih
    rw [explicit, render, render, ih]
  case or | and =>
    intro slots ih
    rw [explicit, render, render, renderSlots_explicitSlots ih]
  case nested => exact fun r ih => ih
  case text | bool | null | is | literal => intros; rfl

theorem explicitSlots_eq_self {slots : List (List Rule)}
    (h : ∀ slot ∈ slots, ∀ r ∈ slot, r.IsExplicit → r.explicit = r)
    (hslots : ∀ slot ∈ allSlotsOfSlots slots, slot.length ≤ 1) : explicitSlots slots = slots := by
  rw [forall_allSlotsOfSlots] at hslots
  have hself : ∀ slot ∈ slots, single (slot.map explicit) = slot := by
    intro slot hslot
    obtain ⟨hlen, hrules⟩ := hslots slot hslot
    have heach : slot.map explicit = slot.map id :=
      List.map_congr_left fun r hr => h slot hslot r hr (hrules r hr)
    rw [heach, List.map_id, single_of_length_le hlen]
  rw [explicitSlots_eq_map, List.map_congr_left hself, List.map_id']

theorem explicit_eq_self :
    (∀ x : Operand, x.IsExplicit → x.explicit = x) ∧ ∀ r : Rule, r.IsExplicit → r.explicit = r := by
  apply Rule.ind
  case binary =>
    intro op left right hleft hright h
    obtain ⟨hl, hr⟩ := isExplicit_binary.mp h
    rw [explicit, hleft hl, hright hr]
  case within =>
    intro container item ih h
    rw [explicit, ih h]
  case not =>
    intro x ih h
    rw [explicit, ih h]
  case or | and =>
    intro slots ih h
    rw [explicit, explicitSlots_eq_self ih h]
  case nested => exact fun r ih h => congrArg Operand.rule (ih h)
  case text | bool | null | is | literal => intros; rfl

/-- A rule is changed just if some slot in it has two or more conditions. -/
theorem explicit_eq_self_iff (r : Rule) : r.explicit = r ↔ r.IsExplicit :=
  ⟨fun h => h ▸ isExplicit_explicit.2 r, explicit_eq_self.2 r⟩

/-- A rule in which every slot of two or more conditions is replaced, at every depth, by one that holds
their conjunction has no slot of more than one condition and the same text, and it is another rule just
if there was something to replace. Conditions in a list are written as their conjunction is. -/
theorem render_explicit (r : Rule) :
    (∀ slot ∈ r.explicit.allSlots, slot.length ≤ 1) ∧ r.explicit.render = r.render ∧
      (r.explicit = r ↔ ∀ slot ∈ r.allSlots, slot.length ≤ 1) ∧
      ∀ rules : List Rule, 2 ≤ rules.length →
        renderAll rules = (Rule.and (rules.map fun r => [r])).render :=
  ⟨isExplicit_explicit.2 r, render_explicit_eq.2 r, explicit_eq_self_iff r,
    fun _ h => (render_conjunction h).symm⟩

/-- A conjunction in a slot below a negation, and an empty slot beside it. -/
theorem render_explicit_nested :
    let inner : Rule := .anyOf [.bool true, .null] [] []
    let r : Rule := .anyOf [.not (.rule inner), .bool false] [.bool true] []
    let written : Rule := .anyOf
      [.and [[.not (.rule (.anyOf [.and [[.bool true], [.null]]] [] []))], [.bool false]]]
      [.bool true] []
    r.explicit = written ∧ (∀ slot ∈ written.allSlots, slot.length ≤ 1) ∧ written.render = r.render ∧
      r.render = "((!(((true && null) || )) && false) || true)" ∧
      2 ≤ [inner, r].length ∧
      renderAll [inner, r] = (Rule.and [[inner], [r]]).render := by
  intro inner r written
  have hwritten : r.explicit = written := by
    simp [r, inner, written, anyOf, explicit, explicitSlots, explicitEach, Operand.explicit, single,
      conjunction]
  have hlen : 2 ≤ [inner, r].length := Nat.le_refl 2
  obtain ⟨hslots, hrender, -, hlist⟩ := render_explicit r
  rw [hwritten] at hslots hrender
  exact ⟨hwritten, hslots, hrender, by decide, hlen, hlist [inner, r] hlen⟩

end Rule

end AccessRules
