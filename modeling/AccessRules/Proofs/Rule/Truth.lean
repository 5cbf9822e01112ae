import AccessRules.Rule.Build
import AccessRules.Rule.Render
import AccessRules.Proofs.Path.Readback
import AccessRules.Proofs.Rule.Form

/-! What a condition means is settled by its text. Under a valuation of atoms by their texts, `not`
negates, the rules of a slot must all hold, and `or` and `and` join their slots. Every logical rule
has a proper form with its text and its meaning (`Rule.Logical.formed`), and a form is read back
from its text, so rules with equal texts hold under the same valuations
(`holds_eq_of_render_eq`). -/

namespace AccessRules

mutual
/-- Whether an operand holds in the place of a condition. -/
def Operand.holds (v : String → Bool) : Operand → Bool
  | .text s => v s
  | .rule r => r.holds v

/-- Whether a rule holds where the meaning of each atom is known by its text. -/
def Rule.holds (v : String → Bool) : Rule → Bool
  | .not x => !x.holds v
  | .or slots => (Rule.holdsSlots v slots).any id
  | .and slots => (Rule.holdsSlots v slots).all id
  | r => v r.render

def Rule.holdsEach (v : String → Bool) : List Rule → List Bool
  | [] => []
  | r :: rs => r.holds v :: Rule.holdsEach v rs

def Rule.holdsSlots (v : String → Bool) : List (List Rule) → List Bool
  | [] => []
  | slot :: slots => (Rule.holdsEach v slot).all id :: Rule.holdsSlots v slots
end

mutual
def Operand.form : Operand → Form
  | .text s => .atom s
  | .rule r => r.form

/-- The shape of the text of a rule. -/
def Rule.form : Rule → Form
  | .not x => .not x.form
  | .or slots => .group .any (Rule.formSlots slots)
  | .and slots => .group .all (Rule.formSlots slots)
  | r => .atom r.render

def Rule.formEach : List Rule → List Form
  | [] => []
  | r :: rs => r.form :: Rule.formEach rs

def Rule.formSlots : List (List Rule) → List Form
  | [] => []
  | slot :: slots => .conj (Rule.formEach slot) :: Rule.formSlots slots
end

namespace Rule

def holdsAll (v : String → Bool) (rules : List Rule) : Bool :=
  rules.all (holds v)

theorem holdsEach_eq_map (rules : List Rule) : holdsEach v rules = rules.map (holds v) := by
  induction rules with
  | nil => rfl
  | cons r rs ih => rw [holdsEach, ih, List.map_cons]

theorem holdsSlots_eq_map (slots : List (List Rule)) :
    holdsSlots v slots = slots.map (holdsAll v) := by
  induction slots with
  | nil => rfl
  | cons slot slots ih =>
    rw [holdsSlots, ih, List.map_cons, holdsEach_eq_map, holdsAll, List.all_map]
    rfl

theorem formEach_eq_map (rules : List Rule) : formEach rules = rules.map form := by
  induction rules with
  | nil => rfl
  | cons r rs ih => rw [formEach, ih, List.map_cons]

theorem formSlots_eq_map (slots : List (List Rule)) :
    formSlots slots = slots.map fun slot => .conj (slot.map form) := by
  induction slots with
  | nil => rfl
  | cons slot slots ih => rw [formSlots, ih, List.map_cons, formEach_eq_map]

end Rule

/-! ## Atoms -/

theorem Value.Grammatical.atomic {v : Value} (h : v.Grammatical) :
    Form.Atomic v.render.toList := by
  have K : Kept (Scanner.Sealed Junction.isSign) := Kept.sealed fun c hc => by
    simpa [Junction.isSign] using hc
  refine ⟨h.kept K, ?_⟩
  have hnumeric : ∀ {c : Char}, isNumeric c = true → c ≠ '(' ∧ c ≠ '!' := by
    refine fun hc => ⟨?_, ?_⟩ <;> rintro rfl <;> cases hc
  intro c hc
  cases v with
  | null => cases hc; decide
  | bool b => cases b <;> cases hc <;> decide
  | int n => exact hnumeric ((intRepr_numeric _).2 c (List.mem_of_head? hc))
  | float x =>
    rcases x.render_cases with hx | ⟨-, hx⟩
    · rw [render, hx] at hc
      cases hc
      decide
    · exact hnumeric (hx c (List.mem_of_head? hc))
  | string s | list items | map entries =>
    simp [render, Quoted.quote] at hc
    subst hc
    decide
  | path p =>
    obtain ⟨d, ds, hp, hstart⟩ := (h.paths p List.mem_cons_self).exists_cons
    rw [render, hp] at hc
    cases hc
    refine ⟨?_, ?_⟩ <;> rintro rfl <;> cases hstart

/-! ## Forms of rules -/

/-- A form with the text and the meaning of a condition. -/
structure Form.Faithful (f : Form) (text : String) (holds : (String → Bool) → Bool) : Prop where
  proper : f.Proper
  text_eq : f.text = text.toList
  holds_eq : ∀ v, f.holds v = holds v

namespace Form.Faithful

theorem atom (h : Atomic t.toList) : (Form.atom t).Faithful t fun v => v t :=
  ⟨.atom h, rfl, fun _ => rfl⟩

theorem not (h : Faithful f t b) : (Form.not f).Faithful ("!(" ++ t ++ ")") fun v => !b v :=
  ⟨.not h.proper, by simp [text, h.text_eq], fun v => by rw [holds, h.holds_eq]⟩

theorem group {α : Type} {as : List α} {f : α → Form} {t : α → String}
    {b : α → (String → Bool) → Bool} {j : Junction} (hlen : 2 ≤ as.length)
    (hsep : s.toList = j.separator) (h : ∀ a ∈ as, (f a).Faithful (t a) (b a)) :
    (Form.group j (as.map f)).Faithful ("(" ++ String.intercalate s (as.map t) ++ ")")
      fun v => j.combine (as.map (b · v)) := by
  refine ⟨.group (by rwa [List.length_map]) ?_, ?_, fun v => ?_⟩
  · intro g hg
    obtain ⟨a, ha, rfl⟩ := List.mem_map.mp hg
    exact (h a ha).proper
  · have htexts : as.map (fun a => (f a).text) = as.map fun a => (t a).toList :=
      List.map_congr_left fun a ha => (h a ha).text_eq
    simp [text, texts_eq_map, Function.comp_def, htexts, hsep]
  · have hholds : as.map (fun a => (f a).holds v) = as.map (b · v) :=
      List.map_congr_left fun a ha => (h a ha).holds_eq v
    rw [holds, holdsEach_eq_map, List.map_map, Function.comp_def, hholds]

/-- A form is settled by its text, and so is its meaning. -/
theorem holds_unique (hf : Faithful f t b) (hg : Faithful g t c) (v : String → Bool) :
    b v = c v := by
  have hfg : f = g := hf.proper.text_inj hg.proper (hf.text_eq.trans hg.text_eq.symm)
  rw [← hf.holds_eq v, ← hg.holds_eq v, hfg]

end Form.Faithful

namespace Rule

/-- A rule whose form has its text and its meaning. -/
def Formed (r : Rule) : Prop :=
  r.form.Faithful r.render fun v => r.holds v

theorem formed_conj {rules : List Rule} (hne : rules ≠ []) (h : ∀ r ∈ rules, r.Formed) :
    (Form.conj (rules.map form)).Faithful (renderAll rules) fun v => holdsAll v rules := by
  match rules with
  | [] => exact absurd rfl hne
  | [r] =>
    obtain ⟨hproper, htext, hholds⟩ := h r List.mem_cons_self
    refine ⟨hproper, ?_, fun v => ?_⟩
    · simpa [renderAll, conjoin, Form.conj] using htext
    · simpa [holdsAll, Form.conj] using hholds v
  | r :: s :: rs =>
    have hlen : 2 ≤ (r :: s :: rs).length := by simp
    have hgroup := Form.Faithful.group (j := .all) (t := render) hlen (s := " && ") rfl h
    simpa [renderAll, conjoin, Form.conj, holdsAll, Junction.combine, Function.comp_def]
      using hgroup

theorem formed_slots {slots : List (List Rule)} {j : Junction} (hsep : s.toList = j.separator)
    (hlen : 2 ≤ slots.length) (hne : ∀ slot ∈ slots, slot ≠ [])
    (h : ∀ slot ∈ slots, ∀ r ∈ slot, Formed r) :
    (Form.group j (formSlots slots)).Faithful
      ("(" ++ String.intercalate s (renderSlots slots) ++ ")")
      fun v => j.combine (holdsSlots v slots) := by
  simp only [formSlots_eq_map, renderSlots_eq_map, holdsSlots_eq_map]
  exact .group hlen hsep fun slot hslot => formed_conj (hne slot hslot) (h slot hslot)

/-- Conditions put together by `not`, `or` and `and` from relations between literals and from
literals in the place of a condition. -/
inductive Logical : Rule → Prop
  | bool (b : Bool) : Logical (.bool b)
  | null : Logical .null
  | literal (hv : v.Grammatical) : Logical (.literal v)
  | binary (op : Operator) (ha : a.Grammatical) (hb : b.Grammatical) :
      Logical (.binary op (.ofValue a) (.ofValue b))
  | contains (ha : a.Grammatical) (hb : b.Grammatical) : Logical (.contains a (.ofValue b))
  | hasType (ha : a.Grammatical) (type : TypeTag) : Logical (.hasType a type)
  | negated (hv : v.Grammatical) : Logical (.not (.ofValue v))
  | not (h : Logical r) : Logical (.not (.rule r))
  | or (hlen : 2 ≤ slots.length) (hne : ∀ slot ∈ slots, slot ≠ [])
      (h : ∀ slot ∈ slots, ∀ r ∈ slot, Logical r) : Logical (.or slots)
  | and (hlen : 2 ≤ slots.length) (hne : ∀ slot ∈ slots, slot ≠ [])
      (h : ∀ slot ∈ slots, ∀ r ∈ slot, Logical r) : Logical (.and slots)

theorem atomic_bool (b : Bool) : Form.Atomic (renderBool b).toList := by
  have hb : (Value.bool b).Grammatical := ⟨by simp, by simp⟩
  simpa [Value.render] using hb.atomic

theorem atomic_binary (op : Operator) {a b : Value} (ha : a.Grammatical) (hb : b.Grammatical) :
    Form.Atomic (Rule.binary op (.ofValue a) (.ofValue b)).render.toList := by
  have hop : Form.Atomic (" ".toList ++ (op.symbol.toList ++ " ".toList)) := by
    cases op <;> exact .blank rfl
  have happ := (ha.atomic.append hop).append hb.atomic
  simpa [render, Operand.render_ofValue] using happ

theorem atomic_contains {a b : Value} (ha : a.Grammatical) (hb : b.Grammatical) :
    Form.Atomic (Rule.contains a (.ofValue b)).render.toList := by
  have hin : Form.Atomic " in ".toList := .blank rfl
  have happ := (hb.atomic.append hin).append ha.atomic
  simpa [Rule.contains, render, Operand.render_ofValue] using happ

theorem atomic_hasType {a : Value} (ha : a.Grammatical) (type : TypeTag) :
    Form.Atomic (Rule.hasType a type).render.toList := by
  have his : Form.Atomic (" is ".toList ++ type.name.toList) := by
    cases type <;> exact .blank rfl
  have happ := ha.atomic.append his
  simpa [Rule.hasType, render] using happ

theorem Logical.formed (h : Logical r) : r.Formed := by
  induction h with
  | bool b => exact .atom (atomic_bool b)
  | null =>
    have hnull : Value.null.Grammatical := ⟨by simp, by simp⟩
    exact .atom hnull.atomic
  | literal hv => exact .atom hv.atomic
  | binary op ha hb => exact .atom (atomic_binary op ha hb)
  | contains ha hb => exact .atom (atomic_contains ha hb)
  | hasType ha type => exact .atom (atomic_hasType ha type)
  | @negated v hv =>
    have hnot := (Form.Faithful.atom hv.atomic).not
    cases v <;> exact hnot
  | not _ ih => exact ih.not
  | or hlen hne _ ih => exact formed_slots (j := .any) (s := " || ") rfl hlen hne ih
  | and hlen hne _ ih => exact formed_slots (j := .all) (s := " && ") rfl hlen hne ih

end Rule

/-- Conditions with equal texts hold under the same valuations, and so do lists of conditions that
must all hold. -/
theorem holds_eq_of_render_eq :
    (∀ r s : Rule, r.Logical → s.Logical → r.render = s.render →
      ∀ v : String → Bool, r.holds v = s.holds v) ∧
    ∀ rs ss : List Rule, rs ≠ [] → ss ≠ [] → (∀ r ∈ rs, r.Logical) → (∀ s ∈ ss, s.Logical) →
      Rule.renderAll rs = Rule.renderAll ss →
      ∀ v : String → Bool, Rule.holdsAll v rs = Rule.holdsAll v ss := by
  refine ⟨fun r s hr hs h v => ?_, fun rs ss hrs hss hr hs h v => ?_⟩
  · have hform := hr.formed
    unfold Rule.Formed at hform
    rw [h] at hform
    exact hform.holds_unique hs.formed v
  · have hform := Rule.formed_conj hrs fun r hmem => (hr r hmem).formed
    rw [h] at hform
    exact hform.holds_unique (Rule.formed_conj hss fun s hmem => (hs s hmem).formed) v

/-- A slot of two rules is written like a slot that holds their conjunction. The index in the path is
padded, so it is accepted but read as another one. -/
theorem holds_eq_of_nested_conjunction :
    let p : Path := (⟨"request"⟩ : Path).field "00"
    let a : Rule := .eq (.ofValue "\") && (") (.ofValue (.path p))
    let b : Rule := .not (.ofValue (.path p))
    let r : Rule := .anyOf [.allOf [a] [b] []] [b] []
    let s : Rule := .anyOf [a, b] [b] []
    r.Logical ∧ s.Logical ∧ r.render = s.render ∧
      ∀ v : String → Bool, r.holds v = s.holds v := by
  intro p a b r s
  have hstring : Value.Grammatical "\") && (" :=
    ⟨by simp, by simp⟩
  have hroot : Path.Readable ⟨"request"⟩ := Path.readable_root (by decide)
  have hp : p.Accepted := (hroot.exists_parse_field_iff "00").mpr (.inr ⟨rfl, by decide⟩)
  have hpath : (Value.path p).Grammatical := ⟨by simp, List.forall_mem_singleton.mpr hp⟩
  have ha : a.Logical := .binary .eq hstring hpath
  have hb : b.Logical := .negated hpath
  have hand : (Rule.allOf [a] [b] []).Logical :=
    .and (by simp) (by simp) (by simp [ha, hb])
  have hr : r.Logical := .or (by simp) (by simp) (by simp [hand, hb])
  have hs : s.Logical := .or (by simp) (by simp) (by simp [ha, hb])
  have hrender : r.render = s.render := rfl
  exact ⟨hr, hs, hrender, holds_eq_of_render_eq.1 r s hr hs hrender⟩

end AccessRules
