import AccessRules.Document.Basic
import AccessRules.Rule.Build
import AccessRules.Proofs.Path.Grammar

/-! What can be built: paths from their roots by steps, rules by their combinators, and documents by
the actions of a builder. Each predicate `Built free` asks that the texts which are written as they
stand (seeds, field names, keys of maps and rule sets, ids, paths of collections, names of services,
the text of bytes) are made of `free` characters; strings may hold any. A property of texts that is
`Kept` and holds of free texts holds of everything built (`Path.Built.kept`, `Value.Built.kept`,
`Rule.Built.kept`). -/

namespace AccessRules

def FreeText (free : Char → Prop) (s : String) : Prop :=
  ∀ c ∈ s.toList, free c

instance [DecidablePred free] : Decidable (FreeText free s) :=
  List.decidableBAll free s.toList

namespace Step
variable {t u : HandleType}

/-- The names that a step writes as they stand. -/
def names : Step t u → List String
  | .field name => [name]
  | .member m _ => [m.key]
  | _ => []

/-- The values that a step writes. -/
def args : Step t u → List Value
  | .call args => args
  | .method _ _ args _ => args
  | .get _ key default _ => [key, default]
  | _ => []

end Step

/-- The functions of the name spaces of the rule language. -/
def Handle.functions : List (String × String) :=
  [("duration", "abs"), ("duration", "time"), ("duration", "value"), ("latlng", "value")]

/-- A path that can be captured. -/
inductive Path.Built (free : Char → Prop) : Path → Prop
  | seed (hs : FreeText free s) : Built free ⟨s⟩
  | parsed (h : Path.parse s = .ok p) : Built free p
  | request : Built free ({} : Context model).request.path
  | resource : Built free ({} : Context model).resource.path
  | resourceId : Built free ({} : Context model).resourceId.path
  | known (c : Collection model) (hc : FreeText free c.path) (hs : FreeText free s) :
      Built free (c.get (.literal s)).path
  | looked (c : Collection model) (hc : FreeText free c.path) (hp : Built free p) :
      Built free (c.get (.path p)).path
  | bytes (hs : FreeText free s) : Built free (Handle.bytes s).path
  | boolOf (hk : ∀ k ∈ v.keys, FreeText free k) (hp : ∀ p ∈ v.paths, Built free p) :
      Built free (Handle.boolOf v).path
  | function (hf : (space, name) ∈ Handle.functions)
      (hk : ∀ v ∈ args, ∀ k ∈ Value.keys v, FreeText free k)
      (hp : ∀ v ∈ args, ∀ p ∈ Value.paths v, Built free p) :
      Built free (Handle.function (t := t) space name args).path
  | step {h : Handle t} (s : Step t u) (hh : Built free h.path)
      (hn : ∀ n ∈ s.names, FreeText free n) (hk : ∀ v ∈ s.args, ∀ k ∈ v.keys, FreeText free k)
      (hp : ∀ v ∈ s.args, ∀ p ∈ v.paths, Built free p) : Built free (h.step s).path

/-- A literal with captured paths inside. -/
structure Value.Built (free : Char → Prop) (v : Value) : Prop where
  keys : ∀ k ∈ v.keys, FreeText free k
  paths : ∀ p ∈ v.paths, p.Built free

mutual
inductive Operand.Built (free : Char → Prop) : Operand → Prop
  | value (hv : v.Built free) : Operand.Built free (.ofValue v)
  | handle {h : Handle t} (hh : h.path.Built free) : Operand.Built free h.operand
  | rule (hr : Rule.Built free r) : Operand.Built free (.rule r)

/-- A rule that can be written with the combinators. -/
inductive Rule.Built (free : Char → Prop) : Rule → Prop
  | literal (hv : v.Built free) : Rule.Built free (.ofValue v)
  | captured {h : Handle t} (hh : h.path.Built free) : Rule.Built free h.rule
  | binary (op : Operator) (ha : Operand.Built free a) (hb : Operand.Built free b) :
      Rule.Built free (.binary op a b)
  | contains (hv : v.Built free) (hx : Operand.Built free x) : Rule.Built free (.contains v x)
  | hasType (hv : v.Built free) (type : TypeTag) : Rule.Built free (.hasType v type)
  | not (hx : Operand.Built free x) : Rule.Built free (.not x)
  /-- With any number of slots, each with any number of rules. -/
  | or (h : ∀ slot ∈ slots, ∀ r ∈ slot, Rule.Built free r) : Rule.Built free (.or slots)
  | and (h : ∀ slot ∈ slots, ∀ r ∈ slot, Rule.Built free r) : Rule.Built free (.and slots)
end

/-- A rule set with free keys, which may come twice. -/
def RuleSet.Built (free : Char → Prop) (s : RuleSet) : Prop :=
  ∀ e ∈ s.entries, FreeText free e.1 ∧ ∀ r ∈ e.2, r.Built free

structure CollectionRules.Built (free : Char → Prop) (c : CollectionRules) : Prop where
  path : FreeText free c.path
  rules : c.rules.Built free

namespace Document.Builder.Action

/-- The service that an action sets. -/
def service? : Action → Option String
  | .service name => some name
  | _ => none

/-- The collections that an action adds. -/
def added : Action → List CollectionRules
  | .service _ => []
  | .collection c => [c]
  | .collections cs => cs

structure Built (free : Char → Prop) (a : Action) : Prop where
  service : ∀ s ∈ a.service?, FreeText free s
  added : ∀ c ∈ a.added, c.Built free

end Document.Builder.Action

structure Document.Built (free : Char → Prop) (d : Document) : Prop where
  service : FreeText free d.service
  collections : ∀ c ∈ d.collections, c.Built free

namespace Document

/-- The service that is set last, if any is. -/
def lastService (actions : List Builder.Action) : String :=
  (actions.filterMap Builder.Action.service?).getLast?.getD defaultService

/-- All collections that are added, in order. -/
def allAdded (actions : List Builder.Action) : List CollectionRules :=
  actions.flatMap Builder.Action.added

theorem foldl_apply (actions : List Builder.Action) (b : Builder) :
    actions.foldl Builder.apply b =
      ⟨(actions.filterMap Builder.Action.service?).getLast?.or b.service,
        b.collections ++ allAdded actions⟩ := by
  induction actions generalizing b with
  | nil => simp [allAdded]
  | cons a actions ih =>
    rw [List.foldl_cons, ih]
    cases a <;> simp [Builder.apply, Builder.Action.service?, Builder.Action.added, allAdded,
      List.filterMap_cons, List.getLast?_cons]

theorem ofActions_eq (actions : List Builder.Action) :
    ofActions actions = ⟨lastService actions, allAdded actions⟩ := by
  rw [ofActions, foldl_apply]
  simp [Builder.build, lastService]

/-- What the default service has, and whatever actions set and add, a document built by them has. -/
theorem forall_ofActions {S : String → Prop} {C : CollectionRules → Prop}
    {actions : List Builder.Action} (hd : S defaultService)
    (hs : ∀ a ∈ actions, ∀ s ∈ a.service?, S s) (hc : ∀ a ∈ actions, ∀ c ∈ a.added, C c) :
    S (ofActions actions).service ∧ ∀ c ∈ (ofActions actions).collections, C c := by
  rw [ofActions_eq]
  refine ⟨?_, fun c hmem => ?_⟩
  · unfold lastService
    cases hl : (actions.filterMap Builder.Action.service?).getLast? with
    | none => exact hd
    | some s =>
      obtain ⟨a, ha, has⟩ := List.mem_filterMap.mp (List.mem_of_getLast? hl)
      exact hs a ha s has
  · obtain ⟨a, ha, hca⟩ := List.mem_flatMap.mp hmem
    exact hc a ha c hca

theorem built_ofActions {free : Char → Prop} {actions : List Builder.Action}
    (hd : FreeText free defaultService) (h : ∀ a ∈ actions, a.Built free) :
    (ofActions actions).Built free := by
  obtain ⟨hs, hc⟩ := forall_ofActions hd (fun a ha => (h a ha).service) fun a ha => (h a ha).added
  exact ⟨hs, hc⟩

end Document

/-! ## Closure of rule sets -/

namespace RuleSet
variable {free : Char → Prop}

theorem built_empty : (∅ : RuleSet).Built free := fun _ h => nomatch h

theorem Built.insert {s : RuleSet} (hs : s.Built free) (hk : FreeText free key)
    (hr : ∀ r ∈ rules, Rule.Built free r) : (s.insert key rules).Built free := by
  obtain ⟨entries⟩ := s
  unfold Built RuleSet.insert at *
  dsimp only at *
  induction entries with
  | nil =>
    intro e he
    rw [List.mem_singleton.mp he]
    exact ⟨hk, hr⟩
  | cons e es ih =>
    intro f hf
    unfold insertEntry at hf
    split at hf <;> rcases List.mem_cons.mp hf with rfl | hf
    · exact ⟨(hs e List.mem_cons_self).1, hr⟩
    · exact hs f (List.mem_cons_of_mem _ hf)
    · exact hs _ List.mem_cons_self
    · exact ih (fun g hg => hs g (List.mem_cons_of_mem _ hg)) f hf

theorem Built.merge {s t : RuleSet} (hs : s.Built free) (ht : t.Built free) :
    (s.merge t).Built free := by
  obtain ⟨entries⟩ := t
  unfold RuleSet.merge
  induction entries generalizing s with
  | nil => exact hs
  | cons e es ih =>
    have he := ht e List.mem_cons_self
    exact ih (hs.insert he.1 he.2) fun f hf => ht f (List.mem_cons_of_mem _ hf)

theorem Built.mergeAll {s : RuleSet} {sets : List RuleSet} (hs : s.Built free)
    (hsets : ∀ t ∈ sets, t.Built free) : (s.mergeAll sets).Built free := by
  induction sets generalizing s with
  | nil => exact hs
  | cons t sets ih =>
    exact ih (hs.merge (hsets t List.mem_cons_self))
      fun u hu => hsets u (List.mem_cons_of_mem _ hu)

end RuleSet

theorem Collection.built_secure {free : Char → Prop} {sets : List RuleSet} (c : Collection model)
    (hc : FreeText free c.path) (hsets : ∀ s ∈ sets, s.Built free) :
    (c.secure sets).Built free :=
  ⟨hc, RuleSet.built_empty.mergeAll hsets⟩

/-! ## Texts of what is built -/

theorem isPlain_of_mem_functions (h : (space, name) ∈ Handle.functions) :
    (∀ c ∈ space.toList, isPlain c) ∧ ∀ c ∈ name.toList, isPlain c := by
  have hall : Handle.functions.all (fun f => f.1.toList.all isPlain && f.2.toList.all isPlain) =
      true := rfl
  obtain ⟨hspace, hname⟩ := Bool.and_eq_true_iff.mp (List.all_eq_true.mp hall _ h)
  exact ⟨List.all_eq_true.mp hspace, List.all_eq_true.mp hname⟩

theorem HandleType.isPlain_of_mem_methods {t : HandleType} (h : m ∈ t.methods) :
    ∀ c ∈ m.name.toList, isPlain c :=
  fun _ hc => Path.isPlain_of_mem_ident (isIdent_of_mem_methods h) hc

section
variable {P : List Char → Prop} {free : Char → Prop} (K : Kept P)
  (hfree : ∀ {s : String}, FreeText free s → P s.toList)
include K hfree

theorem kept_get {c : Collection model} {id : DocumentId} (hc : FreeText free c.path)
    (hid : P id.render.toList) : P (c.get id).path.text.toList := by
  have hdb := K.enclosed (o := '(') rfl (K.lit "database")
  have hin := K.append (K.lit "/databases/$") <| K.append hdb <|
    K.append (K.lit "/documents/") <| K.append (hfree hc) <| K.append (K.lit "/") hid
  have henc := K.append (K.lit "get") (K.enclosed (o := '(') rfl hin)
  simpa [Collection.get, Handle.ofText] using henc

theorem Path.Built.kept (h : Path.Built free p) : P p.text.toList := by
  have hvalue : ∀ {v : Value}, (∀ k ∈ v.keys, FreeText free k) →
      (∀ p ∈ v.paths, P p.text.toList) → P v.render.toList :=
    fun hk hp => Value.kept_render K _ (fun k hkv => hfree (hk k hkv)) hp
  induction h with
  | seed hs => exact hfree hs
  | parsed h =>
    obtain ⟨root, segs, hs, rfl⟩ := Path.spelled_of_parse h
    exact hs.kept_path K
  | request => exact K.lit "request"
  | resource => exact K.lit "resource"
  | resourceId => exact K.lit "resourceId"
  | known c hc hs => exact kept_get K hfree hc (hfree hs)
  | @looked p _ c hc _ ih =>
    have hid := K.append (K.lit "$") (K.enclosed (o := '(') rfl ih)
    exact kept_get K hfree hc (by simpa [DocumentId.render] using hid)
  | bytes hs =>
    have happ := K.append (K.lit "b'") (K.append (hfree hs) (K.lit "'"))
    simpa [Handle.bytes, Handle.ofText] using happ
  | boolOf hk _ ih =>
    exact Path.kept_call K (K.lit "bool") (by simpa using hvalue hk ih)
  | function hf hk _ ih =>
    obtain ⟨hspace, hname⟩ := isPlain_of_mem_functions hf
    exact Path.kept_call K (Path.kept_field K (K.plain hspace) (K.plain hname))
      fun v hv => hvalue (hk v hv) (ih v hv)
  | @step t u h s _ hn hk _ ih ihp =>
    have hargs : ∀ v ∈ s.args, P v.render.toList := fun v hv => hvalue (hk v hv) (ihp v hv)
    cases s with
    | field name => exact Path.kept_field K ih (hfree (hn name List.mem_cons_self))
    | index n | item n => exact Path.kept_index K ih
    | call args => exact Path.kept_call K ih hargs
    | view u => exact ih
    | member m hm => exact Path.kept_field K ih (hfree (hn m.key List.mem_cons_self))
    | method m hm args hlen =>
      exact Path.kept_call K
        (Path.kept_field K ih (K.plain (HandleType.isPlain_of_mem_methods hm))) hargs
    | get hmap key default u =>
      exact Path.kept_call K (Path.kept_field K ih (K.lit "get")) hargs

theorem Value.Built.kept {v : Value} (h : v.Built free) : P v.render.toList :=
  Value.kept_render K v (fun k hk => hfree (h.keys k hk)) fun p hp => (h.paths p hp).kept K hfree

end

section
variable {P : List Char → Prop} (K : Kept P) (hand : P " && ".toList) (hor : P " || ".toList)
include K hand

namespace Rule

theorem kept_conjoin {texts : List String} (h : ∀ s ∈ texts, P s.toList) :
    P (conjoin texts).toList := by
  have hj : P (" && ".toList.intercalate (texts.map String.toList)) :=
    K.intercalate hand (by simpa using h)
  unfold conjoin
  dsimp only
  split
  · simpa using K.enclosed (o := '(') rfl hj
  · simpa using hj

theorem kept_renderAll {rules : List Rule} (h : ∀ r ∈ rules, P r.render.toList) :
    P (renderAll rules).toList :=
  kept_conjoin K hand (by simpa using h)

theorem kept_slots {slots : List (List Rule)} (hsep : P sep.toList)
    (h : ∀ slot ∈ slots, ∀ r ∈ slot, P r.render.toList) :
    P ("(" ++ String.intercalate sep (renderSlots slots) ++ ")").toList := by
  have hj : P (sep.toList.intercalate ((slots.map renderAll).map String.toList)) := by
    refine K.intercalate hsep (List.forall_mem_map.mpr (List.forall_mem_map.mpr ?_))
    exact fun slot hslot => kept_renderAll K hand (h slot hslot)
  simpa [renderSlots_eq_map] using K.enclosed (o := '(') rfl hj

include hor

theorem Built.kept {free : Char → Prop} (hfree : ∀ {s : String}, FreeText free s → P s.toList)
    (h : Rule.Built free r) : P r.render.toList := by
  refine @Rule.Built.rec free (fun x _ => P x.render.toList) (fun r _ => P r.render.toList)
    ?value ?handle ?rule ?literal ?captured ?binary ?contains ?hasType ?not ?or ?and r h
  case value =>
    intro v hv
    rw [Operand.render_ofValue]
    exact hv.kept K hfree
  case handle => exact fun hh => hh.kept K hfree
  case rule => exact fun _ ih => ih
  case literal =>
    intro v hv
    rw [Rule.render_ofValue]
    exact hv.kept K hfree
  case captured => exact fun hh => hh.kept K hfree
  case binary =>
    intro a b op _ _ iha ihb
    have hop : P op.symbol.toList := by cases op <;> exact K.lit _
    have happ := K.append iha <| K.append (K.lit " ") <| K.append hop <| K.append (K.lit " ") ihb
    simpa [render] using happ
  case contains =>
    intro v x hv _ ih
    have happ := K.append ih (K.append (K.lit " in ") (hv.kept K hfree))
    simpa [Rule.contains, render] using happ
  case hasType =>
    intro v hv type
    have htype : P type.name.toList := by cases type <;> exact K.lit _
    have happ := K.append (hv.kept K hfree) (K.append (K.lit " is ") htype)
    simpa [Rule.hasType, render] using happ
  case not =>
    intro x _ ih
    have happ := K.append (K.lit "!") (K.enclosed (o := '(') rfl ih)
    simpa [render] using happ
  case or => exact fun _ ih => kept_slots K hand hor ih
  case and => exact fun _ ih => kept_slots K hand hand ih

end Rule

end

end AccessRules
