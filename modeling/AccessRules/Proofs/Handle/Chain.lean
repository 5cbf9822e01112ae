import Mathlib.Data.List.Infix
import AccessRules.Handle.Root
import AccessRules.Proofs.Handle.Suffix
import AccessRules.Rule.Render

/-! Chains of steps. What a chain puts behind the path it starts from is the texts of its steps, one
after the other (`Chain.text_run`), so the paths on the way are what its first steps give
(`Chain.trace_eq`). A step leaves the text as it is only if it takes the value to be of another type
(`Step.suffix_eq_empty_iff`). Whatever a handle is converted to shows just its text
(`Handle.exposes`). -/

namespace AccessRules

namespace Path

theorem fieldSuffix_ne_empty (name : String) : fieldSuffix name ≠ "" := by
  unfold fieldSuffix
  split <;> simp

theorem callSuffix_ne_empty (args : List Value) : callSuffix args ≠ "" := by
  simp [callSuffix]

theorem callSuffix_congr {args args' : List Value} (h : args.map Value.render = args'.map Value.render) :
    callSuffix args = callSuffix args' := by
  rw [callSuffix, callSuffix, h]

end Path

namespace Step
variable {t u : HandleType}

theorem suffix_eq_empty_iff (s : Step t u) : s.suffix = "" ↔ s = .view u := by
  cases s with
  | view => exact ⟨fun _ => rfl, fun _ => rfl⟩
  | field name => simp [suffix, Path.fieldSuffix_ne_empty]
  | member m mem => simp [suffix, Path.fieldSuffix_ne_empty]
  | call args => simp [suffix, Path.callSuffix_ne_empty]
  | method m mem args length_eq => simp [suffix, Path.callSuffix_ne_empty]
  | get isMap key default => simp [suffix, Path.callSuffix_ne_empty]
  | index n | item n => simp [suffix]

end Step

/-- The same step but for arguments that are written alike. -/
inductive Step.Alike : {t u : HandleType} → Step t u → Step t u → Prop
  | refl {t u : HandleType} (s : Step t u) : Alike s s
  | call {t : HandleType} (h : args.map Value.render = args'.map Value.render) :
      Alike (t := t) (.call args) (.call args')
  | method {t : HandleType} {mem : m ∈ t.methods} {hlen : args.length = m.arity}
      {hlen' : args'.length = m.arity} (h : args.map Value.render = args'.map Value.render) :
      Alike (.method m mem args hlen) (.method m mem args' hlen')
  | get {t u : HandleType} {isMap : t.isMap} {fallback fallback' : Value}
      (hkey : Value.render key = Value.render key') (hfallback : fallback.render = fallback'.render) :
      Alike (.get isMap key fallback u) (.get isMap key' fallback' u)

theorem Step.Alike.suffix_eq {t u : HandleType} {s s' : Step t u} (h : s.Alike s') :
    s.suffix = s'.suffix := by
  cases h with
  | refl => rfl
  | call h => exact Path.callSuffix_congr h
  | method h => rw [suffix, suffix, Path.callSuffix_congr h]
  | get hkey hfallback =>
    rw [suffix, suffix]
    refine congrArg _ (Path.callSuffix_congr ?_)
    rw [List.map_cons, List.map_cons, List.map_cons, List.map_cons, hkey, hfallback]

namespace Chain
variable {t u v : HandleType}

/-- The texts that the steps of a chain put behind a path, in order. -/
def suffixes {t u : HandleType} : Chain t u → List String
  | .nil => []
  | .cons s c => s.suffix :: c.suffixes

theorem suffixes_append (c : Chain t u) (d : Chain u v) :
    (c.append d).suffixes = c.suffixes ++ d.suffixes := by
  induction c with
  | nil => rfl
  | cons s c ih => rw [append, suffixes, suffixes, ih, List.cons_append]

theorem run_append (h : Handle t) (c : Chain t u) (d : Chain u v) :
    (c.append d).run h = d.run (c.run h) := by
  induction c with
  | nil => rfl
  | cons s c ih => exact ih (h.step s) d

theorem text_run (h : Handle t) (c : Chain t u) :
    (c.run h).path.text = h.path.text ++ String.join c.suffixes := by
  induction c with
  | nil => rw [run, suffixes, String.join_nil, String.append_empty]
  | cons s c ih => rw [run, ih, h.text_step, suffixes, String.join_cons, String.append_assoc]

/-- The texts on the way are those of the first steps, from none of them to all. -/
theorem trace_eq (h : Handle t) (c : Chain t u) :
    c.trace h = c.suffixes.inits.map fun texts => h.path.text ++ String.join texts := by
  induction c with
  | nil => rw [trace, suffixes, List.inits, List.map_singleton, String.join_nil, String.append_empty]
  | cons s c ih =>
    rw [trace, ih, suffixes, List.inits_cons, List.map_cons, String.join_nil, String.append_empty,
      List.map_map]
    refine congrArg _ (List.map_congr_left fun texts _ => ?_)
    rw [Function.comp_apply, String.join_cons, h.text_step, String.append_assoc]

theorem prefix_of_mem_trace {h : Handle t} {c : Chain t u} (hx : x ∈ c.trace h) :
    x.toList <+: (c.run h).path.text.toList := by
  rw [trace_eq] at hx
  obtain ⟨texts, htexts, rfl⟩ := List.mem_map.mp hx
  obtain ⟨rest, hrest⟩ := (List.mem_inits _ _).mp htexts
  rw [text_run, ← hrest, String.join_append, ← String.append_assoc]
  generalize h.path.text ++ String.join texts = x
  rw [String.toList_append]
  exact List.prefix_append _ _

end Chain

/-- What a handle can be converted to shows the text, in a look-up between `$(` and `)`. -/
structure Handle.Exposes {t : HandleType} (h : Handle t) (text : String) : Prop where
  value : h.value.render = text
  operand : h.operand.render = text
  /-- As a value first and as an operand then it is the same as directly. -/
  operand_value : Operand.ofValue h.value = h.operand
  rule : h.rule.render = text
  documentId : h.documentId.render = "$(" ++ text ++ ")"
  get : ∀ (model : HandleType) (c : Collection model), (c.get h.documentId).path.text =
    "get(/databases/$(database)/documents/" ++ c.path ++ "/" ++ ("$(" ++ text ++ ")") ++ ")"

theorem Handle.exposes {t : HandleType} (h : Handle t) : h.Exposes h.path.text where
  value := rfl
  operand := rfl
  operand_value := rfl
  rule := rfl
  documentId := rfl
  get _ _ := rfl

/-- A chain puts the texts of its steps behind the path it starts from, in order. These depend on the
steps alone, and only a change of type has none. Two chains one after the other do what the chain of all
their steps does, each text on the way starts the last one, and that is what the handle at the end
shows as. -/
theorem Chain.concatenates {t u v : HandleType} (h : Handle t) (c : Chain t u) (d : Chain u v) :
    (c.run h).path.text = h.path.text ++ String.join c.suffixes ∧
      c.trace h = c.suffixes.inits.map (fun texts => h.path.text ++ String.join texts) ∧
      (∀ x ∈ c.trace h, x.toList <+: (c.run h).path.text.toList) ∧
      ((c.append d).run h = d.run (c.run h) ∧ (c.append d).suffixes = c.suffixes ++ d.suffixes) ∧
      (∀ (a b : HandleType) (s : Step a b), s.suffix = "" ↔ s = .view b) ∧
      (∀ (a b : HandleType) (s s' : Step a b), s.Alike s' → s.suffix = s'.suffix) ∧
      (c.run h).Exposes (h.path.text ++ String.join c.suffixes) := by
  refine ⟨text_run h c, trace_eq h c, fun x => prefix_of_mem_trace,
    ⟨run_append h c d, suffixes_append c d⟩, fun a b => Step.suffix_eq_empty_iff,
    fun a b s s' => Step.Alike.suffix_eq, ?_⟩
  rw [← text_run]
  exact (c.run h).exposes

/-- The time of a request is a field, and the time of a timestamp a call. -/
theorem Chain.concatenates_time :
    let request : Handle (.request .map) := ({} : Context .map).request
    let c : Chain (.request .map) .timestamp :=
      .cons (.member ⟨"time", "time", .timestamp⟩ (.tail _ (.tail _ (.head _)))) (.cons
        (.view .timestamp) .nil)
    let d : Chain .timestamp .number :=
      .cons (.method ⟨"time", 0, .duration⟩ (by simp [HandleType.methods]) [] rfl) (.cons
        (.method ⟨"nanos", 0, .number⟩ (.head _) [] rfl) .nil)
    (d.run (c.run request)).path.text = "request.time.time().nanos()" ∧
      "request.time.time()" ∈ (c.append d).trace request ∧
      "request.time.time()".toList <+: ((c.append d).run request).path.text.toList ∧
      (d.run (c.run request)).operand.render = "request.time.time().nanos()" := by
  intro request c d
  have htrace : "request.time.time()" ∈ (c.append d).trace request := by decide
  obtain ⟨htext, -, hprefix, -, -, -, hexposes⟩ := concatenates request (c.append d) .nil
  obtain ⟨-, -, -, ⟨hrun, -⟩, -⟩ := concatenates request c d
  rw [← hrun]
  exact ⟨htext.trans (by decide), htrace, hprefix _ htrace, hexposes.operand.trans (by decide)⟩

end AccessRules
