import AccessRules.Proofs.Document.Readback
import AccessRules.Proofs.Handle.Suffix
import AccessRules.Proofs.Position.Marked

/-! A value stands in the text of what holds it between two texts that do not depend on it. The text in
front of it never ends a line, so indentation leaves a value without line feeds as it is, and the text
of a document is the text of the value with fixed texts around it (`Document.render_of_marked`). -/

namespace AccessRules

open Indentation

variable {f : Value → Value}

/-- The text of the value between two fixed texts, the first of which does not end a line. -/
def Span (text : Value → List Char) : Prop :=
  ∃ pre post : List Char, pre.getLast? ≠ some '\n' ∧
    ∀ v, text v = pre ++ (v.render.toList ++ post)

namespace Span

variable {text : Value → List Char}

theorem here : Span fun v => v.render.toList :=
  ⟨[], [], by simp, fun _ => (List.append_nil _).symm⟩

theorem between (h : Span text) {a : List Char} (ha : a.getLast? ≠ some '\n') (b : List Char) :
    Span fun v => a ++ (text v ++ b) := by
  obtain ⟨pre, post, hpre, htext⟩ := h
  refine ⟨a ++ pre, post ++ b, ?_, fun v => ?_⟩
  · rw [List.getLast?_append]
    cases hl : pre.getLast? with
    | none => exact ha
    | some c => rwa [hl] at hpre
  · simp only [htext, List.append_assoc]

theorem behind (h : Span text) (a : List Char) (c : Char) (b : List Char)
    (hc : c ≠ '\n' := by decide) : Span fun v => a ++ c :: (text v ++ b) := by
  have hlast : (a ++ [c]).getLast? ≠ some '\n' := by
    rw [List.getLast?_concat]
    exact fun h => hc (Option.some.inj h)
  simpa only [List.append_assoc, List.singleton_append] using h.between hlast b

theorem front (h : Span text) (b : List Char) : Span fun v => text v ++ b :=
  h.between (a := []) (by simp) b

/-- Among texts with blanks at the end of what separates them. -/
theorem intercalate (h : Span text) (sep : List Char) (before after : List (List Char))
    (hsep : sep.getLast? = some ' ' := by rfl) :
    Span fun v => sep.intercalate (before ++ text v :: after) := by
  have hbefore : (before.flatMap (· ++ sep)).getLast? ≠ some '\n' := by
    obtain rfl | ⟨before, t, rfl⟩ := List.eq_nil_or_concat before
    · simp
    · simp [List.getLast?_append, hsep]
  simp only [intercalate_append_cons]
  exact h.between hbefore _

end Span

/-! ## Values and handles -/

theorem Path.span_call (h : Span fun v => (f v).render.toList) (p : Path)
    (before after : List Value) :
    Span fun v => (p.call (before ++ f v :: after)).text.toList := by
  have hargs := h.intercalate ", ".toList
    (before.map (·.render.toList)) (after.map (·.render.toList))
  simpa [call, Function.comp_def] using hargs.behind p.text.toList '(' [')']

theorem Step.Marked.span {t u : HandleType} {s : Value → Step t u} (hs : Step.Marked f s)
    (hf : Span fun v => (f v).render.toList) (h : Handle t) :
    Span fun v => (h.step (s v)).path.text.toList := by
  cases hs with
  | call before after => exact Path.span_call hf h.path before after
  | method m mem before after => exact Path.span_call hf (h.path.field m.name) before after
  | key isMap default => exact Path.span_call hf (h.path.field "get") [] [default]
  | default isMap key => exact Path.span_call hf (h.path.field "get") [key] []

theorem Handle.Marked.span {t : HandleType} {h : Value → Handle t} (hh : Handle.Marked f h)
    (hf : Span fun v => (f v).render.toList) : Span fun v => (h v).path.text.toList := by
  induction hh with
  | boolOf => exact Path.span_call hf _ [] []
  | function space name before after => exact Path.span_call hf _ before after
  | step h hs => exact hs.span hf h
  | next _ s ih =>
    simpa only [Handle.text_step, String.toList_append] using ih.front s.suffix.toList
  | lookup c _ ih =>
    have hid := ih.behind
      ("get(/databases/$(database)/documents/".toList ++ c.path.toList ++ "/$".toList) '(' "))".toList
    simpa [Collection.get, Handle.documentId, DocumentId.render, Handle.ofText] using hid

theorem Value.Marked.span (hf : Value.Marked f) : Span fun v => (f v).render.toList := by
  induction hf with
  | here => exact Span.here
  | item before after _ ih =>
    have hitems := ih.intercalate ", ".toList
      (before.map (·.render.toList)) (after.map (·.render.toList))
    simpa [toList_render_list] using hitems.behind [] '[' [']']
  | entry before after key _ ih =>
    have hentry := ih.behind (key.toList ++ [':']) ' ' []
    have hentries := hentry.intercalate ", ".toList (before.map entryText) (after.map entryText)
    simpa [toList_render_map, entryText] using hentries.behind ['\x7b'] ' ' [' ', '\x7d']
  | captured _ hh ih => exact hh.span ih

/-! ## Rules -/

theorem Rule.span_renderAll {r : Value → Rule} (h : Span fun v => (r v).render.toList)
    (before after : List Rule) :
    Span fun v => (renderAll (before ++ r v :: after)).toList := by
  have hjoined := h.intercalate " && ".toList
    (before.map (·.render.toList)) (after.map (·.render.toList))
  by_cases hlen : 1 < before.length + (after.length + 1)
  · simpa [renderAll, conjoin, hlen, Function.comp_def] using hjoined.behind [] '(' [')']
  · simpa [renderAll, conjoin, hlen, Function.comp_def] using hjoined

theorem Rule.span_slots {slot : Value → List Rule} (h : Span fun v => (renderAll (slot v)).toList)
    (sep : String) (hsep : sep.toList.getLast? = some ' ') (before after : List (List Rule)) :
    Span fun v =>
      ("(" ++ sep.intercalate (renderSlots (before ++ slot v :: after)) ++ ")").toList := by
  have hslots := h.intercalate sep.toList (before.map fun s => (renderAll s).toList)
    (after.map fun s => (renderAll s).toList) hsep
  simpa [renderSlots_eq_map, Function.comp_def] using hslots.behind [] '(' [')']

theorem Rules.Marked.span {rules : Value → List Rule} (h : Rules.Marked rules) :
    Span fun v => (Rule.renderAll (rules v)).toList := by
  -- Operands, rules and lists of rules hold each other, so the induction is on all three at once.
  refine @Rules.Marked.rec (fun x _ => Span fun v => (x v).render.toList)
    (fun r _ => Span fun v => (r v).render.toList)
    (fun rules _ => Span fun v => (Rule.renderAll (rules v)).toList)
    ?value ?handle ?rule ?literal ?captured ?left ?right ?container ?item ?hasType ?not ?or ?and
    ?rules rules h
  case value =>
    intro f hf
    simpa only [Operand.render_ofValue] using hf.span
  case handle => exact fun hf hh => hh.span hf.span
  case rule => exact fun _ ih => ih
  case literal =>
    intro f hf
    simpa only [Rule.render_ofValue] using hf.span
  case captured => exact fun hf hh => hh.span hf.span
  case left =>
    intro x op _ b ih
    simpa [Rule.render] using ih.front (' ' :: (op.symbol.toList ++ ' ' :: b.render.toList))
  case right =>
    intro x op a _ ih
    simpa [Rule.render] using ih.behind (a.render.toList ++ ' ' :: op.symbol.toList) ' ' []
  case container =>
    intro f hf item
    simpa [Rule.contains, Rule.render] using hf.span.behind (item.render.toList ++ " in".toList) ' ' []
  case item =>
    intro x container _ ih
    simpa [Rule.contains, Rule.render] using ih.front (" in ".toList ++ container.render.toList)
  case hasType =>
    intro f hf type
    simpa [Rule.hasType, Rule.render] using hf.span.front (" is ".toList ++ type.name.toList)
  case not =>
    intro x _ ih
    simpa [Rule.render] using ih.behind ['!'] '(' [')']
  case or => exact fun before after _ ih => Rule.span_slots ih _ rfl before after
  case and => exact fun before after _ ih => Rule.span_slots ih _ rfl before after
  case rules => exact fun before after _ ih => Rule.span_renderAll ih before after

/-! ## Documents -/

/-- An allowance stands behind a blank in the block of a collection, and ends its line. -/
theorem CollectionRules.exists_allowance_eq (path key : String)
    (before after : List (String × List Rule)) : ∃ a b : List Char, ∀ rules,
      (render ⟨path, ⟨before ++ (key, rules) :: after⟩⟩).toList =
        a ++ ' ' :: ((allowance key rules).toList ++ '\n' :: b) := by
  have hrest : ∃ b, (after.map row).flatMap ("\n\n".toList ++ ·) ++ ['\n', '\x7d'] = '\n' :: b := by
    cases after with
    | nil => exact ⟨_, rfl⟩
    | cons e after => exact ⟨_, rfl⟩
  obtain ⟨b, hb⟩ := hrest
  refine ⟨opening ⟨path, ∅⟩ ++ '\n' :: ((before.map row).flatMap (· ++ "\n\n".toList) ++ [' ']), b,
    fun rules => ?_⟩
  rw [render_eq, List.map_append, List.map_cons, intercalate_append_cons, ← hb]
  simp [opening_eq, row]

/-- The conditions of an entry stand behind a blank in the block of a collection. -/
theorem CollectionRules.exists_render_eq (path key : String)
    (before after : List (String × List Rule)) : ∃ a b : List Char, ∀ rules,
      (render ⟨path, ⟨before ++ (key, rules) :: after⟩⟩).toList =
        a ++ ' ' :: ((Rule.renderAll rules).toList ++ b) := by
  obtain ⟨a, b, h⟩ := exists_allowance_eq path key before after
  refine ⟨a ++ " allow ".toList ++ (key.toList ++ ": if".toList), '\n' :: b, fun rules => ?_⟩
  rw [h]
  simp [allowance]

theorem Document.exists_render_eq (service : String) (before after : List CollectionRules) :
    ∃ a b : List Char, ∀ c,
      (render ⟨service, before ++ c :: after⟩).toList = a ++ ((indent 2 c.render).toList ++ b) := by
  let block (c : CollectionRules) : List Char := (indent 2 c.render).toList
  refine ⟨"rules_version = '2';\nservice ".toList ++ ((service.toList ++ " \x7b".toList) ++
      '\n' :: ("  match /databases/\x7bdatabase\x7d/documents \x7b\n".toList ++
        (before.map block).flatMap (· ++ "\n\n".toList))),
    (after.map block).flatMap ("\n\n".toList ++ ·) ++ "\n  \x7d\n\x7d".toList, fun c => ?_⟩
  rw [render_eq, List.map_append, List.map_cons, intercalate_append_cons]
  simp only [block, List.append_assoc, List.cons_append]

/-- Indentation keeps a value without line feeds that stands inside of a line. -/
theorem Span.indentFrom (h : Span text) (n : Nat) : ∃ pre post : List Char, ∀ v : Value,
    '\n' ∉ v.render.toList →
      Indentation.indentFrom n false (text v) = pre ++ (v.render.toList ++ post) := by
  obtain ⟨pre, post, hpre, htext⟩ := h
  refine ⟨Indentation.indentFrom n false pre, Indentation.indentFrom n false post, fun v hv => ?_⟩
  rw [htext, indentFrom_append hpre, indentFrom_of_notMem hv]

/-- A document is the text of the value between two fixed texts, whatever the value is and however it is
turned into a part of a rule, as long as its own text is one line. If the rules that hold the position
are replaced, the document does not depend on the value. -/
theorem Document.render_of_marked {key : Option String} {d : Value → Document}
    (h : Document.Marked key d) :
    (key.isSome → ∃ pre post : String, ∀ v : Value, '\n' ∉ v.render.toList →
      (d v).render = pre ++ v.render ++ post) ∧
    (key = none → ∀ v w, (d v).render = (d w).render) := by
  obtain ⟨service, before, after, c, hc, rfl⟩ := h.exists_block
  refine ⟨fun hkey => ?_, fun hkey v w => ?_⟩
  · obtain ⟨key, rfl⟩ := Option.isSome_iff_exists.mp hkey
    obtain ⟨path, first, last, rules, hr, rfl⟩ := hc
    obtain ⟨a, b, hdocument⟩ := exists_render_eq service before after
    obtain ⟨a', b', hblock⟩ := CollectionRules.exists_render_eq path key first last
    obtain ⟨pre, post, hspan⟩ := (hr.span.front b').indentFrom 2
    refine ⟨.ofList (a ++ (Indentation.indentFrom 2 true (a' ++ [' ']) ++ pre)), .ofList (post ++ b),
      fun v hv => String.toList_inj.mp ?_⟩
    rw [hdocument, toList_indent, hblock, indentFrom_append_cons (by decide), hspan v hv]
    simp only [String.toList_append, String.toList_ofList, List.append_assoc]
  · subst hkey
    obtain ⟨b, rfl⟩ := hc
    rfl

/-- The value in a list in a map that is the default of a call, whose result is compared under a
negation in a slot, for a key that another rule set leaves alone. -/
theorem Document.render_of_marked_default :
    let token : Handle .map := .ofText "request.auth.token"
    let role (v : Value) : Handle .text :=
      token.step (.get rfl "role" (.map [("names", .list [.int 1, v])]) .text)
    let rule (v : Value) : Rule := .anyOf [] [.not (.rule (.eq (role v).operand (.ofValue "admin")))] []
    let notes : Collection .path := ⟨"notes"⟩
    let d (v : Value) : Document := .ofActions [.service "cloud.firestore",
      .collection (notes.secure [.grant ⟨[.read], by simp⟩ [.null, rule v],
        .grant ⟨[.write], by simp⟩ [.bool true]])]
    ∃ pre post : String, ∀ v ∈ [Value.null, .string "\n\"]\x7d)", .list [.bool true, .int 2]],
      (d v).render = pre ++ v.render ++ post := by
  intro token role rule notes d
  have hvalue : Value.Marked fun v => .map [("names", .list [.int 1, v])] :=
    .entry [] [] "names" (.item [.int 1] [] .here)
  have hrole : Operand.Marked fun v => (role v).operand :=
    .handle hvalue (.step token (.default rfl "role" .text))
  have hrule : Rule.Marked rule :=
    .or [[]] [] (.rule [] [] (.not (.rule (.left .eq hrole (.ofValue "admin")))))
  have hset : RuleSet.Marked (some "read") fun v => .grant ⟨[.read], by simp⟩ [.null, rule v] :=
    .insert ∅ "read" (.rule [.null] [] hrule)
  have hd : Document.Marked (some "read") d :=
    .ofActions [.service "cloud.firestore"] [] (.collection
      (.secure notes [] [.grant ⟨[.write], by simp⟩ [.bool true]] hset))
  obtain ⟨pre, post, hspan⟩ := (Document.render_of_marked hd).1 rfl
  refine ⟨pre, post, ?_⟩
  simp only [List.forall_mem_cons]
  exact ⟨hspan _ (by decide), hspan _ (by decide), hspan _ (by decide), by simp⟩

end AccessRules
