import AccessRules.Proofs.Construction
import AccessRules.Proofs.Document.Lines
import AccessRules.Proofs.Lexical.Quoted

/-! Documents without line feeds outside of strings are read back from their texts. A string never
brings a line feed into a text, so an allowance is one line and its key ends at the first colon; the
block of a collection ends at its first line that is a closing brace; and the service ends with its
line. So the text of a document and what it says settle each other (`render_eq_render_iff`). -/

namespace AccessRules

open Indentation

/-- The characters that stay on their line. -/
def Inline (c : Char) : Prop := c ≠ '\n'

instance : DecidablePred Inline := fun c => inferInstanceAs (Decidable (c ≠ '\n'))

theorem notMem_of_inline (h : FreeText Inline s) : '\n' ∉ s.toList := fun hm => h _ hm rfl

theorem notMem_escape (c : Char) : '\n' ∉ Quoted.escape c :=
  fun hm => absurd ((Quoted.standsFor_escape c).le_toNat _ hm) (by decide)

/-- Strings and plain texts bring no line feed into a text. -/
theorem Kept.inline : Kept ('\n' ∉ ·) where
  plain h hm := by simpa [isPlain] using h _ hm
  append ht hu hm := (List.mem_append.mp hm).elim ht hu
  enclosed := by
    intro o d t ho ht hm
    have hd : o ≠ '\n' ∧ d ≠ '\n' := by
      unfold Scanner.closer? at ho
      split at ho <;> cases ho <;> decide
    simp only [List.mem_cons, List.mem_append, List.not_mem_nil, or_false] at hm
    rcases hm with hm | hm | hm
    · exact hd.1 hm.symm
    · exact ht hm
    · exact hd.2 hm.symm
  quote s hm := by
    rw [Quoted.quote, String.toList_ofList] at hm
    simp only [List.mem_cons, List.mem_append, List.not_mem_nil, or_false] at hm
    rcases hm with hm | hm | hm
    · cases hm
    · obtain ⟨c, -, hc⟩ := List.mem_flatMap.mp hm
      exact notMem_escape c hc
    · cases hm

theorem Rule.Built.inline (h : Rule.Built Inline r) : '\n' ∉ r.render.toList :=
  h.kept Kept.inline (by decide) (by decide) notMem_of_inline

/-! ## Keys -/

theorem OperationKey.notMem_text (key : OperationKey) :
    ':' ∉ key.text.toList ∧ '\n' ∉ key.text.toList := by
  have hname : ∀ o : Operation, ':' ∉ o.name.toList ∧ '\n' ∉ o.name.toList := by
    intro o
    cases o <;> decide
  have hjoin : ∀ c, c ∈ key.text.toList → c ∈ ", ".toList ∨ ∃ o : Operation, c ∈ o.name.toList := by
    intro c hc
    rw [text, Operation.join, String.toList_intercalate] at hc
    refine (mem_or_of_mem_intercalate hc).imp_right ?_
    rintro ⟨t, ht, hct⟩
    simp only [List.mem_map] at ht
    obtain ⟨-, ⟨o, -, rfl⟩, rfl⟩ := ht
    exact ⟨o, hct⟩
  refine ⟨fun hm => ?_, fun hm => ?_⟩ <;> rcases hjoin _ hm with hm | ⟨o, ho⟩
  · exact absurd hm (by decide)
  · exact (hname o).1 ho
  · exact absurd hm (by decide)
  · exact (hname o).2 ho

/-! ## Blocks -/

/-- The last line, and no other, is the closing one. -/
def EndsAt (closing : List Char) (ls : List (List Char)) : Prop :=
  ∃ before, closing ∉ before ∧ ls = before ++ [closing]

/-- Lines that end at the same closing line are told apart whatever follows. -/
theorem EndsAt.code (ha : EndsAt closing a) (hb : EndsAt closing b) (h : a ++ u = b ++ v) :
    a = b ∧ u = v := by
  obtain ⟨before, hbefore, rfl⟩ := ha
  obtain ⟨before', hbefore', rfl⟩ := hb
  rw [List.append_assoc, List.append_assoc] at h
  obtain ⟨rfl, huv⟩ := cut_inj hbefore hbefore' h
  exact ⟨rfl, huv⟩

theorem EndsAt.indent (h : EndsAt closing ls) (n : Nat) :
    EndsAt (indentLine n closing) (ls.map (indentLine n)) := by
  obtain ⟨before, hbefore, rfl⟩ := h
  refine ⟨before.map (indentLine n), fun hm => ?_, by rw [List.map_append, List.map_singleton]⟩
  obtain ⟨l, hl, hlc⟩ := List.mem_map.mp hm
  rw [indentLine_inj hlc] at hl
  exact hbefore hl

namespace CollectionRules

/-- What a collection says: its path, and the text of the conditions for each key in order. -/
def conditions (c : CollectionRules) : String × List (String × String) :=
  (c.path, c.rules.entries.map fun e => (e.1, Rule.renderAll e.2))

/-- Only strings hold line feeds, and every key is the key of operations. -/
structure Tidy (c : CollectionRules) : Prop where
  path : FreeText Inline c.path
  keys : ∀ e ∈ c.rules.entries, ∃ key : OperationKey, e.1 = key.text
  rules : ∀ e ∈ c.rules.entries, ∀ r ∈ e.2, r.Built Inline

/-- The line of an entry in the block of a collection. -/
def row (e : String × List Rule) : List Char :=
  "  ".toList ++ (allowance e.1 e.2).toList

theorem row_eq (e : String × List Rule) :
    row e = "  allow ".toList ++
      (e.1.toList ++ ':' :: (" if ".toList ++ (Rule.renderAll e.2).toList)) := by
  simp [row, allowance]

theorem row_inj {e e' : String × List Rule} {key key' : OperationKey} (hk : e.1 = key.text)
    (hk' : e'.1 = key'.text) (h : row e = row e') :
    (e.1, Rule.renderAll e.2) = (e'.1, Rule.renderAll e'.2) := by
  have hcolon : ':' ∉ e.1.toList := by
    rw [hk]
    exact key.notMem_text.1
  have hcolon' : ':' ∉ e'.1.toList := by
    rw [hk']
    exact key'.notMem_text.1
  rw [row_eq, row_eq] at h
  obtain ⟨hkeys, hrules⟩ := cut_inj hcolon hcolon' (List.append_cancel_left h)
  rw [String.toList_inj.mp hkeys, String.toList_inj.mp (List.append_cancel_left hrules)]

section
variable {c c' : CollectionRules}

theorem Tidy.notMem_row (h : c.Tidy) (he : e ∈ c.rules.entries) : '\n' ∉ row e := by
  obtain ⟨key, hkey⟩ := h.keys e he
  have K := Kept.inline
  have hk : '\n' ∉ e.1.toList := by
    rw [hkey]
    exact key.notMem_text.2
  have hrules : '\n' ∉ (Rule.renderAll e.2).toList :=
    Rule.kept_renderAll K (by decide) fun r hr => (h.rules e he r hr).inline
  have happ := K.append (K.lit "  ") <| K.append (K.lit "allow ") <| K.append hk <|
    K.append (K.lit ": if ") hrules
  simpa [row, allowance] using happ

/-- The line that opens the block of a collection. -/
def opening (c : CollectionRules) : List Char :=
  "match /".toList ++ (c.path.toList ++ "/\x7bresourceId\x7d \x7b".toList)

theorem opening_eq (c : CollectionRules) :
    c.opening = "match /".toList ++ (c.path.toList ++ "/\x7bresourceId\x7d \x7b".toList) := rfl

theorem Tidy.notMem_opening (h : c.Tidy) : '\n' ∉ c.opening := by
  have K := Kept.inline
  exact K.append (K.lit "match /") (K.append (notMem_of_inline h.path) (by decide))

theorem render_eq (c : CollectionRules) :
    c.render.toList = c.opening ++ '\n' ::
      ("\n\n".toList.intercalate (c.rules.entries.map row) ++ '\n' :: ['\x7d']) := by
  have hrows : c.rules.entries.map (fun e => "  ".toList ++ (allowance e.1 e.2).toList) =
      c.rules.entries.map row := rfl
  simp only [toList_render, hrows]
  simp [opening_eq]

theorem Tidy.render_inj (h : c.Tidy) (h' : c'.Tidy) (heq : c.render = c'.render) :
    c.conditions = c'.conditions := by
  have hlines := congrArg String.toList heq
  rw [render_eq, render_eq] at hlines
  obtain ⟨hopening, hbody⟩ := cut_inj h.notMem_opening h'.notMem_opening hlines
  have hpath : c.path = c'.path :=
    String.toList_inj.mp (List.append_cancel_right (List.append_cancel_left hopening))
  have hrow : ∀ {c : CollectionRules}, c.Tidy → ∀ t ∈ c.rules.entries.map row,
      ∃ r, r ≠ [] ∧ lines t = [r] := by
    intro c h t ht
    obtain ⟨e, he, rfl⟩ := List.mem_map.mp ht
    exact ⟨row e, by simp [row_eq], lines_of_not_mem (h.notMem_row he)⟩
  have hrows : c.rules.entries.map row = c'.rules.entries.map row := by
    refine paragraphs_inj (P := fun a => ∃ r, r ≠ [] ∧ a = [r]) ?_ ?_ (hrow h) (hrow h')
      (List.append_cancel_right hbody)
    · rintro a ⟨r, hr, rfl⟩
      exact ⟨r, List.mem_cons_self, hr⟩
    · rintro a b u v ⟨r, -, rfl⟩ ⟨r', -, rfl⟩ - - hab
      obtain ⟨rfl, rfl⟩ := List.cons.inj hab
      exact ⟨rfl, rfl⟩
  have hentries : c.rules.entries.map (fun e => (e.1, Rule.renderAll e.2)) =
      c'.rules.entries.map fun e => (e.1, Rule.renderAll e.2) := by
    refine map_eq_of_map_eq (fun e he e' he' hee => ?_) hrows
    obtain ⟨key, hkey⟩ := h.keys e he
    obtain ⟨key', hkey'⟩ := h'.keys e' he'
    exact row_inj hkey hkey' hee
  rw [conditions, conditions, hpath, hentries]

theorem render_congr (h : c.conditions = c'.conditions) : c.render = c'.render := by
  obtain ⟨hpath, hentries⟩ := Prod.mk.inj h
  have hrows : c.rules.entries.map row = c'.rules.entries.map row := by
    refine map_eq_of_map_eq (fun e _ e' _ hee => ?_) hentries
    obtain ⟨hkey, hrules⟩ := Prod.mk.inj hee
    rw [row_eq, row_eq, hkey, hrules]
  refine String.toList_inj.mp ?_
  simp only [render_eq, opening_eq, hpath, hrows]

theorem Tidy.lines_render (h : c.Tidy) : EndsAt ['\x7d'] (lines c.render.toList) := by
  have hbody : ∀ l ∈ lines ("\n\n".toList.intercalate (c.rules.entries.map row)), l ≠ ['\x7d'] := by
    intro l hl
    obtain rfl | ⟨t, ht, hlt⟩ := eq_nil_or_of_mem_lines hl
    · exact (List.cons_ne_nil _ _).symm
    · obtain ⟨e, he, rfl⟩ := List.mem_map.mp ht
      rw [lines_of_not_mem (h.notMem_row he), List.mem_singleton] at hlt
      simp [hlt, row_eq]
  refine ⟨c.opening :: lines ("\n\n".toList.intercalate (c.rules.entries.map row)), ?_, ?_⟩
  · intro hm
    rcases List.mem_cons.mp hm with hm | hm
    · simp [opening_eq] at hm
    · exact hbody _ hm rfl
  · have hclosing : lines ['\x7d'] = [['\x7d']] := rfl
    simp only [render_eq, lines_append_cons, lines_of_not_mem h.notMem_opening, hclosing,
      List.cons_append, List.nil_append]

end

end CollectionRules

namespace Document

/-- An action that writes line feeds in strings only. -/
structure Builder.Action.Tidy (a : Builder.Action) : Prop where
  service : ∀ s ∈ a.service?, FreeText Inline s
  added : ∀ c ∈ a.added, c.Tidy

structure Tidy (d : Document) : Prop where
  service : FreeText Inline d.service
  collections : ∀ c ∈ d.collections, c.Tidy

theorem tidy_ofActions {actions : List Builder.Action} (h : ∀ a ∈ actions, a.Tidy) :
    (ofActions actions).Tidy := by
  have hdefault : FreeText Inline defaultService := by decide
  obtain ⟨hs, hc⟩ :=
    forall_ofActions hdefault (fun a ha => (h a ha).service) fun a ha => (h a ha).added
  exact ⟨hs, hc⟩

theorem render_eq (d : Document) : d.render.toList = "rules_version = '2';\nservice ".toList ++
    ((d.service.toList ++ " \x7b".toList) ++ '\n' ::
      ("  match /databases/\x7bdatabase\x7d/documents \x7b\n".toList ++
        ("\n\n".toList.intercalate (d.collections.map fun c => (indent 2 c.render).toList) ++
          "\n  \x7d\n\x7d".toList))) := by
  simp [toList_render, renderBlocks, Function.comp_def]

theorem Tidy.render_inj {d d' : Document} (h : d.Tidy) (h' : d'.Tidy) (heq : d.render = d'.render) :
    d.service = d'.service ∧
      d.collections.map CollectionRules.conditions =
        d'.collections.map CollectionRules.conditions := by
  have hlines := congrArg String.toList heq
  simp only [render_eq] at hlines
  have hfirst : ∀ {d : Document}, d.Tidy → '\n' ∉ d.service.toList ++ " \x7b".toList :=
    fun h => Kept.inline.append (notMem_of_inline h.service) (by decide)
  obtain ⟨hservice, hblocks⟩ := cut_inj (hfirst h) (hfirst h') (List.append_cancel_left hlines)
  refine ⟨String.toList_inj.mp (List.append_cancel_right hservice), ?_⟩
  have hblock : ∀ {d : Document}, d.Tidy →
      ∀ t ∈ d.collections.map (fun c => (indent 2 c.render).toList),
        EndsAt (indentLine 2 ['\x7d']) (lines t) := by
    intro d h t ht
    obtain ⟨c, hc, rfl⟩ := List.mem_map.mp ht
    rw [lines_indent]
    exact (h.collections c hc).lines_render.indent 2
  have htexts : d.collections.map (fun c => (indent 2 c.render).toList) =
      d'.collections.map fun c => (indent 2 c.render).toList := by
    refine paragraphs_inj ?_ (fun ha hb _ _ hab => ha.code hb hab) (hblock h) (hblock h')
      (List.append_cancel_right (List.append_cancel_left hblocks))
    rintro a ⟨before, -, rfl⟩
    exact ⟨_, List.mem_append_right _ List.mem_cons_self, by decide⟩
  refine map_eq_of_map_eq (fun c hc c' hc' htext => ?_) htexts
  exact (h.collections c hc).render_inj (h'.collections c' hc')
    (indent_inj (String.toList_inj.mp htext))

theorem render_congr {d d' : Document} (hservice : d.service = d'.service)
    (hcollections : d.collections.map CollectionRules.conditions =
      d'.collections.map CollectionRules.conditions) : d.render = d'.render := by
  have htexts : d.collections.map (fun c => (indent 2 c.render).toList) =
      d'.collections.map fun c => (indent 2 c.render).toList :=
    map_eq_of_map_eq (fun c _ c' _ hcc => by rw [CollectionRules.render_congr hcc]) hcollections
  refine String.toList_inj.mp ?_
  simp only [render_eq, hservice, htexts]

/-- Documents have equal texts just if the service that was set last is the same, and all added
collections have the same paths and the same conditions for the same keys, in the same order. -/
theorem render_eq_render_iff {actions actions' : List Builder.Action}
    (h : ∀ a ∈ actions, a.Tidy) (h' : ∀ a ∈ actions', a.Tidy) :
    (ofActions actions).render = (ofActions actions').render ↔
      lastService actions = lastService actions' ∧
        (allAdded actions).map CollectionRules.conditions =
          (allAdded actions').map CollectionRules.conditions := by
  have hinj := (tidy_ofActions h).render_inj (tidy_ofActions h')
  have hcongr := @render_congr (ofActions actions) (ofActions actions')
  rw [ofActions_eq, ofActions_eq] at *
  exact ⟨hinj, fun ⟨hservice, hcollections⟩ => hcongr hservice hcollections⟩

/-- A service that is set over and an empty list of collections leave nothing behind, a string with
line feeds and closers stays on its line, and a collection without rules keeps its place. -/
theorem render_eq_render_of_detour :
    let rule : Rule := .eq (.ofValue "a\n    \x7d\n\n") (.ofValue (.bool true))
    let rows : CollectionRules := ⟨"notes", .grant ⟨[.read, .write], by simp⟩ [rule]⟩
    let bare : CollectionRules := ⟨"drafts", ∅⟩
    let actions : List Builder.Action := [.collection bare, .service "s", .collection rows]
    let actions' : List Builder.Action :=
      [.service "t", .collections [bare, rows], .service "s", .collections []]
    (∀ a ∈ actions, a.Tidy) ∧ (∀ a ∈ actions', a.Tidy) ∧
      (ofActions actions).render = (ofActions actions').render := by
  intro rule rows bare actions actions'
  have hstring : (Operand.ofValue "a\n    \x7d\n\n").Built Inline :=
    .value ⟨by simp, by simp⟩
  have htrue : (Operand.ofValue (.bool true)).Built Inline := .rule (.literal (v := .bool true)
    ⟨by simp, by simp⟩)
  have hbare : bare.Tidy :=
    ⟨by decide, (fun _ h => absurd h List.not_mem_nil), fun _ h => absurd h List.not_mem_nil⟩
  have hrows : rows.Tidy := by
    refine ⟨by decide, fun e he => ?_, fun e he r hr => ?_⟩
    · rw [List.mem_singleton.mp he]
      exact ⟨⟨[.read, .write], by simp⟩, rfl⟩
    · rw [List.mem_singleton.mp he] at hr
      rw [List.mem_singleton.mp hr]
      exact .binary .eq hstring htrue
  have hservice : ∀ s, FreeText Inline s → (Builder.Action.service s).Tidy :=
    fun s hs => ⟨by simpa [Builder.Action.service?] using hs, by simp [Builder.Action.added]⟩
  have hadded : ∀ cs, (∀ c ∈ cs, c.Tidy) → (Builder.Action.collections cs).Tidy :=
    fun cs hcs => ⟨by simp [Builder.Action.service?], hcs⟩
  have hone : ∀ c : CollectionRules, c.Tidy → (Builder.Action.collection c).Tidy :=
    fun c hc => ⟨by simp [Builder.Action.service?], by simpa [Builder.Action.added] using hc⟩
  have h : ∀ a ∈ actions, a.Tidy := by
    simpa [actions] using ⟨hone bare hbare, hservice "s" (by decide), hone rows hrows⟩
  have h' : ∀ a ∈ actions', a.Tidy := by
    simpa [actions'] using ⟨hservice "t" (by decide), hadded _ (by simp [hbare, hrows]),
      hservice "s" (by decide), hadded [] (by simp)⟩
  exact ⟨h, h', (render_eq_render_iff h h').mpr ⟨rfl, rfl⟩⟩

end Document

end AccessRules
