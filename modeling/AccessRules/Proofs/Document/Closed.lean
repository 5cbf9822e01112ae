import AccessRules.Proofs.Construction
import AccessRules.Proofs.Document.Lines

/-! Everything that is built from texts without quotes and brackets is lexically closed when it is
written, from values and paths to whole documents, whatever the strings inside of it hold
(`closed_of_built`). Indentation puts blanks behind line feeds only, which a scanner does not see. -/

namespace AccessRules

open Scanner

/-- The characters that a scanner outside of strings passes over. -/
def Inert (c : Char) : Prop := isInert c = true

instance : DecidablePred Inert := fun c => inferInstanceAs (Decidable (isInert c = true))

theorem closed_of_free (h : FreeText Inert s) : Closed s.toList :=
  Sealed.of_inert fun c hc => ⟨h c hc, rfl⟩

theorem Rule.Built.closed (h : Rule.Built Inert r) : Closed r.render.toList :=
  h.kept Kept.closed rfl rfl closed_of_free

theorem Rule.closed_renderAll (h : ∀ r ∈ rules, Rule.Built Inert r) :
    Closed (renderAll rules).toList :=
  kept_renderAll Kept.closed rfl fun r hr => (h r hr).closed

theorem CollectionRules.closed_allowance {rules : List Rule} (hk : FreeText Inert key)
    (hr : ∀ r ∈ rules, r.Built Inert) : Closed (allowance key rules).toList := by
  have K := Kept.closed
  have happ := K.append (K.lit "allow ") <| K.append (closed_of_free hk) <|
    K.append (K.lit ": if ") (Rule.closed_renderAll hr)
  simpa [allowance] using happ

/-- Closed texts on lines of their own with an empty line between two of them. -/
theorem closed_paragraphs (h : ∀ t ∈ texts, Closed t) :
    Closed ('\n' :: ("\n\n".toList.intercalate texts ++ ['\n'])) := by
  have K := Kept.closed
  have hline : Closed ['\n'] := rfl
  have hsep : Closed "\n\n".toList := rfl
  have happ := K.append hline (K.append (K.intercalate hsep h) hline)
  simpa using happ

theorem CollectionRules.Built.closed {c : CollectionRules} (h : c.Built Inert) :
    Closed c.render.toList := by
  have K := Kept.closed
  have hrows : ∀ t ∈ c.rules.entries.map fun e => "  ".toList ++ (allowance e.1 e.2).toList,
      Closed t := by
    intro t ht
    obtain ⟨e, he, rfl⟩ := List.mem_map.mp ht
    obtain ⟨hk, hr⟩ := h.rules e he
    exact K.append (K.lit "  ") (closed_allowance hk hr)
  have hid := K.enclosed (o := '\x7b') rfl (K.lit "resourceId")
  have hblock := K.enclosed (o := '\x7b') rfl (closed_paragraphs hrows)
  have happ := K.append (K.lit "match /") <| K.append (closed_of_free h.path) <|
    K.append (K.lit "/") <| K.append hid <| K.append (K.lit " ") hblock
  rw [toList_render]
  simpa using happ

theorem Document.Built.closed {d : Document} (h : d.Built Inert) : Closed d.render.toList := by
  have K := Kept.closed
  have hline : Closed ['\n'] := rfl
  have hblocks : ∀ t ∈ d.collections.map fun c => (Indentation.indent 2 c.render).toList,
      Closed t := by
    intro t ht
    obtain ⟨c, hc, rfl⟩ := List.mem_map.mp ht
    exact Indentation.closed_indent (h.collections c hc).closed
  have hversion := K.append (K.lit "rules_version = '2';") (K.append hline (K.lit "service "))
  have hdb := K.enclosed (o := '\x7b') rfl (K.lit "database")
  have hdocs := K.enclosed (o := '\x7b') rfl (K.append (closed_paragraphs hblocks) (K.lit "  "))
  have hservice := K.enclosed (o := '\x7b') rfl <| K.append hline <|
    K.append (K.lit "  match /databases/") <| K.append hdb <| K.append (K.lit "/documents ") <|
    K.append hdocs hline
  have happ := K.append hversion <| K.append (closed_of_free h.service) <|
    K.append (K.lit " ") hservice
  rw [toList_render]
  simpa [renderBlocks, Function.comp_def] using happ

/-- Whatever is written of what is built from inert texts, a scanner comes to its end outside of
strings and with no closer missing or due. -/
theorem closed_of_built :
    (∀ v : Value, v.Built Inert → Closed v.render.toList) ∧
    (∀ (t : HandleType) (h : Handle t), h.path.Built Inert → Closed h.path.text.toList) ∧
    (∀ r : Rule, r.Built Inert → Closed r.render.toList) ∧
    (∀ rules : List Rule, (∀ r ∈ rules, r.Built Inert) → Closed (Rule.renderAll rules).toList) ∧
    (∀ c : CollectionRules, c.Built Inert → Closed c.render.toList) ∧
    (∀ d : Document, d.Built Inert → Closed d.render.toList) ∧
    ∀ actions : List Document.Builder.Action, (∀ a ∈ actions, a.Built Inert) →
      Closed (Document.ofActions actions).render.toList := by
  refine ⟨fun v h => h.kept Kept.closed closed_of_free,
    fun t h hp => hp.kept Kept.closed closed_of_free, fun r h => h.closed,
    fun rules h => Rule.closed_renderAll h, fun c h => h.closed, fun d h => h.closed,
    fun actions h => ?_⟩
  exact (Document.built_ofActions (by decide) h).closed

/-- A string that opens and closes what the text around it does not, and ends in a backslash. -/
theorem closed_of_built_unmatched :
    let request : Handle (.request .path) := ({} : Context .path).request
    let notes : Collection .path := ⟨"notes"⟩
    let relation : Rule := .eq request.operand (.ofValue "\")]\x7b\\")
    let rules : RuleSet := .grant ⟨[.read], by simp⟩ [.anyOf [] [.not (.rule relation)] []]
    let actions : List Document.Builder.Action :=
      [.service "cloud.firestore", .collection (notes.secure [rules])]
    (∀ a ∈ actions, a.Built Inert) ∧ Closed (Document.ofActions actions).render.toList := by
  intro request notes relation rules actions
  have hstring : (Operand.ofValue "\")]\x7b\\").Built Inert := .value ⟨by simp, by simp⟩
  have hrelation : relation.Built Inert := .binary .eq (.handle .request) hstring
  have hslots : ∀ slot ∈ [[], [Rule.not (.rule relation)]], ∀ r ∈ slot, r.Built Inert := by
    simpa using .not (.rule hrelation)
  have hrules : rules.Built Inert :=
    RuleSet.built_empty.insert (by decide) (List.forall_mem_singleton.mpr (.or hslots))
  have hnotes : (notes.secure [rules]).Built Inert :=
    notes.built_secure (by decide) (List.forall_mem_singleton.mpr hrules)
  have hservice : FreeText Inert "cloud.firestore" := by decide
  have hactions : ∀ a ∈ actions, a.Built Inert := by
    intro a ha
    simp only [actions, List.mem_cons, List.not_mem_nil, or_false] at ha
    rcases ha with rfl | rfl
    · exact ⟨by simpa [Document.Builder.Action.service?] using hservice,
        by simp [Document.Builder.Action.added]⟩
    · exact ⟨by simp [Document.Builder.Action.service?], List.forall_mem_singleton.mpr hnotes⟩
  exact ⟨hactions, closed_of_built.2.2.2.2.2.2 actions hactions⟩

end AccessRules
