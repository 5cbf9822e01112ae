import AccessRules.Document.Collection
import AccessRules.Indentation

/-!
# Documents

A document holds the blocks of its collections inside the block of a service. It is put together
by a `Builder`, whose steps may come in any order: the last service that is set counts, and the
collections keep the order in which they were added.
-/

namespace AccessRules

/-- A complete set of access rules. -/
structure Document where
  service : String
  collections : List CollectionRules

instance : BEq Document := ⟨fun a b => a.service == b.service && a.collections == b.collections⟩

/-- The service of a document that names none. -/
def Document.defaultService : String := "cloud.firestore"

/-- A document that is being put together. -/
structure Document.Builder where
  service : Option String := none
  collections : List CollectionRules := []

namespace Document.Builder

/-- What can be done to a document that is being put together. -/
inductive Action where
  | service (name : String)
  | collection (c : CollectionRules)
  | collections (cs : List CollectionRules)

/-- The builder after an action. -/
def apply (b : Builder) : Action → Builder
  | .service name => { b with service := some name }
  | .collection c => { b with collections := b.collections ++ [c] }
  | .collections cs => { b with collections := b.collections ++ cs }

/-- The finished document. -/
def build (b : Builder) : Document :=
  ⟨b.service.getD defaultService, b.collections⟩

end Document.Builder

namespace Document

/-- The document that actions build from nothing. -/
def ofActions (actions : List Builder.Action) : Document :=
  (actions.foldl Builder.apply {}).build

/-- The document of the default service with these collections. -/
def ofCollections (collections : List CollectionRules) : Document :=
  ⟨defaultService, collections⟩

/-- The blocks of collections inside a document. -/
def renderBlocks (collections : List CollectionRules) : String :=
  "\n\n".intercalate (collections.map fun c => Indentation.indent 2 c.render)

/-- The text of a document. -/
def render (d : Document) : String :=
  "rules_version = '2';\nservice " ++ d.service ++
    " \x7b\n  match /databases/\x7bdatabase\x7d/documents \x7b\n" ++
    renderBlocks d.collections ++ "\n  \x7d\n\x7d"

theorem toList_render (d : Document) : d.render.toList =
    "rules_version = '2';\nservice ".toList ++ (d.service.toList ++
      (" \x7b\n  match /databases/\x7bdatabase\x7d/documents \x7b\n".toList ++
        ((renderBlocks d.collections).toList ++ "\n  \x7d\n\x7d".toList))) := by
  -- the equation of the definition would be checked by comparing its long literals
  delta render
  simp only [String.toList_append, List.append_assoc]

end Document

end AccessRules
