import AccessRules.Document.Destination
import AccessRules.Event
import AccessRules.Path.Reader
import AccessRules.Rule.Build
import AccessRules.Tree.Document
import AccessRules.Proofs.Document.Closed
import AccessRules.Proofs.Rule.Form
import AccessRules.Proofs.Rule.Truth
import AccessRules.Proofs.Document.Readback
import AccessRules.Proofs.Tree.Lossless
import AccessRules.Proofs.Tree.Value
import AccessRules.Proofs.Rule.Structure
import AccessRules.Proofs.Tree.Rule
import AccessRules.Proofs.Tree.Document
import AccessRules.Proofs.Path.Spelling
import AccessRules.Proofs.RuleSet.Changes
import AccessRules.Proofs.Rule.Arithmetic
import AccessRules.Proofs.RuleSet.Grant
import AccessRules.Proofs.Value.Readback
import AccessRules.Proofs.Path.Readback
import AccessRules.Proofs.Value.StringLiteral
import AccessRules.Proofs.Value.NumberLiteral
import AccessRules.Proofs.Document.Verbatim
import AccessRules.Proofs.Document.Equality
import AccessRules.Proofs.Handle.Chain
import AccessRules.Proofs.Operation.Failure
import AccessRules.Proofs.Path.Failure
import AccessRules.Proofs.Document.Layout
import AccessRules.Proofs.Handle.Bytes
import AccessRules.Proofs.Handle.Lookup
import AccessRules.Proofs.Rule.Explicit
