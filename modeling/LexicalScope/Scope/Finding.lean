import LexicalScope.Diagnostic.Basic
import LexicalScope.Scope.Declaration

/-!
# Findings

What the analysis of a scope tree can find, and the diagnostic for each finding.
-/

namespace LexicalScope

/-- Why two declarations of a name conflict. -/
inductive ConflictReason where
  /-- One region owns both. -/
  | sameRegion
  /-- The region of one lies inside the region of the other. -/
  | enclosingRegion
  /-- Their regions lie apart, but one path can run through both. -/
  | sequentialRegions
deriving DecidableEq, Repr

/-- The name of a reason in a document. -/
def ConflictReason.name : ConflictReason → String
  | sameRegion => "sameRegion"
  | enclosingRegion => "enclosingRegion"
  | sequentialRegions => "sequentialRegions"

/-- The message for a reason. -/
def ConflictReason.message : ConflictReason → Message
  | sameRegion => .duplicateInRegion
  | enclosingRegion => .duplicateAround
  | sequentialRegions => .duplicateOnPath

/-- Something found in a scope tree. -/
inductive Finding where
  /-- A declaration whose name an earlier declaration has taken. -/
  | conflict (name : String) (first duplicate : DeclarationId) (firstSpan span : Span)
      (reason : ConflictReason)
  /-- A reference that finds no declaration. -/
  | unresolved (name : String) (span : Span) (expression : ExpressionRef)
  /-- A declaration that is visible far outside the body that introduces it. -/
  | nestedBleed (name : String) (declaration : DeclarationId) (span : Span) (depth : Nat)
deriving DecidableEq, Repr

namespace Finding

/-- The message for a finding. -/
def message : Finding → Message
  | conflict _ _ _ _ _ reason => reason.message
  | unresolved _ _ _ => .unresolved
  | nestedBleed _ _ _ _ => .nestedBleed

/-- The name that the finding is about. -/
def name : Finding → String
  | conflict name _ _ _ _ _ => name
  | unresolved name _ _ => name
  | nestedBleed name _ _ _ => name

/-- The place that the finding is about. -/
def span : Finding → Span
  | conflict _ _ _ _ span _ => span
  | unresolved _ span _ => span
  | nestedBleed _ _ span _ => span

/-- Whether the finding is an error. -/
def isError : Finding → Bool
  | nestedBleed _ _ _ _ => false
  | _ => true

/-- What fills the placeholders of the message. -/
def arguments : Finding → List String
  | nestedBleed name _ _ depth => [name, toString depth]
  | finding => [finding.name]

/-- The text of the finding. -/
def text (finding : Finding) : String :=
  Text.fill finding.message.template finding.arguments

/-- The diagnostic for a finding in a file. A conflict names the place of the first declaration. -/
def toDiagnostic (finding : Finding) (file : String) : Diagnostic :=
  let diagnostic :=
    Diagnostic.ofCode file finding.span.start finding.span.length finding.message.code
      finding.arguments
  match finding with
  | conflict name _ _ firstSpan _ _ =>
    diagnostic.addRelated file firstSpan.start firstSpan.length
      (Text.fill Message.alsoDeclared.template [name])
  | _ => diagnostic

end Finding

end LexicalScope
