import LexicalScope.Diagnostic.Basic
import LexicalScope.Scope.Boundary
import LexicalScope.Scope.Finding
import LexicalScope.Scope.Introduction
import LexicalScope.Scope.Tree
import LexicalScope.StatementTree.Document

/-!
# Scope trees, findings and diagnostics as JSON
-/

namespace LexicalScope

/-- A reference to a region. -/
def RegionRef.toJson : RegionRef → Json
  | some id => .natural id.index
  | none => .natural absentNumber

/-- The number of a declaration. -/
def DeclarationId.toJson (id : DeclarationId) : Json := .natural id.index

/-- The kind of a declaration, as an object. -/
def DeclarationKind.toJson : DeclarationKind → Json
  | patternVariable => .object [("kind", .string "patternVariable")]
  | outputArgument => .object [("kind", .string "outputArgument")]
  | parameter => .object [("kind", .string "parameter")]
  | localVariable initialized =>
    .object [("kind", .string "local"), ("initialized", .bool initialized)]
  | iteration => .object [("kind", .string "iteration")]

/-- A declaration. -/
def Declaration.toJson (declaration : Declaration) : Json :=
  .object
    [("id", declaration.id.toJson),
      ("name", .string declaration.name),
      ("kind", declaration.kind.toJson),
      ("span", declaration.span.toJson),
      ("region", RegionRef.toJson declaration.region),
      ("statement", StatementRef.toJson declaration.statement),
      ("expression", ExpressionRef.toJson declaration.expression),
      ("sequence", .natural declaration.sequence),
      ("bleedDepth", .natural declaration.bleedDepth)]

/-- An introduction. -/
def Introduction.toJson (introduction : Introduction) : Json :=
  .object
    [("name", .string introduction.name),
      ("kind", introduction.kind.toJson),
      ("span", introduction.span.toJson),
      ("expression", ExpressionRef.toJson introduction.expression),
      ("statement", StatementRef.toJson introduction.statement)]

/-- A classification. -/
def Classification.toJson (classification : Classification) : Json :=
  .object
    [("class", .string classification.scopeClass.name),
      ("rule", .string classification.rule.name),
      ("position", classification.position.toJson)]

/-- The tag of an alternative. -/
def BranchTag.toJson (tag : BranchTag) : Json :=
  .object
    [("conditional", StatementRef.toJson tag.conditional),
      ("index", .natural tag.index),
      ("exits", .bool tag.exits),
      ("conditionalSpan", tag.conditionalSpan.toJson)]

/-- A region; a region that is no alternative has no tag. -/
def Region.toJson (region : Region) : Json :=
  .object
    ([("id", RegionRef.toJson (some region.id)),
      ("kind", .string region.kind.text),
      ("boundary", StatementRef.toJson region.boundary),
      ("span", region.span.toJson),
      ("parent", RegionRef.toJson region.parent),
      ("depth", .natural region.depth),
      ("children", .array (region.children.toList.map fun id => RegionRef.toJson (some id))),
      ("table", .object (region.table.toList.map fun entry => (entry.1, entry.2.toJson))),
      ("declarations", .array (region.declarations.toList.map DeclarationId.toJson))] ++
      Json.member? "branch" (region.branch.map BranchTag.toJson))

/-- A scope tree. -/
def ScopeTree.toJson (tree : ScopeTree) : Json :=
  .object
    [("procedure", .string tree.procedure),
      ("regions", .array (tree.regions.toList.map Region.toJson)),
      ("declarations", .array (tree.declarations.toList.map Declaration.toJson))]

/-- A finding, as an object that says its kind. -/
def Finding.toJson : Finding → Json
  | conflict name first duplicate firstSpan span reason =>
    .object
      [("kind", .string "conflictingDeclaration"),
        ("name", .string name),
        ("first", first.toJson),
        ("duplicate", duplicate.toJson),
        ("first_span", firstSpan.toJson),
        ("span", span.toJson),
        ("reason", .string reason.name)]
  | unresolved name span expression =>
    .object
      [("kind", .string "unresolvedName"),
        ("name", .string name),
        ("span", span.toJson),
        ("expression", ExpressionRef.toJson expression)]
  | nestedBleed name declaration span depth =>
    .object
      [("kind", .string "nestedBleed"),
        ("name", .string name),
        ("declaration", declaration.toJson),
        ("span", span.toJson),
        ("depth", .natural depth)]

/-- A place that belongs to a diagnostic. -/
def RelatedPlace.toJson (related : RelatedPlace) : Json :=
  .object
    [("file", .string related.file),
      ("start", .natural related.start),
      ("length", .natural related.length),
      ("message_text", .string related.text),
      ("category", .string related.category.name),
      ("code", .natural related.code)]

/-- A diagnostic; the list of places that belong to it is left out when it is empty. -/
def Diagnostic.toJson (diagnostic : Diagnostic) : Json :=
  .object
    ([("file", .string diagnostic.file),
      ("start", .natural diagnostic.start),
      ("length", .natural diagnostic.length),
      ("message_text", .string diagnostic.text),
      ("category", .string diagnostic.category.name),
      ("code", .natural diagnostic.code)] ++
      Json.listMember "related_information" (diagnostic.related.map RelatedPlace.toJson))

end LexicalScope
