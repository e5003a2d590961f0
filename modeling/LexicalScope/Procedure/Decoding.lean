import LexicalScope.Json.Reader
import LexicalScope.Json.Record
import LexicalScope.Procedure.Tag

/-!
# Procedures read from interchange text

The shapes that stand for the parts of a procedure, and the procedures of a text: a list of them or
a single one. The nesting of the value bounds the recursion.
-/

namespace LexicalScope

open Json

/-- A span from its two ends. -/
def Span.ofJson? (json : Json) : Option Span := do
  let fields ← record? ["start", "end"] json
  return ⟨← fields.required "start" (word? Limit.offset), ← fields.required "end" (word? Limit.offset)⟩

/-- A name from a bare string or from an object. -/
def Ident.ofJson? : Json → Option Ident
  | .string name => some ⟨name, none⟩
  | .object members => do
    let fields ← Members.record? members ["name", "span"]
    return ⟨← fields.required "name" text?, ← fields.optional "span" Span.ofJson?⟩
  | _ => none

/-- The span, the form and the parts of a statement or expression, which has to be an object. -/
def spanned? {κ : Type} (all : List κ) (name : κ → String) (fields : κ → List String)
    (json : Json) : Option (Option Span × κ × Members) := do
  let members ← members? json
  let outer ← Members.record? members ["span", "kind"]
  let span ← outer.optional "span" Span.ofJson?
  let kind ← outer.required "kind" (kind? all name)
  return (span, kind, ← Members.record? members (fields kind))

/-- An expression of a form from its parts. -/
def ExpressionForm.ofParts? (expression : Json → Option Expression)
    (pattern : Json → Option Pattern) (parts : Members) : ExpressionTag → Option ExpressionForm
  | .name => return .name (← parts.required "name" text?)
  | .literal => return .literal (← parts.required "value" text?)
  | .unary => return .unary (← parts.required "op" text?) (← parts.required "operand" expression)
  | .binary =>
    return .binary (← parts.required "op" text?) (← parts.required "left" expression)
      (← parts.required "right" expression)
  | .choice =>
    return .choice (← parts.required "condition" expression)
      (← parts.required "whenTrue" expression) (← parts.required "whenFalse" expression)
  | .paren => return .paren (← parts.required "inner" expression)
  | .call =>
    return .call (← parts.required "callee" expression)
      (← parts.listOrEmpty "arguments" expression)
  | .member =>
    return .member (← parts.required "target" expression) (← parts.required "member" text?)
  | .assign =>
    return .assign (← parts.required "target" expression) (← parts.required "value" expression)
  | .test =>
    return .test (← parts.required "operand" expression) (← parts.required "pattern" pattern)
  | .outVariable =>
    return .outVariable (← parts.optional "ty" text?) (← parts.required "name" Ident.ofJson?)
  | .out => return .out (← parts.required "name" text?)

/-- A pattern of a form from its parts. -/
def Pattern.ofParts? (expression : Json → Option Expression) (pattern : Json → Option Pattern)
    (parts : Members) : PatternTag → Option Pattern
  | .type => return .type (← parts.required "ty" text?)
  | .declaration =>
    return .declaration (← parts.required "ty" text?) (← parts.required "name" Ident.ofJson?)
  | .anyValue => return .anyValue (← parts.required "name" Ident.ofJson?)
  | .constant => return .constant (← parts.required "value" expression)
  | .discard => return .discard
  | .recursive =>
    return .recursive (← parts.optional "ty" text?) (← parts.listOrEmpty "subpatterns" pattern)
      (← parts.optional "name" Ident.ofJson?)
  | .negated => return .negated (← parts.required "pattern" pattern)

mutual

/-- An expression from a value that nests fewer than `depth` arrays and objects. -/
def Expression.ofJson? : Nat → Json → Option Expression
  | 0, _ => none
  | depth + 1, json => do
    let (span, tag, parts) ←
      spanned? ExpressionTag.all ExpressionTag.text ExpressionTag.fields json
    return .mk span
      (← ExpressionForm.ofParts? (Expression.ofJson? depth) (Pattern.ofJson? depth) parts tag)

/-- A pattern from a value that nests fewer than `depth` arrays and objects. -/
def Pattern.ofJson? : Nat → Json → Option Pattern
  | 0, _ => none
  | depth + 1, json => do
    let (tag, parts) ← tagged? PatternTag.all PatternTag.name PatternTag.fields json
    Pattern.ofParts? (Expression.ofJson? depth) (Pattern.ofJson? depth) parts tag

end

/-- A declarator from its name and initial value. -/
def Declarator.ofJson? (depth : Nat) (json : Json) : Option Declarator := do
  let fields ← record? ["name", "initializer"] json
  return ⟨← fields.required "name" Ident.ofJson?,
    ← fields.optional "initializer" (Expression.ofJson? depth)⟩

/-- A label from its kind and parts. -/
def Label.ofJson? (depth : Nat) (json : Json) : Option Label := do
  let (tag, parts) ← tagged? LabelTag.all LabelTag.name LabelTag.fields json
  match tag with
  | .matching =>
    return .matching (← parts.required "pattern" (Pattern.ofJson? depth))
      (← parts.optional "when" (Expression.ofJson? depth))
  | .otherwise => return .otherwise

/-- A section from its labels and statements. -/
def Section.ofParts? (depth : Nat) (statement : Json → Option Statement) (json : Json) :
    Option Section := do
  let fields ← record? ["span", "labels", "statements"] json
  return .mk (← fields.optional "span" Span.ofJson?)
    (← fields.required "labels" (list? (Label.ofJson? depth)))
    (← fields.listOrEmpty "statements" statement)

/-- A statement of a form from its parts. -/
def StatementForm.ofParts? (depth : Nat) (statement : Json → Option Statement)
    (parts : Members) : StatementTag → Option StatementForm
  | .block => return .block (← parts.listOrEmpty "statements" statement)
  | .branch =>
    return .branch (← parts.required "condition" (Expression.ofJson? depth))
      (← parts.required "then" statement) (← parts.optional "else" statement)
  | .whileLoop =>
    return .whileLoop (← parts.required "condition" (Expression.ofJson? depth))
      (← parts.required "body" statement)
  | .doLoop =>
    return .doLoop (← parts.required "body" statement)
      (← parts.required "condition" (Expression.ofJson? depth))
  | .forLoop =>
    return .forLoop (← parts.listOrEmpty "declarators" (Declarator.ofJson? depth))
      (← parts.listOrEmpty "initializers" (Expression.ofJson? depth))
      (← parts.optional "condition" (Expression.ofJson? depth))
      (← parts.listOrEmpty "incrementors" (Expression.ofJson? depth))
      (← parts.required "body" statement)
  | .forEachLoop =>
    return .forEachLoop (← parts.required "variable" Ident.ofJson?)
      (← parts.required "collection" (Expression.ofJson? depth))
      (← parts.required "body" statement)
  | .resource =>
    return .resource (← parts.listOrEmpty "declarators" (Declarator.ofJson? depth))
      (← parts.optional "resource" (Expression.ofJson? depth))
      (← parts.required "body" statement)
  | .switch =>
    return .switch (← parts.required "subject" (Expression.ofJson? depth))
      (← parts.listOrEmpty "sections" (Section.ofParts? depth statement))
  | .localDeclaration =>
    return .localDeclaration
      (← parts.required "declarators" (list? (Declarator.ofJson? depth)))
  | .evaluation =>
    return .evaluation (← parts.required "expression" (Expression.ofJson? depth))
  | .returning => return .returning (← parts.optional "value" (Expression.ofJson? depth))
  | .throwing => return .throwing (← parts.optional "value" (Expression.ofJson? depth))
  | .breaking => return .breaking
  | .continuing => return .continuing
  | .labeled =>
    return .labeled (← parts.required "label" text?) (← parts.required "body" statement)
  | .empty => return .empty

/-- A statement from a value that nests fewer than `depth` arrays and objects. -/
def Statement.ofJson? : Nat → Json → Option Statement
  | 0, _ => none
  | depth + 1, json => do
    let (span, tag, parts) ← spanned? StatementTag.all StatementTag.name StatementTag.fields json
    return .mk span (← StatementForm.ofParts? depth (Statement.ofJson? depth) parts tag)

/-- A procedure from its name, parameters and body. -/
def Procedure.ofJson? (json : Json) : Option Procedure := do
  let fields ← record? ["name", "parameters", "body"] json
  return ⟨← fields.required "name" text?, ← fields.listOrEmpty "parameters" Ident.ofJson?,
    ← fields.required "body" (Statement.ofJson? json.nesting)⟩

/-- The procedures of a value: a list of procedures where that fits, else a single one. -/
def Procedure.listOfJson? (json : Json) : Option (List Procedure) :=
  match list? Procedure.ofJson? json with
  | some procedures => some procedures
  | none => (Procedure.ofJson? json).map ([·])

/-- The procedures of a text. A wrong shape is reported before anything behind the value. -/
def Procedure.parseAll (text : String) : Except JsonFault (List Procedure) := do
  let (json, rest) ← readFront nestingLimit text
  match Procedure.listOfJson? json with
  | none => throw .mismatched
  | some procedures =>
    checkEnd rest
    return procedures

end LexicalScope
