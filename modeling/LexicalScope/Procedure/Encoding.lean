import LexicalScope.Json.Basic
import LexicalScope.Procedure.Tag

/-!
# Procedures written for interchange

The JSON value of a procedure. A statement or expression is an object with its span, if it has one,
the name of its form under `kind`, and its parts. Parts that are absent are left out, and so are
lists that are empty where the reader supplies an empty list.
-/

namespace LexicalScope

namespace Json

/-- A member that is left out when there is no value. -/
def member? (name : String) : Option Json → List (String × Json)
  | none => []
  | some value => [(name, value)]

/-- A list member that is left out when it is empty. -/
def listMember (name : String) : List Json → List (String × Json)
  | [] => []
  | items => [(name, .array items)]

end Json

/-- A span as an object with its two ends. -/
def Span.toJson (span : Span) : Json :=
  .object [("start", .natural span.start), ("end", .natural span.stop)]

/-- The member that states a span, if there is one. -/
def Span.member (span : Option Span) : List (String × Json) :=
  Json.member? "span" (span.map Span.toJson)

/-- A name as an object, with its span if that is stated. -/
def Ident.toJson (ident : Ident) : Json :=
  .object (("name", .string ident.name) :: Span.member ident.span)

/-- The object of a statement or expression: its span, the name of its form, its parts. -/
def Json.formObject (span : Option Span) (kind : String) (parts : List (String × Json)) : Json :=
  .object (Span.member span ++ ("kind", .string kind) :: parts)

/-- The object of a pattern or label: the name of its form and its parts. -/
def Json.tagObject (kind : String) (parts : List (String × Json)) : Json :=
  .object (("kind", .string kind) :: parts)

mutual

/-- The value of an expression. -/
def Expression.toJson : Expression → Json
  | .mk span form => form.toJson span

/-- The value of an expression of a form, with the span it states. -/
def ExpressionForm.toJson (span : Option Span) : ExpressionForm → Json
  | .name name => .formObject span "name" [("name", .string name)]
  | .literal value => .formObject span "literal" [("value", .string value)]
  | .unary operator operand =>
    .formObject span "unary" [("op", .string operator), ("operand", operand.toJson)]
  | .binary operator left right =>
    .formObject span "binary"
      [("op", .string operator), ("left", left.toJson), ("right", right.toJson)]
  | .choice condition whenTrue whenFalse =>
    .formObject span "conditional"
      [("condition", condition.toJson), ("whenTrue", whenTrue.toJson),
        ("whenFalse", whenFalse.toJson)]
  | .paren inner => .formObject span "paren" [("inner", inner.toJson)]
  | .call callee arguments =>
    .formObject span "call"
      [("callee", callee.toJson), ("arguments", .array (Expression.listToJson arguments))]
  | .member target member =>
    .formObject span "member" [("target", target.toJson), ("member", .string member)]
  | .assign target value =>
    .formObject span "assign" [("target", target.toJson), ("value", value.toJson)]
  | .test operand pattern =>
    .formObject span "is" [("operand", operand.toJson), ("pattern", pattern.toJson)]
  | .outVariable type name =>
    .formObject span "outVar"
      (Json.member? "ty" (type.map .string) ++ [("name", name.toJson)])
  | .out name => .formObject span "out" [("name", .string name)]

/-- The values of several expressions. -/
def Expression.listToJson : List Expression → List Json
  | [] => []
  | expression :: rest => expression.toJson :: Expression.listToJson rest

/-- The value of a pattern. -/
def Pattern.toJson : Pattern → Json
  | .type type => .tagObject "type" [("ty", .string type)]
  | .declaration type name =>
    .tagObject "declaration" [("ty", .string type), ("name", name.toJson)]
  | .anyValue name => .tagObject "var" [("name", name.toJson)]
  | .constant value => .tagObject "constant" [("value", value.toJson)]
  | .discard => .tagObject "discard" []
  | .recursive type subpatterns name =>
    .tagObject "recursive"
      (Json.member? "ty" (type.map .string) ++
        ("subpatterns", .array (Pattern.listToJson subpatterns)) ::
          Json.member? "name" (name.map Ident.toJson))
  | .negated pattern => .tagObject "not" [("pattern", pattern.toJson)]

/-- The values of several patterns. -/
def Pattern.listToJson : List Pattern → List Json
  | [] => []
  | pattern :: rest => pattern.toJson :: Pattern.listToJson rest

end

/-- The value of a declarator. -/
def Declarator.toJson (declarator : Declarator) : Json :=
  .object (("name", declarator.name.toJson) ::
    Json.member? "initializer" (declarator.initializer.map Expression.toJson))

/-- The value of a label. -/
def Label.toJson : Label → Json
  | .matching pattern guard =>
    .tagObject "case"
      (("pattern", pattern.toJson) :: Json.member? "when" (guard.map Expression.toJson))
  | .otherwise => .tagObject "default" []

mutual

/-- The value of a statement. -/
def Statement.toJson : Statement → Json
  | .mk span form => form.toJson span

/-- The value of a statement of a form, with the span it states. -/
def StatementForm.toJson (span : Option Span) : StatementForm → Json
  | .block statements =>
    .formObject span "block" [("statements", .array (Statement.listToJson statements))]
  | .branch condition thenBody none =>
    .formObject span "if" [("condition", condition.toJson), ("then", thenBody.toJson)]
  | .branch condition thenBody (some elseBody) =>
    .formObject span "if"
      [("condition", condition.toJson), ("then", thenBody.toJson), ("else", elseBody.toJson)]
  | .whileLoop condition body =>
    .formObject span "while" [("condition", condition.toJson), ("body", body.toJson)]
  | .doLoop body condition =>
    .formObject span "doWhile" [("body", body.toJson), ("condition", condition.toJson)]
  | .forLoop declarators initializers condition incrementors body =>
    .formObject span "for"
      (Json.listMember "declarators" (declarators.map Declarator.toJson) ++
        Json.listMember "initializers" (initializers.map Expression.toJson) ++
        Json.member? "condition" (condition.map Expression.toJson) ++
        Json.listMember "incrementors" (incrementors.map Expression.toJson) ++
        [("body", body.toJson)])
  | .forEachLoop element collection body =>
    .formObject span "forEach"
      [("variable", element.toJson), ("collection", collection.toJson), ("body", body.toJson)]
  | .resource declarators held body =>
    .formObject span "using"
      (Json.listMember "declarators" (declarators.map Declarator.toJson) ++
        Json.member? "resource" (held.map Expression.toJson) ++ [("body", body.toJson)])
  | .switch subject sections =>
    .formObject span "switch"
      [("subject", subject.toJson), ("sections", .array (Section.listToJson sections))]
  | .localDeclaration declarators =>
    .formObject span "local" [("declarators", .array (declarators.map Declarator.toJson))]
  | .evaluation expression =>
    .formObject span "expression" [("expression", expression.toJson)]
  | .returning value =>
    .formObject span "return" (Json.member? "value" (value.map Expression.toJson))
  | .throwing value =>
    .formObject span "throw" (Json.member? "value" (value.map Expression.toJson))
  | .breaking => .formObject span "break" []
  | .continuing => .formObject span "continue" []
  | .labeled label body =>
    .formObject span "labeled" [("label", .string label), ("body", body.toJson)]
  | .empty => .formObject span "empty" []

/-- The values of several statements. -/
def Statement.listToJson : List Statement → List Json
  | [] => []
  | statement :: rest => statement.toJson :: Statement.listToJson rest

/-- The value of a section. -/
def Section.toJson : Section → Json
  | .mk span labels statements =>
    .object (Span.member span ++
      [("labels", .array (labels.map Label.toJson)),
        ("statements", .array (Statement.listToJson statements))])

/-- The values of several sections. -/
def Section.listToJson : List Section → List Json
  | [] => []
  | first :: rest => first.toJson :: Section.listToJson rest

end

/-- The value of a procedure. -/
def Procedure.toJson (procedure : Procedure) : Json :=
  .object (("name", .string procedure.name) ::
    (Json.listMember "parameters" (procedure.parameters.map Ident.toJson) ++
      [("body", procedure.body.toJson)]))

end LexicalScope
