import LexicalScope.Procedure.Encoding
import LexicalScope.StatementTree.Basic

/-!
# Statement trees as JSON

Each form of content is an object with one member, named for the form, that holds the parts; a form
without parts is the name alone. A reference to nothing is the largest number of thirty-two bits.
-/

namespace LexicalScope

/-- The number that stands for a reference to nothing. -/
def absentNumber : Nat := Limit.offset - 1

/-- A reference to a statement. -/
def StatementRef.toJson : StatementRef → Json
  | some id => .natural id.index
  | none => .natural absentNumber

/-- A reference to an expression. -/
def ExpressionRef.toJson : ExpressionRef → Json
  | some id => .natural id.index
  | none => .natural absentNumber

/-- Several references to statements. -/
def StatementRef.listToJson (refs : List StatementRef) : Json :=
  .array (refs.map StatementRef.toJson)

/-- Several references to expressions. -/
def ExpressionRef.listToJson (refs : List ExpressionRef) : Json :=
  .array (refs.map ExpressionRef.toJson)

/-- A form of content by its name and parts. -/
def Json.variant (name : String) (parts : List (String × Json)) : Json :=
  .object [(name, .object parts)]

/-- A value, or `null` for none. -/
def Json.orNull {α : Type} (encode : α → Json) : Option α → Json
  | some value => encode value
  | none => .null

/-- A position. -/
def Position.toJson : Position → Json
  | .root => .string "Root"
  | .member => .string "Member"
  | .nested slot => .object [("NestedBody", .string slot.name)]

/-- A binding. -/
def Binding.toJson (binding : Binding) : Json :=
  .object [("name", .string binding.name), ("span", binding.span.toJson)]

/-- A declarator. -/
def DeclaratorNode.toJson (declarator : DeclaratorNode) : Json :=
  .object
    [("binding", declarator.binding.toJson),
      ("initializer", ExpressionRef.toJson declarator.initializer)]

/-- Several declarators. -/
def DeclaratorNode.listToJson (declarators : List DeclaratorNode) : Json :=
  .array (declarators.map DeclaratorNode.toJson)

mutual

/-- A pattern. -/
def PatternNode.toJson : PatternNode → Json
  | .type typeName => .variant "Type" [("ty", .string typeName)]
  | .declaration typeName binding =>
    .variant "Declaration" [("ty", .string typeName), ("binding", binding.toJson)]
  | .anyValue binding => .variant "Var" [("binding", binding.toJson)]
  | .constant value => .variant "Constant" [("value", ExpressionRef.toJson value)]
  | .discard => .string "Discard"
  | .recursive typeName subpatterns binding =>
    .variant "Recursive"
      [("ty", .orNull .string typeName),
        ("subpatterns", .array (PatternNode.listToJson subpatterns)),
        ("binding", .orNull Binding.toJson binding)]
  | .negated pattern => .variant "Not" [("pattern", pattern.toJson)]

/-- Several patterns. -/
def PatternNode.listToJson : List PatternNode → List Json
  | [] => []
  | pattern :: rest => pattern.toJson :: PatternNode.listToJson rest

end

/-- A label. -/
def LabelNode.toJson (label : LabelNode) : Json :=
  .object
    [("pattern", .orNull PatternNode.toJson label.pattern),
      ("guard", ExpressionRef.toJson label.guard),
      ("span", label.span.toJson)]

/-- The content of a statement. -/
def StatementContent.toJson : StatementContent → Json
  | .block members => .variant "Block" [("statements", StatementRef.listToJson members)]
  | .branch condition thenBody elseBody =>
    .variant "If"
      [("condition", ExpressionRef.toJson condition),
        ("then_statement", StatementRef.toJson thenBody),
        ("else_statement", StatementRef.toJson elseBody)]
  | .whileLoop condition body =>
    .variant "While"
      [("condition", ExpressionRef.toJson condition), ("body", StatementRef.toJson body)]
  | .doLoop body condition =>
    .variant "DoWhile"
      [("body", StatementRef.toJson body), ("condition", ExpressionRef.toJson condition)]
  | .forLoop declarators initializers condition incrementors body =>
    .variant "For"
      [("declarators", DeclaratorNode.listToJson declarators),
        ("initializers", ExpressionRef.listToJson initializers),
        ("condition", ExpressionRef.toJson condition),
        ("incrementors", ExpressionRef.listToJson incrementors),
        ("body", StatementRef.toJson body)]
  | .forEachLoop element collection body =>
    .variant "ForEach"
      [("variable", element.toJson),
        ("collection", ExpressionRef.toJson collection),
        ("body", StatementRef.toJson body)]
  | .resource declarators held body =>
    .variant "Using"
      [("declarators", DeclaratorNode.listToJson declarators),
        ("resource", ExpressionRef.toJson held),
        ("body", StatementRef.toJson body)]
  | .switch subject sections =>
    .variant "Switch"
      [("subject", ExpressionRef.toJson subject), ("sections", StatementRef.listToJson sections)]
  | .switchSection labels members =>
    .variant "SwitchSection"
      [("labels", .array (labels.map LabelNode.toJson)),
        ("statements", StatementRef.listToJson members)]
  | .localDeclaration declarators =>
    .variant "LocalDeclaration" [("declarators", DeclaratorNode.listToJson declarators)]
  | .evaluation expression =>
    .variant "Expression" [("expression", ExpressionRef.toJson expression)]
  | .returning value => .variant "Return" [("value", ExpressionRef.toJson value)]
  | .throwing value => .variant "Throw" [("value", ExpressionRef.toJson value)]
  | .breaking => .string "Break"
  | .continuing => .string "Continue"
  | .labeled label body =>
    .variant "Labeled" [("label", .string label), ("body", StatementRef.toJson body)]
  | .empty => .string "Empty"

/-- The content of an expression. -/
def ExpressionContent.toJson : ExpressionContent → Json
  | .name referred => .variant "Name" [("name", .string referred)]
  | .literal value => .variant "Literal" [("value", .string value)]
  | .unary operator operand =>
    .variant "Unary" [("op", .string operator), ("operand", ExpressionRef.toJson operand)]
  | .binary operator left right =>
    .variant "Binary"
      [("op", .string operator),
        ("left", ExpressionRef.toJson left),
        ("right", ExpressionRef.toJson right)]
  | .choice condition whenTrue whenFalse =>
    .variant "Conditional"
      [("condition", ExpressionRef.toJson condition),
        ("when_true", ExpressionRef.toJson whenTrue),
        ("when_false", ExpressionRef.toJson whenFalse)]
  | .paren inner => .variant "Paren" [("inner", ExpressionRef.toJson inner)]
  | .call callee arguments =>
    .variant "Call"
      [("callee", ExpressionRef.toJson callee), ("arguments", ExpressionRef.listToJson arguments)]
  | .member target selected =>
    .variant "Member" [("target", ExpressionRef.toJson target), ("member", .string selected)]
  | .assign target value =>
    .variant "Assign" [("target", ExpressionRef.toJson target), ("value", ExpressionRef.toJson value)]
  | .test operand pattern =>
    .variant "Is" [("operand", ExpressionRef.toJson operand), ("pattern", pattern.toJson)]
  | .outVariable type binding =>
    .variant "OutVar" [("ty", .orNull .string type), ("binding", binding.toJson)]
  | .out referred => .variant "Out" [("name", .string referred)]

/-- A statement with its span and parent. -/
def StatementNode.toJson (node : StatementNode) : Json :=
  .object
    [("stmt", node.content.toJson),
      ("span", node.span.toJson),
      ("parent", StatementRef.toJson node.parent)]

/-- An expression with its span, owner and parent. -/
def ExpressionNode.toJson (node : ExpressionNode) : Json :=
  .object
    [("expr", node.content.toJson),
      ("span", node.span.toJson),
      ("statement", StatementRef.toJson node.statement),
      ("parent", ExpressionRef.toJson node.parent)]

/-- A statement tree. -/
def StatementTree.toJson (tree : StatementTree) : Json :=
  .object
    [("name", .string tree.name),
      ("root", StatementRef.toJson tree.root),
      ("parameters", .array (tree.parameters.map Binding.toJson)),
      ("statements", .array (tree.statements.toList.map StatementNode.toJson)),
      ("expressions", .array (tree.expressions.toList.map ExpressionNode.toJson))]

end LexicalScope
