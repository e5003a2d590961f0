import LexicalScope.Procedure.Decoding
import LexicalScope.StatementTree.Document

/-!
# Nodes read from JSON

The parts of a node may be left out: a reference is then to nothing, a list is empty and a span is
the placeholder.
-/

namespace LexicalScope

open Json

/-- A reference by its number. -/
def index? : Json → Option (Option Nat)
  | .null => some none
  | .natural index => some (if index = absentNumber then none else some index)
  | _ => none

/-- A reference to a statement. -/
def StatementRef.ofJson? (json : Json) : Option StatementRef :=
  (index? json).map fun number => number.map StatementId.mk

/-- A reference to an expression. -/
def ExpressionRef.ofJson? (json : Json) : Option ExpressionRef :=
  (index? json).map fun number => number.map ExpressionId.mk

namespace Json.Members

/-- A part, `null` if it is left out. -/
def part {α : Type} (members : Members) (name : String) (read : Json → Option α) : Option α :=
  read ((members.find name).getD .null)

/-- A reference to a statement. -/
def statement (members : Members) (name : String) : Option StatementRef :=
  members.part name StatementRef.ofJson?

/-- A reference to an expression. -/
def expression (members : Members) (name : String) : Option ExpressionRef :=
  members.part name ExpressionRef.ofJson?

/-- Several references to statements. -/
def statements (members : Members) (name : String) : Option (List StatementRef) :=
  members.listOrEmpty name StatementRef.ofJson?

/-- Several references to expressions. -/
def expressions (members : Members) (name : String) : Option (List ExpressionRef) :=
  members.listOrEmpty name ExpressionRef.ofJson?

end Json.Members

/-- A span by its two ends, the placeholder for `null`. -/
def Span.ofPart? : Json → Option Span
  | .null => some Span.dummy
  | json => Span.ofJson? json

/-- A binding. -/
def Binding.ofJson? (json : Json) : Option Binding := do
  let members ← members? json
  return ⟨← members.required "name" text?, ← members.part "span" Span.ofPart?⟩

/-- A declarator. -/
def DeclaratorNode.ofJson? (json : Json) : Option DeclaratorNode := do
  let members ← members? json
  return ⟨← members.required "binding" Binding.ofJson?, ← members.expression "initializer"⟩

/-- The name of a form and its parts. -/
def variant? : Json → Option (String × Members)
  | .string name => some (name, [])
  | .object [(name, .object parts)] => some (name, parts)
  | _ => none

/-- A pattern of a form from its parts. -/
def PatternNode.ofParts? (pattern : Json → Option PatternNode) (parts : Members) :
    String → Option PatternNode
  | "Type" => return .type (← parts.required "ty" text?)
  | "Declaration" =>
    return .declaration (← parts.required "ty" text?) (← parts.required "binding" Binding.ofJson?)
  | "Var" => return .anyValue (← parts.required "binding" Binding.ofJson?)
  | "Constant" => return .constant (← parts.expression "value")
  | "Discard" => return .discard
  | "Recursive" =>
    return .recursive (← parts.optional "ty" text?) (← parts.listOrEmpty "subpatterns" pattern)
      (← parts.optional "binding" Binding.ofJson?)
  | "Not" => return .negated (← parts.required "pattern" pattern)
  | _ => none

/-- A pattern from a value that nests fewer than `depth` arrays and objects. -/
def PatternNode.ofNested? : Nat → Json → Option PatternNode
  | 0, _ => none
  | depth + 1, json => do
    let (name, parts) ← variant? json
    PatternNode.ofParts? (PatternNode.ofNested? depth) parts name

/-- A pattern. -/
def PatternNode.ofJson? (json : Json) : Option PatternNode :=
  PatternNode.ofNested? (json.nesting + 1) json

/-- A label. -/
def LabelNode.ofJson? (json : Json) : Option LabelNode := do
  let members ← members? json
  return ⟨← members.optional "pattern" PatternNode.ofJson?, ← members.expression "guard",
    ← members.part "span" Span.ofPart?⟩

/-- The content of a statement of a form from its parts. -/
def StatementContent.ofParts? (parts : Members) : StatementKind → Option StatementContent
  | .block => return .block (← parts.statements "statements")
  | .branch =>
    return .branch (← parts.expression "condition") (← parts.statement "then_statement")
      (← parts.statement "else_statement")
  | .whileLoop => return .whileLoop (← parts.expression "condition") (← parts.statement "body")
  | .doLoop => return .doLoop (← parts.statement "body") (← parts.expression "condition")
  | .forLoop =>
    return .forLoop (← parts.listOrEmpty "declarators" DeclaratorNode.ofJson?)
      (← parts.expressions "initializers") (← parts.expression "condition")
      (← parts.expressions "incrementors") (← parts.statement "body")
  | .forEachLoop =>
    return .forEachLoop (← parts.required "variable" Binding.ofJson?)
      (← parts.expression "collection") (← parts.statement "body")
  | .resource =>
    return .resource (← parts.listOrEmpty "declarators" DeclaratorNode.ofJson?)
      (← parts.expression "resource") (← parts.statement "body")
  | .switch => return .switch (← parts.expression "subject") (← parts.statements "sections")
  | .switchSection =>
    return .switchSection (← parts.listOrEmpty "labels" LabelNode.ofJson?)
      (← parts.statements "statements")
  | .localDeclaration =>
    return .localDeclaration (← parts.listOrEmpty "declarators" DeclaratorNode.ofJson?)
  | .evaluation => return .evaluation (← parts.expression "expression")
  | .returning => return .returning (← parts.expression "value")
  | .throwing => return .throwing (← parts.expression "value")
  | .breaking => return .breaking
  | .continuing => return .continuing
  | .labeled => return .labeled (← parts.required "label" text?) (← parts.statement "body")
  | .empty => return .empty

/-- The content of a statement. -/
def StatementContent.ofJson? (json : Json) : Option StatementContent := do
  let (name, parts) ← variant? json
  StatementContent.ofParts? parts (← StatementKind.ofName? name)

/-- The content of an expression of a form from its parts. -/
def ExpressionContent.ofParts? (parts : Members) : String → Option ExpressionContent
  | "Name" => return .name (← parts.required "name" text?)
  | "Literal" => return .literal (← parts.required "value" text?)
  | "Unary" => return .unary (← parts.required "op" text?) (← parts.expression "operand")
  | "Binary" =>
    return .binary (← parts.required "op" text?) (← parts.expression "left")
      (← parts.expression "right")
  | "Conditional" =>
    return .choice (← parts.expression "condition") (← parts.expression "when_true")
      (← parts.expression "when_false")
  | "Paren" => return .paren (← parts.expression "inner")
  | "Call" => return .call (← parts.expression "callee") (← parts.expressions "arguments")
  | "Member" => return .member (← parts.expression "target") (← parts.required "member" text?)
  | "Assign" => return .assign (← parts.expression "target") (← parts.expression "value")
  | "Is" =>
    return .test (← parts.expression "operand") (← parts.required "pattern" PatternNode.ofJson?)
  | "OutVar" =>
    return .outVariable (← parts.optional "ty" text?) (← parts.required "binding" Binding.ofJson?)
  | "Out" => return .out (← parts.required "name" text?)
  | _ => none

/-- The content of an expression. -/
def ExpressionContent.ofJson? (json : Json) : Option ExpressionContent := do
  let (form, parts) ← variant? json
  ExpressionContent.ofParts? parts form

/-- A position. -/
def Position.ofJson? : Json → Option Position
  | .string "Root" => some .root
  | .string "Member" => some .member
  | .object [("NestedBody", .string name)] =>
    (BodySlot.all.find? fun slot => slot.name == name).map .nested
  | _ => none

end LexicalScope
