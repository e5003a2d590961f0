import LexicalScope.Procedure.Syntax

/-!
# Building procedures

Short ways to spell trees without spans.
-/

namespace LexicalScope

/-- A name without a span. -/
def Ident.plain (name : String) : Ident := ⟨name, none⟩

namespace Expression

/-- An expression without a span. -/
def plain (form : ExpressionForm) : Expression := .mk none form

/-- The same expression with a stated span. -/
def withSpan (span : Span) : Expression → Expression
  | .mk _ form => .mk (some span) form

/-- A reference. -/
def name (name : String) : Expression := plain (.name name)

/-- A literal. -/
def literal (value : String) : Expression := plain (.literal value)

/-- An operator before its operand. -/
def unary (operator : String) (operand : Expression) : Expression :=
  plain (.unary operator operand)

/-- The negation of a condition. -/
def not (operand : Expression) : Expression := unary "!" operand

/-- An operator between its operands. -/
def binary (operator : String) (left right : Expression) : Expression :=
  plain (.binary operator left right)

/-- A condition that holds when both conditions do. -/
def and (left right : Expression) : Expression := binary "&&" left right

/-- A condition that holds when one of two conditions does. -/
def or (left right : Expression) : Expression := binary "||" left right

/-- The value of one of two expressions, by a condition. -/
def choice (condition whenTrue whenFalse : Expression) : Expression :=
  plain (.choice condition whenTrue whenFalse)

/-- An expression in parentheses. -/
def paren (inner : Expression) : Expression := plain (.paren inner)

/-- A call. -/
def call (callee : Expression) (arguments : List Expression) : Expression :=
  plain (.call callee arguments)

/-- A member of a value. -/
def member (target : Expression) (member : String) : Expression :=
  plain (.member target member)

/-- An assignment. -/
def assign (target value : Expression) : Expression := plain (.assign target value)

/-- An output argument that declares a variable of inferred type. -/
def outVariable (name : String) : Expression := plain (.outVariable none (.plain name))

/-- An output argument that declares a variable of a stated type. -/
def outTyped (type name : String) : Expression := plain (.outVariable (some type) (.plain name))

/-- An output argument that refers to a variable. -/
def out (name : String) : Expression := plain (.out name)

/-- A test against a pattern. -/
def test (operand : Expression) (pattern : Pattern) : Expression := plain (.test operand pattern)

/-- A type test that declares a variable. -/
def testAs (operand : Expression) (type name : String) : Expression :=
  test operand (.declaration type (.plain name))

end Expression

/-- A declarator without spans. -/
def Declarator.plain (name : String) (initializer : Option Expression) : Declarator :=
  ⟨.plain name, initializer⟩

/-- A section without a span. -/
def Section.plain (labels : List Label) (statements : List Statement) : Section :=
  .mk none labels statements

namespace Statement

/-- A statement without a span. -/
def plain (form : StatementForm) : Statement := .mk none form

/-- The same statement with a stated span. -/
def withSpan (span : Span) : Statement → Statement
  | .mk _ form => .mk (some span) form

/-- A block. -/
def block (statements : List Statement) : Statement := plain (.block statements)

/-- A conditional without an alternative. -/
def ifThen (condition : Expression) (thenBody : Statement) : Statement :=
  plain (.branch condition thenBody none)

/-- A conditional with an alternative. -/
def ifElse (condition : Expression) (thenBody elseBody : Statement) : Statement :=
  plain (.branch condition thenBody (some elseBody))

/-- A loop that tests its condition before its body. -/
def whileLoop (condition : Expression) (body : Statement) : Statement :=
  plain (.whileLoop condition body)

/-- A loop that tests its condition behind its body. -/
def doLoop (body : Statement) (condition : Expression) : Statement :=
  plain (.doLoop body condition)

/-- A counting loop. -/
def forLoop (declarators : List Declarator) (condition : Option Expression)
    (incrementors : List Expression) (body : Statement) : Statement :=
  plain (.forLoop declarators [] condition incrementors body)

/-- A loop over the elements of a collection. -/
def forEachLoop (element : String) (collection : Expression) (body : Statement) : Statement :=
  plain (.forEachLoop (.plain element) collection body)

/-- A body that runs with the resource of an expression held. -/
def holding (held : Expression) (body : Statement) : Statement :=
  plain (.resource [] (some held) body)

/-- A body that runs with declared resources held. -/
def holdingDeclared (declarators : List Declarator) (body : Statement) : Statement :=
  plain (.resource declarators none body)

/-- A switch. -/
def switch (subject : Expression) (sections : List Section) : Statement :=
  plain (.switch subject sections)

/-- The declaration of one local variable. -/
def localVariable (name : String) (initializer : Option Expression) : Statement :=
  plain (.localDeclaration [.plain name initializer])

/-- An expression evaluated for its effect. -/
def evaluation (expression : Expression) : Statement := plain (.evaluation expression)

/-- A return. -/
def returning (value : Option Expression) : Statement := plain (.returning value)

/-- A throw. -/
def throwing (value : Option Expression) : Statement := plain (.throwing value)

/-- A break. -/
def breaking : Statement := plain .breaking

/-- A continue. -/
def continuing : Statement := plain .continuing

/-- A labeled statement. -/
def labeled (label : String) (body : Statement) : Statement := plain (.labeled label body)

/-- The statement that does nothing. -/
def empty : Statement := plain .empty

end Statement

/-- A procedure whose parameters have no spans. -/
def Procedure.plain (name : String) (parameters : List String) (body : Statement) : Procedure :=
  ⟨name, parameters.map .plain, body⟩

end LexicalScope
