import LexicalScope.Scope.Declaration
import LexicalScope.StatementTree.Basic

/-!
# Names introduced by expressions

Patterns and output arguments introduce names inside expressions. The names are listed in the order
in which the expression is evaluated, a discard not at all.
-/

namespace LexicalScope

/-- A name introduced inside an expression or pattern. -/
structure Introduction where
  /-- The introduced name. -/
  name : String
  /-- How the name is introduced. -/
  kind : DeclarationKind
  /-- The span of the name. -/
  span : Span
  /-- The expression that introduces the name, none in the pattern of a label. -/
  expression : ExpressionRef
  /-- The statement that introduces the name. -/
  statement : StatementRef
deriving DecidableEq, Repr

/-- The introduction of a binding, unless the binding is a discard. -/
def Binding.introduction (binding : Binding) (kind : DeclarationKind)
    (expression : ExpressionRef) (statement : StatementRef) : List Introduction :=
  if binding.isDiscard then []
  else [⟨binding.name, kind, binding.span, expression, statement⟩]

namespace StatementTree

mutual

/-- The names introduced by an expression, following fewer than `steps` parts within parts. -/
def introducedBelow (tree : StatementTree) (statement : StatementRef) :
    Nat → ExpressionRef → List Introduction
  | 0, _ => []
  | steps + 1, expression =>
    match (tree.expression? expression).map ExpressionNode.content with
    | none => []
    | some (.test operand pattern) =>
      tree.introducedBelow statement steps operand ++
        tree.introducedByPattern statement steps expression pattern
    | some (.outVariable _ binding) => binding.introduction .outputArgument expression statement
    | some content =>
      content.children.flatMap fun child => tree.introducedBelow statement steps (some child)

/-- The names introduced by a pattern that `owner` holds, following fewer than `steps` parts within
parts. -/
def introducedByPattern (tree : StatementTree) (statement : StatementRef) :
    Nat → ExpressionRef → PatternNode → List Introduction
  | 0, _, _ => []
  | steps + 1, owner, pattern =>
    match pattern with
    | .declaration _ binding => binding.introduction .patternVariable owner statement
    | .anyValue binding => binding.introduction .patternVariable owner statement
    | .recursive _ subpatterns binding =>
      subpatterns.flatMap (tree.introducedByPattern statement steps owner) ++
        (match binding with
          | some binding => binding.introduction .patternVariable owner statement
          | none => [])
    | .negated inner => tree.introducedByPattern statement steps owner inner
    | .constant value => tree.introducedBelow statement steps value
    | .type _ | .discard => []

end

/-- The names introduced by an expression for the statement that owns it. -/
def introduced (tree : StatementTree) (expression : ExpressionRef) : List Introduction :=
  match tree.expression? expression with
  | none => []
  | some node => tree.introducedBelow node.statement (Limit.expressionNesting + 1) expression

/-- The names introduced by the pattern of a label of a section. -/
def introducedByLabel (tree : StatementTree) (switchSection : StatementRef)
    (pattern : PatternNode) : List Introduction :=
  tree.introducedByPattern switchSection (Limit.expressionNesting + 1) none pattern

end StatementTree

end LexicalScope
