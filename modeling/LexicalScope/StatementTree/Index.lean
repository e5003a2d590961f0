/-!
# Indexes of statements and expressions

Nodes refer to each other by index, and a reference can be absent.
-/

namespace LexicalScope

/-- The place of a statement in its tree. -/
structure StatementId where
  /-- The number of statements before it. -/
  index : Nat
deriving DecidableEq, Repr, Inhabited

/-- The place of an expression in its tree. -/
structure ExpressionId where
  /-- The number of expressions before it. -/
  index : Nat
deriving DecidableEq, Repr, Inhabited

/-- A reference to a statement, or none. -/
abbrev StatementRef := Option StatementId

/-- A reference to an expression, or none. -/
abbrev ExpressionRef := Option ExpressionId

/-- The text of a reference to a statement. -/
def StatementRef.text : StatementRef → String
  | some id => "#" ++ toString id.index
  | none => "#none"

/-- The text of a reference to an expression. -/
def ExpressionRef.text : ExpressionRef → String
  | some id => "e#" ++ toString id.index
  | none => "e#none"

end LexicalScope
