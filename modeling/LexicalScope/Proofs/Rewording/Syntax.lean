import LexicalScope.Procedure.Syntax
import LexicalScope.Proofs.Rewording.Nodes

/-!
# Other texts for a procedure

Rewording a procedure exchanges its texts and keeps its form and its spans. Two procedures of which
both lose all texts but the names, and then are the same, differ in nothing but such texts.
-/

namespace LexicalScope

variable (w : Rewording)

/-- An identifier with another name. -/
def Ident.reworded (ident : Ident) : Ident := { ident with name := w.name ident.name }

mutual

/-- An expression with other texts. -/
def Expression.reworded : Expression → Expression
  | .mk span form => .mk span form.reworded

/-- The form of an expression with other texts. -/
def ExpressionForm.reworded : ExpressionForm → ExpressionForm
  | .name referred => .name (w.name referred)
  | .literal value => .literal (w.literal value)
  | .unary operator operand => .unary (w.operator operator) operand.reworded
  | .binary operator left right => .binary (w.operator operator) left.reworded right.reworded
  | .choice condition whenTrue whenFalse =>
    .choice condition.reworded whenTrue.reworded whenFalse.reworded
  | .paren inner => .paren inner.reworded
  | .call callee arguments => .call callee.reworded (Expression.rewordedAll arguments)
  | .member target selected => .member target.reworded (w.member selected)
  | .assign target value => .assign target.reworded value.reworded
  | .test operand pattern => .test operand.reworded pattern.reworded
  | .outVariable named bound => .outVariable (named.map w.type) (bound.reworded w)
  | .out referred => .out (w.name referred)

/-- Several expressions with other texts. -/
def Expression.rewordedAll : List Expression → List Expression
  | [] => []
  | first :: rest => first.reworded :: Expression.rewordedAll rest

/-- A pattern with other types and names. -/
def Pattern.reworded : Pattern → Pattern
  | .type named => .type (w.type named)
  | .declaration named bound => .declaration (w.type named) (bound.reworded w)
  | .anyValue bound => .anyValue (bound.reworded w)
  | .constant value => .constant value.reworded
  | .discard => .discard
  | .recursive named subpatterns bound =>
    .recursive (named.map w.type) (Pattern.rewordedAll subpatterns) (bound.map (·.reworded w))
  | .negated pattern => .negated pattern.reworded

/-- Several patterns with other types and names. -/
def Pattern.rewordedAll : List Pattern → List Pattern
  | [] => []
  | first :: rest => first.reworded :: Pattern.rewordedAll rest

end

/-- A declarator with another name and initial value. -/
def Declarator.reworded (declarator : Declarator) : Declarator :=
  ⟨declarator.name.reworded w, declarator.initializer.map (·.reworded w)⟩

/-- A label with another pattern and guard. -/
def Label.reworded : Label → Label
  | .matching pattern guard => .matching (pattern.reworded w) (guard.map (·.reworded w))
  | .otherwise => .otherwise

mutual

/-- A statement with other texts. -/
def Statement.reworded : Statement → Statement
  | .mk span form => .mk span form.reworded

/-- The form of a statement with other texts. -/
def StatementForm.reworded : StatementForm → StatementForm
  | .block members => .block (Statement.rewordedAll members)
  | .branch condition thenBody none => .branch (condition.reworded w) thenBody.reworded none
  | .branch condition thenBody (some elseBody) =>
    .branch (condition.reworded w) thenBody.reworded (some elseBody.reworded)
  | .whileLoop condition body => .whileLoop (condition.reworded w) body.reworded
  | .doLoop body condition => .doLoop body.reworded (condition.reworded w)
  | .forLoop declarators initializers condition incrementors body =>
    .forLoop (declarators.map (·.reworded w)) (initializers.map (·.reworded w))
      (condition.map (·.reworded w)) (incrementors.map (·.reworded w)) body.reworded
  | .forEachLoop element collection body =>
    .forEachLoop (element.reworded w) (collection.reworded w) body.reworded
  | .resource declarators held body =>
    .resource (declarators.map (·.reworded w)) (held.map (·.reworded w)) body.reworded
  | .switch subject sections => .switch (subject.reworded w) (Section.rewordedAll sections)
  | .localDeclaration declarators => .localDeclaration (declarators.map (·.reworded w))
  | .evaluation value => .evaluation (value.reworded w)
  | .returning value => .returning (value.map (·.reworded w))
  | .throwing value => .throwing (value.map (·.reworded w))
  | .breaking => .breaking
  | .continuing => .continuing
  | .labeled label body => .labeled (w.label label) body.reworded
  | .empty => .empty

/-- Several statements with other texts. -/
def Statement.rewordedAll : List Statement → List Statement
  | [] => []
  | first :: rest => first.reworded :: Statement.rewordedAll rest

/-- A section with other texts. -/
def Section.reworded : Section → Section
  | .mk span labels members =>
    .mk span (labels.map (·.reworded w)) (Statement.rewordedAll members)

/-- Several sections with other texts. -/
def Section.rewordedAll : List Section → List Section
  | [] => []
  | first :: rest => first.reworded :: Section.rewordedAll rest

end

/-- A procedure with other texts; its own name stays. -/
def Procedure.reworded (procedure : Procedure) : Procedure :=
  ⟨procedure.name, procedure.parameters.map (·.reworded w), procedure.body.reworded w⟩

end LexicalScope
