import LexicalScope.Proofs.Procedure.Placement
import LexicalScope.StatementTree.Basic

/-!
# Where syntax stands in a statement tree

A part of a procedure occupies an interval of indexes when the nodes at these indexes are its own,
each before its parts and the parts in source order. The spans of the nodes are those of the part.
-/

namespace LexicalScope

/-- A place in the numbering of statements and expressions. -/
structure Mark where
  /-- The number of statements before the place. -/
  statements : Nat
  /-- The number of expressions before the place. -/
  expressions : Nat
deriving DecidableEq

/-- The binding of a name at its span. -/
def Ident.binding (ident : Ident) : Binding := ⟨ident.name, ident.span.getD Span.dummy⟩

/-- The parts of a list occupy intervals one behind the other. -/
def OccupyAll {Part Node : Type} (occupies : Part → Node → Nat → Nat → Prop) :
    List Part → List Node → Nat → Nat → Prop
  | [], nodes, start, stop => nodes = [] ∧ start = stop
  | first :: rest, nodes, start, stop =>
    ∃ node others middle, nodes = node :: others ∧ occupies first node start middle ∧
      OccupyAll occupies rest others middle stop

/-- A part that may be absent occupies an interval, an empty one if it is absent. -/
def OccupyOptional {Part : Type} (occupies : Part → Nat → Nat → Prop) :
    Option Part → ExpressionRef → Nat → Nat → Prop
  | none, ref, start, stop => ref = none ∧ start = stop
  | some part, ref, start, stop => ref = some ⟨start⟩ ∧ occupies part start stop

section Expressions

variable (tree : StatementTree) (owner : StatementId)

mutual

/-- An expression below the header of `owner` occupies an interval of expressions. -/
def Expression.Occupies (depth : Nat) (parent : ExpressionRef) :
    Expression → Nat → Nat → Prop
  | .mk span form, start, stop =>
    depth < Limit.expressionNesting ∧ ∃ content,
      tree.expression? (some ⟨start⟩) =
        some ⟨content, span.getD Span.dummy, some owner, parent⟩ ∧
      form.Occupies (depth + 1) ⟨start⟩ content (start + 1) stop

/-- The parts of the expression at `id` occupy an interval, and `content` refers to them. -/
def ExpressionForm.Occupies (depth : Nat) (id : ExpressionId) :
    ExpressionForm → ExpressionContent → Nat → Nat → Prop
  | .name name, content, start, stop => content = .name name ∧ start = stop
  | .literal value, content, start, stop => content = .literal value ∧ start = stop
  | .unary operator operand, content, start, stop =>
    content = .unary operator (some ⟨start⟩) ∧ operand.Occupies depth (some id) start stop
  | .binary operator left right, content, start, stop =>
    ∃ middle, content = .binary operator (some ⟨start⟩) (some ⟨middle⟩) ∧
      left.Occupies depth (some id) start middle ∧ right.Occupies depth (some id) middle stop
  | .choice condition whenTrue whenFalse, content, start, stop =>
    ∃ second third, content = .choice (some ⟨start⟩) (some ⟨second⟩) (some ⟨third⟩) ∧
      condition.Occupies depth (some id) start second ∧
      whenTrue.Occupies depth (some id) second third ∧
      whenFalse.Occupies depth (some id) third stop
  | .paren inner, content, start, stop =>
    content = .paren (some ⟨start⟩) ∧ inner.Occupies depth (some id) start stop
  | .call callee arguments, content, start, stop =>
    ∃ middle refs, content = .call (some ⟨start⟩) refs ∧
      callee.Occupies depth (some id) start middle ∧
      Expression.AllOccupy depth (some id) arguments refs middle stop
  | .member target member, content, start, stop =>
    content = .member (some ⟨start⟩) member ∧ target.Occupies depth (some id) start stop
  | .assign target value, content, start, stop =>
    ∃ middle, content = .assign (some ⟨start⟩) (some ⟨middle⟩) ∧
      target.Occupies depth (some id) start middle ∧ value.Occupies depth (some id) middle stop
  | .test operand pattern, content, start, stop =>
    ∃ middle node, content = .test (some ⟨start⟩) node ∧
      operand.Occupies depth (some id) start middle ∧
      pattern.Occupies depth (some id) node middle stop
  | .outVariable type name, content, start, stop =>
    content = .outVariable type name.binding ∧ start = stop
  | .out name, content, start, stop => content = .out name ∧ start = stop

/-- Expressions occupy intervals one behind the other. -/
def Expression.AllOccupy (depth : Nat) (parent : ExpressionRef) :
    List Expression → List ExpressionRef → Nat → Nat → Prop
  | [], refs, start, stop => refs = [] ∧ start = stop
  | first :: rest, refs, start, stop =>
    ∃ others middle, refs = some ⟨start⟩ :: others ∧ first.Occupies depth parent start middle ∧
      Expression.AllOccupy depth parent rest others middle stop

/-- The constants of a pattern occupy an interval, and `node` refers to them. -/
def Pattern.Occupies (depth : Nat) (parent : ExpressionRef) :
    Pattern → PatternNode → Nat → Nat → Prop
  | .type type, node, start, stop =>
    depth < Limit.expressionNesting ∧ node = .type type ∧ start = stop
  | .declaration type name, node, start, stop =>
    depth < Limit.expressionNesting ∧ node = .declaration type name.binding ∧ start = stop
  | .anyValue name, node, start, stop =>
    depth < Limit.expressionNesting ∧ node = .anyValue name.binding ∧ start = stop
  | .constant value, node, start, stop =>
    depth < Limit.expressionNesting ∧ node = .constant (some ⟨start⟩) ∧
      value.Occupies (depth + 1) parent start stop
  | .discard, node, start, stop =>
    depth < Limit.expressionNesting ∧ node = .discard ∧ start = stop
  | .recursive type subpatterns name, node, start, stop =>
    depth < Limit.expressionNesting ∧ ∃ nodes,
      node = .recursive type nodes (name.map Ident.binding) ∧
      Pattern.AllOccupy (depth + 1) parent subpatterns nodes start stop
  | .negated pattern, node, start, stop =>
    depth < Limit.expressionNesting ∧ ∃ inner, node = .negated inner ∧
      pattern.Occupies (depth + 1) parent inner start stop

/-- The constants of patterns occupy intervals one behind the other. -/
def Pattern.AllOccupy (depth : Nat) (parent : ExpressionRef) :
    List Pattern → List PatternNode → Nat → Nat → Prop
  | [], nodes, start, stop => nodes = [] ∧ start = stop
  | first :: rest, nodes, start, stop =>
    ∃ node others middle, nodes = node :: others ∧
      first.Occupies depth parent node start middle ∧
      Pattern.AllOccupy depth parent rest others middle stop

end

/-- An expression in the header of `owner` occupies an interval. -/
def Expression.OccupiesHeader (value : Expression) (start stop : Nat) : Prop :=
  value.Occupies tree owner 0 none start stop

/-- A declarator: its initial value occupies an interval. -/
def Declarator.Occupies (declarator : Declarator) (node : DeclaratorNode) (start stop : Nat) :
    Prop :=
  node.binding = declarator.name.binding ∧
    OccupyOptional (Expression.OccupiesHeader tree owner) declarator.initializer node.initializer
      start stop

/-- A label: the constants of its pattern and its guard occupy an interval. -/
def Label.Occupies : Label → LabelNode → Nat → Nat → Prop
  | .matching pattern guard, node, start, stop =>
    ∃ inner middle, node.pattern = some inner ∧
      pattern.Occupies tree owner 0 none inner start middle ∧
      OccupyOptional (Expression.OccupiesHeader tree owner) guard node.guard middle stop
  | .otherwise, node, start, stop => node.pattern = none ∧ node.guard = none ∧ start = stop

/-- An expression in the header of `owner`, referred to by `ref`, occupies an interval. -/
def Expression.OccupiesAt (value : Expression) (ref : ExpressionRef) (start stop : Nat) : Prop :=
  ref = some ⟨start⟩ ∧ value.OccupiesHeader tree owner start stop

end Expressions

section Statements

variable (tree : StatementTree)

mutual

/-- A statement occupies the statements and expressions between two marks. -/
def Statement.Occupies (depth : Nat) (parent : StatementRef) : Statement → Mark → Mark → Prop
  | .mk span form, start, stop =>
    depth < Limit.statementNesting ∧ ∃ content,
      tree.statement? (some ⟨start.statements⟩) = some ⟨content, span.getD Span.dummy, parent⟩ ∧
      form.Occupies (depth + 1) ⟨start.statements⟩ content
        ⟨start.statements + 1, start.expressions⟩ stop

/-- The parts of the statement at `id` occupy what is between two marks, and `content` refers to
them. -/
def StatementForm.Occupies (depth : Nat) (id : StatementId) :
    StatementForm → StatementContent → Mark → Mark → Prop
  | .block statements, content, start, stop =>
    ∃ refs, content = .block refs ∧
      Statement.AllOccupy depth (some id) statements refs start stop
  | .branch condition thenBody none, content, start, stop =>
    ∃ middle, content = .branch (some ⟨start.expressions⟩) (some ⟨start.statements⟩) none ∧
      condition.OccupiesHeader tree id start.expressions middle ∧
      thenBody.Occupies depth (some id) ⟨start.statements, middle⟩ stop
  | .branch condition thenBody (some elseBody), content, start, stop =>
    ∃ middle between, content = .branch (some ⟨start.expressions⟩) (some ⟨start.statements⟩)
        (some ⟨between.statements⟩) ∧
      condition.OccupiesHeader tree id start.expressions middle ∧
      thenBody.Occupies depth (some id) ⟨start.statements, middle⟩ between ∧
      elseBody.Occupies depth (some id) between stop
  | .whileLoop condition body, content, start, stop =>
    ∃ middle, content = .whileLoop (some ⟨start.expressions⟩) (some ⟨start.statements⟩) ∧
      condition.OccupiesHeader tree id start.expressions middle ∧
      body.Occupies depth (some id) ⟨start.statements, middle⟩ stop
  | .doLoop body condition, content, start, stop =>
    ∃ middle, content = .doLoop (some ⟨start.statements⟩) (some ⟨middle⟩) ∧
      body.Occupies depth (some id) start ⟨stop.statements, middle⟩ ∧
      condition.OccupiesHeader tree id middle stop.expressions
  | .forLoop declarators initializers condition incrementors body, content, start, stop =>
    ∃ nodes inits test steps first second third fourth,
      content = .forLoop nodes inits test steps (some ⟨start.statements⟩) ∧
      OccupyAll (Declarator.Occupies tree id) declarators nodes start.expressions first ∧
      OccupyAll (Expression.OccupiesAt tree id) initializers inits first second ∧
      OccupyOptional (Expression.OccupiesHeader tree id) condition test second third ∧
      OccupyAll (Expression.OccupiesAt tree id) incrementors steps third fourth ∧
      body.Occupies depth (some id) ⟨start.statements, fourth⟩ stop
  | .forEachLoop element collection body, content, start, stop =>
    ∃ middle, content = .forEachLoop element.binding (some ⟨start.expressions⟩)
        (some ⟨start.statements⟩) ∧
      collection.OccupiesHeader tree id start.expressions middle ∧
      body.Occupies depth (some id) ⟨start.statements, middle⟩ stop
  | .resource declarators held body, content, start, stop =>
    ∃ nodes value first second, content = .resource nodes value (some ⟨start.statements⟩) ∧
      OccupyAll (Declarator.Occupies tree id) declarators nodes start.expressions first ∧
      OccupyOptional (Expression.OccupiesHeader tree id) held value first second ∧
      body.Occupies depth (some id) ⟨start.statements, second⟩ stop
  | .switch subject sections, content, start, stop =>
    ∃ middle refs, content = .switch (some ⟨start.expressions⟩) refs ∧
      subject.OccupiesHeader tree id start.expressions middle ∧
      Section.AllOccupy depth (some id) sections refs ⟨start.statements, middle⟩ stop
  | .localDeclaration declarators, content, start, stop =>
    ∃ nodes, content = .localDeclaration nodes ∧
      OccupyAll (Declarator.Occupies tree id) declarators nodes start.expressions
        stop.expressions ∧ start.statements = stop.statements
  | .evaluation expression, content, start, stop =>
    content = .evaluation (some ⟨start.expressions⟩) ∧
      expression.OccupiesHeader tree id start.expressions stop.expressions ∧
      start.statements = stop.statements
  | .returning value, content, start, stop =>
    ∃ ref, content = .returning ref ∧
      OccupyOptional (Expression.OccupiesHeader tree id) value ref start.expressions
        stop.expressions ∧ start.statements = stop.statements
  | .throwing value, content, start, stop =>
    ∃ ref, content = .throwing ref ∧
      OccupyOptional (Expression.OccupiesHeader tree id) value ref start.expressions
        stop.expressions ∧ start.statements = stop.statements
  | .breaking, content, start, stop => content = .breaking ∧ start = stop
  | .continuing, content, start, stop => content = .continuing ∧ start = stop
  | .labeled label body, content, start, stop =>
    content = .labeled label (some ⟨start.statements⟩) ∧
      body.Occupies depth (some id) start stop
  | .empty, content, start, stop => content = .empty ∧ start = stop

/-- Statements stand one behind the other. -/
def Statement.AllOccupy (depth : Nat) (parent : StatementRef) :
    List Statement → List StatementRef → Mark → Mark → Prop
  | [], refs, start, stop => refs = [] ∧ start = stop
  | first :: rest, refs, start, stop =>
    ∃ others middle, refs = some ⟨start.statements⟩ :: others ∧
      first.Occupies depth parent start middle ∧
      Statement.AllOccupy depth parent rest others middle stop

/-- A section occupies what is between two marks. -/
def Section.Occupies (depth : Nat) (parent : StatementRef) : Section → Mark → Mark → Prop
  | .mk span labels statements, start, stop =>
    ∃ nodes refs middle,
      tree.statement? (some ⟨start.statements⟩) =
        some ⟨.switchSection nodes refs, span.getD Span.dummy, parent⟩ ∧
      OccupyAll (Label.Occupies tree ⟨start.statements⟩) labels nodes start.expressions middle ∧
      Statement.AllOccupy depth (some ⟨start.statements⟩) statements refs
        ⟨start.statements + 1, middle⟩ stop

/-- Sections stand one behind the other. -/
def Section.AllOccupy (depth : Nat) (parent : StatementRef) :
    List Section → List StatementRef → Mark → Mark → Prop
  | [], refs, start, stop => refs = [] ∧ start = stop
  | first :: rest, refs, start, stop =>
    ∃ others middle, refs = some ⟨start.statements⟩ :: others ∧
      first.Occupies depth parent start middle ∧
      Section.AllOccupy depth parent rest others middle stop

end

end Statements

/-- A procedure stands in a tree as a whole: its parameters are bound, and its body occupies all
statements and expressions. -/
structure Procedure.Occupies (procedure : Procedure) (tree : StatementTree) : Prop where
  name : tree.name = procedure.name
  parameters : tree.parameters = procedure.parameters.map Ident.binding
  root : tree.root = some ⟨0⟩
  body : procedure.body.Occupies tree 0 none ⟨0, 0⟩
    ⟨tree.statements.size, tree.expressions.size⟩

end LexicalScope
