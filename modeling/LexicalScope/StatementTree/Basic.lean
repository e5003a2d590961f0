import LexicalScope.Limit
import LexicalScope.StatementTree.Node

/-!
# Statement trees

All statements and expressions of one procedure, each at an index. A tree can be put together by
hand, so its references need not agree; every operation is total.
-/

namespace LexicalScope

/-- The statements and expressions of a procedure. -/
structure StatementTree where
  /-- The name of the procedure. -/
  name : String
  /-- The statements, by index. -/
  statements : Array StatementNode
  /-- The expressions, by index. -/
  expressions : Array ExpressionNode
  /-- The parameters of the procedure. -/
  parameters : List Binding
  /-- The statement that makes up the body. -/
  root : StatementRef
deriving Repr, Inhabited

namespace StatementTree

/-- The tree of a procedure without a body. -/
def empty (name : String) : StatementTree := ⟨name, #[], #[], [], none⟩

/-! ## Changes -/

/-- The index that the next statement gets. -/
def nextStatement (tree : StatementTree) : StatementId := ⟨tree.statements.size⟩

/-- The index that the next expression gets. -/
def nextExpression (tree : StatementTree) : ExpressionId := ⟨tree.expressions.size⟩

/-- Adds a statement under the next index. -/
def addStatement (tree : StatementTree) (node : StatementNode) : StatementTree :=
  { tree with statements := tree.statements.push node }

/-- Adds an expression under the next index. -/
def addExpression (tree : StatementTree) (node : ExpressionNode) : StatementTree :=
  { tree with expressions := tree.expressions.push node }

/-- Changes a statement, if there is one at the reference. -/
def modifyStatement (tree : StatementTree) (ref : StatementRef)
    (change : StatementNode → StatementNode) : StatementTree :=
  match ref with
  | some id => { tree with statements := tree.statements.modify id.index change }
  | none => tree

/-- Changes an expression, if there is one at the reference. -/
def modifyExpression (tree : StatementTree) (ref : ExpressionRef)
    (change : ExpressionNode → ExpressionNode) : StatementTree :=
  match ref with
  | some id => { tree with expressions := tree.expressions.modify id.index change }
  | none => tree

/-! ## Access -/

/-- The statement at a reference. -/
def statement? (tree : StatementTree) (ref : StatementRef) : Option StatementNode :=
  ref.bind fun id => tree.statements[id.index]?

/-- The expression at a reference. -/
def expression? (tree : StatementTree) (ref : ExpressionRef) : Option ExpressionNode :=
  ref.bind fun id => tree.expressions[id.index]?

/-- The kind of the statement at a reference. -/
def kind? (tree : StatementTree) (ref : StatementRef) : Option StatementKind :=
  (tree.statement? ref).map StatementNode.kind

/-- The span of a statement, the placeholder if there is none. -/
def span (tree : StatementTree) (ref : StatementRef) : Span :=
  ((tree.statement? ref).map StatementNode.span).getD Span.dummy

/-- The span of an expression, the placeholder if there is none. -/
def expressionSpan (tree : StatementTree) (ref : ExpressionRef) : Span :=
  ((tree.expression? ref).map ExpressionNode.span).getD Span.dummy

/-- The statement that a statement names as its parent. -/
def parent (tree : StatementTree) (ref : StatementRef) : StatementRef :=
  (tree.statement? ref).bind StatementNode.parent

/-- The members of a block or switch section. -/
def members (tree : StatementTree) (ref : StatementRef) : List StatementRef :=
  ((tree.statement? ref).map (·.content.members)).getD []

/-- The statements of a kind, by ascending index. -/
def ofKind (tree : StatementTree) (kind : StatementKind) : List StatementId :=
  (List.range tree.statements.size).filterMap fun index =>
    if tree.kind? (some ⟨index⟩) == some kind then some ⟨index⟩ else none

/-- The child statements with their positions, in source order. -/
def children (tree : StatementTree) (ref : StatementRef) : List (StatementRef × Position) :=
  ((tree.statement? ref).map (·.content.children)).getD []

/-- The expressions that a statement owns directly, in evaluation order. -/
def headerExpressions (tree : StatementTree) (ref : StatementRef) : List ExpressionId :=
  ((tree.statement? ref).map (·.content.expressions)).getD []

/-- The direct parts of an expression, in evaluation order. -/
def expressionChildren (tree : StatementTree) (ref : ExpressionRef) : List ExpressionId :=
  ((tree.expression? ref).map (·.content.children)).getD []

/-- Where a statement stands, by the first place in which its parent lists it. -/
def position? (tree : StatementTree) (ref : StatementRef) : Option Position := do
  let node ← tree.statement? ref
  if node.parent.isNone then
    return .root
  else
    ((tree.children node.parent).find? fun child => child.1 == ref).map (·.2)

/-- The statement at a reference and those around it, at most `steps` of them. -/
def chain (tree : StatementTree) : Nat → StatementRef → List StatementId
  | 0, _ => []
  | _, none => []
  | steps + 1, some id => id :: tree.chain steps (tree.parent (some id))

/-- The statements around a statement, from the inside out. -/
def ancestors (tree : StatementTree) (ref : StatementRef) : List StatementId :=
  tree.chain (Limit.statementWalk + 1) (tree.parent ref)

end StatementTree

end LexicalScope
