import LexicalScope.StatementTree.Basic
import LexicalScope.StatementTree.Error

/-!
# Agreement of references

A tree is fit for analysis when its root exists, every listed child exists and names its lister as
its parent, switches list only sections, and every expression below a header exists and names the
statement of the header as its owner. Trees are checked by ascending statement; within a header
expression the last part is followed first.
-/

namespace LexicalScope

/-- Why a tree did not pass the check of its references. -/
inductive LinkFailure where
  /-- A fault was met. -/
  | faulty (error : TreeError)
  /-- Following the parts of an expression leads back to it, so the check never ends. -/
  | endless
deriving DecidableEq, Repr

namespace StatementTree

/-- Checks one listed child of a statement. -/
def checkChild (tree : StatementTree) (parent : StatementId) (node : StatementNode)
    (child : StatementRef) : Except LinkFailure Unit :=
  match tree.statement? child with
  | none => .error (.faulty (.danglingStatement (some parent) child))
  | some found =>
    if found.parent ≠ some parent then
      .error (.faulty (.parentMismatch child (some parent) found.parent))
    else if node.kind = .switch ∧ found.kind ≠ .switchSection then
      .error (.faulty (.misplacedSection (some parent) child))
    else
      .ok ()

/-- Checks an expression below the header of a statement, and what is below it. More steps down
than there are expressions pass some expression twice. -/
def checkExpression (tree : StatementTree) (statement : StatementId) :
    Nat → ExpressionId → Except LinkFailure Unit
  | 0, _ => .error .endless
  | steps + 1, expression =>
    match tree.expression? (some expression) with
    | none => .error (.faulty (.danglingExpression (some statement) (some expression)))
    | some node =>
      if node.statement ≠ some statement then
        .error (.faulty (.ownerMismatch (some expression) (some statement) node.statement))
      else
        node.content.children.reverse.forM (tree.checkExpression statement steps)

/-- The number of steps down that only an endless walk exceeds: every expression once, and one that
does not exist. -/
def expressionSteps (tree : StatementTree) : Nat := tree.expressions.size + 1

/-- Checks the children and the header of a statement. -/
def checkStatement (tree : StatementTree) (statement : StatementId) : Except LinkFailure Unit :=
  match tree.statement? (some statement) with
  | none => .ok ()
  | some node => do
    node.content.children.forM fun child => tree.checkChild statement node child.1
    node.content.expressions.forM (tree.checkExpression statement tree.expressionSteps)

/-- Checks that the references of a tree agree. -/
def checkLinks (tree : StatementTree) : Except LinkFailure Unit :=
  match tree.statement? tree.root with
  | none => .error (.faulty (.missingRoot tree.name))
  | some _ => (List.range tree.statements.size).forM fun index => tree.checkStatement ⟨index⟩

end StatementTree

end LexicalScope
