import LexicalScope.Proofs.Forest
import LexicalScope.StatementTree.Basic

/-!
# Nesting in a statement tree

A statement lies within another when following parents leads from the one to the other; an
expression is a part of another when following parts leads to it. In a proper tree, lists of
children, parents and owners agree, a part comes behind what it is a part of, and nesting is
bounded.
-/

namespace LexicalScope

namespace PatternNode

mutual

/-- The bindings of a pattern. -/
def bindings : PatternNode → List Binding
  | declaration _ binding => [binding]
  | anyValue binding => [binding]
  | recursive _ subpatterns binding => bindingsOfAll subpatterns ++ binding.toList
  | negated pattern => pattern.bindings
  | type _ | constant _ | discard => []

/-- The bindings of several patterns. -/
def bindingsOfAll : List PatternNode → List Binding
  | [] => []
  | pattern :: rest => pattern.bindings ++ bindingsOfAll rest

end

end PatternNode

/-- The bindings in the content of an expression itself. -/
def ExpressionContent.bindings : ExpressionContent → List Binding
  | .test _ pattern => pattern.bindings
  | .outVariable _ binding => [binding]
  | _ => []

/-- The bindings of a label. -/
def LabelNode.bindings (label : LabelNode) : List Binding :=
  label.pattern.toList.flatMap PatternNode.bindings

/-- The bindings in the content of a statement itself. -/
def StatementContent.bindings : StatementContent → List Binding
  | .forLoop declarators _ _ _ _ => declarators.map (·.binding)
  | .forEachLoop element _ _ => [element]
  | .resource declarators _ _ => declarators.map (·.binding)
  | .switchSection labels _ => labels.flatMap LabelNode.bindings
  | .localDeclaration declarators => declarators.map (·.binding)
  | _ => []

namespace StatementTree

/-- What the statement at a reference consists of. -/
def content? (tree : StatementTree) (ref : StatementRef) : Option StatementContent :=
  (tree.statement? ref).map StatementNode.content

/-- The statement in whose header an expression stands. -/
def owner (tree : StatementTree) (expression : ExpressionId) : StatementRef :=
  (tree.expression? (some expression)).bind ExpressionNode.statement

/-- The expression of which an expression is a part, none for the expressions of a header. -/
def holder (tree : StatementTree) (expression : ExpressionId) : ExpressionRef :=
  (tree.expression? (some expression)).bind ExpressionNode.parent

/-- The parts of an expression, or those of a header, are listed by ascending index and name what
holds them. -/
structure Lists (tree : StatementTree) (holder : ExpressionRef) (parts : List ExpressionId) :
    Prop where
  ascending : parts.Pairwise fun first second => first.index < second.index
  held : ∀ part ∈ parts, tree.holder part = holder

/-- A statement is another one or lies below it. -/
def IsWithin (tree : StatementTree) (inner outer : StatementId) : Prop :=
  Under (fun id => tree.parent (some id)) inner outer

/-- A statement lies within one of several. -/
def IsAmong (tree : StatementTree) (outer : List StatementRef) (inner : StatementId) : Prop :=
  ∃ statement, some statement ∈ outer ∧ tree.IsWithin inner statement

/-- A statement lies below another one. -/
def IsBelow (tree : StatementTree) (inner outer : StatementId) : Prop :=
  inner ≠ outer ∧ tree.IsWithin inner outer

/-- An expression is another one or a part of it. -/
def IsPart (tree : StatementTree) (whole part : ExpressionId) : Prop :=
  Relation.ReflTransGen (fun upper lower => lower ∈ tree.expressionChildren (some upper)) whole part

/-- A statement has a number of statements around it. -/
inductive IsLevel (tree : StatementTree) : StatementId → Nat → Prop
  | root {statement} : tree.parent (some statement) = none → IsLevel tree statement 0
  | nested {statement above level} : tree.parent (some statement) = some above →
      IsLevel tree above level → IsLevel tree statement (level + 1)

/-- A tree in which all references agree. -/
structure Proper (tree : StatementTree) : Prop where
  root : tree.root = some ⟨0⟩
  /-- The first statement is the body of the procedure. -/
  body : ∃ node, tree.statement? (some ⟨0⟩) = some node ∧ node.parent = none
  /-- Listed children exist behind their parent, and a switch lists sections only. -/
  child : ∀ {id node child}, tree.statement? (some id) = some node →
    child ∈ node.content.children → ∃ below inner, child.1 = some below ∧
      tree.statement? (some below) = some inner ∧ inner.parent = some id ∧ id.index < below.index ∧
      (inner.kind = .switchSection ↔ node.kind = .switch)
  /-- No child is listed twice. -/
  distinct : ∀ {id node}, tree.statement? (some id) = some node →
    (node.content.children.map (·.1)).Nodup
  /-- Every other statement is listed by its parent. -/
  listed : ∀ {id node}, tree.statement? (some id) = some node → id = ⟨0⟩ ∨
    ∃ above outer, node.parent = some above ∧ tree.statement? (some above) = some outer ∧
      some id ∈ outer.content.children.map (·.1)
  /-- Few statements are around any statement. -/
  level : ∀ {id node}, tree.statement? (some id) = some node →
    ∃ level, level < 2 * Limit.statementNesting ∧ tree.IsLevel id level
  /-- The expressions of a header are owned by their statement. -/
  header : ∀ {id node expression}, tree.statement? (some id) = some node →
    expression ∈ node.content.expressions →
      ∃ inner, tree.expression? (some expression) = some inner ∧ inner.statement = some id
  /-- Parts of an expression come behind it and have its owner. -/
  part : ∀ {id node part}, tree.expression? (some id) = some node →
    part ∈ node.content.children → id.index < part.index ∧
      ∃ inner, tree.expression? (some part) = some inner ∧ inner.statement = node.statement
  /-- Every expression belongs to the header of its owner. -/
  owned : ∀ {id node}, tree.expression? (some id) = some node →
    ∃ owner outer, node.statement = some owner ∧ tree.statement? (some owner) = some outer ∧
      ∃ whole ∈ outer.content.expressions, tree.IsPart whole id

/-- An offset lies in the header of a statement: inside its span, outside those of its children, and
before these if the statement is a conditional. -/
def IsHeaderOffset (tree : StatementTree) (id : StatementId) (offset : Nat) : Prop :=
  ∃ node, tree.statement? (some id) = some node ∧ node.span.start < offset ∧
    offset < node.span.stop ∧ ∀ child ∈ node.content.children,
      (offset < (tree.span child.1).start ∨ (tree.span child.1).stop ≤ offset) ∧
      (node.kind = .branch → offset < (tree.span child.1).start)

/-- A tree whose spans nest as its statements do. -/
structure Bracketed (tree : StatementTree) : Prop where
  /-- A span is not empty. -/
  nonempty : ∀ {id node}, tree.statement? (some id) = some node → node.span.start < node.span.stop
  /-- The spans of children lie strictly inside. -/
  inside : ∀ {id node child}, tree.statement? (some id) = some node →
    child ∈ node.content.children → node.span.start < (tree.span child.1).start ∧
      (tree.span child.1).stop < node.span.stop
  /-- The spans of children come one behind the other. -/
  ordered : ∀ {id node}, tree.statement? (some id) = some node →
    (node.content.children.map (·.1)).Pairwise fun first second =>
      (tree.span first).stop < (tree.span second).start
  /-- Expressions start in the header of their owner, and what they bind stands there too. -/
  expression : ∀ {id node owner}, tree.expression? (some id) = some node →
    node.statement = some owner → tree.IsHeaderOffset owner node.span.start ∧
      ∀ binding ∈ node.content.bindings, tree.IsHeaderOffset owner binding.span.start
  /-- What a statement itself binds stands in its header. -/
  binding : ∀ {id node binding}, tree.statement? (some id) = some node →
    binding ∈ node.content.bindings → tree.IsHeaderOffset id binding.span.start

end StatementTree

end LexicalScope
