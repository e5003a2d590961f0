import LexicalScope.StatementTree.Basic

/-!
# Boundary statements

A boundary statement opens a region of its own; what an embedded statement declares belongs to the
region around it. The kind of a statement decides, except around conditionals, where its position
counts too.
-/

namespace LexicalScope

/-- Whether a statement opens a region of its own. -/
inductive ScopeClass where
  | boundary | embedded
deriving DecidableEq, Repr

/-- The name of a class in a document. -/
def ScopeClass.name : ScopeClass → String
  | boundary => "Boundary"
  | embedded => "Embedded"

/-- What the kind of a statement says about its region. -/
inductive ScopeRule where
  /-- The statement always opens a region. -/
  | boundary
  /-- The statement opens regions only at the head of an `else if` chain. -/
  | branching
  /-- The statement never opens a region. -/
  | transparent
deriving DecidableEq, Repr

/-- The name of a rule in a document. -/
def ScopeRule.name : ScopeRule → String
  | boundary => "Boundary"
  | branching => "Branching"
  | transparent => "Transparent"

/-- The rule of a kind. -/
def StatementKind.scopeRule : StatementKind → ScopeRule
  | .block | .forLoop | .forEachLoop | .resource | .whileLoop | .doLoop | .switch
  | .switchSection => .boundary
  | .branch => .branching
  | .localDeclaration | .evaluation | .returning | .throwing | .breaking | .continuing | .labeled
  | .empty => .transparent

/-- Whether a statement opens a region, with what decided it. -/
structure Classification where
  /-- Whether the statement opens a region. -/
  scopeClass : ScopeClass
  /-- The rule of the kind of the statement. -/
  rule : ScopeRule
  /-- The position of the statement. -/
  position : Position
deriving DecidableEq, Repr

namespace Classification

/-- Whether the statement opens a region. -/
def isBoundary (classification : Classification) : Bool :=
  classification.scopeClass == .boundary

/-- Whether declarations below the statement are one unbraced body further from the boundary of
their region. -/
def addsBleedLevel (classification : Classification) : Bool :=
  classification.scopeClass == .embedded && classification.position.isUnbracedBody

end Classification

namespace StatementTree

/-- Whether a statement is an `if` with a plain `else`: its alternative is no `if`, and it is no
alternative itself. -/
def isTwoWay (tree : StatementTree) (ref : StatementRef) : Bool :=
  match (tree.statement? ref).map StatementNode.content with
  | some (.branch _ _ elseBody) =>
    match tree.statement? elseBody with
    | some alternative =>
      alternative.kind != .branch && tree.position? ref != some (.nested .elseBody)
    | none => false
  | _ => false

/-- The class of an `if` that is no branch itself: only the head of a chain opens regions. -/
def branchingClass (tree : StatementTree) (ref : StatementRef) : StatementContent → ScopeClass
  | .branch _ _ (some _) => if tree.isTwoWay ref then .embedded else .boundary
  | _ => .embedded

/-- Classifies a statement at a position. The alternative of an `if` is always a boundary, and so is
the first branch of an `if` with a plain `else`. -/
def classify (tree : StatementTree) (ref : StatementRef) (position : Position) :
    Classification :=
  match tree.statement? ref with
  | none => ⟨.embedded, .transparent, position⟩
  | some node =>
    let rule := node.kind.scopeRule
    let byRule : ScopeClass :=
      match rule with
      | .boundary => .boundary
      | .branching => tree.branchingClass ref node.content
      | .transparent => .embedded
    let scopeClass : ScopeClass :=
      match position with
      | .nested .elseBody => .boundary
      | .nested .thenBody => if tree.isTwoWay node.parent then .boundary else byRule
      | _ => byRule
    ⟨scopeClass, rule, position⟩

/-- Classifies a statement at the position in which its parent lists it. -/
def classifyListed? (tree : StatementTree) (ref : StatementRef) : Option Classification :=
  (tree.position? ref).map (tree.classify ref)

end StatementTree

end LexicalScope
