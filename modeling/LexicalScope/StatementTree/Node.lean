import LexicalScope.Span
import LexicalScope.StatementTree.Index
import LexicalScope.StatementTree.Kind

/-!
# Nodes of a statement tree

The content of a node names its parts by reference. The parts of patterns stay inside the node that
holds the pattern, except constants, which are expressions of their own.
-/

namespace LexicalScope

/-- A name bound at a span. -/
structure Binding where
  /-- The bound name. -/
  name : String
  /-- The span of the name. -/
  span : Span
deriving DecidableEq, Repr, Inhabited

/-- Whether a binding only discards what it would bind. -/
def Binding.isDiscard (binding : Binding) : Bool := binding.name == "_"

/-- A variable declared with an initial value, if it has one. -/
structure DeclaratorNode where
  /-- The declared variable. -/
  binding : Binding
  /-- The expression that gives the initial value. -/
  initializer : ExpressionRef
deriving DecidableEq, Repr

/-- A pattern inside a node. -/
inductive PatternNode where
  | type (type : String)
  | declaration (type : String) (binding : Binding)
  | anyValue (binding : Binding)
  | constant (value : ExpressionRef)
  | discard
  | recursive (type : Option String) (subpatterns : List PatternNode) (binding : Option Binding)
  | negated (pattern : PatternNode)
deriving Repr, Inhabited

namespace PatternNode

mutual

/-- The constants embedded in a pattern, in source order. -/
def constants : PatternNode → List ExpressionRef
  | constant value => [value]
  | recursive _ subpatterns _ => constantsOfAll subpatterns
  | negated pattern => pattern.constants
  | type _ | declaration _ _ | anyValue _ | discard => []

/-- The constants embedded in several patterns, in source order. -/
def constantsOfAll : List PatternNode → List ExpressionRef
  | [] => []
  | pattern :: rest => pattern.constants ++ constantsOfAll rest

end

end PatternNode

/-- A label of a switch section; the label without a pattern takes what no other takes. -/
structure LabelNode where
  /-- The pattern to match. -/
  pattern : Option PatternNode
  /-- The condition that has to hold besides. -/
  guard : ExpressionRef
  /-- The span of the label. -/
  span : Span
deriving Repr

/-- What a statement consists of. -/
inductive StatementContent where
  | block (statements : List StatementRef)
  | branch (condition : ExpressionRef) (thenBody elseBody : StatementRef)
  | whileLoop (condition : ExpressionRef) (body : StatementRef)
  | doLoop (body : StatementRef) (condition : ExpressionRef)
  | forLoop (declarators : List DeclaratorNode) (initializers : List ExpressionRef)
      (condition : ExpressionRef) (incrementors : List ExpressionRef) (body : StatementRef)
  | forEachLoop (element : Binding) (collection : ExpressionRef) (body : StatementRef)
  | resource (declarators : List DeclaratorNode) (held : ExpressionRef) (body : StatementRef)
  | switch (subject : ExpressionRef) (sections : List StatementRef)
  | switchSection (labels : List LabelNode) (statements : List StatementRef)
  | localDeclaration (declarators : List DeclaratorNode)
  | evaluation (expression : ExpressionRef)
  | returning (value : ExpressionRef)
  | throwing (value : ExpressionRef)
  | breaking
  | continuing
  | labeled (label : String) (body : StatementRef)
  | empty
deriving Repr, Inhabited

namespace StatementContent

/-- The kind of a statement. -/
def kind : StatementContent → StatementKind
  | block _ => .block
  | branch _ _ _ => .branch
  | whileLoop _ _ => .whileLoop
  | doLoop _ _ => .doLoop
  | forLoop _ _ _ _ _ => .forLoop
  | forEachLoop _ _ _ => .forEachLoop
  | resource _ _ _ => .resource
  | switch _ _ => .switch
  | switchSection _ _ => .switchSection
  | localDeclaration _ => .localDeclaration
  | evaluation _ => .evaluation
  | returning _ => .returning
  | throwing _ => .throwing
  | breaking => .breaking
  | continuing => .continuing
  | labeled _ _ => .labeled
  | empty => .empty

/-- The statements of a block or switch section. -/
def members : StatementContent → List StatementRef
  | block statements => statements
  | switchSection _ statements => statements
  | _ => []

/-- The child statements with their positions, in source order. An absent `else` is no child, but
any other absent body is one that refers to nothing. -/
def children : StatementContent → List (StatementRef × Position)
  | block statements => statements.map (·, .member)
  | switchSection _ statements => statements.map (·, .member)
  | switch _ sections => sections.map (·, .member)
  | branch _ thenBody none => [(thenBody, .nested .thenBody)]
  | branch _ thenBody (some elseBody) =>
    [(thenBody, .nested .thenBody), (some elseBody, .nested .elseBody)]
  | whileLoop _ body => [(body, .nested .loopBody)]
  | doLoop body _ => [(body, .nested .loopBody)]
  | forLoop _ _ _ _ body => [(body, .nested .loopBody)]
  | forEachLoop _ _ body => [(body, .nested .loopBody)]
  | resource _ _ body => [(body, .nested .resourceBody)]
  | labeled _ body => [(body, .nested .labeledBody)]
  | localDeclaration _ | evaluation _ | returning _ | throwing _ | breaking | continuing | empty =>
    []

/-- The expressions of a label: the constants of its pattern, then its guard. -/
def labelExpressions (label : LabelNode) : List ExpressionRef :=
  (match label.pattern with
    | some pattern => pattern.constants
    | none => []) ++ [label.guard]

/-- The slots for expressions that a statement owns directly, in evaluation order. -/
def expressionSlots : StatementContent → List ExpressionRef
  | branch condition _ _ => [condition]
  | whileLoop condition _ => [condition]
  | doLoop _ condition => [condition]
  | forLoop declarators initializers condition incrementors _ =>
    declarators.map (·.initializer) ++ initializers ++ [condition] ++ incrementors
  | forEachLoop _ collection _ => [collection]
  | resource declarators held _ => declarators.map (·.initializer) ++ [held]
  | switch subject _ => [subject]
  | switchSection labels _ => labels.flatMap labelExpressions
  | localDeclaration declarators => declarators.map (·.initializer)
  | evaluation expression => [expression]
  | returning value => [value]
  | throwing value => [value]
  | block _ | breaking | continuing | labeled _ _ | empty => []

/-- The expressions that a statement owns directly, in evaluation order. -/
def expressions (content : StatementContent) : List ExpressionId :=
  content.expressionSlots.filterMap id

end StatementContent

/-- What an expression consists of. -/
inductive ExpressionContent where
  | name (name : String)
  | literal (value : String)
  | unary (operator : String) (operand : ExpressionRef)
  | binary (operator : String) (left right : ExpressionRef)
  | choice (condition whenTrue whenFalse : ExpressionRef)
  | paren (inner : ExpressionRef)
  | call (callee : ExpressionRef) (arguments : List ExpressionRef)
  | member (target : ExpressionRef) (member : String)
  | assign (target value : ExpressionRef)
  | test (operand : ExpressionRef) (pattern : PatternNode)
  | outVariable (type : Option String) (binding : Binding)
  | out (name : String)
deriving Repr, Inhabited

namespace ExpressionContent

/-- The slots for direct parts of an expression, in evaluation order. -/
def slots : ExpressionContent → List ExpressionRef
  | unary _ operand => [operand]
  | binary _ left right => [left, right]
  | choice condition whenTrue whenFalse => [condition, whenTrue, whenFalse]
  | paren inner => [inner]
  | call callee arguments => callee :: arguments
  | member target _ => [target]
  | assign target value => [target, value]
  | test operand pattern => operand :: pattern.constants
  | name _ | literal _ | outVariable _ _ | out _ => []

/-- The direct parts of an expression, in evaluation order. -/
def children (content : ExpressionContent) : List ExpressionId :=
  content.slots.filterMap id

end ExpressionContent

/-- A statement with its span and the statement that holds it. -/
structure StatementNode where
  /-- What the statement consists of. -/
  content : StatementContent
  /-- The text that the statement covers. -/
  span : Span
  /-- The statement that lists this one, none for the root. -/
  parent : StatementRef
deriving Repr, Inhabited

/-- The kind of a node's statement. -/
def StatementNode.kind (node : StatementNode) : StatementKind := node.content.kind

/-- An expression with its span, the statement that owns it and the expression that holds it. -/
structure ExpressionNode where
  /-- What the expression consists of. -/
  content : ExpressionContent
  /-- The text that the expression covers. -/
  span : Span
  /-- The statement in whose header the expression stands. -/
  statement : StatementRef
  /-- The expression that lists this one, none directly below a statement. -/
  parent : ExpressionRef
deriving Repr, Inhabited

end LexicalScope
