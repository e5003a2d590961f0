import LexicalScope.Procedure.Syntax

/-!
# Names of the forms in interchange

Each form of statement, expression, pattern and label has a name in the interchange format, a place
in the list of its kind, and the fields that it is written with.
-/

namespace LexicalScope

/-- The forms of statements, without their parts. -/
inductive StatementTag where
  | block | branch | whileLoop | doLoop | forLoop | forEachLoop | resource | switch
  | localDeclaration | evaluation | returning | throwing | breaking | continuing | labeled | empty
deriving DecidableEq, Repr

namespace StatementTag

/-- All tags, in the order of their places. -/
def all : List StatementTag :=
  [block, branch, whileLoop, doLoop, forLoop, forEachLoop, resource, switch,
    localDeclaration, evaluation, returning, throwing, breaking, continuing, labeled, empty]

/-- The name of a tag in the interchange format. -/
def name : StatementTag → String
  | block => "block"
  | branch => "if"
  | whileLoop => "while"
  | doLoop => "doWhile"
  | forLoop => "for"
  | forEachLoop => "forEach"
  | resource => "using"
  | switch => "switch"
  | localDeclaration => "local"
  | evaluation => "expression"
  | returning => "return"
  | throwing => "throw"
  | breaking => "break"
  | continuing => "continue"
  | labeled => "labeled"
  | empty => "empty"

/-- The fields that a statement of the form is written with. -/
def fields : StatementTag → List String
  | block => ["statements"]
  | branch => ["condition", "then", "else"]
  | whileLoop => ["condition", "body"]
  | doLoop => ["body", "condition"]
  | forLoop => ["declarators", "initializers", "condition", "incrementors", "body"]
  | forEachLoop => ["variable", "collection", "body"]
  | resource => ["declarators", "resource", "body"]
  | switch => ["subject", "sections"]
  | localDeclaration => ["declarators"]
  | evaluation => ["expression"]
  | returning => ["value"]
  | throwing => ["value"]
  | breaking => []
  | continuing => []
  | labeled => ["label", "body"]
  | empty => []

end StatementTag

/-- The forms of expressions, without their parts. -/
inductive ExpressionTag where
  | name | literal | unary | binary | choice | paren | call | member | assign | test | outVariable
  | out
deriving DecidableEq, Repr

namespace ExpressionTag

/-- All tags, in the order of their places. -/
def all : List ExpressionTag :=
  [name, literal, unary, binary, choice, paren, call, member, assign, test, outVariable, out]

/-- The name of a tag in the interchange format. -/
def text : ExpressionTag → String
  | name => "name"
  | literal => "literal"
  | unary => "unary"
  | binary => "binary"
  | choice => "conditional"
  | paren => "paren"
  | call => "call"
  | member => "member"
  | assign => "assign"
  | test => "is"
  | outVariable => "outVar"
  | out => "out"

/-- The fields that an expression of the form is written with. -/
def fields : ExpressionTag → List String
  | name => ["name"]
  | literal => ["value"]
  | unary => ["op", "operand"]
  | binary => ["op", "left", "right"]
  | choice => ["condition", "whenTrue", "whenFalse"]
  | paren => ["inner"]
  | call => ["callee", "arguments"]
  | member => ["target", "member"]
  | assign => ["target", "value"]
  | test => ["operand", "pattern"]
  | outVariable => ["ty", "name"]
  | out => ["name"]

end ExpressionTag

/-- The forms of patterns, without their parts. -/
inductive PatternTag where
  | type | declaration | anyValue | constant | discard | recursive | negated
deriving DecidableEq, Repr

namespace PatternTag

/-- All tags, in the order of their places. -/
def all : List PatternTag :=
  [type, declaration, anyValue, constant, discard, recursive, negated]

/-- The name of a tag in the interchange format. -/
def name : PatternTag → String
  | type => "type"
  | declaration => "declaration"
  | anyValue => "var"
  | constant => "constant"
  | discard => "discard"
  | recursive => "recursive"
  | negated => "not"

/-- The fields that a pattern of the form is written with. -/
def fields : PatternTag → List String
  | type => ["ty"]
  | declaration => ["ty", "name"]
  | anyValue => ["name"]
  | constant => ["value"]
  | discard => []
  | recursive => ["ty", "subpatterns", "name"]
  | negated => ["pattern"]

end PatternTag

/-- The forms of labels, without their parts. -/
inductive LabelTag where
  | matching | otherwise
deriving DecidableEq, Repr

namespace LabelTag

/-- All tags, in the order of their places. -/
def all : List LabelTag := [matching, otherwise]

/-- The name of a tag in the interchange format. -/
def name : LabelTag → String
  | matching => "case"
  | otherwise => "default"

/-- The fields that a label of the form is written with. -/
def fields : LabelTag → List String
  | matching => ["pattern", "when"]
  | otherwise => []

end LabelTag

end LexicalScope
