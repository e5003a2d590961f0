/-!
# Kinds and positions of statements
-/

namespace LexicalScope

/-- The kinds of statements in a statement tree; a switch section is one of them. -/
inductive StatementKind where
  | block | branch | whileLoop | doLoop | forLoop | forEachLoop | resource | switch | switchSection
  | localDeclaration | evaluation | returning | throwing | breaking | continuing | labeled | empty
deriving DecidableEq, Repr

namespace StatementKind

/-- The words for a kind. -/
def text : StatementKind → String
  | block => "block"
  | branch => "if"
  | whileLoop => "while"
  | doLoop => "do"
  | forLoop => "for"
  | forEachLoop => "foreach"
  | resource => "using"
  | switch => "switch"
  | switchSection => "switch section"
  | localDeclaration => "local declaration"
  | evaluation => "expression statement"
  | returning => "return"
  | throwing => "throw"
  | breaking => "break"
  | continuing => "continue"
  | labeled => "labeled statement"
  | empty => "empty statement"

/-- All kinds. -/
def all : List StatementKind :=
  [block, branch, whileLoop, doLoop, forLoop, forEachLoop, resource, switch, switchSection,
    localDeclaration, evaluation, returning, throwing, breaking, continuing, labeled, empty]

/-- The name of a kind in a document. -/
def name : StatementKind → String
  | block => "Block"
  | branch => "If"
  | whileLoop => "While"
  | doLoop => "DoWhile"
  | forLoop => "For"
  | forEachLoop => "ForEach"
  | resource => "Using"
  | switch => "Switch"
  | switchSection => "SwitchSection"
  | localDeclaration => "LocalDeclaration"
  | evaluation => "Expression"
  | returning => "Return"
  | throwing => "Throw"
  | breaking => "Break"
  | continuing => "Continue"
  | labeled => "Labeled"
  | empty => "Empty"

/-- The kind of a name. -/
def ofName? (name : String) : Option StatementKind := all.find? fun kind => kind.name == name

/-- Whether a statement of the kind always leaves the statement list it stands in. -/
def isJump : StatementKind → Bool
  | returning | throwing | breaking | continuing => true
  | _ => false

end StatementKind

/-- The places where a statement holds a single statement as its body. -/
inductive BodySlot where
  | thenBody | elseBody | loopBody | resourceBody | labeledBody
deriving DecidableEq, Repr

namespace BodySlot

/-- All slots. -/
def all : List BodySlot := [thenBody, elseBody, loopBody, resourceBody, labeledBody]

/-- The name of a slot in a document. -/
def name : BodySlot → String
  | thenBody => "Then"
  | elseBody => "Else"
  | loopBody => "LoopBody"
  | resourceBody => "ResourceBody"
  | labeledBody => "LabeledBody"

end BodySlot

/-- Where a statement stands in its tree. -/
inductive Position where
  | root
  /-- An element of a block, a switch section or a switch. -/
  | member
  /-- The body of a statement. -/
  | nested (slot : BodySlot)
deriving DecidableEq, Repr

namespace Position

/-- Whether the position is an unbraced body below a conditional, a loop or a resource. -/
def isUnbracedBody : Position → Bool
  | nested .labeledBody => false
  | nested _ => true
  | _ => false

end Position

end LexicalScope
