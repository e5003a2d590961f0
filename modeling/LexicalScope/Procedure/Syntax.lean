import LexicalScope.Span

/-!
# Procedures as nested syntax

A procedure body as a tree of statements, expressions and patterns. Statements, switch sections,
expressions and names may state the span they cover; a part that states none has no text.
-/

namespace LexicalScope

/-- A name at the place where it is bound. -/
structure Ident where
  /-- The name; `_` discards what is bound. -/
  name : String
  /-- The span of the name, if it is stated. -/
  span : Option Span
deriving DecidableEq, Repr, Inhabited

mutual

/-- An expression: its form and the span it covers, if that is stated. -/
inductive Expression where
  | mk (span : Option Span) (form : ExpressionForm)

/-- The forms of expressions. -/
inductive ExpressionForm where
  /-- A reference to a variable or, when it is called, to a method. -/
  | name (name : String)
  | literal (value : String)
  | unary (operator : String) (operand : Expression)
  | binary (operator : String) (left right : Expression)
  /-- The value of one of two expressions, by a condition. -/
  | choice (condition whenTrue whenFalse : Expression)
  | paren (inner : Expression)
  | call (callee : Expression) (arguments : List Expression)
  | member (target : Expression) (member : String)
  | assign (target value : Expression)
  /-- A test of a value against a pattern. -/
  | test (operand : Expression) (pattern : Pattern)
  /-- An output argument that declares its variable. -/
  | outVariable (type : Option String) (name : Ident)
  /-- An output argument that refers to a variable. -/
  | out (name : String)

/-- The patterns that a value is tested against. -/
inductive Pattern where
  | type (type : String)
  /-- A type test that declares a variable. -/
  | declaration (type : String) (name : Ident)
  /-- A variable for any value. -/
  | anyValue (name : Ident)
  | constant (value : Expression)
  | discard
  /-- Patterns for the parts of a value, with a variable for the whole. -/
  | recursive (type : Option String) (subpatterns : List Pattern) (name : Option Ident)
  | negated (pattern : Pattern)

end

/-- A variable declared with an initial value, if it has one. -/
structure Declarator where
  /-- The declared name. -/
  name : Ident
  /-- The expression that gives the initial value. -/
  initializer : Option Expression

/-- A label of a switch section. -/
inductive Label where
  /-- A pattern and the guard that has to hold besides. -/
  | matching (pattern : Pattern) (guard : Option Expression)
  | otherwise

mutual

/-- A statement: its form and the span it covers, if that is stated. -/
inductive Statement where
  | mk (span : Option Span) (form : StatementForm)

/-- The forms of statements. -/
inductive StatementForm where
  | block (statements : List Statement)
  | branch (condition : Expression) (thenBody : Statement) (elseBody : Option Statement)
  | whileLoop (condition : Expression) (body : Statement)
  /-- A loop that tests its condition behind its body. -/
  | doLoop (body : Statement) (condition : Expression)
  | forLoop (declarators : List Declarator) (initializers : List Expression)
      (condition : Option Expression) (incrementors : List Expression) (body : Statement)
  | forEachLoop (element : Ident) (collection : Expression) (body : Statement)
  /-- A body that runs with a resource held. -/
  | resource (declarators : List Declarator) (held : Option Expression) (body : Statement)
  | switch (subject : Expression) (sections : List Section)
  | localDeclaration (declarators : List Declarator)
  | evaluation (expression : Expression)
  | returning (value : Option Expression)
  | throwing (value : Option Expression)
  | breaking
  | continuing
  | labeled (label : String) (body : Statement)
  | empty

/-- A section of a switch: its labels and the statements behind them. -/
inductive Section where
  | mk (span : Option Span) (labels : List Label) (statements : List Statement)

end

/-- A procedure: the unit of analysis. -/
structure Procedure where
  /-- The name of the procedure. -/
  name : String
  /-- The parameters in their order. -/
  parameters : List Ident
  /-- The statement that makes up the body. -/
  body : Statement

instance : Inhabited Expression := ⟨.mk none (.literal "")⟩
instance : Inhabited Pattern := ⟨.discard⟩
instance : Inhabited Statement := ⟨.mk none .empty⟩

end LexicalScope
