import LexicalScope.Span
import LexicalScope.StatementTree.Index

/-!
# Declarations

A declaration is one name introduced into one region. Declarations are numbered in the order in
which the names are met.
-/

namespace LexicalScope

/-- The number of a region. -/
structure RegionId where
  /-- The number of regions opened before it. -/
  index : Nat
deriving DecidableEq, Repr, Inhabited

/-- A reference to a region, or none. -/
abbrev RegionRef := Option RegionId

/-- The text of a reference to a region. -/
def RegionRef.text : RegionRef → String
  | some id => "s" ++ toString id.index
  | none => "s<none>"

/-- The number of a declaration. -/
structure DeclarationId where
  /-- The number of declarations before it. -/
  index : Nat
deriving DecidableEq, Repr, Inhabited

/-- The ways in which a name is introduced. -/
inductive DeclarationKind where
  | patternVariable
  | outputArgument
  | parameter
  /-- A local variable, with or without an initial value. -/
  | localVariable (initialized : Bool)
  /-- The variable of a loop over a collection. -/
  | iteration
deriving DecidableEq, Repr

namespace DeclarationKind

/-- The words for a kind. -/
def text : DeclarationKind → String
  | patternVariable => "pattern variable"
  | outputArgument => "output argument"
  | parameter => "parameter"
  | localVariable _ => "local"
  | iteration => "iteration variable"

/-- Whether the name is introduced inside an expression or pattern. -/
def isExpressionVariable : DeclarationKind → Bool
  | patternVariable | outputArgument => true
  | _ => false

/-- Whether the variable has a value from its declaration on. -/
def isAssigned : DeclarationKind → Bool
  | patternVariable | iteration | parameter => true
  | localVariable initialized => initialized
  | outputArgument => false

end DeclarationKind

/-- A name introduced into a region. -/
structure Declaration where
  /-- The number of the declaration. -/
  id : DeclarationId
  /-- The introduced name. -/
  name : String
  /-- How the name is introduced. -/
  kind : DeclarationKind
  /-- The span of the name. -/
  span : Span
  /-- The region that owns the name. -/
  region : RegionRef
  /-- The statement that introduces the name. -/
  statement : StatementRef
  /-- The expression that introduces the name, if one does. -/
  expression : ExpressionRef
  /-- The place in the order of declarations. -/
  sequence : Nat
  /-- The unbraced bodies between the name and the boundary of its region. -/
  bleedDepth : Nat
deriving DecidableEq, Repr

end LexicalScope
