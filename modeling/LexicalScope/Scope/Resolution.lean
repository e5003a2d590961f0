import LexicalScope.Scope.Finding
import LexicalScope.Scope.Settings
import LexicalScope.Scope.Tree
import LexicalScope.StatementTree.Basic

/-!
# Resolution of names

A name seen from a region means the first declaration of it in the nearest region that has one.
-/

namespace LexicalScope

/-- A name that finds no declaration from a region. -/
structure UnresolvedName where
  /-- The name. -/
  name : String
  /-- The region, none for a place outside every region. -/
  region : RegionRef
deriving DecidableEq, Repr

/-- The wording of a name that finds no declaration. -/
def UnresolvedName.message (unresolved : UnresolvedName) : String :=
  "cannot find name `" ++ unresolved.name ++ "` from region " ++ RegionRef.text unresolved.region

namespace ScopeTree

/-- The number of the first declaration of a name in the nearest of at most `steps` regions. -/
def lookupFrom (tree : ScopeTree) (name : String) : Nat → RegionRef → Option DeclarationId
  | 0, _ => none
  | steps + 1, ref =>
    match tree.region? ref with
    | none => none
    | some region =>
      match region.lookup name with
      | some id => some id
      | none => tree.lookupFrom name steps region.parent

/-- The declaration that a name means in a region. -/
def resolveIn (tree : ScopeTree) (name : String) (ref : RegionRef) : Option Declaration :=
  (tree.lookupFrom name Limit.regionWalk ref).bind tree.declaration?

/-- The declaration that a name means in a region, or the failure to find one. -/
def resolveFrom (tree : ScopeTree) (name : String) (ref : RegionRef) :
    Except UnresolvedName Declaration :=
  match tree.resolveIn name ref with
  | some declaration => .ok declaration
  | none => .error ⟨name, ref⟩

/-- The declaration that a name means at an offset. -/
def resolve (tree : ScopeTree) (name : String) (position : Nat) :
    Except UnresolvedName Declaration :=
  tree.resolveFrom name (tree.regionAt position)

/-- The declaration that a name means at a statement. -/
def resolveAtStatement (tree : ScopeTree) (name : String) (statement : StatementRef) :
    Except UnresolvedName Declaration :=
  tree.resolveFrom name (tree.regionOfStatement statement)

/-- The declaration that a name means at an expression. -/
def resolveAtExpression (tree : ScopeTree) (name : String) (expression : ExpressionRef) :
    Except UnresolvedName Declaration :=
  tree.resolveFrom name (tree.regionOfExpression expression)

/-! ## Visible declarations -/

/-- The entries of a table whose names are not among `seen`, with the names seen after them. -/
def unseen : List (String × DeclarationId) → List String → List DeclarationId × List String
  | [], seen => ([], seen)
  | (name, id) :: rest, seen =>
    if seen.contains name then
      unseen rest seen
    else
      let (ids, after) := unseen rest (name :: seen)
      (id :: ids, after)

/-- The entries of the regions' tables that no earlier region hides, up to a region that does not
exist. -/
def visibleIn (tree : ScopeTree) : List RegionId → List String → List DeclarationId
  | [], _ => []
  | id :: rest, seen =>
    match tree.region? (some id) with
    | none => []
    | some region =>
      let (ids, after) := unseen region.table.toList seen
      ids ++ tree.visibleIn rest after

/-- The declarations visible from a region, innermost region first. A name hidden by a nearer region
is listed once. -/
def visible (tree : ScopeTree) (ref : RegionRef) : List Declaration :=
  (tree.visibleIn (tree.ancestors ref) []).filterMap tree.declaration?

end ScopeTree

/-! ## References -/

namespace StatementTree

/-- Whether an expression is called directly by the expression that holds it. -/
def isCallee (tree : StatementTree) (id : ExpressionId) : Bool :=
  match tree.expression? (some id) with
  | none => false
  | some node =>
    match (tree.expression? node.parent).map ExpressionNode.content with
    | some (.call callee _) => callee == some id
    | _ => false

end StatementTree

/-- The variable that an expression refers to by name. -/
def ExpressionContent.reference? : ExpressionContent → Option String
  | .name referred => some referred
  | .out referred => some referred
  | _ => none

namespace ScopeTree

/-- The finding for one expression: a reference to no declaration. A name that is called directly
names a method, and globals need no declaration. -/
def checkReference (scopes : ScopeTree) (tree : StatementTree) (globals : List String)
    (id : ExpressionId) : Option Finding := do
  let node ← tree.expression? (some id)
  let name ← node.content.reference?
  if globals.contains name || tree.isCallee id then
    none
  else
    let region ← scopes.regionOfExpression (some id)
    match scopes.resolveIn name (some region) with
    | some _ => none
    | none => some (.unresolved name node.span (some id))

/-- The references of a procedure that find no declaration, by ascending expression. -/
def checkReferences (scopes : ScopeTree) (tree : StatementTree) (globals : List String) :
    List Finding :=
  (List.range tree.expressions.size).filterMap fun index =>
    scopes.checkReference tree globals ⟨index⟩

end ScopeTree

end LexicalScope
