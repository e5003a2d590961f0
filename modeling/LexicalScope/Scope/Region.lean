import LexicalScope.Scope.Declaration

/-!
# Regions

A region is a part of a procedure in which names are declared. Each region but the first lies in its
parent, and a region that is one alternative of a conditional carries a tag that says which.
-/

namespace LexicalScope

/-- What opens a region. -/
inductive RegionKind where
  | root | block | loop | resource | switch | switchSection | branch
deriving DecidableEq, Repr

namespace RegionKind

/-- The word for a kind. -/
def text : RegionKind → String
  | root => "root"
  | block => "block"
  | loop => "loop"
  | resource => "resource"
  | switch => "switch"
  | switchSection => "section"
  | branch => "branch"

end RegionKind

/-- The place of a region among the alternatives of a conditional. -/
structure BranchTag where
  /-- The conditional: an `if`, the first `if` of a chain, or a switch. -/
  conditional : StatementRef
  /-- The number of the alternative. -/
  index : Nat
  /-- Whether every path through the alternative leaves the conditional early. -/
  exits : Bool
  /-- The span of the conditional. -/
  conditionalSpan : Span
deriving DecidableEq, Repr

/-- A part of a procedure in which names are declared. -/
structure Region where
  /-- The number of the region. -/
  id : RegionId
  /-- What opens the region. -/
  kind : RegionKind
  /-- The statement that opens the region. -/
  boundary : StatementRef
  /-- The text that the region covers. -/
  span : Span
  /-- The region around this one. -/
  parent : RegionRef
  /-- The number of regions around this one. -/
  depth : Nat
  /-- The regions directly inside, in the order of their opening. -/
  children : Array RegionId
  /-- For each name the first declaration of it here, in the order of first declaration. -/
  table : Array (String × DeclarationId)
  /-- The declarations of the region, repeated names included. -/
  declarations : Array DeclarationId
  /-- Which alternative of a conditional the region is, if it is one. -/
  branch : Option BranchTag
deriving DecidableEq, Repr

namespace Region

/-- A region without declarations. -/
def opened (id : RegionId) (kind : RegionKind) (boundary : StatementRef) (span : Span)
    (parent : RegionRef) (depth : Nat) (branch : Option BranchTag) : Region :=
  ⟨id, kind, boundary, span, parent, depth, #[], #[], #[], branch⟩

/-- Whether no region is around this one. -/
def isRoot (region : Region) : Bool := region.parent.isNone

/-- The first declaration of a name in the region. -/
def lookup (region : Region) (name : String) : Option DeclarationId :=
  (region.table.find? fun entry => entry.1 == name).map (·.2)

/-- Adds a declaration; the table keeps the first one of each name. -/
def addDeclaration (region : Region) (name : String) (id : DeclarationId) : Region :=
  if (region.lookup name).isSome then
    { region with declarations := region.declarations.push id }
  else
    { region with
      table := region.table.push (name, id)
      declarations := region.declarations.push id }

/-- Adds a region directly inside. -/
def addChild (region : Region) (id : RegionId) : Region :=
  { region with children := region.children.push id }

end Region

end LexicalScope
