import LexicalScope.Limit
import LexicalScope.Scope.Record

/-!
# Scope trees

The regions and declarations of one procedure, and the walks over the regions: towards the root, to
the lowest region around two others, and down to the innermost region at an offset.
-/

namespace LexicalScope

/-- The regions and declarations of a procedure. -/
structure ScopeTree where
  /-- The name of the procedure. -/
  procedure : String
  /-- The regions, by number. -/
  regions : Array Region
  /-- The declarations, by number. -/
  declarations : Array Declaration
  /-- The region around each statement. -/
  statementRegions : RegionRecord
  /-- The region around each expression. -/
  expressionRegions : RegionRecord
  /-- The region around the absent constants of switch labels, if there are any. -/
  absentRegion : RegionRef
  /-- The first region that each statement opens. -/
  boundaryRegions : RegionRecord
deriving Repr

namespace ScopeTree

/-- The region of the whole procedure. -/
def root (tree : ScopeTree) : RegionRef :=
  if tree.regions.isEmpty then none else some ⟨0⟩

/-- The region at a reference. -/
def region? (tree : ScopeTree) (ref : RegionRef) : Option Region :=
  ref.bind fun id => tree.regions[id.index]?

/-- The declaration of a number. -/
def declaration? (tree : ScopeTree) (id : DeclarationId) : Option Declaration :=
  tree.declarations[id.index]?

/-- The declarations of a name, in order. -/
def declarationsNamed (tree : ScopeTree) (name : String) : List Declaration :=
  tree.declarations.toList.filter fun declaration => declaration.name == name

/-- The declarations of a region, in order. -/
def declarationsIn (tree : ScopeTree) (ref : RegionRef) : List Declaration :=
  match tree.region? ref with
  | some region => region.declarations.toList.filterMap tree.declaration?
  | none => []

/-- The region around a region. -/
def parent (tree : ScopeTree) (ref : RegionRef) : RegionRef :=
  (tree.region? ref).bind Region.parent

/-- The number of regions around a region. -/
def depth? (tree : ScopeTree) (ref : RegionRef) : Option Nat :=
  (tree.region? ref).map Region.depth

/-! ## Recorded regions -/

/-- The region that was open when a statement was reached; a statement that opens a region is
reached in the region around it. -/
def regionOfStatement (tree : ScopeTree) (ref : StatementRef) : RegionRef :=
  ref.bind fun id => tree.statementRegions.lookup id.index

/-- The region that was open when an expression was reached. -/
def regionOfExpression (tree : ScopeTree) : ExpressionRef → RegionRef
  | some id => tree.expressionRegions.lookup id.index
  | none => tree.absentRegion

/-- The first region that a statement opens. -/
def boundaryRegion (tree : ScopeTree) (ref : StatementRef) : RegionRef :=
  ref.bind fun id => tree.boundaryRegions.lookup id.index

/-! ## Towards the root -/

/-- A region and those around it, at most `steps` of them. -/
def chain (tree : ScopeTree) : Nat → RegionRef → List RegionId
  | 0, _ => []
  | _, none => []
  | steps + 1, some id => id :: tree.chain steps (tree.parent (some id))

/-- A region and those around it, from the inside out. A reference to no region of the tree is still
the first of its list. -/
def ancestors (tree : ScopeTree) (ref : RegionRef) : List RegionId :=
  tree.chain Limit.regionWalk ref

/-- Whether `outer` is `inner` or a region around it. -/
def isAncestorOrSelf (tree : ScopeTree) (outer inner : RegionRef) : Bool :=
  (tree.ancestors inner).any fun id => some id == outer

/-! ## The lowest region around two -/

/-- A region reached by climbing, the region below it on the way, and the steps left. -/
structure Climb where
  /-- The steps left. -/
  steps : Nat
  /-- The region reached. -/
  region : RegionId
  /-- The region below it on the way, none before the first step. -/
  below : RegionRef
deriving DecidableEq, Repr

/-- Climbs from a region to the depth `level`. -/
def climbTo (tree : ScopeTree) (level : Nat) : Nat → RegionId → RegionRef → Option Climb
  | steps, region, below =>
    match tree.depth? (some region) with
    | none => none
    | some depth =>
      if level < depth then
        match steps, tree.parent (some region) with
        | steps + 1, some parent => tree.climbTo level steps parent (some region)
        | _, _ => none
      else
        some ⟨steps, region, below⟩

/-- The lowest region around two, with the regions below it on the ways to both. -/
structure Meeting where
  /-- The lowest region around both. -/
  region : RegionId
  /-- The region below it on the way to the first, none if it is the first. -/
  left : RegionRef
  /-- The region below it on the way to the second, none if it is the second. -/
  right : RegionRef
deriving DecidableEq, Repr

/-- Climbs from two regions of one depth until they are the same. -/
def meet (tree : ScopeTree) : Nat → Meeting → RegionId → Option Meeting
  | steps, ⟨x, left, right⟩, y =>
    if x = y then
      some ⟨x, left, right⟩
    else
      match steps, tree.parent (some x), tree.parent (some y) with
      | steps + 1, some above, some beside =>
        tree.meet steps ⟨above, some x, some y⟩ beside
      | _, _, _ => none

/-- The lowest region around two regions. -/
def lowestCommonAncestor (tree : ScopeTree) (a b : RegionRef) : Option Meeting := do
  let x ← a
  let y ← b
  let depth ← tree.depth? (some y)
  let left ← tree.climbTo depth Limit.regionWalk x none
  let depth ← tree.depth? (some left.region)
  let right ← tree.climbTo depth left.steps y none
  tree.meet right.steps ⟨left.region, left.below, right.below⟩ right.region

/-! ## The innermost region at an offset -/

/-- The first child of a region that covers an offset. -/
def childAt (tree : ScopeTree) (position : Nat) (region : Region) : Option Region :=
  (region.children.toList.filterMap fun id => tree.region? (some id)).find? fun child =>
    child.span.contains position

/-- Goes down from a region through the children that cover an offset. -/
def descend (tree : ScopeTree) (position : Nat) : Nat → Region → Region
  | 0, region => region
  | steps + 1, region =>
    match tree.childAt position region with
    | none => region
    | some child => tree.descend position steps child

/-- The innermost region at an offset. -/
def regionAt (tree : ScopeTree) (position : Nat) : RegionRef := do
  let root ← tree.region? tree.root
  if root.span.contains position then
    some (tree.descend position (Limit.regionWalk + 1) root).id
  else
    none

end ScopeTree

end LexicalScope
