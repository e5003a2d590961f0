import LexicalScope.Scope.Tree

/-!
# Outline of a scope tree

An entry for each region, a region before those inside it, indented by its depth. An entry is a
line of its own as long as no name has a line break.
-/

namespace LexicalScope

namespace Region

/-- What the outline says about the alternative that a region is. -/
def outlineTag (region : Region) : String :=
  match region.branch with
  | none => ""
  | some tag =>
    " (alt " ++ toString tag.index ++ " of " ++ StatementRef.text tag.conditional ++
      (if tag.exits then ", exits" else "") ++ ")"

/-- The names that the outline lists for a region. -/
def outlineNames (region : Region) : String :=
  if region.table.isEmpty then ""
  else ": " ++ ", ".intercalate (region.table.toList.map (·.1))

/-- The entry of a region. -/
def outlineLine (region : Region) : String :=
  String.join (List.replicate region.depth "  ") ++ RegionRef.text (some region.id) ++ " " ++
    region.kind.text ++ " " ++ region.span.text ++ region.outlineTag ++ region.outlineNames ++ "\n"

end Region

namespace ScopeTree

/-- Visits the pending regions and those inside them, a region before those inside it, in at most
`steps` visits. -/
def outlineOrder (tree : ScopeTree) : Nat → List RegionId → List Region
  | 0, _ => []
  | _, [] => []
  | steps + 1, id :: pending =>
    match tree.region? (some id) with
    | none => tree.outlineOrder steps pending
    | some region => region :: tree.outlineOrder steps (region.children.toList ++ pending)

/-- The regions of a scope tree in the order of the outline. -/
def outlineRegions (tree : ScopeTree) : List Region :=
  match tree.root with
  | none => []
  | some root => tree.outlineOrder tree.regions.size [root]

/-- The outline of a scope tree. -/
def outline (tree : ScopeTree) : String :=
  String.join (tree.outlineRegions.map Region.outlineLine)

end ScopeTree

end LexicalScope
