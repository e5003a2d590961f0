import LexicalScope.Scope.Finding
import LexicalScope.Scope.Tree

/-!
# Conflicting declarations

Two declarations of a name conflict unless their regions exclude each other: they are different
alternatives of one conditional, or one is an alternative that always exits and the other starts
behind its conditional.
-/

namespace LexicalScope

namespace BranchTag

/-- Whether two tags are different alternatives of one conditional. -/
def isOtherAlternative (a b : BranchTag) : Bool :=
  a.conditional == b.conditional && a.index != b.index

/-- Whether the alternative always exits before an offset behind its conditional. -/
def exitsBefore (tag : BranchTag) (position : Nat) : Bool :=
  tag.exits && decide (tag.conditionalSpan.stop ≤ position)

end BranchTag

namespace Region

/-- Whether both regions are alternatives of one conditional, and different ones. -/
def isOtherAlternative (a b : Region) : Bool :=
  match a.branch, b.branch with
  | some tagA, some tagB => tagA.isOtherAlternative tagB
  | _, _ => false

/-- Whether the region is an alternative that always exits before an offset. -/
def exitsBefore (region : Region) (position : Nat) : Bool :=
  match region.branch with
  | some tag => tag.exitsBefore position
  | none => false

end Region

namespace ScopeTree

/-- Whether no path runs through both regions. It is decided by the regions directly below the
lowest one around both. -/
def areExclusive (tree : ScopeTree) (a b : RegionRef) : Bool :=
  match tree.lowestCommonAncestor a b with
  | none => false
  | some meeting =>
    match tree.region? meeting.left, tree.region? meeting.right with
    | some left, some right =>
      left.isOtherAlternative right || left.exitsBefore right.span.start ||
        right.exitsBefore left.span.start
    | _, _ => false

/-- Why two declarations conflict, or nothing if both may stand. -/
def conflict? (tree : ScopeTree) (a b : Declaration) : Option ConflictReason :=
  if a.name ≠ b.name then
    none
  else if a.region = b.region then
    some .sameRegion
  else if tree.isAncestorOrSelf a.region b.region || tree.isAncestorOrSelf b.region a.region then
    some .enclosingRegion
  else if tree.areExclusive a.region b.region then
    none
  else
    some .sequentialRegions

/-- Earlier declarations by name, in order. -/
abbrev Earlier := List (String × List Declaration)

namespace Earlier

/-- The earlier declarations of a name. -/
def named (earlier : Earlier) (name : String) : List Declaration :=
  (List.lookup name earlier).getD []

/-- Adds a declaration behind the earlier ones of its name. -/
def add (declaration : Declaration) : Earlier → Earlier
  | [] => [(declaration.name, [declaration])]
  | (name, declarations) :: rest =>
    if name = declaration.name then
      (name, declarations ++ [declaration]) :: rest
    else
      (name, declarations) :: add declaration rest

end Earlier

/-- The conflict of a declaration with the first of some earlier ones that it conflicts with. -/
def conflictWith (tree : ScopeTree) (declaration : Declaration) (earlier : List Declaration) :
    Option Finding :=
  earlier.findSome? fun first =>
    (tree.conflict? first declaration).map fun reason =>
      .conflict declaration.name first.id declaration.id first.span declaration.span reason

/-- The conflicts of declarations with the earlier ones and with those before them. -/
def conflictsAmong (tree : ScopeTree) : Earlier → List Declaration → List Finding
  | _, [] => []
  | earlier, declaration :: rest =>
    let others := tree.conflictsAmong (earlier.add declaration) rest
    match tree.conflictWith declaration (earlier.named declaration.name) with
    | some finding => finding :: others
    | none => others

/-- Every declaration whose name is taken by an earlier one, each against the first that it
conflicts with. -/
def conflicts (tree : ScopeTree) : List Finding :=
  tree.conflictsAmong [] tree.declarations.toList

/-- The names introduced in expressions at least `threshold` unbraced bodies below the boundary of
their region. -/
def nestedBleeds (tree : ScopeTree) (threshold : Nat) : List Finding :=
  (tree.declarations.toList.filter fun declaration =>
      declaration.kind.isExpressionVariable && decide (threshold ≤ declaration.bleedDepth)).map
    fun declaration =>
      .nestedBleed declaration.name declaration.id declaration.span declaration.bleedDepth

end ScopeTree

end LexicalScope
