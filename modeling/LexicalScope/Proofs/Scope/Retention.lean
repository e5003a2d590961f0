import LexicalScope.Proofs.Scope.Meeting

/-!
# Scope trees that retain others

A scope tree retains another one when the regions of that one stand in it at the same numbers, with
the same parents, depths and tags. The walks towards the root read nothing else, so from these
regions they lead through both trees alike, and whether two of them exclude each other is the same.
-/

namespace LexicalScope.ScopeTree

/-- A scope tree has the regions of another one, at the same places of the tree of regions. Only
the region of the procedure may cover another text. -/
structure Retains (other scopes : ScopeTree) : Prop where
  region : ∀ {id region}, scopes.region? (some id) = some region →
    ∃ later, other.region? (some id) = some later ∧ later.parent = region.parent ∧
      later.depth = region.depth ∧ later.branch = region.branch ∧
      (region.parent ≠ none → later.span = region.span)

theorem bounded_parent {scopes : ScopeTree} {inner outer : RegionId}
    (agree : Consistent scopes.regions scopes.declarations)
    (above : scopes.parent (some inner) = some outer) : outer.index < scopes.regions.size := by
  obtain ⟨region, found, isParent⟩ := Option.bind_eq_some_iff.mp above
  obtain ⟨_, parent, parentFound, _⟩ := agree.parent found isParent
  exact (Array.getElem?_eq_some_iff.mp parentFound).1

namespace Retains

variable {scopes other : ScopeTree} {id a b : RegionId} {ref first second : RegionRef}
  (retains : other.Retains scopes)
include retains

theorem parent (bounded : id.index < scopes.regions.size) :
    other.parent (some id) = scopes.parent (some id) := by
  have found : scopes.region? (some id) = some scopes.regions[id.index] :=
    Array.getElem?_eq_getElem bounded
  obtain ⟨later, foundToo, isParent, _⟩ := retains.region found
  rw [parent_eq found, parent_eq foundToo, isParent]

theorem depth? (bounded : id.index < scopes.regions.size) :
    other.depth? (some id) = scopes.depth? (some id) := by
  have found : scopes.region? (some id) = some scopes.regions[id.index] :=
    Array.getElem?_eq_getElem bounded
  obtain ⟨later, foundToo, _, isDepth, _⟩ := retains.region found
  rw [ScopeTree.depth?, ScopeTree.depth?, found, foundToo, Option.map_some, Option.map_some,
    isDepth]

variable (agree : Consistent scopes.regions scopes.declarations)
include agree

private theorem chain (steps : Nat)
    (bounded : ∀ id, ref = some id → id.index < scopes.regions.size) :
    other.chain steps ref = scopes.chain steps ref := by
  induction steps generalizing ref with
  | zero => rfl
  | succ steps induction =>
      cases ref with
      | none => rfl
      | some id =>
          rw [ScopeTree.chain, ScopeTree.chain, retains.parent (bounded id rfl),
            induction fun above isAbove => bounded_parent agree isAbove]

theorem isAncestorOrSelf (outer : RegionRef)
    (bounded : ∀ id, ref = some id → id.index < scopes.regions.size) :
    other.isAncestorOrSelf outer ref = scopes.isAncestorOrSelf outer ref := by
  rw [ScopeTree.isAncestorOrSelf, ScopeTree.isAncestorOrSelf, ancestors, ancestors,
    retains.chain agree _ bounded]

private theorem climbTo (level steps : Nat) (below : RegionRef)
    (bounded : id.index < scopes.regions.size) :
    other.climbTo level steps id below = scopes.climbTo level steps id below := by
  induction steps generalizing id below with
  | zero =>
      unfold ScopeTree.climbTo
      rw [retains.depth? bounded]
  | succ steps induction =>
      rw [climbTo.eq_def, climbTo.eq_def scopes]
      dsimp only
      rw [retains.depth? bounded, retains.parent bounded]
      cases isAbove : scopes.parent (some id) with
      | none => rfl
      | some above => simp only [induction (some id) (bounded_parent agree isAbove)]

private theorem meet (steps : Nat) (left right : RegionRef) (aBound : a.index < scopes.regions.size)
    (bBound : b.index < scopes.regions.size) :
    other.meet steps ⟨a, left, right⟩ b = scopes.meet steps ⟨a, left, right⟩ b := by
  induction steps generalizing a b left right with
  | zero =>
      unfold ScopeTree.meet
      rw [retains.parent aBound, retains.parent bBound]
  | succ steps induction =>
      rw [meet.eq_def, meet.eq_def scopes]
      dsimp only
      rw [retains.parent aBound, retains.parent bBound]
      cases isAbove : scopes.parent (some a) with
      | none => rfl
      | some above =>
          cases isBeside : scopes.parent (some b) with
          | none => rfl
          | some beside =>
              simp only [induction (some a) (some b) (bounded_parent agree isAbove)
                (bounded_parent agree isBeside)]

private theorem lowestCommonAncestor (aBound : a.index < scopes.regions.size)
    (bBound : b.index < scopes.regions.size) :
    other.lowestCommonAncestor (some a) (some b) =
      scopes.lowestCommonAncestor (some a) (some b) := by
  have reached : ∀ {level steps inner climb}, inner.index < scopes.regions.size →
      scopes.climbTo level steps inner none = some climb →
        climb.region.index < scopes.regions.size := by
    intro level steps inner climb bounded climbed
    obtain ⟨_, _, within, _⟩ := climbTo_eq_some agree climbed
    exact Nat.lt_of_le_of_lt (within.rank_le (ranked agree)) bounded
  simp only [ScopeTree.lowestCommonAncestor, Option.bind_eq_bind, Option.bind_some,
    retains.depth? bBound, retains.climbTo agree _ _ _ aBound]
  refine Option.bind_congr fun depth _ => Option.bind_congr fun first firstClimbed => ?_
  have firstBound := reached aBound firstClimbed
  simp only [retains.depth? firstBound, retains.climbTo agree _ _ _ bBound]
  refine Option.bind_congr fun level _ => Option.bind_congr fun second secondClimbed => ?_
  exact retains.meet agree _ _ _ firstBound (reached bBound secondClimbed)

/-- Whether two regions exclude each other is read off regions below the one where they meet, which
is never that of the procedure. -/
theorem areExclusive (firstBound : ∀ id, first = some id → id.index < scopes.regions.size)
    (secondBound : ∀ id, second = some id → id.index < scopes.regions.size) :
    other.areExclusive first second = scopes.areExclusive first second := by
  cases first with
  | none => rfl
  | some a =>
      cases second with
      | none => rfl
      | some b =>
          unfold ScopeTree.areExclusive
          rw [retains.lowestCommonAncestor agree (firstBound a rfl) (secondBound b rfl)]
          cases met : scopes.lowestCommonAncestor (some a) (some b) with
          | none => rfl
          | some meeting =>
              rcases lowestCommonAncestor_eq_some agree met with
                ⟨_, nothing⟩ | ⟨_, nothing⟩ | ⟨left, right, isLeft, isRight, part⟩
              · simp only [nothing]
                rfl
              · simp only [nothing]
                cases other.region? meeting.left <;> cases scopes.region? meeting.left <;> rfl
              · obtain ⟨leftRegion, leftFound, leftParent⟩ :=
                  Option.bind_eq_some_iff.mp part.leftParent
                obtain ⟨rightRegion, rightFound, rightParent⟩ :=
                  Option.bind_eq_some_iff.mp part.rightParent
                obtain ⟨leftLater, leftFoundToo, _, _, leftTag, leftSpan⟩ :=
                  retains.region leftFound
                obtain ⟨rightLater, rightFoundToo, _, _, rightTag, rightSpan⟩ :=
                  retains.region rightFound
                rw [leftParent] at leftSpan
                rw [rightParent] at rightSpan
                simp only [isLeft, isRight, leftFound, rightFound, leftFoundToo, rightFoundToo,
                  Region.isOtherAlternative, Region.exitsBefore, leftTag, rightTag,
                  leftSpan nofun, rightSpan nofun]

end Retains

end LexicalScope.ScopeTree
