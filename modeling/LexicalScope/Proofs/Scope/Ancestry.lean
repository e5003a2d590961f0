import LexicalScope.Proofs.Scope.Meeting
import LexicalScope.Proofs.Scope.Sites

/-!
# Walks to the regions around

The walks over the regions around others are limited in their steps, but the regions of a procedure
lie less deep than that. So the walk from a region meets just the regions around it, and the walks
from two regions always end: either one of the regions is around the other, or they part below the
lowest region around both.
-/

namespace LexicalScope.ScopeTree

variable {tree : StatementTree} {scopes : ScopeTree} {inner outer a b left right : RegionId}
  {region leftRegion rightRegion : Region} {meeting : Meeting}

/-! ## The regions around one -/

theorem mem_chain_of_parent_eq_none {steps : Nat} (noParent : scopes.parent (some inner) = none) :
    outer ∈ scopes.chain (steps + 1) (some inner) ↔ scopes.IsWithin inner outer := by
  have nothing : scopes.chain steps none = [] := by cases steps <;> rfl
  rw [chain, noParent, nothing, List.mem_singleton]
  constructor
  · rintro rfl
    exact .refl _
  · intro within
    rcases within.eq_or_parent with same | ⟨above, isAbove, _⟩
    · exact same.symm
    · rw [noParent] at isAbove
      cases isAbove

/-- A walk with enough steps meets the regions around the first one. -/
theorem mem_chain_iff (agree : Consistent scopes.regions scopes.declarations) {steps : Nat}
    (found : scopes.region? (some inner) = some region) (enough : region.depth < steps) :
    outer ∈ scopes.chain steps (some inner) ↔ scopes.IsWithin inner outer := by
  induction steps generalizing inner region with
  | zero => exact absurd enough (Nat.not_lt_zero _)
  | succ steps induction =>
      cases isParent : region.parent with
      | none => exact mem_chain_of_parent_eq_none ((parent_eq found).trans isParent)
      | some parent =>
          have above : scopes.parent (some inner) = some parent := (parent_eq found).trans isParent
          obtain ⟨_, next, nextFound, deeper⟩ := agree.parent found isParent
          rw [chain, List.mem_cons, above, induction nextFound (by omega)]
          constructor
          · rintro (rfl | higher)
            · exact .refl _
            · exact (Under.ofParent above).trans higher
          · intro within
            rcases within.eq_or_parent with same | ⟨known, isKnown, higher⟩
            · exact .inl same.symm
            · obtain rfl := Option.some.inj (above.symm.trans isKnown)
              exact .inr higher

namespace Follows

/-- Each statement around a region adds a few levels to its depth. -/
theorem depth_le (follows : scopes.Follows tree)
    (found : scopes.region? (some inner) = some region) :
    region.depth ≤ 4 * Limit.statementNesting := by
  by_cases isRoot : inner = ⟨0⟩
  · obtain ⟨root, rootFound, _, _, _, _, depth, _⟩ := follows.root
    rw [isRoot, rootFound] at found
    obtain rfl := Option.some.inj found
    rw [depth]
    exact Nat.zero_le _
  · obtain ⟨known, _, isKnown, settled, _⟩ :=
      follows.region (Array.getElem?_eq_some_iff.mp found).1 isRoot
    obtain rfl := Option.some.inj (isKnown.symm.trans found)
    exact settled.depth

/-- The regions of a procedure lie less deep than a walk is long. -/
theorem depth_lt_regionWalk (follows : scopes.Follows tree)
    (found : scopes.region? (some inner) = some region) : region.depth < Limit.regionWalk :=
  Nat.lt_of_le_of_lt (follows.depth_le found) (by decide)

theorem isAncestorOrSelf_iff (follows : scopes.Follows tree)
    (bounded : inner.index < scopes.regions.size) :
    scopes.isAncestorOrSelf (some outer) (some inner) = true ↔ scopes.IsWithin inner outer := by
  have found : scopes.region? (some inner) = some scopes.regions[inner.index] :=
    Array.getElem?_eq_getElem bounded
  rw [← mem_chain_iff follows.agree found (follows.depth_lt_regionWalk found), isAncestorOrSelf,
    ancestors, List.any_eq_true]
  simp

/-- Every region but that of the procedure has a parent, one level above. -/
theorem exists_parent (follows : scopes.Follows tree)
    (found : scopes.region? (some inner) = some region) (notRoot : inner ≠ ⟨0⟩) :
    ∃ parent outer, scopes.parent (some inner) = some parent ∧
      scopes.region? (some parent) = some outer ∧ region.depth = outer.depth + 1 := by
  obtain ⟨known, parent, isKnown, _, isParent, _⟩ :=
    follows.region (Array.getElem?_eq_some_iff.mp found).1 notRoot
  obtain rfl := Option.some.inj (isKnown.symm.trans found)
  obtain ⟨_, outer, outerFound, deeper⟩ := follows.agree.parent found isParent
  exact ⟨parent, outer, (parent_eq found).trans isParent, outerFound, deeper⟩

theorem depth_eq_zero_iff (follows : scopes.Follows tree)
    (found : scopes.region? (some inner) = some region) : region.depth = 0 ↔ inner = ⟨0⟩ := by
  constructor
  · intro shallow
    refine Decidable.byContradiction fun notRoot => ?_
    obtain ⟨_, _, _, _, deeper⟩ := follows.exists_parent found notRoot
    omega
  · rintro rfl
    obtain ⟨root, rootFound, _, _, _, _, depth, _⟩ := follows.root
    exact Option.some.inj (found.symm.trans rootFound) ▸ depth

end Follows

/-! ## The lowest region around two -/

private theorem climbTo_of_le {level steps depth : Nat} {below : RegionRef}
    (isDepth : scopes.depth? (some inner) = some depth) (notDeeper : depth ≤ level) :
    scopes.climbTo level steps inner below = some ⟨steps, inner, below⟩ := by
  unfold climbTo
  simp [isDepth, Nat.not_lt.mpr notDeeper]

private theorem climbTo_of_lt {level steps depth : Nat} {below : RegionRef}
    (isDepth : scopes.depth? (some inner) = some depth) (deeper : level < depth)
    (isParent : scopes.parent (some inner) = some outer) :
    scopes.climbTo level (steps + 1) inner below =
      scopes.climbTo level steps outer (some inner) := by
  rw [climbTo.eq_def]
  simp only [isDepth, deeper, if_true, isParent]

private theorem meet_self {steps : Nat} {leftRef rightRef : RegionRef} :
    scopes.meet steps ⟨a, leftRef, rightRef⟩ a = some ⟨a, leftRef, rightRef⟩ := by
  unfold meet
  exact if_pos rfl

private theorem meet_of_ne {steps : Nat} {leftRef rightRef : RegionRef} (different : a ≠ b)
    (isAbove : scopes.parent (some a) = some left)
    (isBeside : scopes.parent (some b) = some right) :
    scopes.meet (steps + 1) ⟨a, leftRef, rightRef⟩ b =
      scopes.meet steps ⟨left, some a, some b⟩ right := by
  rw [meet.eq_def]
  simp only [different, if_false, isAbove, isBeside]

namespace Follows

private theorem exists_climbTo (follows : scopes.Follows tree) (level steps : Nat)
    (below : RegionRef) (found : scopes.region? (some inner) = some region)
    (enough : region.depth ≤ level + steps) :
    ∃ climb reached, scopes.climbTo level steps inner below = some climb ∧
      scopes.region? (some climb.region) = some reached ∧ reached.depth = min level region.depth ∧
      climb.steps + region.depth = steps + reached.depth := by
  have isDepth : scopes.depth? (some inner) = some region.depth := by simp [depth?, found]
  induction steps generalizing inner region below with
  | zero => exact ⟨_, region, climbTo_of_le isDepth enough, found, by omega, rfl⟩
  | succ steps induction =>
      by_cases deeper : level < region.depth
      · have notRoot := mt (follows.depth_eq_zero_iff found).mpr (Nat.ne_zero_of_lt deeper)
        obtain ⟨parent, outer, isParent, outerFound, depth⟩ := follows.exists_parent found notRoot
        obtain ⟨climb, reached, climbed, reachedFound, isLevel, left⟩ :=
          induction (some inner) outerFound (by omega) (by simp [depth?, outerFound])
        rw [← climbTo_of_lt isDepth deeper isParent] at climbed
        exact ⟨climb, reached, climbed, reachedFound, by omega, by omega⟩
      · exact ⟨_, region, climbTo_of_le isDepth (Nat.not_lt.mp deeper), found, by omega, rfl⟩

private theorem exists_meet (follows : scopes.Follows tree) (steps : Nat)
    (leftRef rightRef : RegionRef) (leftFound : scopes.region? (some a) = some leftRegion)
    (rightFound : scopes.region? (some b) = some rightRegion)
    (level : leftRegion.depth = rightRegion.depth) (enough : leftRegion.depth ≤ steps) :
    ∃ meeting, scopes.meet steps ⟨a, leftRef, rightRef⟩ b = some meeting := by
  induction steps generalizing a b leftRegion rightRegion leftRef rightRef with
  | zero =>
      obtain rfl := (follows.depth_eq_zero_iff leftFound).mp (by omega)
      obtain rfl := (follows.depth_eq_zero_iff rightFound).mp (by omega)
      exact ⟨_, meet_self⟩
  | succ steps induction =>
      by_cases same : a = b
      · subst same
        exact ⟨_, meet_self⟩
      · have leftNotRoot : a ≠ ⟨0⟩ := by
          intro isRoot
          have shallow := (follows.depth_eq_zero_iff leftFound).mpr isRoot
          exact same (isRoot.trans ((follows.depth_eq_zero_iff rightFound).mp (by omega)).symm)
        have rightNotRoot : b ≠ ⟨0⟩ := by
          intro isRoot
          have shallow := (follows.depth_eq_zero_iff rightFound).mpr isRoot
          exact same (((follows.depth_eq_zero_iff leftFound).mp (by omega)).trans isRoot.symm)
        obtain ⟨above, upper, isAbove, upperFound, _⟩ :=
          follows.exists_parent leftFound leftNotRoot
        obtain ⟨beside, other, isBeside, otherFound, _⟩ :=
          follows.exists_parent rightFound rightNotRoot
        obtain ⟨meeting, met⟩ := induction (some a) (some b) upperFound otherFound (by omega)
          (by omega)
        exact ⟨meeting, (meet_of_ne same isAbove isBeside).trans met⟩

theorem exists_meetingWithin (follows : scopes.Follows tree) {limit : Nat}
    (leftFound : scopes.region? (some a) = some leftRegion)
    (rightFound : scopes.region? (some b) = some rightRegion)
    (leftEnough : leftRegion.depth ≤ limit) (rightEnough : rightRegion.depth ≤ limit) :
    ∃ meeting, scopes.meetingWithin limit a b = some meeting := by
  obtain ⟨first, firstRegion, firstClimbed, firstFound, firstLevel, firstSteps⟩ :=
    follows.exists_climbTo rightRegion.depth limit none leftFound (by omega)
  obtain ⟨second, secondRegion, secondClimbed, secondFound, secondLevel, secondSteps⟩ :=
    follows.exists_climbTo firstRegion.depth first.steps none rightFound (by omega)
  obtain ⟨meeting, met⟩ := follows.exists_meet second.steps first.below second.below firstFound
    secondFound (by omega) (by omega)
  refine ⟨meeting, ?_⟩
  simp [meetingWithin, depth?, rightFound, firstClimbed, firstFound, secondClimbed, met]

/-- Any two regions have a lowest region around both. -/
theorem exists_lowestCommonAncestor (follows : scopes.Follows tree)
    (leftFound : scopes.region? (some a) = some leftRegion)
    (rightFound : scopes.region? (some b) = some rightRegion) :
    ∃ meeting, scopes.lowestCommonAncestor (some a) (some b) = some meeting := by
  rw [lowestCommonAncestor_some]
  exact follows.exists_meetingWithin leftFound rightFound
    (Nat.le_of_lt (follows.depth_lt_regionWalk leftFound))
    (Nat.le_of_lt (follows.depth_lt_regionWalk rightFound))

end Follows

/-- Regions exclude each other that part at different alternatives of one conditional, or where one
is left before the other starts. -/
theorem Follows.areExclusive_of_part (follows : scopes.Follows tree)
    (part : scopes.Part a b outer left right) (aBound : a.index < scopes.regions.size)
    (bBound : b.index < scopes.regions.size)
    (leftFound : scopes.region? (some left) = some leftRegion)
    (rightFound : scopes.region? (some right) = some rightRegion)
    (excluded : leftRegion.isOtherAlternative rightRegion = true ∨
      leftRegion.exitsBefore rightRegion.span.start = true ∨
      rightRegion.exitsBefore leftRegion.span.start = true) :
    scopes.areExclusive (some a) (some b) = true := by
  obtain ⟨meeting, met⟩ := follows.exists_lowestCommonAncestor
    (Array.getElem?_eq_getElem aBound) (Array.getElem?_eq_getElem bBound)
  rcases lowestCommonAncestor_eq_some follows.agree met with
    ⟨within, _⟩ | ⟨within, _⟩ | ⟨known, knownToo, isLeft, isRight, parts⟩
  · exact absurd within (part.symm.not_within (ranked follows.agree))
  · exact absurd within (part.not_within (ranked follows.agree))
  · obtain ⟨rfl, rfl⟩ := part.unique (ranked follows.agree) parts
    simpa [areExclusive, met, isLeft, isRight, leftFound, rightFound, or_assoc] using excluded

end LexicalScope.ScopeTree
