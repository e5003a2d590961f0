import LexicalScope.Procedure.Build
import LexicalScope.Proofs.Pass.Alternatives
import LexicalScope.Proofs.Scope.Meeting
import LexicalScope.Proofs.Scope.Sites

/-!
# Regions that exclude each other

No pass through a procedure without stated spans evaluates expressions of two regions that exclude
each other. Where the regions part, they belong either to two alternatives of one conditional or to
an alternative that always exits and to something behind its conditional; in between is nothing that
catches the exit, because it would hold both regions.
-/

namespace LexicalScope

/-- An expression is counted in its region: it belongs neither to the labels of a section nor to the
condition of a link of a chain, which run without their alternatives being taken. -/
def StatementTree.IsCounted (tree : StatementTree) (expression : ExpressionId) : Prop :=
  ∃ owner, tree.owner expression = some owner ∧ tree.kind? (some owner) ≠ some .switchSection ∧
    ¬ tree.IsChained owner

/-- A pass that reaches some statements may evaluate an expression that is counted in a region or in
one inside it. -/
def ScopeTree.Evaluates (scopes : ScopeTree) (tree : StatementTree) (reached : List StatementId)
    (id : RegionId) : Prop :=
  ∃ expression owner recorded, tree.IsCounted expression ∧ tree.owner expression = some owner ∧
    owner ∈ reached ∧ scopes.regionOfExpression (some expression) = some recorded ∧
    scopes.IsWithin recorded id

namespace ScopeTree.Follows

variable {scopes : ScopeTree} {tree : StatementTree} {id outer left right recorded : RegionId}
  {region leftRegion rightRegion : Region} {first second statement conditional body : StatementId}
  {node : StatementNode} {tag : BranchTag}

/-- A loop or section around the conditional of one region holds what the other region holds, if the
regions lie directly inside the same one. -/
theorem header_around (follows : scopes.Follows tree) (proper : tree.Proper) {kind : RegionKind}
    (leftFound : scopes.region? (some left) = some leftRegion)
    (leftParent : scopes.parent (some left) = some outer)
    (rightParent : scopes.parent (some right) = some outer)
    (isTag : leftRegion.branch = some tag) (isConditional : tag.conditional = some conditional)
    (isBranch : tree.kind? (some conditional) = some .branch)
    (firstSite : scopes.IsSite tree id first) (inLeft : scopes.IsWithin id left)
    (firstWithin : tree.IsWithin first conditional)
    (secondSite : scopes.IsSite tree recorded second) (inRight : scopes.IsWithin recorded right)
    (found : tree.statement? (some statement) = some node)
    (isHeader : node.kind.headerRegion? = some kind)
    (around : tree.IsWithin conditional statement) : tree.IsWithin second statement := by
  obtain ⟨header, region, regionFound, site, isBoundary, surrounds⟩ :=
    follows.headerRegion found isHeader
  -- The header is no part of the alternative, which is part of the conditional.
  have outside :
      ¬ (leftRegion.Surrounds tree statement ∨ leftRegion.boundary = some statement) := by
    intro surrounded
    obtain ⟨known, body, fits, inBody⟩ :=
      (follows.settled leftFound leftParent).origin.tag tag isTag
    obtain rfl := Option.some.inj (isConditional.symm.trans fits.conditional_eq)
    have isKind : tree.kind? (some statement) = some .branch := by
      rcases inBody statement surrounded with within | ⟨isLink, _⟩
      · obtain ⟨_, link, isLink, above⟩ := fits.alternative.exists_link proper isBranch
        have := (within.under_parent above).trans (isLink.within_head proper)
        exact this.antisymm proper.ranked around ▸ isBranch
      · exact isLink.kind
    rw [StatementTree.kind?_eq found] at isKind
    rw [Option.some.inj isKind] at isHeader
    cases isHeader
  have inHeader : scopes.IsWithin id header :=
    (within_iff firstSite regionFound).mpr ((surrounds first).mpr (firstWithin.trans around))
  rcases inLeft.total inHeader with leftWithin | headerWithin
  · rcases leftWithin.eq_or_parent with rfl | ⟨above, isAbove, higher⟩
    · obtain rfl := Option.some.inj (leftFound.symm.trans regionFound)
      exact absurd (.inr isBoundary) outside
    · obtain rfl := Option.some.inj (leftParent.symm.trans isAbove)
      exact (surrounds second).mp ((within_iff secondSite regionFound).mp
        ((inRight.under_parent rightParent).trans higher))
  · exact absurd (.inl ((within_iff site leftFound).mp headerWithin)) outside

/-- An alternative that always exits before the other region starts is left past that region. -/
theorem leavesBehind (follows : scopes.Follows tree) (proper : tree.Proper)
    (bracketed : tree.Bracketed) {later : StatementId}
    (leftFound : scopes.region? (some left) = some leftRegion)
    (leftParent : scopes.parent (some left) = some outer)
    (rightParent : scopes.parent (some right) = some outer)
    (isTag : leftRegion.branch = some tag) (fits : tag.Fits tree conditional body)
    (isBranch : tree.kind? (some conditional) = some .branch) (exits : tag.exits = true)
    (behind : (tree.span (some conditional)).stop ≤ (tree.span (some later)).start)
    (firstSite : scopes.IsSite tree id first) (inLeft : scopes.IsWithin id left)
    (firstWithin : tree.IsWithin first conditional)
    (secondSite : scopes.IsSite tree recorded second) (inRight : scopes.IsWithin recorded right)
    (secondWithin : tree.IsWithin second later) :
    tree.LeavesBehind conditional body later := by
  obtain ⟨number, link, isLink, above⟩ := fits.alternative.exists_link proper isBranch
  obtain ⟨conditionalNode, conditionalFound, isKind⟩ := Option.map_eq_some_iff.mp isBranch
  refine ⟨fits.exits isBranch exits, (Under.ofParent above).trans (isLink.within_head proper),
    ⟨_, conditionalFound⟩, fun {inner innerNode} found within below => ?_, behind,
    fun {around node} found below catches => ?_⟩
  · rcases below.2.eq_or_parent with same | ⟨parent, isParent, higher⟩
    · exact absurd same below.1
    · obtain rfl := Option.some.inj (above.symm.trans isParent)
      have kinds := isLink.kind_between proper higher within
      rw [StatementTree.kind?_eq found] at kinds
      exact Option.some.inj kinds
  · -- A loop holds the later statement itself, a switch in the section around the conditional.
    have holds : ∀ {holder : StatementId} {holderNode : StatementNode} {kind : RegionKind},
        tree.statement? (some holder) = some holderNode →
        holderNode.kind.headerRegion? = some kind → tree.IsWithin conditional holder →
          tree.IsWithin later holder := by
      intro holder holderNode kind holderFound isHeader inHolder
      have secondInHolder := follows.header_around proper leftFound leftParent rightParent isTag
        fits.conditional_eq isBranch firstSite inLeft firstWithin secondSite inRight holderFound
        isHeader inHolder
      rcases secondInHolder.total secondWithin with under | under
      · exact absurd (inHolder.trans under)
          (bracketed.apart proper behind conditionalFound (.refl _))
      · exact under
    by_cases isSwitch : node.kind = .switch
    · obtain ⟨child, listed, inChild⟩ := (proper.below_iff found).mp below
      obtain ⟨known, inner, same, childFound, kinds⟩ := proper.exists_of_child found listed
      obtain rfl := Option.some.inj same
      have isHeader : inner.kind.headerRegion? = some .switchSection := by
        rw [kinds.mpr isSwitch]
        rfl
      exact (holds childFound isHeader inChild).under_parent (proper.parent_of_child found listed)
    · have isHeader : node.kind.headerRegion? = some .loop := by
        cases kind : node.kind <;>
          simp_all [StatementKind.catchesBreak, StatementKind.headerRegion?]
      exact holds found isHeader below.2

/-- A pass that evaluates a counted expression of an alternative that always exits does not reach a
region behind the conditional. -/
theorem not_reached_of_exitsBefore (follows : scopes.Follows tree) (proper : tree.Proper)
    (bracketed : tree.Bracketed) {reached : List StatementId} {exit : Exit}
    (pass : tree.Pass [some ⟨0⟩] reached exit)
    (leftFound : scopes.region? (some left) = some leftRegion)
    (rightFound : scopes.region? (some right) = some rightRegion)
    (leftParent : scopes.parent (some left) = some outer)
    (rightParent : scopes.parent (some right) = some outer)
    (exits : leftRegion.exitsBefore rightRegion.span.start = true)
    (firstSite : scopes.IsSite tree id first) (inLeft : scopes.IsWithin id left)
    (counted : ¬ tree.IsChained first) (firstReached : first ∈ reached)
    (secondSite : scopes.IsSite tree recorded second) (inRight : scopes.IsWithin recorded right) :
    second ∉ reached := by
  have leftSettled := follows.settled leftFound leftParent
  have rightOrigin := (follows.settled rightFound rightParent).origin
  obtain ⟨later, laterNode, isLater, laterFound⟩ := rightOrigin.boundary
  unfold Region.exitsBefore at exits
  cases isTag : leftRegion.branch with
  | none => simp [isTag] at exits
  | some tag =>
      simp only [isTag, BranchTag.exitsBefore, Bool.and_eq_true, decide_eq_true_eq] at exits
      obtain ⟨alwaysExits, behind⟩ := exits
      obtain ⟨conditional, body, fits, inBody⟩ := leftSettled.origin.tag tag isTag
      rw [fits.span_eq, rightOrigin.span_start isLater] at behind
      have firstWithin : tree.IsWithin first body := by
        rcases inBody first (.inl ((within_iff firstSite leftFound).mp inLeft)) with within | link
        · exact within
        · exact absurd link.2 counted
      have secondSurrounded := (within_iff secondSite rightFound).mp inRight
      have secondWithin := rightOrigin.within_boundary proper isLater secondSurrounded
      by_cases isBranch : tree.kind? (some conditional) = some .branch
      · obtain ⟨_, link, isLink, above⟩ := fits.alternative.exists_link proper isBranch
        have leaves := follows.leavesBehind proper bracketed leftFound leftParent rightParent isTag
          fits isBranch alwaysExits behind firstSite inLeft
          ((firstWithin.under_parent above).trans (isLink.within_head proper)) secondSite inRight
          secondWithin
        obtain ⟨bodyNode, bodyFound, _⟩ := Option.bind_eq_some_iff.mp above
        exact leaves.not_reached proper bracketed pass (List.pairwise_singleton _ _)
          (StatementTree.isAmong_singleton.mpr (proper.within_root bodyFound)) firstReached
          firstWithin secondWithin
      · -- The sections of a switch are in a region of their own, which ends with the switch.
        have isSwitch : tree.kind? (some conditional) = some .switch := by
          obtain ⟨number, isBody⟩ : ∃ number, tree.IsAlternative conditional number body :=
            ⟨_, fits.alternative⟩
          cases isBody with
          | link isLink _ => exact absurd isLink.head_kind isBranch
          | last isLink _ _ => exact absurd isLink.head_kind isBranch
          | switchSection content _ =>
              obtain ⟨node, found, isContent⟩ := Option.map_eq_some_iff.mp content
              rw [StatementTree.kind?_eq found, StatementNode.kind, isContent]
              rfl
        obtain ⟨parent, parentRegion, isParent, parentFound, isKind, isBoundary⟩ :=
          leftSettled.inSwitch tag conditional isTag fits.conditional_eq isSwitch
        rw [parent_eq leftFound] at leftParent
        obtain rfl := Option.some.inj (leftParent.symm.trans isParent)
        have surrounds := (within_iff secondSite parentFound).mp (inRight.under_parent rightParent)
        have inSwitch : tree.IsWithin second conditional := by
          unfold Region.Surrounds at surrounds
          simp only [isKind, isBoundary, reduceCtorEq, false_or, Option.some.injEq,
            exists_eq_left'] at surrounds
          exact surrounds.2
        obtain ⟨node, found, _⟩ := Option.map_eq_some_iff.mp isSwitch
        exact absurd secondWithin (bracketed.apart proper behind found inSwitch)

end ScopeTree.Follows

/-- No pass through the body of a procedure evaluates expressions of two regions that exclude each
other. -/
theorem ScopeTree.not_evaluates_both_of_areExclusive {procedure : Procedure}
    {settings : ScopeSettings} {tree : StatementTree} {scopes : ScopeTree}
    (unstated : procedure.stated = []) (laidOut : StatementTree.ofProcedure procedure = .ok tree)
    (bound : ScopeTree.ofStatementTree settings tree = .ok scopes) {a b : RegionId}
    (exclusive : scopes.areExclusive (some a) (some b) = true) {reached : List StatementId}
    {exit : Exit} (pass : tree.Pass [tree.root] reached exit) :
    ¬ (scopes.Evaluates tree reached a ∧ scopes.Evaluates tree reached b) := by
  have proper := StatementTree.proper_of_ofProcedure laidOut
  have bracketed := StatementTree.bracketed_of_ofProcedure laidOut unstated
  have follows := ScopeTree.follows_of_ofProcedure laidOut bound
  rw [proper.root] at pass
  rintro ⟨⟨e, first, id, firstCounted, firstOwner, firstReached, firstRecorded, inA⟩,
    ⟨f, second, recorded, secondCounted, secondOwner, secondReached, secondRecorded, inB⟩⟩
  obtain ⟨outer, left, right, leftRegion, rightRegion, part, leftFound, rightFound, reason⟩ :=
    exists_part_of_areExclusive follows.agree exclusive
  have inLeft := inA.trans part.inLeft
  have inRight := inB.trans part.inRight
  have site : ∀ {expression : ExpressionId} {owner : StatementId} {recorded : RegionId},
      tree.owner expression = some owner →
      scopes.regionOfExpression (some expression) = some recorded →
        scopes.IsSite tree recorded owner := by
    intro expression owner recorded owned isRecorded
    obtain ⟨known, isKnown, _, site⟩ := follows.expression owned
    exact Option.some.inj (isKnown.symm.trans isRecorded) ▸ site
  have firstSite := site firstOwner firstRecorded
  have secondSite := site secondOwner secondRecorded
  have notChained : ∀ {expression : ExpressionId} {owner : StatementId},
      tree.IsCounted expression → tree.owner expression = some owner → ¬ tree.IsChained owner := by
    rintro expression owner ⟨known, isKnown, _, notChained⟩ owned
    exact Option.some.inj (isKnown.symm.trans owned) ▸ notChained
  have firstPlain := notChained firstCounted firstOwner
  have secondPlain := notChained secondCounted secondOwner
  rcases reason with alternatives | leftExits | rightExits
  · unfold Region.isOtherAlternative at alternatives
    split at alternatives
    next leftTag rightTag isLeftTag isRightTag =>
      simp only [BranchTag.isOtherAlternative, Bool.and_eq_true, beq_iff_eq, bne_iff_ne]
        at alternatives
      obtain ⟨conditional, body, fits, inBody⟩ :=
        (follows.settled leftFound part.leftParent).origin.tag leftTag isLeftTag
      obtain ⟨otherConditional, other, otherFits, inOther⟩ :=
        (follows.settled rightFound part.rightParent).origin.tag rightTag isRightTag
      obtain rfl := Option.some.inj (fits.conditional_eq.symm.trans
        (alternatives.1.trans otherFits.conditional_eq))
      have firstWithin := (inBody first (.inl ((Follows.within_iff firstSite leftFound).mp
        inLeft))).resolve_right fun link => firstPlain link.2
      have secondWithin := (inOther second (.inl ((Follows.within_iff secondSite rightFound).mp
        inRight))).resolve_right fun link => secondPlain link.2
      exact pass.not_both_alternatives proper bracketed (List.pairwise_singleton _ _)
        (fun found => StatementTree.isAmong_singleton.mpr (proper.within_root found))
        fits.alternative otherFits.alternative alternatives.2 firstWithin secondWithin firstReached
        secondReached
    next => cases alternatives
  · exact follows.not_reached_of_exitsBefore proper bracketed pass leftFound rightFound
      part.leftParent part.rightParent leftExits firstSite inLeft firstPlain firstReached secondSite
      inRight secondReached
  · exact follows.not_reached_of_exitsBefore proper bracketed pass rightFound leftFound
      part.rightParent part.leftParent rightExits secondSite inRight secondPlain secondReached
      firstSite inLeft firstReached

/-- A procedure that returns from one block before another one. -/
def Procedure.earlyReturn : Procedure :=
  .plain "p" ["a"] (.block
    [.ifThen (.name "a") (.block [.evaluation (.outVariable "x"), .returning none]),
      .block [.evaluation (.outVariable "x")]])

theorem ScopeTree.not_evaluates_both_earlyReturn :
    ∃ tree scopes, Procedure.earlyReturn.stated = [] ∧
      StatementTree.ofProcedure .earlyReturn = .ok tree ∧
      ScopeTree.ofStatementTree .default tree = .ok scopes ∧
      scopes.areExclusive (some ⟨1⟩) (some ⟨2⟩) = true ∧
      tree.Pass [tree.root] [⟨0⟩, ⟨1⟩, ⟨2⟩, ⟨3⟩, ⟨4⟩] .ended ∧
      ¬ (scopes.Evaluates tree [⟨0⟩, ⟨1⟩, ⟨2⟩, ⟨3⟩, ⟨4⟩] ⟨1⟩ ∧
        scopes.Evaluates tree [⟨0⟩, ⟨1⟩, ⟨2⟩, ⟨3⟩, ⟨4⟩] ⟨2⟩) := by
  have unstated : Procedure.earlyReturn.stated = [] := by decide
  have binds : Procedure.earlyReturn.binds .default (fun tree scopes =>
      scopes.areExclusive (some ⟨1⟩) (some ⟨2⟩) &&
        decide (([⟨0⟩, ⟨1⟩, ⟨2⟩, ⟨3⟩, ⟨4⟩], Exit.ended) ∈ tree.passes 9 [tree.root])) = true := by
    decide +kernel
  obtain ⟨tree, scopes, laidOut, bound, check⟩ := Procedure.exists_of_binds binds
  rw [Bool.and_eq_true, decide_eq_true_eq] at check
  have pass := StatementTree.pass_of_mem_passes check.2
  exact ⟨tree, scopes, unstated, laidOut, bound, check.1, pass,
    not_evaluates_both_of_areExclusive unstated laidOut bound check.1 pass⟩

end LexicalScope
