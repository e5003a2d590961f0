import LexicalScope.Procedure.Build
import LexicalScope.Proofs.Scope.Ancestry
import LexicalScope.Proofs.Scope.Divisions

/-!
# Names reused across the arms of a conditional

Declarations introduced in different arms of a conditional lie inside the regions of these arms, and
these lie side by side. So climbing from the two declarations ends in the region around the arms,
with the regions of the arms reached last before it, and the declarations do not conflict.
-/

namespace LexicalScope

/-- A declaration is introduced in an arm of a conditional. Parameters are introduced outside all
statements. -/
def Declaration.IsInArm (tree : StatementTree) (declaration : Declaration)
    (conditional : StatementId) (number : Nat) : Prop :=
  declaration.kind ≠ .parameter ∧ ∃ statement, declaration.statement = some statement ∧
    tree.IsInArm conditional number statement

theorem Region.isOtherAlternative_comm (a b : Region) :
    a.isOtherAlternative b = b.isOtherAlternative a := by
  unfold isOtherAlternative
  cases a.branch <;> cases b.branch <;>
    simp [BranchTag.isOtherAlternative, Bool.beq_comm, bne]

namespace ScopeTree

variable {tree : StatementTree} {scopes : ScopeTree} {a b declaration : Declaration}
  {conditional : StatementId} {number further : Nat} {parent : RegionRef}
  {outer left right id other : RegionId} {leftRegion rightRegion : Region}

/-- Declarations whose regions part at different alternatives of one conditional do not conflict. -/
theorem Follows.conflict?_of_part (follows : scopes.Follows tree)
    (isRegion : a.region = some id) (isOther : b.region = some other)
    (part : scopes.Part id other outer left right) (bounded : id.index < scopes.regions.size)
    (otherBounded : other.index < scopes.regions.size)
    (leftFound : scopes.region? (some left) = some leftRegion)
    (rightFound : scopes.region? (some right) = some rightRegion)
    (others : leftRegion.isOtherAlternative rightRegion = true) : scopes.conflict? a b = none := by
  have notWithin := part.not_within (ranked follows.agree)
  have notAround := part.symm.not_within (ranked follows.agree)
  have different : ¬ a.region = b.region := by
    rw [isRegion, isOther]
    rintro ⟨⟩
    exact notWithin (.refl _)
  have apart : ¬ (scopes.isAncestorOrSelf (some id) (some other) ||
      scopes.isAncestorOrSelf (some other) (some id)) = true := by
    rw [Bool.or_eq_true, follows.isAncestorOrSelf_iff otherBounded,
      follows.isAncestorOrSelf_iff bounded]
    exact not_or.mpr ⟨notAround, notWithin⟩
  have exclusive : scopes.areExclusive (some id) (some other) = true :=
    follows.areExclusive_of_part part bounded otherBounded leftFound rightFound (.inl others)
  unfold conflict?
  by_cases sameName : a.name = b.name
  · rw [if_neg (not_not.mpr sameName), if_neg different, isRegion, isOther, if_neg apart,
      if_pos exclusive]
  · exact if_pos sameName

/-- A declaration introduced in an arm lies inside the region of the arm. -/
theorem Follows.exists_arm (follows : scopes.Follows tree)
    (arms : scopes.HasArms tree parent conditional 0) (member : declaration ∈ scopes.declarations)
    (inArm : declaration.IsInArm tree conditional number) :
    ∃ id arm region tag, declaration.region = some id ∧ id.index < scopes.regions.size ∧
      scopes.IsWithin id arm ∧ scopes.region? (some arm) = some region ∧ region.parent = parent ∧
      region.branch = some tag ∧ tag.conditional = some conditional ∧ tag.index = number := by
  obtain ⟨notParameter, statement, isStatement, inArm⟩ := inArm
  obtain ⟨index, found⟩ := Array.getElem?_of_mem member
  rcases follows.declaration found with ⟨isParameter, _⟩ |
    ⟨id, known, isRegion, bounded, stands, site⟩
  · exact absurd isParameter notParameter
  · obtain rfl := Option.some.inj (isStatement.symm.trans stands.1)
    obtain ⟨arm, region, tag, armFound, isParent, isTag, isConditional, isNumber, surrounds⟩ :=
      arms (Nat.zero_le number) inArm
    exact ⟨id, arm, region, tag, isRegion, bounded, (within_iff site armFound).mpr surrounds,
      armFound, isParent, isTag, isConditional, isNumber⟩

/-- Two declarations introduced in different arms of a conditional, however deep inside them and of
whatever names, do not conflict, whichever of them comes first. -/
theorem conflict?_of_isInArm {procedure : Procedure} {settings : ScopeSettings}
    (laidOut : StatementTree.ofProcedure procedure = .ok tree)
    (bound : ofStatementTree settings tree = .ok scopes)
    (isConditional : tree.IsConditional conditional)
    (aMember : a ∈ scopes.declarations) (bMember : b ∈ scopes.declarations)
    (aInArm : a.IsInArm tree conditional number) (bInArm : b.IsInArm tree conditional further)
    (different : number ≠ further) : scopes.conflict? a b = none ∧ scopes.conflict? b a = none := by
  have proper := StatementTree.proper_of_ofProcedure laidOut
  have follows := follows_of_ofProcedure laidOut bound
  obtain ⟨node, found⟩ := isConditional.exists_node
  obtain ⟨parent, arms⟩ := (divides_of_ofStatementTree proper bound found).arms isConditional
  obtain ⟨id, left, leftRegion, leftTag, isRegion, bounded, inLeft, leftFound, leftParent,
    isLeftTag, leftConditional, leftNumber⟩ := follows.exists_arm arms aMember aInArm
  obtain ⟨other, right, rightRegion, rightTag, isOther, otherBounded, inRight, rightFound,
    rightParent, isRightTag, rightConditional, rightNumber⟩ :=
    follows.exists_arm arms bMember bInArm
  have others : leftRegion.isOtherAlternative rightRegion = true := by
    simp [Region.isOtherAlternative, isLeftTag, isRightTag, BranchTag.isOtherAlternative,
      leftConditional, rightConditional, leftNumber, rightNumber, different]
  have apart : left ≠ right := by
    rintro rfl
    obtain rfl := Option.some.inj (leftFound.symm.trans rightFound)
    obtain rfl := Option.some.inj (isLeftTag.symm.trans isRightTag)
    exact different (leftNumber.symm.trans rightNumber)
  -- Only the region of the procedure has no parent, and it is no arm.
  have notRoot : left ≠ ⟨0⟩ := by
    rintro rfl
    obtain ⟨root, rootFound, _, _, _, noBranch, _⟩ := follows.root
    obtain rfl := Option.some.inj (rootFound.symm.trans leftFound)
    rw [noBranch] at isLeftTag
    cases isLeftTag
  obtain ⟨outer, _, isParent, _⟩ := follows.exists_parent leftFound notRoot
  have part : scopes.Part id other outer left right :=
    ⟨apart, isParent, by rw [parent_eq rightFound, rightParent, ← leftParent,
      ← parent_eq leftFound, isParent], inLeft, inRight⟩
  exact ⟨follows.conflict?_of_part isRegion isOther part bounded otherBounded leftFound rightFound
      others,
    follows.conflict?_of_part isOther isRegion part.symm otherBounded bounded rightFound leftFound
      (Region.isOtherAlternative_comm leftRegion rightRegion ▸ others)⟩

end ScopeTree

/-- A chain whose first condition tests for a type, with a block behind its plain `else`, that
declares the tested name again inside a loop. -/
def Procedure.reusingDeep : Procedure :=
  .plain "p" ["a"] (.ifElse (.testAs (.name "a") "T" "x") (.evaluation (.name "x"))
    (.ifElse (.name "a") .empty
      (.block [.whileLoop (.name "a") (.block [.localVariable "x" (some (.name "a"))])])))

theorem ScopeTree.conflict?_reusingDeep :
    ∃ tree scopes a b, StatementTree.ofProcedure .reusingDeep = .ok tree ∧
      ScopeTree.ofStatementTree .default tree = .ok scopes ∧ tree.IsConditional ⟨0⟩ ∧
      a ∈ scopes.declarations ∧ b ∈ scopes.declarations ∧ a.name = "x" ∧ b.name = "x" ∧
      a.IsInArm tree ⟨0⟩ 0 ∧ b.IsInArm tree ⟨0⟩ 2 ∧
      scopes.conflict? a b = none ∧ scopes.conflict? b a = none := by
  have binds : Procedure.reusingDeep.binds .default (fun tree scopes => decide (
      ((some ⟨2⟩, .nested .elseBody) ∈ tree.children (some ⟨0⟩) ∧
        (some ⟨4⟩, .nested .elseBody) ∈ tree.children (some ⟨2⟩) ∧
        tree.kind? (some ⟨0⟩) = some .branch ∧ tree.kind? (some ⟨2⟩) = some .branch ∧
        tree.kind? (some ⟨4⟩) = some .block ∧ tree.position? (some ⟨0⟩) = some .root ∧
        tree.parent (some ⟨7⟩) = some ⟨6⟩ ∧ tree.parent (some ⟨6⟩) = some ⟨5⟩ ∧
        tree.parent (some ⟨5⟩) = some ⟨4⟩) ∧
      ∃ a ∈ scopes.declarations, ∃ b ∈ scopes.declarations, a.name = "x" ∧ b.name = "x" ∧
        a.kind ≠ .parameter ∧ b.kind ≠ .parameter ∧ a.statement = some ⟨0⟩ ∧
        b.statement = some ⟨7⟩)) = true := by
    decide +kernel
  obtain ⟨tree, scopes, laidOut, bound, check⟩ := Procedure.exists_of_binds binds
  obtain ⟨⟨headElse, linkElse, headKind, linkKind, lastKind, isRoot, inBlock, inLoop, inLast⟩,
    a, aMember, b, bMember, aName, bName, aKind, bKind, aStatement, bStatement⟩ :=
    of_decide_eq_true check
  obtain ⟨_, _, headContent⟩ := StatementTree.exists_branch_of_children headElse
  obtain ⟨_, _, linkContent⟩ := StatementTree.exists_branch_of_children linkElse
  obtain ⟨node, found, _⟩ := Option.map_eq_some_iff.mp headKind
  have proper := StatementTree.proper_of_ofProcedure laidOut
  have noElse : ¬ tree.IsElseBody ⟨0⟩ := by
    rw [← proper.position?_eq_elseBody_iff found, isRoot]
    rintro ⟨⟩
  have isConditional : tree.IsConditional ⟨0⟩ := .inr ⟨⟨_, _, _, headContent⟩, noElse⟩
  have chained : tree.IsChained ⟨0⟩ := ⟨⟨0⟩, ⟨2⟩, _, _, headContent, linkKind, .inl rfl⟩
  have isLast : tree.IsAlternative ⟨0⟩ 2 ⟨4⟩ :=
    .last (.next (.head headKind) headContent linkKind) linkContent (by rw [lastKind]; rintro ⟨⟩)
  have within : tree.IsWithin ⟨7⟩ ⟨4⟩ :=
    (Under.ofParent inBlock).trans ((Under.ofParent inLoop).trans (Under.ofParent inLast))
  have aInArm : a.IsInArm tree ⟨0⟩ 0 := ⟨aKind, ⟨0⟩, aStatement, .inr ⟨.head headKind, chained⟩⟩
  have bInArm : b.IsInArm tree ⟨0⟩ 2 := ⟨bKind, ⟨7⟩, bStatement, .inl ⟨⟨4⟩, isLast, within⟩⟩
  exact ⟨tree, scopes, a, b, laidOut, bound, isConditional, aMember, bMember, aName, bName, aInArm,
    bInArm, conflict?_of_isInArm laidOut bound isConditional aMember bMember aInArm bInArm
      (by decide)⟩

end LexicalScope
