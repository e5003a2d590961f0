import LexicalScope.Proofs.Pass.Reach
import LexicalScope.Proofs.Scope.Visit

/-!
# Passes through alternatives

Two alternatives of a conditional lie in different children of one statement, and no pass goes
through both.
-/

namespace LexicalScope.StatementTree

variable {tree : StatementTree} {conditional first second body other : StatementId}
  {number further : Nat}

/-- Two alternatives of a conditional lie in different children of one statement, and no way through
the statement goes through both. -/
theorem IsAlternative.exists_parting (proper : tree.Proper)
    (isBody : tree.IsAlternative conditional number body)
    (isOther : tree.IsAlternative conditional further other) (less : number < further) :
    ∃ statement node left right, tree.statement? (some statement) = some node ∧
      some left ∈ node.content.children.map (·.1) ∧ some right ∈ node.content.children.map (·.1) ∧
      tree.IsWithin body left ∧ tree.IsWithin other right ∧
      ∀ way ∈ node.content.ways, some left ∈ way → some right ∉ way := by
  cases isBody with
  | @link number link condition thenBody elseBody isLink content =>
      obtain ⟨_, _, alternative, same, within⟩ := isOther.within_alternative proper isLink less
      obtain ⟨rfl, rfl, rfl⟩ :=
        StatementContent.branch.inj (Option.some.inj (content.symm.trans same))
      obtain ⟨node, found, isContent⟩ := Option.map_eq_some_iff.mp content
      have distinct := proper.distinct found
      simp only [isContent, StatementContent.children, List.map_cons, List.map_nil,
        List.nodup_cons, List.mem_singleton] at distinct
      refine ⟨link, node, body, alternative, found, by simp [isContent, StatementContent.children],
        by simp [isContent, StatementContent.children], .refl _, within, fun way isWay => ?_⟩
      simp only [isContent, StatementContent.ways, List.mem_cons, List.not_mem_nil, or_false]
        at isWay
      rcases isWay with rfl | rfl
      · exact fun _ member => distinct.1 (List.mem_singleton.mp member).symm
      · exact fun member => absurd (List.mem_singleton.mp member) distinct.1
  | @last number link condition thenBody elseBody isLink content notBranch =>
      -- No link and no alternative comes behind the last one.
      exfalso
      cases isOther with
      | link isLater _ =>
          have := isLink.le_of_last proper content notBranch isLater
          omega
      | last isLater _ _ =>
          have := isLink.le_of_last proper content notBranch isLater
          omega
      | switchSection content _ => exact (not_switchSection isLink.head_kind content).elim
  | @switchSection number subject sections body content isSection =>
      obtain ⟨node, found, isContent⟩ := Option.map_eq_some_iff.mp content
      cases isOther with
      | link isLink _ => exact (not_switchSection isLink.head_kind content).elim
      | last isLink _ _ => exact (not_switchSection isLink.head_kind content).elim
      | switchSection otherContent isOther =>
          obtain ⟨rfl, rfl⟩ :=
            StatementContent.switch.inj (Option.some.inj (content.symm.trans otherContent))
          have distinct := proper.distinct found
          have children : node.content.children.map (·.1) = sections := by
            simp [isContent, StatementContent.children, Function.comp_def]
          rw [children] at distinct
          refine ⟨conditional, node, body, other, found, children ▸ List.mem_of_getElem? isSection,
            children ▸ List.mem_of_getElem? isOther, .refl _, .refl _, fun way isWay => ?_⟩
          simp only [isContent, StatementContent.ways, List.mem_cons, List.mem_map] at isWay
          rcases isWay with rfl | ⟨chosen, _, rfl⟩
          · rintro ⟨⟩
          · intro isFirst isSecond
            have same := (List.mem_singleton.mp isFirst).trans (List.mem_singleton.mp isSecond).symm
            have sameNumber := (List.getElem?_inj (List.getElem?_eq_some_iff.mp isSection).1
              distinct).mp (isSection.trans (same ▸ isOther.symm))
            exact Nat.ne_of_lt less sameNumber

section Passes

variable {refs : List StatementRef} {reached : List StatementId} {exit : Exit}

private theorem Pass.not_later_alternative (proper : tree.Proper) (bracketed : tree.Bracketed)
    (pass : tree.Pass refs reached exit) (ordered : tree.Ordered refs)
    (all : ∀ {statement node}, tree.statement? (some statement) = some node →
      tree.IsAmong refs statement)
    (isBody : tree.IsAlternative conditional number body)
    (isOther : tree.IsAlternative conditional further other) (less : number < further)
    (inBody : tree.IsWithin first body) (inOther : tree.IsWithin second other)
    (firstReached : first ∈ reached) : second ∉ reached := by
  intro secondReached
  obtain ⟨statement, node, left, right, found, leftListed, rightListed, inLeft, inRight, parts⟩ :=
    isBody.exists_parting proper isOther less
  have firstLeft := inBody.trans inLeft
  have secondRight := inOther.trans inRight
  obtain ⟨way, isWay, firstAmong, secondAmong⟩ := pass.sameWay proper bracketed ordered found
    (all found) firstReached secondReached
    ((proper.below_iff found).mpr ⟨left, leftListed, firstLeft⟩)
    ((proper.below_iff found).mpr ⟨right, rightListed, secondRight⟩)
  -- The children that the way goes through are those in which the two statements lie.
  have chosen : ∀ {child inner}, some child ∈ node.content.children.map (·.1) →
      tree.IsWithin inner child → tree.IsAmong way inner → some child ∈ way := by
    rintro child inner listed within ⟨taken, member, inTaken⟩
    obtain rfl := proper.child_unique found listed
      ((StatementContent.sublist_of_mem_ways isWay).mem member) within inTaken
    exact member
  exact parts way isWay (chosen leftListed firstLeft firstAmong)
    (chosen rightListed secondRight secondAmong)

/-- No pass goes through two alternatives of one conditional. -/
theorem Pass.not_both_alternatives (proper : tree.Proper) (bracketed : tree.Bracketed)
    (pass : tree.Pass refs reached exit) (ordered : tree.Ordered refs)
    (all : ∀ {statement node}, tree.statement? (some statement) = some node →
      tree.IsAmong refs statement)
    (isBody : tree.IsAlternative conditional number body)
    (isOther : tree.IsAlternative conditional further other) (different : number ≠ further)
    (inBody : tree.IsWithin first body) (inOther : tree.IsWithin second other)
    (firstReached : first ∈ reached) : second ∉ reached := by
  rcases Nat.lt_or_gt_of_ne different with less | less
  · exact pass.not_later_alternative proper bracketed ordered all isBody isOther less inBody inOther
      firstReached
  · exact fun secondReached => pass.not_later_alternative proper bracketed ordered all isOther
      isBody less inOther inBody secondReached firstReached

end Passes

end LexicalScope.StatementTree
