import LexicalScope.Proofs.Scope.Chains
import LexicalScope.Proofs.Scope.Openings

/-!
# Arms of conditionals

The arms of a chain of `if`s are its links, each with its condition and its first branch, and the
alternative of the last one. An `if` with a plain `else` has its two branches for arms, and a switch
its sections. In a scope tree each arm has a region, and the regions of all arms of a conditional
lie in the same region.
-/

namespace LexicalScope

namespace StatementTree

variable {tree : StatementTree} {head link later conditional statement inner : StatementId}
  {condition : ExpressionRef} {elseBody : StatementRef} {number further : Nat}
  {node : StatementNode}

/-- A statement has arms: it is a switch, or an `if` with an alternative that is no link behind
another one. -/
def IsConditional (tree : StatementTree) (statement : StatementId) : Prop :=
  tree.kind? (some statement) = some .switch ∨
    ((∃ condition thenBody alternative, tree.content? (some statement) =
      some (.branch condition thenBody (some alternative))) ∧ ¬ tree.IsElseBody statement)

/-- A statement lies in the arm of a number: within the body of the alternative, or it is the link
of a chain whose condition belongs there. -/
def IsInArm (tree : StatementTree) (conditional : StatementId) (number : Nat)
    (statement : StatementId) : Prop :=
  (∃ body, tree.IsAlternative conditional number body ∧ tree.IsWithin statement body) ∨
    (tree.IsLink conditional number statement ∧ tree.IsChained statement)

theorem IsConditional.exists_node (isConditional : tree.IsConditional statement) :
    ∃ node, tree.statement? (some statement) = some node := by
  rcases isConditional with isSwitch | ⟨⟨_, _, _, content⟩, _⟩
  · obtain ⟨node, found, _⟩ := Option.map_eq_some_iff.mp isSwitch
    exact ⟨node, found⟩
  · obtain ⟨node, found, _⟩ := Option.map_eq_some_iff.mp content
    exact ⟨node, found⟩

theorem IsConditional.content (isConditional : tree.IsConditional statement)
    (found : tree.statement? (some statement) = some node) :
    node.kind = .switch ∨ ∃ condition thenBody alternative,
      node.content = .branch condition thenBody (some alternative) := by
  rcases isConditional with isSwitch | ⟨⟨condition, thenBody, alternative, content⟩, _⟩
  · exact .inl (Option.some.inj ((kind?_eq found).symm.trans isSwitch))
  · exact .inr ⟨condition, thenBody, alternative,
      Option.some.inj ((content?_eq found).symm.trans content)⟩

theorem Proper.not_isChained (proper : tree.Proper) {thenBody : StatementRef}
    {elseBody : StatementId} (found : tree.statement? (some statement) = some node)
    (content : node.content = .branch condition thenBody (some elseBody))
    (twoWay : tree.isTwoWay (some statement) = true) : ¬ tree.IsChained statement := by
  obtain ⟨notBranch, noElse⟩ := (proper.isTwoWay_iff found content).mp twoWay
  rintro ⟨upper, lower, _, _, outer, isBranch, rfl | rfl⟩
  · rw [content?_eq found, content] at outer
    obtain ⟨_, _, same⟩ := StatementContent.branch.inj (Option.some.inj outer)
    obtain rfl := Option.some.inj same
    exact notBranch isBranch
  · exact noElse ⟨_, _, _, outer⟩

/-! ## Links behind others -/

/-- A link behind another one is an alternative. -/
theorem IsLink.isElseBody (isLink : tree.IsLink head (number + 1) link) :
    tree.IsElseBody link := by
  cases isLink with
  | next _ content _ => exact ⟨_, _, _, content⟩

theorem IsElseBody.not_isTwoWay (proper : tree.Proper) (isElse : tree.IsElseBody statement)
    (found : tree.statement? (some statement) = some node) :
    ¬ tree.isTwoWay (some statement) = true := by
  by_cases single : ∀ condition thenBody elseBody,
      node.content ≠ .branch condition thenBody (some elseBody)
  · exact StatementTree.not_isTwoWay found single
  · simp only [not_forall, not_not] at single
    obtain ⟨condition, thenBody, elseBody, content⟩ := single
    exact fun twoWay => ((proper.isTwoWay_iff found content).mp twoWay).2 isElse

theorem IsElseBody.isBoundary (proper : tree.Proper) (isElse : tree.IsElseBody statement) :
    tree.IsBoundary statement := by
  obtain ⟨upper, condition, thenBody, content⟩ := isElse
  obtain ⟨outer, known, isContent⟩ := Option.map_eq_some_iff.mp content
  have listed : (some statement, .nested .elseBody) ∈ outer.content.children := by
    simp [isContent, StatementContent.children]
  exact (proper.isBoundary_iff known listed).mpr (.inl rfl)

theorem IsLink.not_isConditional (isLink : tree.IsLink head (number + 1) link) :
    ¬ tree.IsConditional link := by
  rintro (isSwitch | ⟨_, noElse⟩)
  · rw [isLink.kind] at isSwitch
    cases isSwitch
  · exact noElse isLink.isElseBody

/-! ## Which arm -/

/-- From a link of a chain on, a statement lies in the arm of the link or behind it. -/
theorem IsInArm.cases_of_link (proper : tree.Proper) {thenBody : StatementId}
    (isLink : tree.IsLink head number link)
    (content : tree.content? (some link) = some (.branch condition (some thenBody) elseBody))
    (inArm : tree.IsInArm head further inner) (behind : number ≤ further) :
    (further = number ∧ (inner = link ∧ tree.IsChained link ∨ tree.IsWithin inner thenBody)) ∨
      ∃ alternative, elseBody = some alternative ∧ number < further ∧
        (tree.kind? (some alternative) ≠ some .branch →
          further = number + 1 ∧ tree.IsWithin inner alternative) := by
  rcases Nat.eq_or_lt_of_le behind with rfl | less
  · refine .inl ⟨rfl, ?_⟩
    rcases inArm with ⟨body, isBody, within⟩ | ⟨isInner, chained⟩
    · cases isBody with
      | link isOther otherContent =>
          obtain rfl := isLink.unique isOther
          obtain ⟨_, same, _⟩ :=
            StatementContent.branch.inj (Option.some.inj (content.symm.trans otherContent))
          obtain rfl := Option.some.inj same
          exact .inr within
      | last isBefore otherContent notBranch =>
          exact absurd (isBefore.le_of_last proper otherContent notBranch isLink)
            (Nat.not_succ_le_self _)
      | switchSection switchContent _ =>
          exact (IsAlternative.not_switchSection isLink.head_kind switchContent).elim
    · obtain rfl := isLink.unique isInner
      exact .inl ⟨rfl, chained⟩
  · right
    rcases inArm with ⟨body, isBody, within⟩ | ⟨isInner, _⟩
    · obtain ⟨_, _, alternative, same, inElse⟩ := isBody.within_alternative proper isLink less
      obtain ⟨rfl, _, rfl⟩ :=
        StatementContent.branch.inj (Option.some.inj (content.symm.trans same))
      refine ⟨alternative, rfl, less, fun notBranch => ⟨?_, within.trans inElse⟩⟩
      cases isBody with
      | link isLater _ =>
          have := isLink.le_of_last proper content notBranch isLater
          omega
      | last isLater _ _ =>
          have := isLink.le_of_last proper content notBranch isLater
          omega
      | switchSection switchContent _ =>
          exact (IsAlternative.not_switchSection isLink.head_kind switchContent).elim
    · obtain ⟨_, _, alternative, same, isBranch, _⟩ :=
        isLink.within_alternative proper isInner less
      obtain ⟨_, _, rfl⟩ :=
        StatementContent.branch.inj (Option.some.inj (content.symm.trans same))
      exact ⟨alternative, rfl, less, fun notBranch => absurd isBranch notBranch⟩

theorem IsInArm.exists_section {subject : ExpressionRef} {sections : List StatementRef}
    (content : tree.content? (some conditional) = some (.switch subject sections))
    (inArm : tree.IsInArm conditional number inner) :
    ∃ body, sections[number]? = some (some body) ∧ tree.IsWithin inner body := by
  rcases inArm with ⟨body, isBody, within⟩ | ⟨isLink, _⟩
  · cases isBody with
    | link isLink _ => exact (IsAlternative.not_switchSection isLink.head_kind content).elim
    | last isLink _ _ => exact (IsAlternative.not_switchSection isLink.head_kind content).elim
    | switchSection otherContent isSection =>
        obtain ⟨rfl, rfl⟩ :=
          StatementContent.switch.inj (Option.some.inj (content.symm.trans otherContent))
        exact ⟨body, isSection, within⟩
  · exact (IsAlternative.not_switchSection isLink.head_kind content).elim

end StatementTree

/-! ## Regions of arms -/

namespace ScopeTree

variable {scopes : ScopeTree} {tree : StatementTree} {parent : RegionRef} {tag : BranchTag}
  {kind : RegionKind} {conditional head link body inner : StatementId} {number : Nat}

/-- A scope tree has a region for an arm, with a parent, that surrounds a statement. -/
def HasArm (scopes : ScopeTree) (tree : StatementTree) (parent : RegionRef)
    (conditional : StatementId) (number : Nat) (inner : StatementId) : Prop :=
  ∃ id region tag, scopes.region? (some id) = some region ∧ region.parent = parent ∧
    region.branch = some tag ∧ tag.conditional = some conditional ∧ tag.index = number ∧
    region.Surrounds tree inner

/-- A scope tree has a region with one parent for each arm of a conditional from a number on. -/
def HasArms (scopes : ScopeTree) (tree : StatementTree) (parent : RegionRef)
    (conditional : StatementId) (number : Nat) : Prop :=
  ∀ {further : Nat} {inner : StatementId}, number ≤ further →
    tree.IsInArm conditional further inner → scopes.HasArm tree parent conditional further inner

namespace HasRegion

/-- The region of a block or section is that of the arm that it is. -/
theorem hasArm (has : scopes.HasRegion kind body parent (some tag))
    (plain : kind = .block ∨ kind = .switchSection)
    (isConditional : tag.conditional = some conditional) (within : tree.IsWithin inner body) :
    scopes.HasArm tree parent conditional tag.index inner := by
  obtain ⟨id, region, found, isKind, isBoundary, isParent, isBranch⟩ := has
  refine ⟨id, region, tag, found, isParent, isBranch, isConditional, rfl,
    .inr ⟨body, isBoundary, ?_⟩⟩
  rw [isKind]
  rcases plain with rfl | rfl <;> exact within

theorem hasArm_around (has : scopes.HasRegion .branch body parent (some tag))
    (isConditional : tag.conditional = some conditional)
    (noLink : ∀ number, ¬ tree.IsLink conditional number body)
    (within : tree.IsWithin inner body) :
    scopes.HasArm tree parent conditional tag.index inner := by
  obtain ⟨id, region, found, isKind, isBoundary, isParent, isBranch⟩ := has
  refine ⟨id, region, tag, found, isParent, isBranch, isConditional, rfl,
    .inr ⟨body, isBoundary, ?_⟩⟩
  rw [isKind]
  refine .inr ⟨?_, within⟩
  rintro ⟨_, known, head, number, isTag, isHead, isLink⟩
  obtain rfl := Option.some.inj (isBranch.symm.trans isTag)
  obtain rfl := Option.some.inj (isConditional.symm.trans isHead)
  exact noLink number isLink

theorem hasArm_link (has : scopes.HasRegion .branch link parent (some tag))
    (isConditional : tag.conditional = some head) (isLink : tree.IsLink head number link)
    {condition : ExpressionRef} {thenBody : StatementId} {elseBody : StatementRef}
    (content : tree.content? (some link) = some (.branch condition (some thenBody) elseBody))
    (inArm : inner = link ∨ tree.IsWithin inner thenBody) :
    scopes.HasArm tree parent head tag.index inner := by
  obtain ⟨id, region, found, isKind, isBoundary, isParent, isBranch⟩ := has
  refine ⟨id, region, tag, found, isParent, isBranch, isConditional, rfl,
    .inr ⟨link, isBoundary, ?_⟩⟩
  rw [isKind]
  refine .inl ⟨⟨isKind, tag, head, number, isBranch, isConditional, isLink⟩, ?_⟩
  exact inArm.imp_right fun within => ⟨condition, thenBody, elseBody, content, within⟩

end HasRegion

end ScopeTree

end LexicalScope
