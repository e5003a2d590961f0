import LexicalScope.Proofs.Scope.Extent
import LexicalScope.Proofs.StatementTree.Positions

/-!
# Chains of `if`s

The links of a chain lie one within the alternative of the other, and each later alternative of an
`if` lies within the alternative of the links before. An `if` with an alternative either heads or
continues a chain, or has a plain `else`.
-/

namespace LexicalScope

section Branches

variable {node : StatementNode} {condition : ExpressionRef} {thenBody elseBody : StatementRef}

/-- The first branch of an `if` is a child. -/
theorem thenBody_listed (content : node.content = .branch condition thenBody elseBody) :
    thenBody ∈ node.content.children.map (·.1) :=
  List.mem_map_of_mem (StatementTree.thenBody_mem_children content)

/-- The alternative of an `if` is a child. -/
theorem elseBody_listed {elseBody : StatementId}
    (content : node.content = .branch condition thenBody (some elseBody)) :
    some elseBody ∈ node.content.children.map (·.1) := by
  simp [content, StatementContent.children]

theorem eq_of_listed {child thenBody : StatementId}
    (content : node.content = .branch condition (some thenBody) elseBody)
    (listed : some child ∈ node.content.children.map (·.1)) :
    child = thenBody ∨ elseBody = some child := by
  rw [content] at listed
  cases elseBody with
  | none => exact .inl (by simpa [StatementContent.children] using listed)
  | some elseBody =>
      simp only [StatementContent.children, List.map_cons, List.map_nil, List.mem_cons,
        Option.some.injEq, List.not_mem_nil, or_false] at listed
      exact listed.imp_right fun same => congrArg some same.symm

theorem exists_branch_of_kind {content : StatementContent} (isBranch : content.kind = .branch) :
    ∃ condition thenBody elseBody, content = .branch condition thenBody elseBody := by
  cases content with
  | branch condition thenBody elseBody => exact ⟨condition, thenBody, elseBody, rfl⟩
  | _ => cases isBranch

end Branches

namespace StatementTree

variable {tree : StatementTree} {head link later conditional statement body : StatementId}
  {condition : ExpressionRef} {thenBody elseBody : StatementRef} {number further : Nat}
  {node : StatementNode}

theorem Proper.parent_thenBody (proper : tree.Proper) {thenBody : StatementId}
    (content : tree.content? (some statement) =
      some (.branch condition (some thenBody) elseBody)) :
    tree.parent (some thenBody) = some statement := by
  obtain ⟨node, found, isContent⟩ := Option.map_eq_some_iff.mp content
  exact proper.parent_of_child found (thenBody_listed isContent)

theorem Proper.parent_elseBody (proper : tree.Proper) {elseBody : StatementId}
    (content : tree.content? (some statement) =
      some (.branch condition thenBody (some elseBody))) :
    tree.parent (some elseBody) = some statement := by
  obtain ⟨node, found, isContent⟩ := Option.map_eq_some_iff.mp content
  exact proper.parent_of_child found (elseBody_listed isContent)

/-! ## Links -/

namespace IsLink

theorem kind (isLink : tree.IsLink head number link) :
    tree.kind? (some link) = some .branch := by
  cases isLink with
  | head isBranch => exact isBranch
  | next _ _ isBranch => exact isBranch

/-- The head of a chain is an `if`. -/
theorem head_kind (isLink : tree.IsLink head number link) :
    tree.kind? (some head) = some .branch := by
  induction isLink with
  | head isBranch => exact isBranch
  | next _ _ _ induction => exact induction

theorem noSwitch (isLink : tree.IsLink head number link) :
    tree.kind? (some head) ≠ some .switch := by
  rw [isLink.head_kind]
  rintro ⟨⟩

/-- A chain has one link of each number. -/
theorem unique (isLink : tree.IsLink head number link) {other : StatementId}
    (isOther : tree.IsLink head number other) : link = other := by
  induction isLink generalizing other with
  | head _ =>
      cases isOther with
      | head _ => rfl
  | next _ content _ induction =>
      cases isOther with
      | next isOther otherContent _ =>
          obtain rfl := induction isOther
          obtain ⟨_, _, same⟩ :=
            StatementContent.branch.inj (Option.some.inj (content.symm.trans otherContent))
          exact Option.some.inj same

/-- A further link of a chain lies within the alternative of each link before. -/
theorem within_alternative (proper : tree.Proper) (isLink : tree.IsLink head number link)
    (isLater : tree.IsLink head further later) (less : number < further) :
    ∃ condition thenBody alternative,
      tree.content? (some link) = some (.branch condition thenBody (some alternative)) ∧
      tree.kind? (some alternative) = some .branch ∧ tree.IsWithin later alternative := by
  induction isLater with
  | head _ => exact absurd less (Nat.not_lt_zero _)
  | @next number before condition thenBody alternative isBefore content isBranch induction =>
      rcases Nat.lt_succ_iff_lt_or_eq.mp less with less | rfl
      · obtain ⟨firstCondition, firstThen, firstElse, firstContent, firstBranch, within⟩ :=
          induction less
        exact ⟨firstCondition, firstThen, firstElse, firstContent, firstBranch,
          (Under.ofParent (proper.parent_elseBody content)).trans within⟩
      · obtain rfl := isLink.unique isBefore
        exact ⟨condition, thenBody, alternative, content, isBranch, .refl _⟩

theorem le_of_last (proper : tree.Proper) (isLink : tree.IsLink head number link)
    {elseBody : StatementId}
    (content : tree.content? (some link) = some (.branch condition thenBody (some elseBody)))
    (notBranch : tree.kind? (some elseBody) ≠ some .branch)
    (isLater : tree.IsLink head further later) : further ≤ number := by
  refine Nat.not_lt.mp fun less => ?_
  obtain ⟨_, _, alternative, same, isBranch, _⟩ := isLink.within_alternative proper isLater less
  obtain ⟨_, _, sameElse⟩ :=
    StatementContent.branch.inj (Option.some.inj (content.symm.trans same))
  obtain rfl := Option.some.inj sameElse
  exact notBranch isBranch

private theorem eq_or_within (proper : tree.Proper) (isLink : tree.IsLink head number link) :
    link = head ∨ ∃ condition thenBody alternative,
      tree.content? (some head) = some (.branch condition thenBody (some alternative)) ∧
      tree.kind? (some alternative) = some .branch ∧ tree.IsWithin link alternative := by
  have isHead : tree.IsLink head 0 head := .head isLink.head_kind
  cases number with
  | zero => exact .inl (isLink.unique isHead)
  | succ number => exact .inr (isHead.within_alternative proper isLink (Nat.succ_pos number))

/-- Between a link of a chain and the head of the chain are only `if`s. -/
theorem kind_between (proper : tree.Proper) (isLink : tree.IsLink head number link)
    (above : tree.IsWithin link statement) (within : tree.IsWithin statement head) :
    tree.kind? (some statement) = some .branch := by
  induction isLink with
  | head isBranch => exact above.antisymm proper.ranked within ▸ isBranch
  | next _ content isBranch induction =>
      rcases above.eq_or_parent with rfl | ⟨upper, isUpper, higher⟩
      · exact isBranch
      · obtain rfl := Option.some.inj ((proper.parent_elseBody content).symm.trans isUpper)
        exact induction higher

theorem within_head (proper : tree.Proper) (isLink : tree.IsLink head number link) :
    tree.IsWithin link head := by
  induction isLink with
  | head _ => exact .refl _
  | next _ content _ induction =>
      exact (Under.ofParent (proper.parent_elseBody content)).trans induction

end IsLink

/-! ## Alternatives of an `if` -/

namespace IsAlternative

/-- The alternatives of an `if` are no sections. -/
theorem not_switchSection (isBranch : tree.kind? (some conditional) = some .branch)
    {subject : ExpressionRef} {sections : List StatementRef}
    (content : tree.content? (some conditional) = some (.switch subject sections)) : False := by
  obtain ⟨node, found, isContent⟩ := Option.map_eq_some_iff.mp content
  rw [kind?_eq found, StatementNode.kind, isContent] at isBranch
  cases isBranch

/-- The body of an alternative of an `if` is a child of a link of its chain. -/
theorem exists_link (proper : tree.Proper)
    (isBranch : tree.kind? (some conditional) = some .branch)
    (isBody : tree.IsAlternative conditional number body) :
    ∃ linkNumber link, tree.IsLink conditional linkNumber link ∧
      tree.parent (some body) = some link := by
  cases isBody with
  | link isLink content => exact ⟨_, _, isLink, proper.parent_thenBody content⟩
  | last isLink content _ => exact ⟨_, _, isLink, proper.parent_elseBody content⟩
  | switchSection content _ => exact (not_switchSection isBranch content).elim

/-- The body of a later alternative of an `if` lies within the alternative of each link before. -/
theorem within_alternative (proper : tree.Proper) (isLink : tree.IsLink conditional number link)
    (isBody : tree.IsAlternative conditional further body) (less : number < further) :
    ∃ condition thenBody alternative,
      tree.content? (some link) = some (.branch condition thenBody (some alternative)) ∧
      tree.IsWithin body alternative := by
  cases isBody with
  | link isLater content =>
      obtain ⟨linkCondition, linkThen, alternative, linkContent, _, within⟩ :=
        isLink.within_alternative proper isLater less
      exact ⟨linkCondition, linkThen, alternative, linkContent,
        (Under.ofParent (proper.parent_thenBody content)).trans within⟩
  | @last _ _ condition thenBody _ isLater content _ =>
      rcases Nat.lt_succ_iff_lt_or_eq.mp less with less | rfl
      · obtain ⟨linkCondition, linkThen, alternative, linkContent, _, within⟩ :=
          isLink.within_alternative proper isLater less
        exact ⟨linkCondition, linkThen, alternative, linkContent,
          (Under.ofParent (proper.parent_elseBody content)).trans within⟩
      · obtain rfl := isLink.unique isLater
        exact ⟨condition, thenBody, body, content, .refl _⟩
  | switchSection content _ => exact (not_switchSection isLink.head_kind content).elim

end IsAlternative

/-! ## An `if` with a plain `else` -/

/-- An `if` with an alternative that is not bound as one with a plain `else` belongs to a chain. -/
theorem chained_of_not_isTwoWay (proper : tree.Proper) {elseBody : StatementId}
    (found : tree.statement? (some statement) = some node)
    (content : node.content = .branch condition thenBody (some elseBody))
    (notTwoWay : ¬ tree.isTwoWay (some statement) = true) : tree.IsChained statement := by
  rw [proper.isTwoWay_iff found content, not_and_or, not_not, not_not] at notTwoWay
  rcases notTwoWay with isBranch | ⟨upper, outerCondition, outerThen, outer⟩
  · exact ⟨statement, elseBody, condition, thenBody, by rw [content?_eq found, content], isBranch,
      .inl rfl⟩
  · refine ⟨upper, statement, outerCondition, outerThen, outer, ?_, .inr rfl⟩
    rw [kind?_eq found, StatementNode.kind, content]
    rfl

theorem not_isLink_thenBody (proper : tree.Proper) {thenBody elseBody : StatementId}
    (content : tree.content? (some statement) =
      some (.branch condition (some thenBody) (some elseBody)))
    (notBranch : tree.kind? (some elseBody) ≠ some .branch) (number : Nat) :
    ¬ tree.IsLink statement number thenBody := by
  intro isLink
  rcases isLink.eq_or_within proper with rfl | ⟨_, _, _, same, kinds, _⟩
  · exact Under.not_under_child proper.ranked (proper.parent_thenBody content) (.refl _)
  · obtain ⟨_, _, sameElse⟩ := StatementContent.branch.inj
      (Option.some.inj (content.symm.trans same))
    obtain rfl := Option.some.inj sameElse
    exact notBranch kinds

end StatementTree

end LexicalScope
