import LexicalScope.Proofs.StatementTree.Nesting

/-!
# Descending a proper tree

In a proper tree the statements below a statement are those within its children, and two of its
children share none.
-/

namespace LexicalScope.StatementTree

variable {tree : StatementTree} {id inner outer left right : StatementId} {node : StatementNode}
  {ref : StatementRef} {refs rest : List StatementRef}

theorem content?_eq (found : tree.statement? ref = some node) :
    tree.content? ref = some node.content := by
  simp [content?, found]

theorem kind?_eq (found : tree.statement? ref = some node) : tree.kind? ref = some node.kind := by
  simp [kind?, found]

theorem span_eq (found : tree.statement? ref = some node) : tree.span ref = node.span := by
  simp [span, found]

theorem parent_eq (found : tree.statement? ref = some node) : tree.parent ref = node.parent := by
  simp [parent, found]

theorem owner_eq {expression : ExpressionId} {node : ExpressionNode}
    (found : tree.expression? (some expression) = some node) :
    tree.owner expression = node.statement := by
  simp [owner, found]

/-! ## Several statements -/

@[simp] theorem isAmong_nil : ¬ tree.IsAmong [] inner := by
  rintro ⟨_, member, _⟩
  cases member

@[simp] theorem isAmong_cons :
    tree.IsAmong (ref :: rest) inner ↔
      (∃ first, ref = some first ∧ tree.IsWithin inner first) ∨ tree.IsAmong rest inner := by
  constructor
  · rintro ⟨first, member, within⟩
    rcases List.mem_cons.mp member with same | member
    · exact .inl ⟨first, same.symm, within⟩
    · exact .inr ⟨first, member, within⟩
  · rintro (⟨first, rfl, within⟩ | ⟨first, member, within⟩)
    · exact ⟨first, List.mem_cons_self, within⟩
    · exact ⟨first, List.mem_cons_of_mem _ member, within⟩

theorem isAmong_singleton : tree.IsAmong [some outer] inner ↔ tree.IsWithin inner outer := by simp

/-! ## Proper trees -/

namespace Proper

theorem parent_root (proper : tree.Proper) : tree.parent (some ⟨0⟩) = none := by
  obtain ⟨body, bodyFound, noParent⟩ := proper.body
  rw [parent_eq bodyFound, noParent]

theorem isLevel_root (proper : tree.Proper) : tree.IsLevel ⟨0⟩ 0 := .root proper.parent_root

theorem ranked (proper : tree.Proper) :
    Ranked (fun id => tree.parent (some id)) StatementId.index := by
  intro lower upper above
  obtain ⟨node, found, isParent⟩ := Option.bind_eq_some_iff.mp above
  rcases proper.listed found with rfl | ⟨listing, outer, listed, outerFound, member⟩
  · cases proper.parent_root.symm.trans above
  · obtain rfl := Option.some.inj (isParent.symm.trans listed)
    obtain ⟨child, isChild, same⟩ := List.mem_map.mp member
    obtain ⟨below, _, childSame, _, _, less, _⟩ := proper.child outerFound isChild
    obtain rfl := Option.some.inj (childSame.symm.trans same)
    exact less

/-- A listed child names its lister as its parent. -/
theorem parent_of_child (proper : tree.Proper) (found : tree.statement? (some id) = some node)
    (member : some inner ∈ node.content.children.map (·.1)) :
    tree.parent (some inner) = some id := by
  obtain ⟨child, isChild, same⟩ := List.mem_map.mp member
  obtain ⟨below, belowNode, childSame, belowFound, above, _⟩ := proper.child found isChild
  obtain rfl := Option.some.inj (childSame.symm.trans same)
  rw [parent_eq belowFound, above]

/-- A listed child exists. -/
theorem exists_of_child (proper : tree.Proper) (found : tree.statement? (some id) = some node)
    (member : ref ∈ node.content.children.map (·.1)) :
    ∃ below inner, ref = some below ∧ tree.statement? ref = some inner ∧
      (inner.kind = .switchSection ↔ node.kind = .switch) := by
  obtain ⟨child, isChild, rfl⟩ := List.mem_map.mp member
  obtain ⟨below, inner, same, belowFound, _, _, kinds⟩ := proper.child found isChild
  exact ⟨below, inner, same, same ▸ belowFound, kinds⟩

/-- A parent lists its child. -/
theorem child_of_parent (proper : tree.Proper) (above : tree.parent (some inner) = some id) :
    ∃ node, tree.statement? (some id) = some node ∧
      some inner ∈ node.content.children.map (·.1) := by
  obtain ⟨node, found, isParent⟩ := Option.bind_eq_some_iff.mp above
  rcases proper.listed found with rfl | ⟨listing, outer, listed, outerFound, member⟩
  · cases proper.parent_root.symm.trans above
  · obtain rfl := Option.some.inj (isParent.symm.trans listed)
    exact ⟨outer, outerFound, member⟩

/-- What lies within a statement is the statement or lies within one of its children. -/
theorem within_iff (proper : tree.Proper) (found : tree.statement? (some id) = some node) :
    tree.IsWithin inner id ↔ inner = id ∨ tree.IsAmong (node.content.children.map (·.1)) inner := by
  constructor
  · intro within
    rcases within.eq_or_child with same | ⟨child, above, below⟩
    · exact .inl same
    · obtain ⟨outer, outerFound, member⟩ := proper.child_of_parent above
      obtain rfl := Option.some.inj (found.symm.trans outerFound)
      exact .inr ⟨child, member, below⟩
  · rintro (rfl | ⟨child, member, below⟩)
    · exact .refl _
    · exact below.under_parent (proper.parent_of_child found member)

/-- What lies within a child of a statement is not the statement. -/
theorem not_among_self (proper : tree.Proper) (found : tree.statement? (some id) = some node) :
    ¬ tree.IsAmong (node.content.children.map (·.1)) id := by
  rintro ⟨child, member, below⟩
  exact below.not_under_child proper.ranked (proper.parent_of_child found member)

theorem below_iff (proper : tree.Proper) (found : tree.statement? (some id) = some node) :
    tree.IsBelow inner id ↔ tree.IsAmong (node.content.children.map (·.1)) inner := by
  rw [IsBelow, proper.within_iff found]
  constructor
  · rintro ⟨different, same | among⟩
    · exact absurd same different
    · exact among
  · intro among
    refine ⟨?_, .inr among⟩
    rintro rfl
    exact proper.not_among_self found among

/-- Two children of a statement share nothing. -/
theorem child_unique (proper : tree.Proper) (found : tree.statement? (some id) = some node)
    (leftMember : some left ∈ node.content.children.map (·.1))
    (rightMember : some right ∈ node.content.children.map (·.1))
    (inLeft : tree.IsWithin inner left) (inRight : tree.IsWithin inner right) : left = right :=
  Under.child_unique proper.ranked (proper.parent_of_child found leftMember)
    (proper.parent_of_child found rightMember) inLeft inRight

/-- Every statement lies within the body of the procedure. -/
theorem within_root (proper : tree.Proper) {id : StatementId} {node : StatementNode}
    (found : tree.statement? (some id) = some node) :
    tree.IsWithin id ⟨0⟩ := by
  rcases proper.listed found with rfl | ⟨above, outer, isParent, outerFound, _⟩
  · exact .refl _
  · have step : tree.parent (some id) = some above := (parent_eq found).trans isParent
    have := proper.ranked step
    exact (Under.ofParent step).trans (proper.within_root outerFound)
termination_by id.index

theorem exists_of_within_root (proper : tree.Proper) (within : tree.IsWithin id ⟨0⟩) :
    ∃ node, tree.statement? (some id) = some node := by
  rcases within.eq_or_parent with rfl | ⟨above, isParent, _⟩
  · exact ⟨_, proper.body.choose_spec.1⟩
  · obtain ⟨node, found, _⟩ := Option.bind_eq_some_iff.mp isParent
    exact ⟨node, found⟩

/-- A statement has no more statements around it than stand in front of it. -/
theorem level_le_index (proper : tree.Proper) {level : Nat} (isLevel : tree.IsLevel id level) :
    level ≤ id.index := by
  induction isLevel with
  | root _ => exact Nat.zero_le _
  | nested isParent _ induction => exact Nat.lt_of_le_of_lt induction (proper.ranked isParent)

/-- The expressions of a header and their parts are owned by the statement. -/
theorem owner_of_part (proper : tree.Proper) {whole part : ExpressionId}
    (isPart : tree.IsPart whole part) : tree.owner part = tree.owner whole := by
  induction isPart with
  | refl => rfl
  | @tail upper lower _ member induction =>
      cases found : tree.expression? (some upper) with
      | none => simp [expressionChildren, found] at member
      | some node =>
          simp only [expressionChildren, found, Option.map_some, Option.getD_some] at member
          obtain ⟨_, inner, partFound, owned⟩ := proper.part found member
          rw [← induction, owner_eq partFound, owner_eq found, owned]

/-- The expressions of a header are owned by their statement. -/
theorem owner_of_slot (proper : tree.Proper) (found : tree.statement? (some id) = some node)
    {whole : ExpressionId} (member : some whole ∈ node.content.expressionSlots) :
    tree.owner whole = some id := by
  obtain ⟨inner, innerFound, owned⟩ := proper.header found
    (List.mem_filterMap.mpr ⟨some whole, member, rfl⟩)
  rw [owner_eq innerFound, owned]

/-- Every expression that a statement owns is a part of one of its header. -/
theorem slot_of_owner (proper : tree.Proper) (found : tree.statement? (some id) = some node)
    {part : ExpressionId} (owned : tree.owner part = some id) :
    ∃ whole, some whole ∈ node.content.expressionSlots ∧ tree.IsPart whole part := by
  obtain ⟨inner, partFound, isOwner⟩ := Option.bind_eq_some_iff.mp owned
  obtain ⟨owner, outer, same, outerFound, whole, member, isPart⟩ := proper.owned partFound
  obtain rfl := Option.some.inj (isOwner.symm.trans same)
  obtain rfl := Option.some.inj (found.symm.trans outerFound)
  obtain ⟨slot, isSlot, sameSlot⟩ := List.mem_filterMap.mp member
  exact ⟨whole, sameSlot ▸ isSlot, isPart⟩

theorem apart (proper : tree.Proper) (found : tree.statement? (some id) = some node)
    (first : ref ∈ node.content.children.map (·.1))
    (others : ∀ other ∈ rest, other ∈ node.content.children.map (·.1)) (different : ref ∉ rest) :
    ∀ inner, tree.IsAmong [ref] inner → ¬ tree.IsAmong rest inner := by
  rintro inner ⟨left, isLeft, inLeft⟩ ⟨right, isRight, inRight⟩
  obtain rfl := List.mem_singleton.mp isLeft
  obtain rfl := proper.child_unique found first (others _ isRight) inLeft inRight
  exact different isRight

end Proper

end LexicalScope.StatementTree
