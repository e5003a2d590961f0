import LexicalScope.Procedure.Build
import LexicalScope.Proofs.Layout.Nesting
import LexicalScope.StatementTree.Links
import Mathlib.Data.List.Nodup

/-!
# References of laid-out procedures

The tree of a procedure passes the check of its references. It is a tree in the strict sense: every
statement but the root is listed once among all lists of children, and every expression once among
all headers and all parts of expressions.
-/

namespace LexicalScope

theorem nodup_flatMap_range {Element : Type} {lists : Nat → List Element} {count : Nat}
    (each : ∀ index < count, (lists index).Nodup)
    (apart : ∀ first second element, element ∈ lists first → element ∈ lists second →
      first = second) : ((List.range count).flatMap lists).Nodup := by
  refine List.nodup_flatMap.mpr ⟨fun index member => each index (List.mem_range.mp member), ?_⟩
  refine List.nodup_range.imp fun {first second} different element inFirst inSecond => ?_
  exact different (apart first second element inFirst inSecond)

namespace StatementTree

/-! ## Lists -/

/-- What the statements list as their children. -/
def listedStatements (tree : StatementTree) : List StatementRef :=
  (List.range tree.statements.size).flatMap fun index => (tree.children (some ⟨index⟩)).map (·.1)

/-- What the statements list in their headers. -/
def headerLists (tree : StatementTree) : List ExpressionId :=
  (List.range tree.statements.size).flatMap fun index => tree.headerExpressions (some ⟨index⟩)

/-- What the expressions list as their parts. -/
def partLists (tree : StatementTree) : List ExpressionId :=
  (List.range tree.expressions.size).flatMap fun index => tree.expressionChildren (some ⟨index⟩)

/-- A tree in which everything is listed once, by what it names as its parent. -/
structure Linked (tree : StatementTree) : Prop where
  /-- The first statement is the root, and the root is no section. -/
  root : tree.root = some ⟨0⟩ ∧ 0 < tree.statements.size ∧
    tree.kind? tree.root ≠ some .switchSection
  /-- Only the root has no parent. -/
  parentless : ∀ id : StatementId, id.index < tree.statements.size →
    (tree.parent (some id) = none ↔ id = ⟨0⟩)
  /-- Any other statement is listed once, by a parent in front of it. -/
  statement : ∀ id : StatementId, id.index < tree.statements.size → id ≠ ⟨0⟩ →
    ∃ above, tree.parent (some id) = some above ∧ above.index < id.index ∧
      some id ∈ (tree.children (some above)).map (·.1) ∧
      tree.listedStatements.count (some id) = 1
  /-- The children of a switch are sections, and no other children are. -/
  child : ∀ (id : StatementId), ∀ child ∈ tree.children (some id),
    (tree.kind? child.1 = some .switchSection ↔ tree.kind? (some id) = some .switch)
  /-- Every expression is listed once. -/
  expression : ∀ id : ExpressionId, id.index < tree.expressions.size →
    (tree.headerLists ++ tree.partLists).count id = 1
  /-- A header lists expressions that no expression holds and that the statement owns. -/
  header : ∀ statement, ∀ expression ∈ tree.headerExpressions (some statement),
    expression.index < tree.expressions.size ∧ tree.holder expression = none ∧
      tree.owner expression = some statement
  /-- An expression lists parts behind it that it holds and that have its owner. -/
  part : ∀ whole, ∀ part ∈ tree.expressionChildren (some whole),
    part.index < tree.expressions.size ∧ whole.index < part.index ∧
      tree.holder part = some whole ∧ tree.owner part = tree.owner whole

section Whole

variable {procedure : Procedure} {tree : StatementTree}

theorem exists_statement {id : StatementId} (bound : id.index < tree.statements.size) :
    ∃ node, tree.statement? (some id) = some node :=
  ⟨_, Array.getElem?_eq_getElem bound⟩

theorem exists_expression {id : ExpressionId} (bound : id.index < tree.expressions.size) :
    ∃ node, tree.expression? (some id) = some node :=
  ⟨_, Array.getElem?_eq_getElem bound⟩

theorem exists_of_mem_children {id : StatementId} {child : StatementRef × Position}
    (member : child ∈ tree.children (some id)) :
    ∃ node, tree.statement? (some id) = some node ∧ child ∈ node.content.children := by
  cases found : tree.statement? (some id) with
  | none => simp [children, found] at member
  | some node => exact ⟨node, rfl, by simpa [children, found] using member⟩

private theorem exists_of_mem_headerExpressions {id : StatementId} {expression : ExpressionId}
    (member : expression ∈ tree.headerExpressions (some id)) :
    ∃ node, tree.statement? (some id) = some node ∧ expression ∈ node.content.expressions := by
  cases found : tree.statement? (some id) with
  | none => simp [headerExpressions, found] at member
  | some node => exact ⟨node, rfl, by simpa [headerExpressions, found] using member⟩

theorem exists_of_mem_expressionChildren {id part : ExpressionId}
    (member : part ∈ tree.expressionChildren (some id)) :
    ∃ node, tree.expression? (some id) = some node ∧ part ∈ node.content.children := by
  cases found : tree.expression? (some id) with
  | none => simp [expressionChildren, found] at member
  | some node => exact ⟨node, rfl, by simpa [expressionChildren, found] using member⟩

/-- What a header lists is held by no expression and owned by the statement. -/
theorem header_of_ofProcedure (laidOut : ofProcedure procedure = .ok tree) (statement : StatementId)
    (expression : ExpressionId) (member : expression ∈ tree.headerExpressions (some statement)) :
    expression.index < tree.expressions.size ∧ tree.holder expression = none ∧
      tree.owner expression = some statement := by
  obtain ⟨next, last, row⟩ := row_of_ofProcedure laidOut
  obtain ⟨node, found, listed⟩ := exists_of_mem_headerExpressions member
  have settled := (settled_of_statement row found).1
  obtain ⟨inner, innerFound, owned⟩ := settled.header expression listed
  exact ⟨index_lt_of_expression innerFound, settled.lists.held expression listed,
    by simp [owner, innerFound, owned]⟩

/-- What an expression lists stands behind it, is held by it and has its owner. -/
theorem part_of_ofProcedure (laidOut : ofProcedure procedure = .ok tree)
    (whole part : ExpressionId) (member : part ∈ tree.expressionChildren (some whole)) :
    part.index < tree.expressions.size ∧ whole.index < part.index ∧
      tree.holder part = some whole ∧ tree.owner part = tree.owner whole := by
  obtain ⟨next, last, row⟩ := row_of_ofProcedure laidOut
  obtain ⟨node, found, listed⟩ := exists_of_mem_expressionChildren member
  have settled := settled_of_expression row found
  obtain ⟨behind, inner, innerFound, owned⟩ := settled.part part listed
  exact ⟨index_lt_of_expression innerFound, behind, settled.lists.held part listed,
    by simp [owner, innerFound, found, owned]⟩

/-! ## Uniqueness -/

private theorem nodup_listedStatements (laidOut : ofProcedure procedure = .ok tree) :
    tree.listedStatements.Nodup := by
  have proper := proper_of_ofProcedure laidOut
  refine nodup_flatMap_range (fun index bound => ?_) fun first second child inFirst inSecond => ?_
  · obtain ⟨node, found⟩ : ∃ node, tree.statement? (some ⟨index⟩) = some node :=
      exists_statement bound
    simpa [children, found] using proper.distinct found
  · obtain ⟨listed, firstMember, rfl⟩ := List.mem_map.mp inFirst
    obtain ⟨again, secondMember, same⟩ := List.mem_map.mp inSecond
    obtain ⟨_, found, firstListed⟩ := exists_of_mem_children firstMember
    obtain ⟨_, otherFound, secondListed⟩ := exists_of_mem_children secondMember
    obtain ⟨below, inner, isBelow, innerFound, above, _⟩ := proper.child found firstListed
    obtain ⟨other, outer, isOther, outerFound, otherAbove, _⟩ :=
      proper.child otherFound secondListed
    obtain rfl := Option.some.inj (isOther.symm.trans (same.trans isBelow))
    obtain rfl := Option.some.inj (outerFound.symm.trans innerFound)
    simpa [above] using otherAbove

theorem nodup_of_lists {holder : ExpressionRef} {parts : List ExpressionId}
    (lists : tree.Lists holder parts) : parts.Nodup := by
  refine lists.ascending.imp fun {first second} less same => ?_
  rw [same] at less
  exact Nat.lt_irrefl _ less

private theorem nodup_headerLists (laidOut : ofProcedure procedure = .ok tree) :
    tree.headerLists.Nodup := by
  obtain ⟨next, last, row⟩ := row_of_ofProcedure laidOut
  refine nodup_flatMap_range (fun index bound => ?_) fun first second element inFirst inSecond => ?_
  · obtain ⟨node, found⟩ : ∃ node, tree.statement? (some ⟨index⟩) = some node :=
      exists_statement bound
    simpa [headerExpressions, found] using nodup_of_lists (settled_of_statement row found).1.lists
  · have owned := (header_of_ofProcedure laidOut _ _ inFirst).2.2
    have ownedToo := (header_of_ofProcedure laidOut _ _ inSecond).2.2
    simpa using owned.symm.trans ownedToo

private theorem nodup_partLists (laidOut : ofProcedure procedure = .ok tree) :
    tree.partLists.Nodup := by
  obtain ⟨next, last, row⟩ := row_of_ofProcedure laidOut
  refine nodup_flatMap_range (fun index bound => ?_) fun first second element inFirst inSecond => ?_
  · obtain ⟨node, found⟩ : ∃ node, tree.expression? (some ⟨index⟩) = some node :=
      exists_expression bound
    simpa [expressionChildren, found] using nodup_of_lists (settled_of_expression row found).lists
  · have held := (part_of_ofProcedure laidOut _ _ inFirst).2.2.1
    have heldToo := (part_of_ofProcedure laidOut _ _ inSecond).2.2.1
    simpa using held.symm.trans heldToo

private theorem nodup_expressionLists (laidOut : ofProcedure procedure = .ok tree) :
    (tree.headerLists ++ tree.partLists).Nodup := by
  refine (nodup_headerLists laidOut).append (nodup_partLists laidOut)
    fun element inHeader inPart => ?_
  obtain ⟨_, _, inHeader⟩ := List.mem_flatMap.mp inHeader
  obtain ⟨_, _, inPart⟩ := List.mem_flatMap.mp inPart
  have free := (header_of_ofProcedure laidOut _ _ inHeader).2.1
  have held := (part_of_ofProcedure laidOut _ _ inPart).2.2.1
  rw [free] at held
  cases held

private theorem mem_expressionLists (laidOut : ofProcedure procedure = .ok tree) {id : ExpressionId}
    (bound : id.index < tree.expressions.size) : id ∈ tree.headerLists ++ tree.partLists := by
  obtain ⟨node, found⟩ := exists_expression bound
  obtain ⟨owner, outer, _, ownerFound, whole, listed, isPart⟩ :=
    (proper_of_ofProcedure laidOut).owned found
  rcases Relation.ReflTransGen.cases_tail isPart with same | ⟨upper, _, member⟩
  · refine List.mem_append_left _ (List.mem_flatMap.mpr
      ⟨owner.index, List.mem_range.mpr (index_lt_of_statement ownerFound), ?_⟩)
    simpa [headerExpressions, ownerFound, same] using listed
  · obtain ⟨_, upperFound, _⟩ := exists_of_mem_expressionChildren member
    exact List.mem_append_right _ (List.mem_flatMap.mpr
      ⟨upper.index, List.mem_range.mpr (index_lt_of_expression upperFound), member⟩)

/-! ## The check -/

/-- The check of an expression passes, since parts stand behind what they are a part of. -/
theorem checkExpression_eq_ok (laidOut : ofProcedure procedure = .ok tree)
    {statement : StatementId} {steps : Nat} {expression : ExpressionId}
    (inside : expression.index < tree.expressions.size)
    (owned : tree.owner expression = some statement)
    (enough : tree.expressions.size < steps + expression.index) :
    tree.checkExpression statement steps expression = .ok () := by
  induction steps generalizing expression with
  | zero => omega
  | succ steps induction =>
      obtain ⟨node, found⟩ := exists_expression inside
      have nodeOwned : node.statement = some statement := by simpa [owner, found] using owned
      have parts : ∀ part ∈ node.content.children.reverse,
          tree.checkExpression statement steps part = .ok () := by
        intro part member
        have listed : part ∈ tree.expressionChildren (some expression) := by
          simpa [expressionChildren, found] using member
        obtain ⟨bound, behind, _, same⟩ := part_of_ofProcedure laidOut _ _ listed
        exact induction bound (same.trans owned) (by omega)
      simp [checkExpression, found, nodeOwned, Step.forM_eq_ok_iff.mpr parts]

private theorem checkStatement_eq_ok (laidOut : ofProcedure procedure = .ok tree) {id : StatementId}
    (bound : id.index < tree.statements.size) : tree.checkStatement id = .ok () := by
  obtain ⟨node, found⟩ := exists_statement bound
  have children : ∀ child ∈ node.content.children, tree.checkChild id node child.1 = .ok () := by
    intro child member
    obtain ⟨below, inner, isBelow, innerFound, above, _, kind⟩ :=
      (proper_of_ofProcedure laidOut).child found member
    have placed : ¬(node.kind = .switch ∧ inner.kind ≠ .switchSection) :=
      fun ⟨isSwitch, noSection⟩ => noSection (kind.mpr isSwitch)
    simp [checkChild, isBelow, innerFound, above, placed]
  have header : ∀ expression ∈ node.content.expressions,
      tree.checkExpression id tree.expressionSteps expression = .ok () := by
    intro expression member
    obtain ⟨inside, _, owned⟩ := header_of_ofProcedure laidOut id expression
      (by simpa [headerExpressions, found] using member)
    exact checkExpression_eq_ok laidOut inside owned (by simp only [expressionSteps]; omega)
  simp only [checkStatement, found]
  exact Step.and_then_eq_ok.mpr
    ⟨Step.forM_eq_ok_iff.mpr children, Step.forM_eq_ok_iff.mpr header⟩

theorem checkLinks_eq_ok (laidOut : ofProcedure procedure = .ok tree) :
    tree.checkLinks = .ok () := by
  have proper := proper_of_ofProcedure laidOut
  obtain ⟨body, found, _⟩ := proper.body
  have statements : ∀ index ∈ List.range tree.statements.size,
      tree.checkStatement ⟨index⟩ = .ok () :=
    fun index member => checkStatement_eq_ok laidOut (List.mem_range.mp member)
  simp [checkLinks, proper.root, found, Step.forM_eq_ok_iff.mpr statements]

/-! ## The whole tree -/

private theorem statement_of_ofProcedure (laidOut : ofProcedure procedure = .ok tree)
    {id : StatementId} (bound : id.index < tree.statements.size) (other : id ≠ ⟨0⟩) :
    ∃ above, tree.parent (some id) = some above ∧ above.index < id.index ∧
      some id ∈ (tree.children (some above)).map (·.1) := by
  have proper := proper_of_ofProcedure laidOut
  obtain ⟨node, found⟩ := exists_statement bound
  rcases proper.listed found with first | ⟨above, outer, parent, outerFound, member⟩
  · exact absurd first other
  · obtain ⟨child, inChildren, same⟩ := List.mem_map.mp member
    obtain ⟨below, _, isBelow, _, _, behind, _⟩ := proper.child outerFound inChildren
    obtain rfl := Option.some.inj (isBelow.symm.trans same)
    exact ⟨above, by simp [StatementTree.parent, found, parent], behind,
      by simpa [children, outerFound] using member⟩

/-- The tree of a procedure passes the check of its references, and everything in it is listed once,
by what it names as its parent. -/
theorem linked_of_ofProcedure (laidOut : ofProcedure procedure = .ok tree) :
    tree.checkLinks = .ok () ∧ tree.Linked := by
  have proper := proper_of_ofProcedure laidOut
  obtain ⟨next, last, row⟩ := row_of_ofProcedure laidOut
  obtain ⟨_, bound, body, bodyFound, bodyParent, bodyKind, _⟩ :=
    row.child ⟨0⟩ (List.mem_singleton_self _)
  refine ⟨checkLinks_eq_ok laidOut, ⟨proper.root, bound, ?_⟩, fun id bound => ?_,
    fun id bound other => ?_, fun id child member => ?_, fun id bound => ?_,
    header_of_ofProcedure laidOut, part_of_ofProcedure laidOut⟩
  · simpa [proper.root, kind?, bodyFound] using bodyKind
  · constructor
    · intro parentless
      by_contra other
      obtain ⟨above, parent, _⟩ := statement_of_ofProcedure laidOut bound other
      rw [parentless] at parent
      cases parent
    · rintro rfl
      simp [StatementTree.parent, bodyFound, bodyParent]
  · obtain ⟨above, parent, before, member⟩ := statement_of_ofProcedure laidOut bound other
    refine ⟨above, parent, before, member, List.count_eq_one_of_mem
      (nodup_listedStatements laidOut) (List.mem_flatMap.mpr ⟨above.index, ?_, member⟩)⟩
    exact List.mem_range.mpr (Nat.lt_trans before bound)
  · obtain ⟨node, found, inChildren⟩ := exists_of_mem_children member
    obtain ⟨_, inner, isBelow, innerFound, _, _, kinds⟩ := proper.child found inChildren
    simpa [kind?, found, isBelow, innerFound] using kinds
  · exact List.count_eq_one_of_mem (nodup_expressionLists laidOut)
      (mem_expressionLists laidOut bound)

end Whole

end StatementTree

/-- A loop over a switch, with constants in the patterns of its condition and of a label. -/
def Procedure.tested : Procedure :=
  .plain "p" ["a"] (.whileLoop
    (.test (.name "a") (.recursive none [.constant (.literal "1"),
      .negated (.constant (.unary "-" (.literal "2")))] none))
    (.switch (.name "a") [.plain [.matching (.constant (.literal "3")) (some (.name "b")),
      .otherwise] [.evaluation (.call (.name "f") [.name "a", .name "b"]), .breaking],
      .plain [.otherwise] []]))

theorem StatementTree.linked_tested :
    ∃ tree, StatementTree.ofProcedure .tested = .ok tree ∧ tree.checkLinks = .ok () ∧
      tree.Linked := by
  have accepted : (StatementTree.ofProcedure .tested).isOk = true := by decide +kernel
  obtain ⟨tree, laidOut⟩ := Step.exists_of_isOk accepted
  exact ⟨tree, laidOut, linked_of_ofProcedure laidOut⟩

end LexicalScope
