import LexicalScope.Proofs.Scope.Sites
import LexicalScope.Procedure.Build

/-!
# The lexical extent of regions

Every expression is recorded in a region, and the expressions recorded within a region are just
those of the region's syntactic extent: all of a procedure, all of a boundary statement, the
sections of a switch without its subject, or the condition and the first branch of a link.
-/

namespace LexicalScope

/-- The syntactic extent of a region. -/
def Region.Holds (tree : StatementTree) (region : Region) (expression : ExpressionId) : Prop :=
  match region.kind with
  | .root => True
  | .block | .loop | .resource | .switchSection =>
    ∃ boundary owner, region.boundary = some boundary ∧ tree.owner expression = some owner ∧
      tree.IsWithin owner boundary
  | .switch =>
    ∃ boundary owner, region.boundary = some boundary ∧ tree.owner expression = some owner ∧
      tree.IsBelow owner boundary
  | .branch =>
    ∃ boundary owner, region.boundary = some boundary ∧ tree.owner expression = some owner ∧
      ((region.OpensLink tree boundary ∧ ∃ condition thenBody elseBody,
          tree.content? (some boundary) = some (.branch condition (some thenBody) elseBody) ∧
          ((∃ whole, condition = some whole ∧ tree.IsPart whole expression) ∨
            tree.IsWithin owner thenBody)) ∨
        (¬ region.OpensLink tree boundary ∧ tree.IsWithin owner boundary))

/-- The expressions of a link are the parts of its condition. -/
theorem StatementTree.Proper.isPart_of_owner {tree : StatementTree} (proper : tree.Proper)
    {link : StatementId} {condition : ExpressionRef} {thenBody elseBody : StatementRef}
    (content : tree.content? (some link) = some (.branch condition thenBody elseBody))
    {expression : ExpressionId} :
    tree.owner expression = some link ↔
      ∃ whole, condition = some whole ∧ tree.IsPart whole expression := by
  obtain ⟨node, found, isContent⟩ := Option.map_eq_some_iff.mp content
  have slots : node.content.expressionSlots = [condition] := by
    rw [isContent, StatementContent.expressionSlots]
  constructor
  · intro owned
    obtain ⟨whole, member, part⟩ := proper.slot_of_owner found owned
    rw [slots, List.mem_singleton] at member
    exact ⟨whole, member.symm, part⟩
  · rintro ⟨whole, isCondition, part⟩
    rw [proper.owner_of_part part]
    exact proper.owner_of_slot found (by rw [slots, isCondition]; exact List.mem_singleton_self _)

/-- A region holds the expressions of the statements that it surrounds. -/
theorem Region.holds_iff_surrounds {tree : StatementTree} (proper : tree.Proper) {region : Region}
    (origin : region.kind = .root ∨ region.Origin tree) {expression : ExpressionId}
    {owner : StatementId} (owned : tree.owner expression = some owner) :
    region.Holds tree expression ↔ region.Surrounds tree owner := by
  unfold Region.Holds Region.Surrounds
  cases isKind : region.kind with
  | root => simp
  | block | loop | resource | switchSection | switch => simp [owned]
  | branch =>
      simp only [owned, exists_and_left, Option.some.injEq, exists_eq_left', reduceCtorEq, false_or]
      refine exists_congr fun boundary => and_congr_right fun isBoundary =>
        or_congr (and_congr_right fun opensLink => ?_) Iff.rfl
      obtain ⟨condition, thenBody, elseBody, content, _⟩ :=
        (origin.resolve_left (by simp [isKind])).link boundary isBoundary opensLink
      constructor
      · rintro ⟨condition, thenBody, elseBody, content, part | within⟩
        · refine .inl (Option.some.inj (owned.symm.trans ?_))
          exact (proper.isPart_of_owner content).mpr part
        · exact .inr ⟨condition, thenBody, elseBody, content, within⟩
      · rintro (rfl | ⟨condition, thenBody, elseBody, content, within⟩)
        · exact ⟨condition, thenBody, elseBody, content,
            .inl ((proper.isPart_of_owner content).mp owned)⟩
        · exact ⟨condition, thenBody, elseBody, content, .inr within⟩

/-- Every expression of a procedure is recorded in a region, and a region holds just the expressions
recorded in it or in a region inside it. -/
theorem ScopeTree.isWithin_regionOfExpression_iff {procedure : Procedure} {settings : ScopeSettings}
    {tree : StatementTree} {scopes : ScopeTree}
    (laidOut : StatementTree.ofProcedure procedure = .ok tree)
    (bound : ScopeTree.ofStatementTree settings tree = .ok scopes)
    {expression : ExpressionId} (inTree : expression.index < tree.expressions.size) :
    ∃ recorded, scopes.regionOfExpression (some expression) = some recorded ∧
      recorded.index < scopes.regions.size ∧
      ∀ id region, scopes.region? (some id) = some region →
        (scopes.IsWithin recorded id ↔ region.Holds tree expression) := by
  have proper := StatementTree.proper_of_ofProcedure laidOut
  have follows := ScopeTree.follows_of_ofProcedure laidOut bound
  have found : tree.expression? (some expression) = some tree.expressions[expression.index] :=
    Array.getElem?_eq_getElem inTree
  obtain ⟨owner, _, isOwner, _⟩ := proper.owned found
  have owned : tree.owner expression = some owner := (StatementTree.owner_eq found).trans isOwner
  obtain ⟨recorded, isRecorded, bounded, site⟩ := follows.expression owned
  refine ⟨recorded, isRecorded, bounded, fun id region found => ?_⟩
  have origin : region.kind = .root ∨ region.Origin tree := by
    by_cases isRoot : id = ⟨0⟩
    · obtain ⟨root, rootFound, kind, _⟩ := follows.root
      rw [isRoot, rootFound] at found
      exact .inl (Option.some.inj found ▸ kind)
    · obtain ⟨other, _, otherFound, settled, _⟩ :=
        follows.region (Array.getElem?_eq_some_iff.mp found).1 isRoot
      exact .inr (Option.some.inj (otherFound.symm.trans found) ▸ settled.origin)
  rw [site id (Array.getElem?_eq_some_iff.mp found).1,
    region.holds_iff_surrounds proper origin owned]
  constructor
  · rintro ⟨other, otherFound, surrounds⟩
    exact Option.some.inj (otherFound.symm.trans found) ▸ surrounds
  · exact fun surrounds => ⟨region, found, surrounds⟩

/-- An `if` whose `else` is another `if` that tests for a type. -/
def Procedure.elseIf : Procedure :=
  .plain "p" ["a"] (.ifElse (.testAs (.name "a") "T" "x") (.evaluation (.name "x"))
    (.ifThen (.testAs (.name "a") "U" "y") (.block [.returning none])))

theorem ScopeTree.exists_regionOfExpression_elseIf :
    ∃ tree scopes, StatementTree.ofProcedure .elseIf = .ok tree ∧
      ScopeTree.ofStatementTree .default tree = .ok scopes ∧ 4 < tree.expressions.size ∧
      ∃ recorded, scopes.regionOfExpression (some ⟨4⟩) = some recorded ∧
        recorded.index < scopes.regions.size ∧
        ∀ id region, scopes.region? (some id) = some region →
          (scopes.IsWithin recorded id ↔ region.Holds tree ⟨4⟩) := by
  have binds : Procedure.elseIf.binds .default
      (fun tree _ => decide (4 < tree.expressions.size)) = true := by decide +kernel
  obtain ⟨tree, scopes, laidOut, bound, check⟩ := Procedure.exists_of_binds binds
  have inTree := of_decide_eq_true check
  exact ⟨tree, scopes, laidOut, bound, inTree, isWithin_regionOfExpression_iff laidOut bound inTree⟩

end LexicalScope
