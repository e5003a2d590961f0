import LexicalScope.Proofs.Layout.Growth

/-!
# Laying out expressions and patterns

What the layout adds for an expression is the expression with its parts placed, in source order.
-/

namespace LexicalScope

/-- The layout has added expressions only. -/
structure LaidHeader (before after : LayoutState) (next : Nat) (fact : StatementTree → Prop) :
    Prop extends Laid before after next fact where
  statements : after.tree.statements.size = before.tree.statements.size

namespace LaidHeader

variable {before middle after : LayoutState} {next between : Nat}
  {fact first second : StatementTree → Prop}

theorem append (left : LaidHeader before middle between first)
    (right : LaidHeader middle after next second) :
    LaidHeader before after next fun tree => first tree ∧ second tree :=
  ⟨left.toLaid.append right.toLaid, right.statements.trans left.statements⟩

theorem imp (laid : LaidHeader before after next first)
    (weaken : ∀ tree, first tree → second tree) : LaidHeader before after next second :=
  ⟨laid.toLaid.imp weaken, laid.statements⟩

theorem nothing (holds : ∀ tree, fact tree) : LaidHeader before before before.next fact :=
  ⟨.nothing holds, rfl⟩

theorem ofNext (holds : ∀ tree, fact tree) :
    LaidHeader before { before with next := next } next fact :=
  ⟨Layout.Laid.ofNext holds, rfl⟩

theorem moved (laid : LaidHeader before middle between fact) :
    LaidHeader before { middle with next := next } next fact :=
  have behind : LaidHeader middle { middle with next := next } next fun _ => True :=
    ofNext fun _ => trivial
  (laid.append behind).imp fun _ holds => holds.1

end LaidHeader

namespace Layout

/-- An expression around laid out parts: the reserved node is filled behind them. -/
private theorem filled_laid {before middle : LayoutState} {owner : StatementId}
    {parent : ExpressionRef} {given : Option Span} {content : ExpressionContent}
    {form : ExpressionForm} {depth : Nat} (bound : depth < Limit.expressionNesting)
    (inner : LaidHeader
      { before with
        next := Placement.opened given before.next
        tree := before.tree.addExpression ⟨.literal "", Span.dummy, some owner, parent⟩ }
      middle (form.placed (Placement.opened given before.next)).2
      fun tree => (form.placed (Placement.opened given before.next)).1.Occupies tree owner
        (depth + 1) ⟨before.tree.expressions.size⟩ content (before.tree.expressions.size + 1)
        middle.tree.expressions.size) :
    LaidHeader before
      { middle with
        next := Placement.closed (Placement.opening given before.next) given middle.next
        tree := middle.tree.modifyExpression (some ⟨before.tree.expressions.size⟩) fun node =>
          { node with
            content := content
            span := Placement.covered (Placement.opening given before.next) given middle.next } }
      ((Expression.mk given form).placed before.next).2
      fun tree => ((Expression.mk given form).placed before.next).1.Occupies tree owner depth parent
        before.tree.expressions.size middle.tree.expressions.size := by
  obtain ⟨⟨grows, next_eq, holds⟩, statements⟩ := inner
  have larger : before.tree.expressions.size + 1 ≤ middle.tree.expressions.size := by
    simpa [StatementTree.addExpression] using grows.expressions
  have placeholder : middle.tree.expressions[before.tree.expressions.size]? =
      some ⟨.literal "", Span.dummy, some owner, parent⟩ := by
    rw [grows.expression _ (by simp [StatementTree.addExpression])]
    simp [StatementTree.addExpression]
  refine ⟨⟨⟨grows.name, ?_, ?_, ?_, ?_⟩, ?_, ?_⟩, ?_⟩
  · simpa [StatementTree.modifyExpression, StatementTree.addExpression] using grows.statements
  · simp only [StatementTree.modifyExpression, Array.size_modify]
    omega
  · intro i small
    simpa [StatementTree.modifyExpression, StatementTree.addExpression] using
      grows.statement i (by simpa [StatementTree.addExpression] using small)
  · intro i small
    have kept := grows.expression i (by simp [StatementTree.addExpression]; omega)
    have other : before.tree.expressions.size ≠ i := by omega
    simp only [StatementTree.modifyExpression, Array.getElem?_modify, if_neg other, kept]
    simp only [StatementTree.addExpression, Array.getElem?_push, Nat.ne_of_lt small, if_false]
  · simp only [Expression.placed, next_eq]
  · intro tree shows
    simp only [Expression.placed, Expression.Occupies]
    refine ⟨bound, content, ?_, ?_⟩
    · have shown := shows.expression before.tree.expressions.size (Nat.le_refl _)
        (by simp only [StatementTree.modifyExpression, Array.size_modify]; omega)
      simp only [StatementTree.expression?, Option.bind_some, shown,
        StatementTree.modifyExpression, Array.getElem?_modify, if_true, placeholder,
        Option.map_some, next_eq, Option.getD_some]
    · apply holds tree
      constructor
      · intro i lower upper
        have shown := shows.statement i
          (by simpa [LayoutState.mark, StatementTree.addExpression] using lower)
          (by simpa [StatementTree.modifyExpression] using upper)
        simpa [StatementTree.modifyExpression] using shown
      · intro i lower upper
        have behind : before.tree.expressions.size + 1 ≤ i := by
          simpa [LayoutState.mark, StatementTree.addExpression] using lower
        have shown := shows.expression i (by simp only [LayoutState.mark]; omega)
          (by simpa [StatementTree.modifyExpression] using upper)
        have other : before.tree.expressions.size ≠ i := by omega
        simpa only [StatementTree.modifyExpression, Array.getElem?_modify, if_neg other] using
          shown
  · simpa [StatementTree.modifyExpression, StatementTree.addExpression] using statements

mutual

/-- A laid out expression occupies what was added for it. -/
theorem expression_laid (owner : StatementId) (depth : Nat) (parent : ExpressionRef) :
    ∀ (value : Expression) {before after : LayoutState} {id : ExpressionId},
      expression owner depth parent value before = .ok id after →
        id = ⟨before.tree.expressions.size⟩ ∧
          LaidHeader before after (value.placed before.next).2 fun tree =>
            (value.placed before.next).1.Occupies tree owner depth parent
              before.tree.expressions.size after.tree.expressions.size
  | .mk given form, before, after, id, laid => by
    simp only [expression, Step.bind_eq_ok, Step.pure_eq_ok] at laid
    obtain ⟨_, _, checked, start, _, opened, _, _, reserved, content, middle, formed, span, _,
      closed, _, _, filled, rfl, rfl⟩ := laid
    obtain ⟨bound, rfl⟩ := checkExpressionDepth_eq_ok checked
    obtain ⟨rfl, rfl⟩ := openSpan_eq_ok opened
    cases reserved
    have inner := expressionForm_laid owner (depth + 1) _ form formed
    obtain ⟨rfl, rfl⟩ := closeSpan_eq_ok closed
    cases filled
    refine ⟨rfl, ?_⟩
    have laid := filled_laid bound
      (by simpa [StatementTree.addExpression, StatementTree.nextExpression] using inner)
    simpa [StatementTree.modifyExpression, StatementTree.nextExpression] using laid

theorem expressionForm_laid (owner : StatementId) (depth : Nat) (id : ExpressionId) :
    ∀ (form : ExpressionForm) {before after : LayoutState} {content : ExpressionContent},
      expressionForm owner depth id form before = .ok content after →
        LaidHeader before after (form.placed before.next).2 fun tree =>
          (form.placed before.next).1.Occupies tree owner depth id content
            before.tree.expressions.size after.tree.expressions.size
  | .name name, before, after, content, laid => by
    simp only [expressionForm, Step.pure_eq_ok] at laid
    obtain ⟨rfl, rfl⟩ := laid
    exact .nothing fun tree => ⟨rfl, rfl⟩
  | .literal value, before, after, content, laid => by
    simp only [expressionForm, Step.pure_eq_ok] at laid
    obtain ⟨rfl, rfl⟩ := laid
    exact .nothing fun tree => ⟨rfl, rfl⟩
  | .unary operator operand, before, after, content, laid => by
    simp only [expressionForm, Step.bind_eq_ok, Step.pure_eq_ok] at laid
    obtain ⟨_, _, first, rfl, rfl⟩ := laid
    obtain ⟨rfl, operand⟩ := expression_laid owner depth (some id) operand first
    exact operand.imp fun tree occupied => ⟨rfl, occupied⟩
  | .binary operator left right, before, after, content, laid => by
    simp only [expressionForm, Step.bind_eq_ok, Step.pure_eq_ok] at laid
    obtain ⟨_, middle, first, _, _, second, rfl, rfl⟩ := laid
    obtain ⟨rfl, left⟩ := expression_laid owner depth (some id) left first
    obtain ⟨rfl, right⟩ := expression_laid owner depth (some id) right second
    rw [left.next_eq] at right
    exact (left.append right).imp fun tree ⟨leftOccupied, rightOccupied⟩ =>
      ⟨_, rfl, leftOccupied, rightOccupied⟩
  | .choice condition whenTrue whenFalse, before, after, content, laid => by
    simp only [expressionForm, Step.bind_eq_ok, Step.pure_eq_ok] at laid
    obtain ⟨_, _, first, _, _, second, _, _, third, rfl, rfl⟩ := laid
    obtain ⟨rfl, condition⟩ := expression_laid owner depth (some id) condition first
    obtain ⟨rfl, whenTrue⟩ := expression_laid owner depth (some id) whenTrue second
    obtain ⟨rfl, whenFalse⟩ := expression_laid owner depth (some id) whenFalse third
    rw [condition.next_eq] at whenTrue
    rw [whenTrue.next_eq] at whenFalse
    exact (condition.append (whenTrue.append whenFalse)).imp
      fun tree ⟨occupied, trueOccupied, falseOccupied⟩ =>
        ⟨_, _, rfl, occupied, trueOccupied, falseOccupied⟩
  | .paren inner, before, after, content, laid => by
    simp only [expressionForm, Step.bind_eq_ok, Step.pure_eq_ok] at laid
    obtain ⟨_, _, first, rfl, rfl⟩ := laid
    obtain ⟨rfl, inner⟩ := expression_laid owner depth (some id) inner first
    exact inner.imp fun tree occupied => ⟨rfl, occupied⟩
  | .call callee arguments, before, after, content, laid => by
    simp only [expressionForm, Step.bind_eq_ok, Step.pure_eq_ok] at laid
    obtain ⟨_, _, first, refs, _, second, rfl, rfl⟩ := laid
    obtain ⟨rfl, callee⟩ := expression_laid owner depth (some id) callee first
    have arguments := expressions_laid owner depth (some id) arguments second
    rw [callee.next_eq] at arguments
    exact (callee.append arguments).imp fun tree ⟨occupied, argumentsOccupied⟩ =>
      ⟨_, _, rfl, occupied, argumentsOccupied⟩
  | .member target member, before, after, content, laid => by
    simp only [expressionForm, Step.bind_eq_ok, Step.pure_eq_ok] at laid
    obtain ⟨_, _, first, rfl, rfl⟩ := laid
    obtain ⟨rfl, target⟩ := expression_laid owner depth (some id) target first
    exact target.imp fun tree occupied => ⟨rfl, occupied⟩
  | .assign target value, before, after, content, laid => by
    simp only [expressionForm, Step.bind_eq_ok, Step.pure_eq_ok] at laid
    obtain ⟨_, _, first, _, _, second, rfl, rfl⟩ := laid
    obtain ⟨rfl, target⟩ := expression_laid owner depth (some id) target first
    obtain ⟨rfl, value⟩ := expression_laid owner depth (some id) value second
    rw [target.next_eq] at value
    exact (target.append value).imp fun tree ⟨targetOccupied, valueOccupied⟩ =>
      ⟨_, rfl, targetOccupied, valueOccupied⟩
  | .test operand pattern, before, after, content, laid => by
    simp only [expressionForm, Step.bind_eq_ok, Step.pure_eq_ok] at laid
    obtain ⟨_, _, first, node, _, second, rfl, rfl⟩ := laid
    obtain ⟨rfl, operand⟩ := expression_laid owner depth (some id) operand first
    have pattern := pattern_laid owner depth (some id) pattern second
    rw [operand.next_eq] at pattern
    exact (operand.append pattern).imp fun tree ⟨operandOccupied, patternOccupied⟩ =>
      ⟨_, _, rfl, operandOccupied, patternOccupied⟩
  | .outVariable type name, before, after, content, laid => by
    simp only [expressionForm, Step.bind_eq_ok, Step.pure_eq_ok] at laid
    obtain ⟨_, _, first, rfl, rfl⟩ := laid
    obtain ⟨rfl, rfl⟩ := binding_eq_ok first
    exact .ofNext fun tree => ⟨rfl, rfl⟩
  | .out name, before, after, content, laid => by
    simp only [expressionForm, Step.pure_eq_ok] at laid
    obtain ⟨rfl, rfl⟩ := laid
    exact .nothing fun tree => ⟨rfl, rfl⟩

theorem expressions_laid (owner : StatementId) (depth : Nat) (parent : ExpressionRef) :
    ∀ (values : List Expression) {before after : LayoutState} {refs : List ExpressionRef},
      expressions owner depth parent values before = .ok refs after →
        LaidHeader before after (Expression.placedAll values before.next).2 fun tree =>
          Expression.AllOccupy tree owner depth parent (Expression.placedAll values before.next).1
            refs before.tree.expressions.size after.tree.expressions.size
  | [], before, after, refs, laid => by
    simp only [expressions, Step.pure_eq_ok] at laid
    obtain ⟨rfl, rfl⟩ := laid
    exact .nothing fun tree => ⟨rfl, rfl⟩
  | first :: rest, before, after, refs, laid => by
    simp only [expressions, Step.bind_eq_ok, Step.pure_eq_ok] at laid
    obtain ⟨_, _, firstLaid, others, _, restLaid, rfl, rfl⟩ := laid
    obtain ⟨rfl, first⟩ := expression_laid owner depth parent first firstLaid
    have rest := expressions_laid owner depth parent rest restLaid
    rw [first.next_eq] at rest
    exact (first.append rest).imp fun tree ⟨firstOccupied, restOccupied⟩ =>
      ⟨_, _, rfl, firstOccupied, restOccupied⟩

/-- The constants of a laid out pattern occupy what was added for them. -/
theorem pattern_laid (owner : StatementId) (depth : Nat) (parent : ExpressionRef) :
    ∀ (value : Pattern) {before after : LayoutState} {node : PatternNode},
      pattern owner depth parent value before = .ok node after →
        LaidHeader before after (value.placed before.next).2 fun tree =>
          (value.placed before.next).1.Occupies tree owner depth parent node
            before.tree.expressions.size after.tree.expressions.size
  | .type type, before, after, node, laid => by
    simp only [pattern, Step.bind_eq_ok, Step.pure_eq_ok] at laid
    obtain ⟨_, _, checked, rfl, rfl⟩ := laid
    obtain ⟨bound, rfl⟩ := checkExpressionDepth_eq_ok checked
    exact .nothing fun tree => ⟨bound, rfl, rfl⟩
  | .declaration type name, before, after, node, laid => by
    simp only [pattern, Step.bind_eq_ok, Step.pure_eq_ok] at laid
    obtain ⟨_, _, checked, _, _, named, rfl, rfl⟩ := laid
    obtain ⟨bound, rfl⟩ := checkExpressionDepth_eq_ok checked
    obtain ⟨rfl, rfl⟩ := binding_eq_ok named
    exact .ofNext fun tree => ⟨bound, rfl, rfl⟩
  | .anyValue name, before, after, node, laid => by
    simp only [pattern, Step.bind_eq_ok, Step.pure_eq_ok] at laid
    obtain ⟨_, _, checked, _, _, named, rfl, rfl⟩ := laid
    obtain ⟨bound, rfl⟩ := checkExpressionDepth_eq_ok checked
    obtain ⟨rfl, rfl⟩ := binding_eq_ok named
    exact .ofNext fun tree => ⟨bound, rfl, rfl⟩
  | .constant value, before, after, node, laid => by
    simp only [pattern, Step.bind_eq_ok, Step.pure_eq_ok] at laid
    obtain ⟨_, _, checked, _, _, valued, rfl, rfl⟩ := laid
    obtain ⟨bound, rfl⟩ := checkExpressionDepth_eq_ok checked
    obtain ⟨rfl, value⟩ := expression_laid owner (depth + 1) parent value valued
    exact value.imp fun tree occupied => ⟨bound, rfl, occupied⟩
  | .discard, before, after, node, laid => by
    simp only [pattern, Step.bind_eq_ok, Step.pure_eq_ok] at laid
    obtain ⟨_, _, checked, rfl, rfl⟩ := laid
    obtain ⟨bound, rfl⟩ := checkExpressionDepth_eq_ok checked
    exact .nothing fun tree => ⟨bound, rfl, rfl⟩
  | .recursive type subpatterns none, before, after, node, laid => by
    simp only [pattern, optionalBinding, Step.bind_eq_ok, Step.pure_eq_ok] at laid
    obtain ⟨_, _, checked, nodes, _, listed, _, _, ⟨rfl, rfl⟩, rfl, rfl⟩ := laid
    obtain ⟨bound, rfl⟩ := checkExpressionDepth_eq_ok checked
    have subpatterns := patterns_laid owner (depth + 1) parent subpatterns listed
    exact subpatterns.imp fun tree occupied => ⟨bound, nodes, rfl, occupied⟩
  | .recursive type subpatterns (some name), before, after, node, laid => by
    simp only [pattern, optionalBinding, Step.bind_eq_ok, Step.pure_eq_ok] at laid
    obtain ⟨_, _, checked, nodes, middle, listed, _, _, ⟨_, _, named, rfl, rfl⟩, rfl, rfl⟩ := laid
    obtain ⟨bound, rfl⟩ := checkExpressionDepth_eq_ok checked
    have subpatterns := patterns_laid owner (depth + 1) parent subpatterns listed
    obtain ⟨rfl, rfl⟩ := binding_eq_ok named
    rw [subpatterns.next_eq]
    exact subpatterns.moved.imp fun tree occupied => ⟨bound, nodes, rfl, occupied⟩
  | .negated inner, before, after, node, laid => by
    simp only [pattern, Step.bind_eq_ok, Step.pure_eq_ok] at laid
    obtain ⟨_, _, checked, node, _, negated, rfl, rfl⟩ := laid
    obtain ⟨bound, rfl⟩ := checkExpressionDepth_eq_ok checked
    have inner := pattern_laid owner (depth + 1) parent inner negated
    exact inner.imp fun tree occupied => ⟨bound, node, rfl, occupied⟩

theorem patterns_laid (owner : StatementId) (depth : Nat) (parent : ExpressionRef) :
    ∀ (values : List Pattern) {before after : LayoutState} {nodes : List PatternNode},
      patterns owner depth parent values before = .ok nodes after →
        LaidHeader before after (Pattern.placedAll values before.next).2 fun tree =>
          Pattern.AllOccupy tree owner depth parent (Pattern.placedAll values before.next).1
            nodes before.tree.expressions.size after.tree.expressions.size
  | [], before, after, nodes, laid => by
    simp only [patterns, Step.pure_eq_ok] at laid
    obtain ⟨rfl, rfl⟩ := laid
    exact .nothing fun tree => ⟨rfl, rfl⟩
  | first :: rest, before, after, nodes, laid => by
    simp only [patterns, Step.bind_eq_ok, Step.pure_eq_ok] at laid
    obtain ⟨node, _, firstLaid, others, _, restLaid, rfl, rfl⟩ := laid
    have first := pattern_laid owner depth parent first firstLaid
    have rest := patterns_laid owner depth parent rest restLaid
    rw [first.next_eq] at rest
    exact (first.append rest).imp fun tree ⟨firstOccupied, restOccupied⟩ =>
      ⟨_, _, _, rfl, firstOccupied, restOccupied⟩

end

end Layout

end LexicalScope
