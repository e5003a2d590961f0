import LexicalScope.Proofs.Layout.Occupation
import LexicalScope.Proofs.Step
import LexicalScope.StatementTree.Layout

/-!
# How a tree under construction grows

A step of the layout adds nodes behind those that are there and changes none of these. What it says
about the nodes it adds therefore holds of every tree that shows them in the end.
-/

namespace LexicalScope

/-- The place where the next nodes go. -/
def LayoutState.mark (state : LayoutState) : Mark :=
  ⟨state.tree.statements.size, state.tree.expressions.size⟩

/-- A later state keeps every node of an earlier one. -/
structure LayoutState.Grows (before after : LayoutState) : Prop where
  name : after.tree.name = before.tree.name
  statements : before.tree.statements.size ≤ after.tree.statements.size
  expressions : before.tree.expressions.size ≤ after.tree.expressions.size
  statement : ∀ i, i < before.tree.statements.size →
    after.tree.statements[i]? = before.tree.statements[i]?
  expression : ∀ i, i < before.tree.expressions.size →
    after.tree.expressions[i]? = before.tree.expressions[i]?

namespace LayoutState.Grows

private theorem refl (state : LayoutState) : Grows state state :=
  ⟨rfl, Nat.le_refl _, Nat.le_refl _, fun _ _ => rfl, fun _ _ => rfl⟩

private theorem trans {first second third : LayoutState} (left : Grows first second)
    (right : Grows second third) : Grows first third where
  name := right.name.trans left.name
  statements := Nat.le_trans left.statements right.statements
  expressions := Nat.le_trans left.expressions right.expressions
  statement i bound := by
    rw [right.statement i (Nat.lt_of_lt_of_le bound left.statements), left.statement i bound]
  expression i bound := by
    rw [right.expression i (Nat.lt_of_lt_of_le bound left.expressions), left.expression i bound]

end LayoutState.Grows

/-- A tree has the nodes of a state from a place on. -/
structure StatementTree.Shows (tree : StatementTree) (start : Mark) (state : LayoutState) :
    Prop where
  statement : ∀ i, start.statements ≤ i → i < state.tree.statements.size →
    tree.statements[i]? = state.tree.statements[i]?
  expression : ∀ i, start.expressions ≤ i → i < state.tree.expressions.size →
    tree.expressions[i]? = state.tree.expressions[i]?

namespace StatementTree.Shows

variable {tree : StatementTree} {start : Mark} {before after : LayoutState}

/-- What a tree shows of a later state it shows of the earlier one. -/
theorem earlier (shows : tree.Shows start after) (grows : before.Grows after) :
    tree.Shows start before where
  statement i lower upper := by
    rw [shows.statement i lower (Nat.lt_of_lt_of_le upper grows.statements),
      grows.statement i upper]
  expression i lower upper := by
    rw [shows.expression i lower (Nat.lt_of_lt_of_le upper grows.expressions),
      grows.expression i upper]

private theorem later (shows : tree.Shows before.mark after) {middle : LayoutState}
    (grows : before.Grows middle) : tree.Shows middle.mark after where
  statement i lower upper := shows.statement i (Nat.le_trans grows.statements lower) upper
  expression i lower upper := shows.expression i (Nat.le_trans grows.expressions lower) upper

end StatementTree.Shows

/-- From one state to the next the layout keeps every node, moves the next offset, and adds nodes of
which a fact holds in every tree that shows them. -/
structure Laid (before after : LayoutState) (next : Nat) (fact : StatementTree → Prop) : Prop where
  grows : before.Grows after
  next_eq : after.next = next
  holds : ∀ tree : StatementTree, tree.Shows before.mark after → fact tree

namespace Laid

variable {before middle after : LayoutState} {next between : Nat}
  {fact first second : StatementTree → Prop}

/-- Facts of consecutive steps hold together. -/
theorem append (left : Laid before middle between first) (right : Laid middle after next second) :
    Laid before after next fun tree => first tree ∧ second tree where
  grows := left.grows.trans right.grows
  next_eq := right.next_eq
  holds tree shows :=
    ⟨left.holds tree (shows.earlier right.grows), right.holds tree (shows.later left.grows)⟩

theorem imp (laid : Laid before after next first) (weaken : ∀ tree, first tree → second tree) :
    Laid before after next second :=
  ⟨laid.grows, laid.next_eq, fun tree shows => weaken tree (laid.holds tree shows)⟩

/-- Nothing is laid out. -/
theorem nothing (holds : ∀ tree, fact tree) : Laid before before before.next fact :=
  ⟨.refl before, rfl, fun tree _ => holds tree⟩

end Laid

namespace Layout

variable {before after : LayoutState}

/-! ## Single steps -/

theorem openSpan_eq_ok {given : Option Span} {start : Nat}
    (opened : openSpan given before = .ok start after) :
    start = Placement.opening given before.next ∧
      after = { before with next := Placement.opened given before.next } := by
  unfold openSpan at opened
  cases given with
  | some span =>
      cases opened
      exact ⟨rfl, rfl⟩
  | none =>
      dsimp only at opened
      split at opened
      · cases opened
        exact ⟨rfl, rfl⟩
      · cases opened

theorem closeSpan_eq_ok {given : Option Span} {start : Nat} {span : Span}
    (closed : closeSpan start given before = .ok span after) :
    span = Placement.covered start given before.next ∧
      after = { before with next := Placement.closed start given before.next } := by
  unfold closeSpan at closed
  cases given with
  | some span =>
      cases closed
      exact ⟨rfl, rfl⟩
  | none =>
      dsimp only at closed
      split at closed
      · cases closed
        exact ⟨rfl, rfl⟩
      · cases closed

theorem checkStatementDepth_eq_ok {depth : Nat}
    (checked : checkStatementDepth depth before = .ok () after) :
    depth < Limit.statementNesting ∧ before = after := by
  unfold checkStatementDepth at checked
  split at checked
  next bound =>
    cases checked
    exact ⟨bound, rfl⟩
  next => cases checked

theorem checkExpressionDepth_eq_ok {depth : Nat}
    (checked : checkExpressionDepth depth before = .ok () after) :
    depth < Limit.expressionNesting ∧ before = after := by
  unfold checkExpressionDepth at checked
  split at checked
  next bound =>
    cases checked
    exact ⟨bound, rfl⟩
  next => cases checked

/-- Binding a name places it. -/
theorem binding_eq_ok {ident : Ident} {bound : Binding}
    (succeeded : binding ident before = .ok bound after) :
    bound = (ident.placed before.next).1.binding ∧
      after = { before with next := (ident.placed before.next).2 } := by
  simp only [binding, Step.bind_eq_ok, Step.pure_eq_ok] at succeeded
  obtain ⟨start, opened, isOpened, span, closed, isClosed, rfl, rfl⟩ := succeeded
  obtain ⟨rfl, rfl⟩ := openSpan_eq_ok isOpened
  obtain ⟨rfl, rfl⟩ := closeSpan_eq_ok isClosed
  exact ⟨rfl, rfl⟩

theorem Laid.ofNext {fact : StatementTree → Prop} {next : Nat} (holds : ∀ tree, fact tree) :
    Laid before { before with next := next } next fact :=
  ⟨⟨rfl, Nat.le_refl _, Nat.le_refl _, fun _ _ => rfl, fun _ _ => rfl⟩, rfl,
    fun tree _ => holds tree⟩

end Layout

end LexicalScope
