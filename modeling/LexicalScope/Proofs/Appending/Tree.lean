import LexicalScope.Proofs.Layout.Nesting
import LexicalScope.Proofs.Rewording.Repetition
import LexicalScope.Proofs.StatementTree.Positions

/-!
# Trees of longer bodies

When a statement is appended to a body, its nodes come behind all others. The tree of the body keeps
its nodes, except that the root lists one more member and covers more text, and what is read off
them stays the same.
-/

namespace LexicalScope

/-! ## Laying out a block -/

namespace Layout

/-- The state in which the members of a body that is a block are laid out. -/
def inBody (name : String) (parameters : List Ident) (given : Option Span) : LayoutState :=
  reserved ⟨.empty name, (Placement.all Ident.placed parameters 0).2⟩ given none

private theorem exists_of_statements_append {depth : Nat} {parent : StatementRef}
    {members : List Statement} {last : Statement} {before after : LayoutState}
    {refs : List StatementRef}
    (laid : statements depth parent (members ++ [last]) before = .ok refs after) :
    ∃ listed middle added, statements depth parent members before = .ok listed middle ∧
      statement depth parent last middle = .ok added after ∧ refs = listed ++ [some added] := by
  induction members generalizing before refs with
  | nil =>
      simp only [List.nil_append, statements, Step.bind_eq_ok, Step.pure_eq_ok] at laid
      obtain ⟨added, _, lastLaid, _, _, ⟨rfl, rfl⟩, rfl, rfl⟩ := laid
      exact ⟨[], before, added, rfl, lastLaid, rfl⟩
  | cons first rest induction =>
      simp only [List.cons_append, statements, Step.bind_eq_ok, Step.pure_eq_ok] at laid
      obtain ⟨id, between, firstLaid, others, _, restLaid, rfl, rfl⟩ := laid
      obtain ⟨listed, middle, added, membersLaid, lastLaid, rfl⟩ := induction restLaid
      refine ⟨some id :: listed, middle, added, ?_, lastLaid, rfl⟩
      simp only [statements, Step.bind_eq_ok, Step.pure_eq_ok]
      exact ⟨id, between, firstLaid, listed, middle, membersLaid, rfl, rfl⟩

private theorem exists_of_block {name : String} {parameters : List Ident} {given : Option Span}
    {members : List Statement} {tree : StatementTree}
    (laidOut : StatementTree.ofProcedure ⟨name, parameters, .mk given (.block members)⟩ =
      .ok tree) :
    ∃ refs middle span,
      statements 1 (some ⟨0⟩) members (inBody name parameters given) = .ok refs middle ∧
      tree.parameters = (Placement.all Ident.placed parameters 0).1.map Ident.binding ∧
      tree.expressions = middle.tree.expressions ∧
      tree.statements = middle.tree.statements.modify 0 fun node =>
        { node with content := .block refs, span := span } := by
  unfold StatementTree.ofProcedure at laidOut
  split at laidOut
  next state succeeded =>
    cases laidOut
    simp only [procedure, statement, statementForm, Step.bind_eq_ok, Step.pure_eq_ok] at succeeded
    obtain ⟨_, _, bound, root, _, ⟨_, _, checked, start, _, opened, _, _, reserving, _, middle,
      ⟨refs, _, listed, rfl, rfl⟩, span, _, closed, _, _, filling, rfl, rfl⟩, modified⟩ := succeeded
    obtain ⟨rfl, rfl⟩ := parameters_eq_ok _ bound
    obtain ⟨_, rfl⟩ := checkStatementDepth_eq_ok checked
    obtain ⟨rfl, rfl⟩ := openSpan_eq_ok opened
    cases reserving
    obtain ⟨rfl, rfl⟩ := closeSpan_eq_ok closed
    cases filling
    cases modified
    exact ⟨refs, _, _, listed, rfl, rfl, rfl⟩
  next => cases laidOut

end Layout

namespace StatementTree

/-! ## Trees that differ in one more member -/

/-- A tree is that of a longer body: the root of `longer` lists one more member, behind everything
in `tree`, and nothing else in `tree` has changed. -/
structure Appended (tree longer : StatementTree) (members : List StatementRef)
    (added : StatementId) : Prop where
  parameters : longer.parameters = tree.parameters
  content : tree.content? (some ⟨0⟩) = some (.block members)
  contentToo : longer.content? (some ⟨0⟩) = some (.block (members ++ [some added]))
  behind : tree.statements.size ≤ added.index
  statement : ∀ {id : StatementId}, id ≠ ⟨0⟩ → id.index < tree.statements.size →
    longer.statement? (some id) = tree.statement? (some id)
  size : tree.expressions.size ≤ longer.expressions.size
  expression : ∀ {id : ExpressionId}, id.index < tree.expressions.size →
    longer.expression? (some id) = tree.expression? (some id)

/-- The tree of a procedure is found in that of the procedure with a statement appended to its
body. -/
theorem exists_appended {name : String} {parameters : List Ident} {given : Option Span}
    {members : List Statement} {last : Statement} {tree longer : StatementTree}
    (laidOut : ofProcedure ⟨name, parameters, .mk given (.block members)⟩ = .ok tree)
    (laidOutToo : ofProcedure ⟨name, parameters, .mk given (.block (members ++ [last]))⟩ =
      .ok longer) : ∃ refs added, tree.Appended longer refs added := by
  obtain ⟨refs, middle, span, membersLaid, isParameters, isExpressions, isStatements⟩ :=
    Layout.exists_of_block laidOut
  obtain ⟨_, after, spanToo, allLaid, isParametersToo, isExpressionsToo, isStatementsToo⟩ :=
    Layout.exists_of_block laidOutToo
  obtain ⟨_, _, added, membersLaidToo, lastLaid, rfl⟩ :=
    Layout.exists_of_statements_append allLaid
  cases membersLaid.symm.trans membersLaidToo
  have begun := (Layout.statements_laid 1 (some ⟨0⟩) members membersLaid).grows
  obtain ⟨rfl, laid⟩ := Layout.statement_laid 1 (some ⟨0⟩) last lastLaid
  have grows := laid.grows
  have size : 0 < middle.tree.statements.size := begun.statements
  have root := Array.getElem?_eq_getElem size
  have rootToo := (grows.statement 0 size).trans root
  exact ⟨refs, ⟨middle.tree.statements.size⟩,
    { parameters := by rw [isParametersToo, isParameters]
      content := by
        simp only [content?, statement?, Option.bind_some, isStatements, Array.getElem?_modify,
          if_true, root, Option.map_some]
      contentToo := by
        simp only [content?, statement?, Option.bind_some, isStatementsToo, Array.getElem?_modify,
          if_true, rootToo, Option.map_some]
      behind := by simp [isStatements]
      statement := by
        intro id notRoot bounded
        have other : 0 ≠ id.index := fun same => notRoot (congrArg StatementId.mk same.symm)
        rw [isStatements, Array.size_modify] at bounded
        simp [statement?, isStatements, isStatementsToo, Array.getElem?_modify, other,
          grows.statement id.index bounded]
      size := by
        rw [isExpressionsToo, isExpressions]
        exact grows.expressions
      expression := by
        intro id bounded
        rw [isExpressions] at bounded
        simp [expression?, isExpressions, isExpressionsToo,
          grows.expression id.index bounded] }⟩

/-! ## What stays the same -/

/-- A statement of a tree other than its root. -/
def IsInner (tree : StatementTree) (ref : StatementRef) : Prop :=
  ∃ id : StatementId, ref = some id ∧ id ≠ ⟨0⟩ ∧ id.index < tree.statements.size

/-- An expression of a tree, unless the reference is to none. -/
def HasExpression (tree : StatementTree) (ref : ExpressionRef) : Prop :=
  ∀ id, ref = some id → id.index < tree.expressions.size

section Proper

variable {tree : StatementTree} {id : StatementId} {node : StatementNode}

theorem Proper.isInner_child (proper : tree.Proper) (found : tree.statement? (some id) = some node)
    {child : StatementRef × Position} (listed : child ∈ node.content.children) :
    tree.IsInner child.1 := by
  obtain ⟨below, inner, isChild, innerFound, _, behind, _⟩ := proper.child found listed
  refine ⟨below, isChild, ?_, index_lt_of_statement innerFound⟩
  rintro rfl
  exact Nat.not_lt_zero _ behind

theorem Proper.hasExpression_slot (proper : tree.Proper)
    (found : tree.statement? (some id) = some node) {slot : ExpressionRef}
    (listed : slot ∈ node.content.expressionSlots) : tree.HasExpression slot := by
  rintro expression rfl
  obtain ⟨_, innerFound, _⟩ := proper.header found (List.mem_filterMap.mpr ⟨_, listed, rfl⟩)
  exact (Array.getElem?_eq_some_iff.mp innerFound).1

private theorem Proper.hasExpression_part (proper : tree.Proper) {whole : ExpressionRef}
    {node : ExpressionNode} (found : tree.expression? whole = some node) {slot : ExpressionRef}
    (listed : slot ∈ node.content.slots) : tree.HasExpression slot := by
  rintro part rfl
  cases whole with
  | none => cases found
  | some whole =>
      obtain ⟨_, _, innerFound, _⟩ := proper.part found (List.mem_filterMap.mpr ⟨_, listed, rfl⟩)
      exact (Array.getElem?_eq_some_iff.mp innerFound).1

end Proper

namespace Appended

variable {tree longer : StatementTree} {members : List StatementRef} {added : StatementId}
  {ref : StatementRef} (appended : tree.Appended longer members added) (proper : tree.Proper)
include appended

theorem statement?_eq (inner : tree.IsInner ref) : longer.statement? ref = tree.statement? ref := by
  obtain ⟨id, rfl, notRoot, bounded⟩ := inner
  exact appended.statement notRoot bounded

private theorem expression?_eq {expression : ExpressionRef}
    (present : tree.HasExpression expression) :
    longer.expression? expression = tree.expression? expression := by
  cases expression with
  | none => rfl
  | some id => exact appended.expression (present id rfl)

include proper

/-- The tree of the longer body repeats all of the tree but the root. -/
theorem repeats : Repeats .id tree longer tree.IsInner tree.HasExpression where
  statement inner := by
    rw [appended.statement?_eq inner]
    cases tree.statement? _ with
    | none => rfl
    | some node => rw [Option.map_some, node.reworded_id]
  child inner found child listed := by
    obtain ⟨id, rfl, _⟩ := inner
    exact proper.isInner_child found listed
  expression {ref} present := by
    rw [appended.expression?_eq present]
    cases tree.expression? ref with
    | none => rfl
    | some node => rw [Option.map_some, node.reworded_id]
  slot _ found _ listed := proper.hasExpression_part found listed

variable (properToo : longer.Proper)
include properToo

private theorem position? (inner : tree.IsInner ref) :
    longer.position? ref = tree.position? ref := by
  obtain ⟨id, rfl, notRoot, bounded⟩ := inner
  have found : tree.statement? (some id) = some tree.statements[id.index] :=
    Array.getElem?_eq_getElem bounded
  obtain rfl | ⟨above, outer, _, aboveFound, isListed⟩ := proper.listed found
  · exact absurd rfl notRoot
  obtain ⟨⟨_, position⟩, listed, rfl⟩ := List.mem_map.mp isListed
  rw [proper.position?_of_child aboveFound listed]
  by_cases isRoot : above = ⟨0⟩
  · subst isRoot
    obtain ⟨outerToo, foundToo, contentToo⟩ := Option.map_eq_some_iff.mp appended.contentToo
    have content := appended.content
    rw [content?_eq aboveFound, Option.some.injEq] at content
    refine properToo.position?_of_child foundToo ?_
    rw [content] at listed
    rw [contentToo]
    simp only [StatementContent.children, List.map_append] at listed ⊢
    exact List.mem_append_left _ listed
  · exact properToo.position?_of_child
      ((appended.statement isRoot (index_lt_of_statement aboveFound)).trans aboveFound) listed

theorem isTwoWay {id : StatementId} (inside : id.index < tree.statements.size) :
    longer.isTwoWay (some id) = tree.isTwoWay (some id) := by
  by_cases isRoot : id = ⟨0⟩
  · subst isRoot
    obtain ⟨node, found, content⟩ := Option.map_eq_some_iff.mp appended.content
    obtain ⟨nodeToo, foundToo, contentToo⟩ := Option.map_eq_some_iff.mp appended.contentToo
    refine Bool.eq_iff_iff.mpr (iff_of_false (not_isTwoWay foundToo ?_) (not_isTwoWay found ?_))
    · rw [contentToo]
      nofun
    · rw [content]
      nofun
  · have inner : tree.IsInner (some id) := ⟨id, rfl, isRoot, inside⟩
    have found : tree.statement? (some id) = some tree.statements[id.index] :=
      Array.getElem?_eq_getElem inside
    unfold StatementTree.isTwoWay
    rw [appended.statement?_eq inner, appended.position? proper properToo inner, found]
    cases content : tree.statements[id.index].content with
    | branch condition thenBody elseBody =>
        simp only [Option.map_some, content]
        cases elseBody with
        | none => rfl
        | some elseBody =>
            have listed : (some elseBody, .nested .elseBody) ∈
                tree.statements[id.index].content.children := by
              rw [content]
              exact List.mem_cons_of_mem _ List.mem_cons_self
            rw [appended.statement?_eq (proper.isInner_child found listed)]
    | _ => simp only [Option.map_some, content]

theorem classify (inner : tree.IsInner ref) (position : Position) :
    longer.classify ref position = tree.classify ref position := by
  obtain ⟨id, rfl, notRoot, inside⟩ := inner
  have found : tree.statement? (some id) = some tree.statements[id.index] :=
    Array.getElem?_eq_getElem inside
  obtain rfl | ⟨above, outer, isParent, aboveFound, _⟩ := proper.listed found
  · exact absurd rfl notRoot
  unfold StatementTree.classify
  rw [appended.statement notRoot inside, found]
  simp only [branchingClass, isParent, appended.isTwoWay proper properToo inside,
    appended.isTwoWay proper properToo (index_lt_of_statement aboveFound)]

end Appended

end StatementTree

end LexicalScope
