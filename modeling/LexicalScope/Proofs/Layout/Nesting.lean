import LexicalScope.Proofs.Layout.StatementRow
import LexicalScope.Proofs.Layout.Statements

/-!
# Laid-out procedures nest properly

The tree of a procedure is proper: what the layout adds agrees in all references. If the procedure
states no span, the spans of the tree nest as its statements do.
-/

namespace LexicalScope

/-! ## Headers -/

section Headers

variable {tree : StatementTree} {bare : Prop} {owner : StatementId}

theorem Expression.rowIfPresent {value : Option Expression} {ref : ExpressionRef}
    {start stop next : Nat} (unstated : bare → Expression.statedIfPresent value = [])
    (occupied : OccupyOptional (Expression.OccupiesHeader tree owner)
      (Placement.optional Expression.placed value next).1 ref start stop) :
    ExpressionRow tree bare owner none ([ref].filterMap id) [] start stop next
      (Placement.optional Expression.placed value next).2 := by
  cases value with
  | none =>
      obtain ⟨rfl, rfl⟩ := occupied
      exact .empty
  | some value =>
      obtain ⟨rfl, valueOccupied⟩ := occupied
      exact value.row (fun isBare => by simpa [Expression.statedIfPresent] using unstated isBare)
        valueOccupied

private theorem Expression.rowOfHeaders : ∀ {values : List Expression} {refs : List ExpressionRef}
    {start stop next : Nat}, (bare → values.flatMap Expression.stated = []) →
      OccupyAll (Expression.OccupiesAt tree owner) (Placement.all Expression.placed values next).1
        refs start stop →
      ExpressionRow tree bare owner none (refs.filterMap id) [] start stop next
        (Placement.all Expression.placed values next).2
  | [], refs, start, stop, next, unstated, occupied => by
    obtain ⟨rfl, rfl⟩ := occupied
    exact .empty
  | first :: rest, refs, start, stop, next, unstated, occupied => by
    simp only [List.flatMap_cons, List.append_eq_nil_iff] at unstated
    obtain ⟨node, others, middle, rfl, ⟨rfl, firstOccupied⟩, restOccupied⟩ := occupied
    have firstRow := first.row (fun isBare => (unstated isBare).1) firstOccupied
    have restRow := Expression.rowOfHeaders (fun isBare => (unstated isBare).2) restOccupied
    exact firstRow.append restRow

private theorem Declarator.row {declarator : Declarator} {node : DeclaratorNode}
    {start stop next : Nat} (unstated : bare → declarator.stated = [])
    (occupied : (declarator.placed next).1.Occupies tree owner node start stop) :
    ExpressionRow tree bare owner none ([node.initializer].filterMap id) [node.binding] start stop
      next (declarator.placed next).2 := by
  simp only [Declarator.stated, List.append_eq_nil_iff] at unstated
  obtain ⟨bound, initializerOccupied⟩ := occupied
  have nameRow : ExpressionRow tree bare owner none [] _ start start next _ :=
    .ofName fun isBare => (unstated isBare).1
  have initializerRow := Expression.rowIfPresent (fun isBare => (unstated isBare).2)
    initializerOccupied
  rw [bound]
  exact nameRow.append initializerRow

theorem Declarator.rowOfAll : ∀ {declarators : List Declarator} {nodes : List DeclaratorNode}
    {start stop next : Nat}, (bare → declarators.flatMap Declarator.stated = []) →
      OccupyAll (Declarator.Occupies tree owner)
        (Placement.all Declarator.placed declarators next).1 nodes start stop →
      ExpressionRow tree bare owner none ((nodes.map (·.initializer)).filterMap id)
        (nodes.map (·.binding)) start stop next
        (Placement.all Declarator.placed declarators next).2
  | [], nodes, start, stop, next, unstated, occupied => by
    obtain ⟨rfl, rfl⟩ := occupied
    exact .empty
  | first :: rest, nodes, start, stop, next, unstated, occupied => by
    simp only [List.flatMap_cons, List.append_eq_nil_iff] at unstated
    obtain ⟨node, others, middle, rfl, firstOccupied, restOccupied⟩ := occupied
    have firstRow := Declarator.row (fun isBare => (unstated isBare).1) firstOccupied
    have restRow := Declarator.rowOfAll (fun isBare => (unstated isBare).2) restOccupied
    rw [List.map_cons, List.map_cons, ← List.singleton_append, List.filterMap_append,
      ← List.singleton_append (l := others.map _)]
    exact firstRow.append restRow

private theorem Label.row {label : Label} {node : LabelNode} {start stop next : Nat}
    (unstated : bare → label.stated = [])
    (occupied : (label.placed next).1.Occupies tree owner node start stop) :
    ExpressionRow tree bare owner none ((StatementContent.labelExpressions node).filterMap id)
      node.bindings start stop next (label.placed next).2 := by
  cases label with
  | matching pattern guard =>
      simp only [Label.stated, List.append_eq_nil_iff] at unstated
      obtain ⟨inner, middle, hasPattern, patternOccupied, guardOccupied⟩ := occupied
      have patternRow := pattern.row (fun isBare => (unstated isBare).1) patternOccupied
      have guardRow := Expression.rowIfPresent (fun isBare => (unstated isBare).2) guardOccupied
      have both := (patternRow.append guardRow).widen (Nat.le_succ next)
        (Nat.le_succ_of_le (Nat.le_max_left _ (next + 1)))
      simpa [StatementContent.labelExpressions, LabelNode.bindings, hasPattern, Label.placed,
        Placement.closed] using both
  | otherwise =>
      obtain ⟨noPattern, noGuard, rfl⟩ := occupied
      have nothing : ExpressionRow tree bare owner none [] [] start start next
          (Placement.closed next none (next + 1)) :=
        ExpressionRow.empty.widen (Nat.le_refl next)
          (Nat.le_succ_of_le (Nat.le_trans (Nat.le_succ next) (Nat.le_max_left _ _)))
      simpa [StatementContent.labelExpressions, LabelNode.bindings, noPattern, noGuard,
        Label.placed] using nothing

private theorem Label.rowOfAll :
    ∀ {labels : List Label} {nodes : List LabelNode} {start stop next : Nat},
    (bare → labels.flatMap Label.stated = []) →
      OccupyAll (Label.Occupies tree owner) (Placement.all Label.placed labels next).1 nodes start
        stop →
      ExpressionRow tree bare owner none
        ((nodes.flatMap StatementContent.labelExpressions).filterMap id)
        (nodes.flatMap LabelNode.bindings) start stop next
        (Placement.all Label.placed labels next).2
  | [], nodes, start, stop, next, unstated, occupied => by
    obtain ⟨rfl, rfl⟩ := occupied
    exact .empty
  | first :: rest, nodes, start, stop, next, unstated, occupied => by
    simp only [List.flatMap_cons, List.append_eq_nil_iff] at unstated
    obtain ⟨node, others, middle, rfl, firstOccupied, restOccupied⟩ := occupied
    have firstRow := Label.row (fun isBare => (unstated isBare).1) firstOccupied
    have restRow := Label.rowOfAll (fun isBare => (unstated isBare).2) restOccupied
    rw [List.flatMap_cons, List.flatMap_cons, List.filterMap_append]
    exact firstRow.append restRow

end Headers

/-! ## Statements -/

namespace StatementParts

variable {tree : StatementTree} {bare : Prop} {depth : Nat} {id : StatementId}
  {content : StatementContent} {start stop : Mark} {middle next between last : Nat}

theorem noSections (noSwitch : content.kind ≠ .switch) : false = true ↔ content.kind = .switch :=
  ⟨by simp, fun isSwitch => absurd isSwitch noSwitch⟩

private theorem ofHeader
    (header : ExpressionRow tree bare id none content.expressions content.bindings
      start.expressions stop.expressions next last)
    (childless : content.children = []) (noSwitch : content.kind ≠ .switch)
    (same : start.statements = stop.statements) :
    StatementParts tree bare depth id content start stop next last := by
  obtain ⟨statements, expressions⟩ := start
  obtain ⟨_, stopExpressions⟩ := stop
  obtain rfl : statements = _ := same
  exact .intro header (.empty : StatementRow tree bare false _ _ [] _ _ _ _)
    (by rw [childless]; rfl) (noSections noSwitch) .headerFirst

/-- The header of a statement stands before its children. -/
theorem ofHeaderFirst {sections : Bool} {children : List StatementId}
    (header : ExpressionRow tree bare id none content.expressions content.bindings
      start.expressions middle next between)
    (below : StatementRow tree bare sections depth (some id) children ⟨start.statements, middle⟩
      stop between last)
    (lists : content.children.map (·.1) = children.map some)
    (kinds : sections = true ↔ content.kind = .switch) :
    StatementParts tree bare depth id content start stop next last :=
  .intro header below lists kinds .headerFirst

end StatementParts

section Rows

variable {tree : StatementTree} {bare : Prop}

/-- Whatever a statement occupies is a row with the statement alone. -/
def Statement.HasRow (tree : StatementTree) (bare : Prop) (statement : Statement) : Prop :=
  ∀ ⦃depth : Nat⦄ ⦃parent : StatementRef⦄ ⦃start stop : Mark⦄ ⦃next : Nat⦄,
    (bare → statement.stated = []) →
      (statement.placed next).1.Occupies tree depth parent start stop →
        StatementRow tree bare false depth parent [⟨start.statements⟩] start stop next
          (statement.placed next).2

/-- The parts of a statement fill what is between two marks, and the statement is no section. -/
def StatementForm.HasParts (tree : StatementTree) (bare : Prop) (form : StatementForm) : Prop :=
  ∀ ⦃depth : Nat⦄ ⦃id : StatementId⦄ ⦃content : StatementContent⦄ ⦃start stop : Mark⦄ ⦃next : Nat⦄,
    (bare → form.stated = []) → depth < Limit.statementNesting →
      (form.placed next).1.Occupies tree (depth + 1) id content start stop →
        content.kind ≠ .switchSection ∧
          StatementParts tree bare (depth + 1) id content start stop next (form.placed next).2

section Forms

variable {condition collection : Expression} {body thenBody elseBody : Statement}
  {declarators : List Declarator}

private theorem StatementForm.hasParts_ifThen (thenPart : thenBody.HasRow tree bare) :
    StatementForm.HasParts tree bare (.branch condition thenBody none) := by
  intro depth id content start stop next unstated bound occupied
  simp only [StatementForm.stated, List.append_eq_nil_iff] at unstated
  obtain ⟨middle, rfl, conditionOccupied, thenOccupied⟩ := occupied
  have conditionRow := condition.row (fun isBare => (unstated isBare).1) conditionOccupied
  have thenRow := thenPart (fun isBare => (unstated isBare).2) thenOccupied
  exact ⟨StatementKind.noConfusion, .ofHeaderFirst conditionRow thenRow rfl
    (StatementParts.noSections StatementKind.noConfusion)⟩

private theorem StatementForm.hasParts_ifElse (thenPart : thenBody.HasRow tree bare)
    (elsePart : elseBody.HasRow tree bare) :
    StatementForm.HasParts tree bare (.branch condition thenBody (some elseBody)) := by
  intro depth id content start stop next unstated bound occupied
  simp only [StatementForm.stated, List.append_eq_nil_iff] at unstated
  obtain ⟨middle, between, rfl, conditionOccupied, thenOccupied, elseOccupied⟩ := occupied
  have conditionRow := condition.row (fun isBare => (unstated isBare).1.1) conditionOccupied
  have thenRow := thenPart (fun isBare => (unstated isBare).1.2) thenOccupied
  have elseRow := elsePart (fun isBare => (unstated isBare).2) elseOccupied
  exact ⟨StatementKind.noConfusion, .ofHeaderFirst conditionRow (thenRow.append elseRow) rfl
    (StatementParts.noSections StatementKind.noConfusion)⟩

private theorem StatementForm.hasParts_whileLoop (part : body.HasRow tree bare) :
    StatementForm.HasParts tree bare (.whileLoop condition body) := by
  intro depth id content start stop next unstated bound occupied
  simp only [StatementForm.stated, List.append_eq_nil_iff] at unstated
  obtain ⟨middle, rfl, conditionOccupied, bodyOccupied⟩ := occupied
  have conditionRow := condition.row (fun isBare => (unstated isBare).1) conditionOccupied
  have bodyRow := part (fun isBare => (unstated isBare).2) bodyOccupied
  exact ⟨StatementKind.noConfusion, .ofHeaderFirst conditionRow bodyRow rfl
    (StatementParts.noSections StatementKind.noConfusion)⟩

private theorem StatementForm.hasParts_doLoop (part : body.HasRow tree bare) :
    StatementForm.HasParts tree bare (.doLoop body condition) := by
  intro depth id content start stop next unstated bound occupied
  simp only [StatementForm.stated, List.append_eq_nil_iff] at unstated
  obtain ⟨middle, rfl, bodyOccupied, conditionOccupied⟩ := occupied
  have bodyRow := part (fun isBare => (unstated isBare).1) bodyOccupied
  have conditionRow := condition.row (fun isBare => (unstated isBare).2) conditionOccupied
  exact ⟨StatementKind.noConfusion, .intro conditionRow bodyRow rfl
    (StatementParts.noSections StatementKind.noConfusion)
    (.childrenFirst StatementKind.noConfusion)⟩

private theorem StatementForm.hasParts_forLoop {initializers : List Expression}
    {condition : Option Expression} {incrementors : List Expression}
    (part : body.HasRow tree bare) :
    StatementForm.HasParts tree bare
      (.forLoop declarators initializers condition incrementors body) := by
  intro depth id content start stop next unstated bound occupied
  simp only [StatementForm.stated, List.append_eq_nil_iff] at unstated
  obtain ⟨nodes, inits, test, steps, first, second, third, fourth, rfl, declaratorsOccupied,
    initializersOccupied, conditionOccupied, incrementorsOccupied, bodyOccupied⟩ := occupied
  have declaratorsRow := Declarator.rowOfAll (fun isBare => (unstated isBare).1.1.1.1)
    declaratorsOccupied
  have initializersRow := Expression.rowOfHeaders (fun isBare => (unstated isBare).1.1.1.2)
    initializersOccupied
  have conditionRow := Expression.rowIfPresent (fun isBare => (unstated isBare).1.1.2)
    conditionOccupied
  have incrementorsRow := Expression.rowOfHeaders (fun isBare => (unstated isBare).1.2)
    incrementorsOccupied
  have bodyRow := part (fun isBare => (unstated isBare).2) bodyOccupied
  have header := ((declaratorsRow.append initializersRow).append conditionRow).append
    incrementorsRow
  rw [← List.filterMap_append, ← List.filterMap_append, ← List.filterMap_append,
    List.append_nil, List.append_nil, List.append_nil] at header
  exact ⟨StatementKind.noConfusion, .ofHeaderFirst header bodyRow rfl
    (StatementParts.noSections StatementKind.noConfusion)⟩

private theorem StatementForm.hasParts_forEachLoop {element : Ident}
    (part : body.HasRow tree bare) :
    StatementForm.HasParts tree bare (.forEachLoop element collection body) := by
  intro depth id content start stop next unstated bound occupied
  simp only [StatementForm.stated, List.append_eq_nil_iff] at unstated
  obtain ⟨middle, rfl, collectionOccupied, bodyOccupied⟩ := occupied
  have elementRow : ExpressionRow tree bare id none [] _ start.expressions start.expressions
      next _ :=
    .ofName fun isBare => (unstated isBare).1.1
  have collectionRow := collection.row (fun isBare => (unstated isBare).1.2) collectionOccupied
  have bodyRow := part (fun isBare => (unstated isBare).2) bodyOccupied
  exact ⟨StatementKind.noConfusion, .ofHeaderFirst (elementRow.append collectionRow) bodyRow rfl
    (StatementParts.noSections StatementKind.noConfusion)⟩

private theorem StatementForm.hasParts_resource {held : Option Expression}
    (part : body.HasRow tree bare) :
    StatementForm.HasParts tree bare (.resource declarators held body) := by
  intro depth id content start stop next unstated bound occupied
  simp only [StatementForm.stated, List.append_eq_nil_iff] at unstated
  obtain ⟨nodes, value, first, second, rfl, declaratorsOccupied, heldOccupied, bodyOccupied⟩ :=
    occupied
  have declaratorsRow := Declarator.rowOfAll (fun isBare => (unstated isBare).1.1)
    declaratorsOccupied
  have heldRow := Expression.rowIfPresent (fun isBare => (unstated isBare).1.2) heldOccupied
  have bodyRow := part (fun isBare => (unstated isBare).2) bodyOccupied
  have header := declaratorsRow.append heldRow
  rw [← List.filterMap_append, List.append_nil] at header
  exact ⟨StatementKind.noConfusion, .ofHeaderFirst header bodyRow rfl
    (StatementParts.noSections StatementKind.noConfusion)⟩

end Forms

mutual

theorem Statement.hasRow : ∀ statement : Statement, statement.HasRow tree bare
  | .mk given form => by
    intro depth parent start stop next unstated occupied
    simp only [Statement.stated, List.append_eq_nil_iff, Option.toList_eq_nil_iff] at unstated
    simp only [Statement.placed, Statement.Occupies, Option.getD_some] at occupied
    obtain ⟨bound, content, found, parts⟩ := occupied
    obtain ⟨noSection, formParts⟩ :=
      form.hasParts (fun isBare => (unstated isBare).2) bound parts
    exact .ofParts (fun isBare => (unstated isBare).1) found formParts
      ⟨fun isSection => absurd isSection noSection, by simp⟩ rfl
      (Nat.lt_add_right _ bound)

theorem StatementForm.hasParts : ∀ form : StatementForm, form.HasParts tree bare
  | .block statements => by
    intro depth id content start stop next unstated bound occupied
    obtain ⟨refs, rfl, membersOccupied⟩ := occupied
    obtain ⟨children, rfl, membersRow⟩ := Statement.rowOfAll statements unstated membersOccupied
    exact ⟨StatementKind.noConfusion, .ofHeaderFirst .empty membersRow
      (by simp [StatementContent.children, Function.comp_def])
      (StatementParts.noSections StatementKind.noConfusion)⟩
  | .branch _ thenBody none => StatementForm.hasParts_ifThen thenBody.hasRow
  | .branch _ thenBody (some elseBody) =>
    StatementForm.hasParts_ifElse thenBody.hasRow elseBody.hasRow
  | .whileLoop _ body => StatementForm.hasParts_whileLoop body.hasRow
  | .doLoop body _ => StatementForm.hasParts_doLoop body.hasRow
  | .forLoop _ _ _ _ body => StatementForm.hasParts_forLoop body.hasRow
  | .forEachLoop _ _ body => StatementForm.hasParts_forEachLoop body.hasRow
  | .resource _ _ body => StatementForm.hasParts_resource body.hasRow
  | .switch subject sections => by
    intro depth id content start stop next unstated bound occupied
    simp only [StatementForm.stated, List.append_eq_nil_iff] at unstated
    obtain ⟨middle, refs, rfl, subjectOccupied, sectionsOccupied⟩ := occupied
    have subjectRow := subject.row (fun isBare => (unstated isBare).1) subjectOccupied
    obtain ⟨children, rfl, sectionsRow⟩ := Section.rowOfAll sections
      (fun isBare => (unstated isBare).2) bound sectionsOccupied
    exact ⟨StatementKind.noConfusion, .ofHeaderFirst subjectRow sectionsRow
      (by simp [StatementContent.children, Function.comp_def]) ⟨fun _ => rfl, fun _ => rfl⟩⟩
  | .localDeclaration declarators => by
    intro depth id content start stop next unstated bound occupied
    obtain ⟨nodes, rfl, declaratorsOccupied, same⟩ := occupied
    exact ⟨StatementKind.noConfusion, .ofHeader (Declarator.rowOfAll unstated declaratorsOccupied)
      rfl StatementKind.noConfusion same⟩
  | .evaluation expression => by
    intro depth id content start stop next unstated bound occupied
    obtain ⟨rfl, expressionOccupied, same⟩ := occupied
    exact ⟨StatementKind.noConfusion, .ofHeader (expression.row unstated expressionOccupied)
      rfl StatementKind.noConfusion same⟩
  | .returning value => by
    intro depth id content start stop next unstated bound occupied
    obtain ⟨ref, rfl, valueOccupied, same⟩ := occupied
    exact ⟨StatementKind.noConfusion, .ofHeader (Expression.rowIfPresent unstated valueOccupied)
      rfl StatementKind.noConfusion same⟩
  | .throwing value => by
    intro depth id content start stop next unstated bound occupied
    obtain ⟨ref, rfl, valueOccupied, same⟩ := occupied
    exact ⟨StatementKind.noConfusion, .ofHeader (Expression.rowIfPresent unstated valueOccupied)
      rfl StatementKind.noConfusion same⟩
  | .breaking => by
    intro depth id content start stop next unstated bound occupied
    obtain ⟨rfl, rfl⟩ := occupied
    exact ⟨StatementKind.noConfusion, .ofHeader .empty rfl StatementKind.noConfusion rfl⟩
  | .continuing => by
    intro depth id content start stop next unstated bound occupied
    obtain ⟨rfl, rfl⟩ := occupied
    exact ⟨StatementKind.noConfusion, .ofHeader .empty rfl StatementKind.noConfusion rfl⟩
  | .labeled label body => by
    intro depth id content start stop next unstated bound occupied
    obtain ⟨rfl, bodyOccupied⟩ := occupied
    have bodyRow := body.hasRow unstated bodyOccupied
    exact ⟨StatementKind.noConfusion, .ofHeaderFirst .empty bodyRow rfl
      (StatementParts.noSections StatementKind.noConfusion)⟩
  | .empty => by
    intro depth id content start stop next unstated bound occupied
    obtain ⟨rfl, rfl⟩ := occupied
    exact ⟨StatementKind.noConfusion, .ofHeader .empty rfl StatementKind.noConfusion rfl⟩

theorem Statement.rowOfAll : ∀ (statements : List Statement) {depth : Nat} {parent : StatementRef}
    {refs : List StatementRef} {start stop : Mark} {next : Nat},
      (bare → Statement.statedInAll statements = []) →
        Statement.AllOccupy tree depth parent (Statement.placedAll statements next).1 refs start
          stop →
          ∃ children : List StatementId, refs = children.map some ∧
            StatementRow tree bare false depth parent children start stop next
              (Statement.placedAll statements next).2
  | [], depth, parent, refs, start, stop, next, unstated, occupied => by
    obtain ⟨rfl, rfl⟩ := occupied
    exact ⟨[], rfl, .empty⟩
  | first :: rest, depth, parent, refs, start, stop, next, unstated, occupied => by
    simp only [Statement.statedInAll, List.append_eq_nil_iff] at unstated
    obtain ⟨others, middle, rfl, firstOccupied, restOccupied⟩ := occupied
    have firstRow := first.hasRow (fun isBare => (unstated isBare).1) firstOccupied
    obtain ⟨children, rfl, restRow⟩ := Statement.rowOfAll rest (fun isBare => (unstated isBare).2)
      restOccupied
    exact ⟨⟨start.statements⟩ :: children, rfl, firstRow.append restRow⟩

theorem Section.row : ∀ (switchSection : Section) {depth : Nat} {parent : StatementRef}
    {start stop : Mark} {next : Nat}, (bare → switchSection.stated = []) →
      depth < Limit.statementNesting →
      (switchSection.placed next).1.Occupies tree (depth + 1) parent start stop →
        StatementRow tree bare true (depth + 1) parent [⟨start.statements⟩] start stop next
          (switchSection.placed next).2
  | .mk given labels statements, depth, parent, start, stop, next, unstated, bound, occupied => by
    simp only [Section.stated, List.append_eq_nil_iff, Option.toList_eq_nil_iff] at unstated
    simp only [Section.placed, Section.Occupies, Option.getD_some] at occupied
    obtain ⟨nodes, refs, middle, found, labelsOccupied, membersOccupied⟩ := occupied
    have labelsRow := Label.rowOfAll (fun isBare => (unstated isBare).1.2) labelsOccupied
    obtain ⟨children, rfl, membersRow⟩ := Statement.rowOfAll statements
      (fun isBare => (unstated isBare).2) membersOccupied
    have parts : StatementParts tree bare (depth + 1) ⟨start.statements⟩
        (.switchSection nodes (children.map some)) ⟨start.statements + 1, start.expressions⟩ stop
        (Placement.opened given next) _ :=
      .ofHeaderFirst labelsRow membersRow (by simp [StatementContent.children, Function.comp_def])
        (StatementParts.noSections StatementKind.noConfusion)
    exact .ofParts (fun isBare => (unstated isBare).1.1) found parts ⟨fun _ => rfl, fun _ => rfl⟩
      rfl (by simpa using bound)

theorem Section.rowOfAll : ∀ (sections : List Section) {depth : Nat} {parent : StatementRef}
    {refs : List StatementRef} {start stop : Mark} {next : Nat},
      (bare → Section.statedInAll sections = []) → depth < Limit.statementNesting →
        Section.AllOccupy tree (depth + 1) parent (Section.placedAll sections next).1 refs start
          stop →
          ∃ children : List StatementId, refs = children.map some ∧
            StatementRow tree bare true (depth + 1) parent children start stop next
              (Section.placedAll sections next).2
  | [], depth, parent, refs, start, stop, next, unstated, bound, occupied => by
    obtain ⟨rfl, rfl⟩ := occupied
    exact ⟨[], rfl, .empty⟩
  | first :: rest, depth, parent, refs, start, stop, next, unstated, bound, occupied => by
    simp only [Section.statedInAll, List.append_eq_nil_iff] at unstated
    obtain ⟨others, middle, rfl, firstOccupied, restOccupied⟩ := occupied
    have firstRow := Section.row first (fun isBare => (unstated isBare).1) bound firstOccupied
    obtain ⟨children, rfl, restRow⟩ := Section.rowOfAll rest (fun isBare => (unstated isBare).2)
      bound restOccupied
    exact ⟨⟨start.statements⟩ :: children, rfl, firstRow.append restRow⟩

end

end Rows

/-! ## The whole tree -/

namespace StatementTree

variable {procedure : Procedure} {tree : StatementTree}

theorem index_lt_of_statement {id : StatementId} {node : StatementNode}
    (found : tree.statement? (some id) = some node) : id.index < tree.statements.size :=
  (Array.getElem?_eq_some_iff.mp found).1

theorem index_lt_of_expression {id : ExpressionId} {node : ExpressionNode}
    (found : tree.expression? (some id) = some node) : id.index < tree.expressions.size :=
  (Array.getElem?_eq_some_iff.mp found).1

/-- The body of a laid-out procedure stands in a row that is the whole tree. -/
theorem row_of_ofProcedure (laidOut : ofProcedure procedure = .ok tree) :
    ∃ next last, StatementRow tree (procedure.stated = []) false 0 none [⟨0⟩] ⟨0, 0⟩
      ⟨tree.statements.size, tree.expressions.size⟩ next last := by
  refine ⟨_, _, procedure.body.hasRow (fun isBare => ?_)
    (occupies_of_ofProcedure laidOut).body⟩
  exact (List.append_eq_nil_iff.mp isBare).2

section Whole

variable {bare : Prop} {children : List StatementId} {parent : StatementRef} {next last : Nat}
  (row : StatementRow tree bare false 0 parent children ⟨0, 0⟩
    ⟨tree.statements.size, tree.expressions.size⟩ next last)

include row

theorem settled_of_statement {id : StatementId} {node : StatementNode}
    (found : tree.statement? (some id) = some node) :
    SettledStatement tree bare id node ∧ (id ∈ children ∨
      ∃ above outer, node.parent = some above ∧ tree.statement? (some above) = some outer ∧
        some id ∈ outer.content.children.map (·.1)) := by
  obtain ⟨same, foundSame, settled, listed⟩ :=
    row.statement id (Nat.zero_le _) (index_lt_of_statement found)
  obtain rfl := Option.some.inj (found.symm.trans foundSame)
  exact ⟨settled, listed⟩

theorem settled_of_expression {id : ExpressionId} {node : ExpressionNode}
    (found : tree.expression? (some id) = some node) : SettledExpression tree bare id node := by
  obtain ⟨same, foundSame, settled⟩ :=
    row.expression id (Nat.zero_le _) (index_lt_of_expression found)
  obtain rfl := Option.some.inj (found.symm.trans foundSame)
  exact settled

end Whole

/-- All references in the tree of a procedure agree. -/
theorem proper_of_ofProcedure (laidOut : ofProcedure procedure = .ok tree) : tree.Proper := by
  obtain ⟨next, last, row⟩ := row_of_ofProcedure laidOut
  obtain ⟨_, _, body, bodyFound, bodyParent, _⟩ := row.child ⟨0⟩ (List.mem_singleton_self _)
  refine ⟨(occupies_of_ofProcedure laidOut).root, ⟨body, bodyFound, bodyParent⟩,
    fun found member => (settled_of_statement row found).1.child _ member,
    fun found => (settled_of_statement row found).1.distinct,
    fun found => (settled_of_statement row found).2.imp_left List.mem_singleton.mp,
    fun {id node} found => ?_,
    fun found member => (settled_of_statement row found).1.header _ member,
    fun found member => (settled_of_expression row found).part _ member,
    fun found => (settled_of_expression row found).owned⟩
  refine row.level 0 (fun child member => ?_) (Nat.le_refl _) id (Nat.zero_le _)
    (index_lt_of_statement found)
  obtain rfl := List.mem_singleton.mp member
  exact .root (by simp [StatementTree.parent, bodyFound, bodyParent])

/-- The spans in the tree of a procedure nest if the procedure states none. -/
theorem bracketed_of_ofProcedure (laidOut : ofProcedure procedure = .ok tree)
    (unstated : procedure.stated = []) : tree.Bracketed := by
  obtain ⟨next, last, row⟩ := row_of_ofProcedure laidOut
  exact ⟨fun found => (settled_of_statement row found).1.nonempty unstated,
    fun found member => (settled_of_statement row found).1.inside unstated _ member,
    fun found => (settled_of_statement row found).1.ordered unstated,
    fun found owned => (settled_of_expression row found).offset unstated _ owned,
    fun found member => (settled_of_statement row found).1.binding unstated _ member⟩

end StatementTree

end LexicalScope
