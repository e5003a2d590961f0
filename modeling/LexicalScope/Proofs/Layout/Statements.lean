import LexicalScope.Proofs.Layout.Expressions

/-!
# Laying out statements

What the layout adds for a statement is the statement with its parts placed, in source order. The
tree of a procedure therefore holds the placed procedure and nothing else.
-/

namespace LexicalScope

namespace Layout

/-! ## Headers -/

theorem header_laid (owner : StatementId) (value : Expression) {before after : LayoutState}
    {ref : ExpressionRef} (laid : header owner value before = .ok ref after) :
    ref = some ⟨before.tree.expressions.size⟩ ∧
      LaidHeader before after (value.placed before.next).2 fun tree =>
        (value.placed before.next).1.OccupiesHeader tree owner before.tree.expressions.size
          after.tree.expressions.size := by
  simp only [header, Step.bind_eq_ok, Step.pure_eq_ok] at laid
  obtain ⟨_, _, first, rfl, rfl⟩ := laid
  obtain ⟨rfl, value⟩ := expression_laid owner 0 none value first
  exact ⟨rfl, value⟩

theorem optionalHeader_laid (owner : StatementId) (value : Option Expression)
    {before after : LayoutState} {ref : ExpressionRef}
    (laid : optionalHeader owner value before = .ok ref after) :
    LaidHeader before after (Placement.optional Expression.placed value before.next).2 fun tree =>
      OccupyOptional (Expression.OccupiesHeader tree owner)
        (Placement.optional Expression.placed value before.next).1 ref
        before.tree.expressions.size after.tree.expressions.size := by
  cases value with
  | none =>
      simp only [optionalHeader, Step.pure_eq_ok] at laid
      obtain ⟨rfl, rfl⟩ := laid
      exact .nothing fun tree => ⟨rfl, rfl⟩
  | some value =>
      obtain ⟨rfl, value⟩ := header_laid owner value laid
      exact value.imp fun tree occupied => ⟨rfl, occupied⟩

theorem mapM_laid {Part Node : Type} {step : Part → Layout Node}
    {place : Part → Nat → Part × Nat}
    {occupies : StatementTree → Part → Node → Nat → Nat → Prop}
    (each : ∀ (part : Part) {before after : LayoutState} {node : Node},
      step part before = .ok node after →
        LaidHeader before after (place part before.next).2 fun tree =>
          occupies tree (place part before.next).1 node before.tree.expressions.size
            after.tree.expressions.size)
    (parts : List Part) {before after : LayoutState} {nodes : List Node}
    (laid : parts.mapM step before = .ok nodes after) :
    LaidHeader before after (Placement.all place parts before.next).2 fun tree =>
      OccupyAll (occupies tree) (Placement.all place parts before.next).1 nodes
        before.tree.expressions.size after.tree.expressions.size := by
  induction parts generalizing before nodes with
  | nil =>
      obtain ⟨rfl, rfl⟩ := Step.mapM_nil_eq_ok.mp laid
      exact .nothing fun tree => ⟨rfl, rfl⟩
  | cons part parts ih =>
      obtain ⟨node, others, middle, rfl, firstLaid, restLaid⟩ := Step.mapM_cons_eq_ok.mp laid
      have first := each part firstLaid
      have rest := ih restLaid
      rw [first.next_eq] at rest
      exact (first.append rest).imp fun tree ⟨firstOccupied, restOccupied⟩ =>
        ⟨_, _, _, rfl, firstOccupied, restOccupied⟩

private theorem headers_laid (owner : StatementId) (values : List Expression)
    {before after : LayoutState} {refs : List ExpressionRef}
    (laid : values.mapM (header owner) before = .ok refs after) :
    LaidHeader before after (Placement.all Expression.placed values before.next).2 fun tree =>
      OccupyAll (Expression.OccupiesAt tree owner)
        (Placement.all Expression.placed values before.next).1 refs
        before.tree.expressions.size after.tree.expressions.size :=
  mapM_laid (fun value _ _ _ valueLaid => (header_laid owner value valueLaid).2.imp
    fun _ occupied => ⟨(header_laid owner value valueLaid).1, occupied⟩) values laid

private theorem declarator_laid (owner : StatementId) (value : Declarator)
    {before after : LayoutState} {node : DeclaratorNode}
    (laid : declarator owner value before = .ok node after) :
    LaidHeader before after (value.placed before.next).2 fun tree =>
      (value.placed before.next).1.Occupies tree owner node before.tree.expressions.size
        after.tree.expressions.size := by
  simp only [declarator, Step.bind_eq_ok, Step.pure_eq_ok] at laid
  obtain ⟨_, _, named, _, _, initialized, rfl, rfl⟩ := laid
  obtain ⟨rfl, rfl⟩ := binding_eq_ok named
  have initializer := optionalHeader_laid owner value.initializer initialized
  have name : LaidHeader before { before with next := (value.name.placed before.next).2 }
      (value.name.placed before.next).2 fun _ => True := .ofNext fun _ => trivial
  exact (name.append initializer).imp fun tree both => ⟨rfl, both.2⟩

theorem declarators_laid (owner : StatementId) (values : List Declarator)
    {before after : LayoutState} {nodes : List DeclaratorNode}
    (laid : values.mapM (declarator owner) before = .ok nodes after) :
    LaidHeader before after (Placement.all Declarator.placed values before.next).2 fun tree =>
      OccupyAll (Declarator.Occupies tree owner)
        (Placement.all Declarator.placed values before.next).1 nodes
        before.tree.expressions.size after.tree.expressions.size :=
  mapM_laid (fun value _ _ _ => declarator_laid owner value) values laid

private theorem label_laid (owner : StatementId) (value : Label) {before after : LayoutState}
    {node : LabelNode} (laid : label owner value before = .ok node after) :
    LaidHeader before after (value.placed before.next).2 fun tree =>
      (value.placed before.next).1.Occupies tree owner node before.tree.expressions.size
        after.tree.expressions.size := by
  cases value with
  | matching pattern guard =>
      simp only [label, Step.bind_eq_ok, Step.pure_eq_ok] at laid
      obtain ⟨start, _, opened, node, _, matched, _, _, guarded, _, _, ⟨rfl, rfl⟩, _, _, closed,
        rfl, rfl⟩ := laid
      obtain ⟨rfl, rfl⟩ := openSpan_eq_ok opened
      have pattern := pattern_laid owner 0 none pattern matched
      have guard := optionalHeader_laid owner guard guarded
      obtain ⟨rfl, rfl⟩ := closeSpan_eq_ok closed
      rw [pattern.next_eq] at guard
      rw [guard.next_eq]
      have start : LaidHeader before { before with next := before.next + 1 } (before.next + 1)
          fun _ => True := .ofNext fun _ => trivial
      exact ((start.append pattern).append guard).moved.imp
        fun tree both => ⟨_, _, rfl, both.1.2, both.2⟩
  | otherwise =>
      simp only [label, Step.bind_eq_ok, Step.pure_eq_ok] at laid
      obtain ⟨start, _, opened, _, _, ⟨rfl, rfl⟩, _, _, closed, rfl, rfl⟩ := laid
      obtain ⟨rfl, rfl⟩ := openSpan_eq_ok opened
      obtain ⟨rfl, rfl⟩ := closeSpan_eq_ok closed
      exact .ofNext fun tree => ⟨rfl, rfl, rfl⟩

private theorem labels_laid (owner : StatementId) (values : List Label)
    {before after : LayoutState} {nodes : List LabelNode}
    (laid : values.mapM (label owner) before = .ok nodes after) :
    LaidHeader before after (Placement.all Label.placed values before.next).2 fun tree =>
      OccupyAll (Label.Occupies tree owner) (Placement.all Label.placed values before.next).1 nodes
        before.tree.expressions.size after.tree.expressions.size :=
  mapM_laid (fun value _ _ _ => label_laid owner value) values laid

/-! ## Statements -/

/-- The state in which a statement has been opened and reserved. -/
def reserved (before : LayoutState) (given : Option Span) (parent : StatementRef) :
    LayoutState :=
  { next := Placement.opened given before.next
    tree := before.tree.addStatement ⟨.empty, Span.dummy, parent⟩ }

/-- The state in which the statement reserved at `id` has been closed and filled. -/
def filled (middle : LayoutState) (id : StatementId) (start : Nat) (given : Option Span)
    (content : StatementContent) : LayoutState :=
  { next := Placement.closed start given middle.next
    tree := middle.tree.modifyStatement (some id) fun node =>
      { node with content := content, span := Placement.covered start given middle.next } }

/-- A statement around laid out parts: the reserved node is filled behind them. -/
theorem filled_statement_laid {before middle : LayoutState} {parent : StatementRef}
    {next start : Nat}
    {given : Option Span} {content : StatementContent} {inner : StatementTree → Prop}
    (laid : Laid (reserved before given parent) middle next inner) :
    Laid before (filled middle ⟨before.tree.statements.size⟩ start given content)
      (Placement.closed start given next) fun tree =>
      tree.statement? (some ⟨before.tree.statements.size⟩) =
        some ⟨content, Placement.covered start given next, parent⟩ ∧ inner tree := by
  obtain ⟨grows, next_eq, holds⟩ := laid
  have larger : before.tree.statements.size + 1 ≤ middle.tree.statements.size := by
    simpa [reserved, StatementTree.addStatement] using grows.statements
  have placeholder : middle.tree.statements[before.tree.statements.size]? =
      some ⟨.empty, Span.dummy, parent⟩ := by
    rw [grows.statement _ (by simp [reserved, StatementTree.addStatement])]
    simp [reserved, StatementTree.addStatement]
  refine ⟨⟨grows.name, ?_, ?_, ?_, ?_⟩, ?_, ?_⟩
  · simp only [filled, StatementTree.modifyStatement, Array.size_modify]
    omega
  · simpa [filled, reserved, StatementTree.modifyStatement, StatementTree.addStatement] using
      grows.expressions
  · intro i small
    have kept := grows.statement i (by simp [reserved, StatementTree.addStatement]; omega)
    have other : before.tree.statements.size ≠ i := by omega
    simp only [filled, StatementTree.modifyStatement, Array.getElem?_modify, if_neg other, kept]
    simp only [reserved, StatementTree.addStatement, Array.getElem?_push, Nat.ne_of_lt small,
      if_false]
  · intro i small
    simpa [filled, reserved, StatementTree.modifyStatement, StatementTree.addStatement] using
      grows.expression i (by simpa [reserved, StatementTree.addStatement] using small)
  · simp only [filled, next_eq]
  · intro tree shows
    constructor
    · have shown := shows.statement before.tree.statements.size (Nat.le_refl _)
        (by simp only [filled, StatementTree.modifyStatement, Array.size_modify]; omega)
      simp only [StatementTree.statement?, Option.bind_some, shown, filled,
        StatementTree.modifyStatement, Array.getElem?_modify, if_true, placeholder,
        Option.map_some, next_eq]
    · apply holds tree
      constructor
      · intro i lower upper
        have behind : before.tree.statements.size + 1 ≤ i := by
          simpa [LayoutState.mark, reserved, StatementTree.addStatement] using lower
        have shown := shows.statement i (by simp only [LayoutState.mark]; omega)
          (by simpa [filled, StatementTree.modifyStatement] using upper)
        have other : before.tree.statements.size ≠ i := by omega
        simpa only [filled, StatementTree.modifyStatement, Array.getElem?_modify, if_neg other]
          using shown
      · intro i lower upper
        have shown := shows.expression i
          (by simpa [LayoutState.mark, reserved, StatementTree.addStatement] using lower)
          (by simpa [filled, StatementTree.modifyStatement] using upper)
        simpa [filled, StatementTree.modifyStatement] using shown

private theorem filled_mark {middle : LayoutState} {id : StatementId} {start : Nat}
    {given : Option Span} {content : StatementContent} :
    (filled middle id start given content).mark = middle.mark := by
  simp [LayoutState.mark, filled, StatementTree.modifyStatement]

private theorem reserved_mark {before : LayoutState} {given : Option Span}
    {parent : StatementRef} :
    (reserved before given parent).mark =
      ⟨before.tree.statements.size + 1, before.tree.expressions.size⟩ := by
  simp [LayoutState.mark, reserved, StatementTree.addStatement]

private theorem mark_eq {before after : LayoutState} {next : Nat} {fact : StatementTree → Prop}
    (laid : LaidHeader before after next fact) :
    after.mark = ⟨before.mark.statements, after.tree.expressions.size⟩ := by
  simp [LayoutState.mark, laid.statements]

/-- Where a statement is laid out, it occupies what was added for it. -/
def IsLaid (depth : Nat) (parent : StatementRef) (value : Statement) : Prop :=
  ∀ ⦃before after : LayoutState⦄ ⦃id : StatementId⦄,
    statement depth parent value before = .ok id after →
      id = ⟨before.tree.statements.size⟩ ∧
        Laid before after (value.placed before.next).2 fun tree =>
          (value.placed before.next).1.Occupies tree depth parent before.mark after.mark

/-- Where the parts of a statement are laid out, they occupy what was added for them. -/
def IsFormLaid (depth : Nat) (id : StatementId) (form : StatementForm) : Prop :=
  ∀ ⦃before after : LayoutState⦄ ⦃content : StatementContent⦄,
    statementForm depth id form before = .ok content after →
      Laid before after (form.placed before.next).2 fun tree =>
        (form.placed before.next).1.Occupies tree depth id content before.mark after.mark

section Bodies

variable {depth : Nat} {id : StatementId} {body : Statement}

/-- The body of a statement is laid out behind the header. -/
theorem IsLaid.behind (part : IsLaid depth (some id) body) {before middle after : LayoutState}
    {next : Nat} {header : StatementTree → Prop} {bodyId : StatementId}
    (headerLaid : LaidHeader before middle next header)
    (laid : statement depth (some id) body middle = .ok bodyId after) :
    bodyId = ⟨before.tree.statements.size⟩ ∧
      Laid before after (body.placed next).2 fun tree =>
        header tree ∧ (body.placed next).1.Occupies tree depth (some id)
          ⟨before.tree.statements.size, middle.tree.expressions.size⟩ after.mark := by
  obtain ⟨rfl, body⟩ := part laid
  rw [headerLaid.next_eq, mark_eq headerLaid] at body
  exact ⟨by rw [headerLaid.statements], headerLaid.toLaid.append body⟩

private theorem ifElse_laid (thenPart : IsLaid depth (some id) body) {elseBody : Statement}
    (elsePart : IsLaid depth (some id) elseBody) {condition : Expression} :
    IsFormLaid depth id (.branch condition body (some elseBody)) := by
  intro before after content laid
  simp only [statementForm, Step.bind_eq_ok, Step.pure_eq_ok] at laid
  obtain ⟨_, _, first, _, _, second, _, _, third, rfl, rfl⟩ := laid
  obtain ⟨rfl, condition⟩ := header_laid id condition first
  obtain ⟨rfl, body⟩ := thenPart.behind condition second
  obtain ⟨rfl, elseBody⟩ := elsePart third
  rw [body.next_eq] at elseBody
  refine (body.append elseBody).imp ?_
  rintro tree ⟨⟨tested, occupied⟩, elseOccupied⟩
  exact ⟨_, _, rfl, tested, occupied, elseOccupied⟩

private theorem forLoop_laid (part : IsLaid depth (some id) body) {declarators : List Declarator}
    {initializers : List Expression} {condition : Option Expression}
    {incrementors : List Expression} :
    IsFormLaid depth id (.forLoop declarators initializers condition incrementors body) := by
  intro before after content laid
  simp only [statementForm, Step.bind_eq_ok, Step.pure_eq_ok] at laid
  obtain ⟨_, _, first, _, _, second, _, _, third, _, _, fourth, _, _, fifth, rfl, rfl⟩ := laid
  have declarators := declarators_laid id declarators first
  have initializers := headers_laid id initializers second
  have condition := optionalHeader_laid id condition third
  have incrementors := headers_laid id incrementors fourth
  rw [declarators.next_eq] at initializers
  rw [initializers.next_eq] at condition
  rw [condition.next_eq] at incrementors
  have headers := declarators.append (initializers.append (condition.append incrementors))
  obtain ⟨rfl, body⟩ := part.behind headers fifth
  refine body.imp ?_
  rintro tree ⟨⟨declared, started, tested, stepped⟩, occupied⟩
  exact ⟨_, _, _, _, _, _, _, _, rfl, declared, started, tested, stepped, occupied⟩

end Bodies

mutual

theorem statement_laid (depth : Nat) (parent : StatementRef) :
    ∀ value : Statement, IsLaid depth parent value
  | .mk given form => by
    intro before after id laid
    simp only [statement, Step.bind_eq_ok, Step.pure_eq_ok] at laid
    obtain ⟨_, _, checked, start, _, opened, _, _, reserving, content, middle, formed, span, _,
      closed, _, _, filling, rfl, rfl⟩ := laid
    obtain ⟨bound, rfl⟩ := checkStatementDepth_eq_ok checked
    obtain ⟨rfl, rfl⟩ := openSpan_eq_ok opened
    cases reserving
    have inner : Laid (reserved before given parent) middle _ _ :=
      statementForm_laid (depth + 1) ⟨before.tree.statements.size⟩ form formed
    obtain ⟨rfl, rfl⟩ := closeSpan_eq_ok closed
    cases filling
    refine ⟨rfl, ?_⟩
    change Laid before (filled middle ⟨before.tree.statements.size⟩ _ given content) _ fun tree =>
      Statement.Occupies tree depth parent _ before.mark (filled middle _ _ given content).mark
    rw [filled_mark]
    rw [reserved_mark] at inner
    exact (filled_statement_laid inner).imp fun tree ⟨found, occupied⟩ =>
      ⟨bound, content, found, occupied⟩

theorem statementForm_laid (depth : Nat) (id : StatementId) :
    ∀ form : StatementForm, IsFormLaid depth id form
  | .block members => by
    intro before after content laid
    simp only [statementForm, Step.bind_eq_ok, Step.pure_eq_ok] at laid
    obtain ⟨refs, _, listed, rfl, rfl⟩ := laid
    exact (statements_laid depth (some id) members listed).imp fun tree occupied =>
      ⟨refs, rfl, occupied⟩
  | .branch condition thenBody none => by
    intro before after content laid
    simp only [statementForm, Step.bind_eq_ok, Step.pure_eq_ok] at laid
    obtain ⟨_, _, first, _, _, second, rfl, rfl⟩ := laid
    obtain ⟨rfl, condition⟩ := header_laid id condition first
    obtain ⟨rfl, body⟩ := (statement_laid depth (some id) thenBody).behind condition second
    exact body.imp fun tree occupied => ⟨_, rfl, occupied⟩
  | .branch _ thenBody (some elseBody) =>
    ifElse_laid (statement_laid depth (some id) thenBody) (statement_laid depth (some id) elseBody)
  | .whileLoop condition body => by
    intro before after content laid
    simp only [statementForm, Step.bind_eq_ok, Step.pure_eq_ok] at laid
    obtain ⟨_, _, first, _, _, second, rfl, rfl⟩ := laid
    obtain ⟨rfl, condition⟩ := header_laid id condition first
    obtain ⟨rfl, body⟩ := (statement_laid depth (some id) body).behind condition second
    exact body.imp fun tree occupied => ⟨_, rfl, occupied⟩
  | .doLoop body condition => by
    intro before after content laid
    simp only [statementForm, Step.bind_eq_ok, Step.pure_eq_ok] at laid
    obtain ⟨_, _, first, _, _, second, rfl, rfl⟩ := laid
    obtain ⟨rfl, body⟩ := statement_laid depth (some id) body first
    obtain ⟨rfl, condition⟩ := header_laid id condition second
    rw [body.next_eq] at condition
    rw [mark_eq condition]
    exact (body.append condition.toLaid).imp fun tree occupied => ⟨_, rfl, occupied⟩
  | .forLoop _ _ _ _ body => forLoop_laid (statement_laid depth (some id) body)
  | .forEachLoop element collection body => by
    intro before after content laid
    simp only [statementForm, Step.bind_eq_ok, Step.pure_eq_ok] at laid
    obtain ⟨_, _, named, _, _, first, _, _, second, rfl, rfl⟩ := laid
    obtain ⟨rfl, rfl⟩ := binding_eq_ok named
    obtain ⟨rfl, collection⟩ := header_laid id collection first
    have name : LaidHeader before { before with next := (element.placed before.next).2 }
        (element.placed before.next).2 fun _ => True := .ofNext fun _ => trivial
    obtain ⟨rfl, body⟩ := (statement_laid depth (some id) body).behind
      (name.append collection) second
    exact body.imp fun tree ⟨⟨_, tested⟩, occupied⟩ => ⟨_, rfl, tested, occupied⟩
  | .resource declarators held body => by
    intro before after content laid
    simp only [statementForm, Step.bind_eq_ok, Step.pure_eq_ok] at laid
    obtain ⟨_, _, first, _, _, second, _, _, third, rfl, rfl⟩ := laid
    have declarators := declarators_laid id declarators first
    have held := optionalHeader_laid id held second
    rw [declarators.next_eq] at held
    obtain ⟨rfl, body⟩ := (statement_laid depth (some id) body).behind
      (declarators.append held) third
    exact body.imp fun tree ⟨⟨declared, tested⟩, occupied⟩ =>
      ⟨_, _, _, _, rfl, declared, tested, occupied⟩
  | .switch subject parts => by
    intro before after content laid
    simp only [statementForm, Step.bind_eq_ok, Step.pure_eq_ok] at laid
    obtain ⟨_, _, first, refs, _, second, rfl, rfl⟩ := laid
    obtain ⟨rfl, subject⟩ := header_laid id subject first
    have parts := sections_laid depth (some id) parts second
    rw [subject.next_eq, mark_eq subject] at parts
    exact (subject.toLaid.append parts).imp fun tree occupied => ⟨_, refs, rfl, occupied⟩
  | .localDeclaration declarators => by
    intro before after content laid
    simp only [statementForm, Step.bind_eq_ok, Step.pure_eq_ok] at laid
    obtain ⟨_, _, first, rfl, rfl⟩ := laid
    have declarators := declarators_laid id declarators first
    exact declarators.toLaid.imp fun tree declared =>
      ⟨_, rfl, declared, declarators.statements.symm⟩
  | .evaluation value => by
    intro before after content laid
    simp only [statementForm, Step.bind_eq_ok, Step.pure_eq_ok] at laid
    obtain ⟨_, _, first, rfl, rfl⟩ := laid
    obtain ⟨rfl, value⟩ := header_laid id value first
    exact value.toLaid.imp fun tree occupied => ⟨rfl, occupied, value.statements.symm⟩
  | .returning value | .throwing value => by
    intro before after content laid
    simp only [statementForm, Step.bind_eq_ok, Step.pure_eq_ok] at laid
    obtain ⟨_, _, first, rfl, rfl⟩ := laid
    have value := optionalHeader_laid id value first
    exact value.toLaid.imp fun tree occupied => ⟨_, rfl, occupied, value.statements.symm⟩
  | .labeled name body => by
    intro before after content laid
    simp only [statementForm, Step.bind_eq_ok, Step.pure_eq_ok] at laid
    obtain ⟨_, _, first, rfl, rfl⟩ := laid
    obtain ⟨rfl, body⟩ := statement_laid depth (some id) body first
    exact body.imp fun tree occupied => ⟨rfl, occupied⟩
  | .breaking | .continuing | .empty => by
    intro before after content laid
    simp only [statementForm, Step.pure_eq_ok] at laid
    obtain ⟨rfl, rfl⟩ := laid
    exact .nothing fun tree => ⟨rfl, rfl⟩

/-- Laid out statements occupy what was added for them. -/
theorem statements_laid (depth : Nat) (parent : StatementRef) :
    ∀ (values : List Statement) {before after : LayoutState} {refs : List StatementRef},
      statements depth parent values before = .ok refs after →
        Laid before after (Statement.placedAll values before.next).2 fun tree =>
          Statement.AllOccupy tree depth parent (Statement.placedAll values before.next).1 refs
            before.mark after.mark
  | [], before, after, refs, laid => by
    simp only [statements, Step.pure_eq_ok] at laid
    obtain ⟨rfl, rfl⟩ := laid
    exact .nothing fun tree => ⟨rfl, rfl⟩
  | first :: rest, before, after, refs, laid => by
    simp only [statements, Step.bind_eq_ok, Step.pure_eq_ok] at laid
    obtain ⟨_, _, firstLaid, others, _, restLaid, rfl, rfl⟩ := laid
    obtain ⟨rfl, first⟩ := statement_laid depth parent first firstLaid
    have rest := statements_laid depth parent rest restLaid
    rw [first.next_eq] at rest
    exact (first.append rest).imp fun tree ⟨firstOccupied, restOccupied⟩ =>
      ⟨_, _, rfl, firstOccupied, restOccupied⟩

theorem switchSection_laid (depth : Nat) (parent : StatementRef) :
    ∀ (value : Section) {before after : LayoutState} {id : StatementId},
      switchSection depth parent value before = .ok id after →
        id = ⟨before.tree.statements.size⟩ ∧
          Laid before after (value.placed before.next).2 fun tree =>
            (value.placed before.next).1.Occupies tree depth parent before.mark after.mark
  | .mk given labels members, before, after, id, laid => by
    simp only [switchSection, Step.bind_eq_ok, Step.pure_eq_ok] at laid
    obtain ⟨start, _, opened, _, _, reserving, nodes, _, labeling, refs, middle, listed, span, _,
      closed, _, _, filling, rfl, rfl⟩ := laid
    obtain ⟨rfl, rfl⟩ := openSpan_eq_ok opened
    cases reserving
    have labels := labels_laid ⟨before.tree.statements.size⟩ labels labeling
    have members := statements_laid depth (some ⟨before.tree.statements.size⟩) members listed
    rw [labels.next_eq, mark_eq labels] at members
    have inner : Laid (reserved before given parent) middle _ _ := labels.toLaid.append members
    obtain ⟨rfl, rfl⟩ := closeSpan_eq_ok closed
    cases filling
    refine ⟨rfl, ?_⟩
    change Laid before (filled middle ⟨before.tree.statements.size⟩ _ given
      (.switchSection nodes refs)) _ fun tree =>
        Section.Occupies tree depth parent _ before.mark (filled middle _ _ given _).mark
    rw [filled_mark]
    refine (filled_statement_laid inner).imp fun tree ⟨found, labeled, occupied⟩ =>
      ⟨nodes, refs, _, found, labeled, ?_⟩
    simpa [LayoutState.mark, StatementTree.addStatement] using occupied

theorem sections_laid (depth : Nat) (parent : StatementRef) :
    ∀ (values : List Section) {before after : LayoutState} {refs : List StatementRef},
      sections depth parent values before = .ok refs after →
        Laid before after (Section.placedAll values before.next).2 fun tree =>
          Section.AllOccupy tree depth parent (Section.placedAll values before.next).1 refs
            before.mark after.mark
  | [], before, after, refs, laid => by
    simp only [sections, Step.pure_eq_ok] at laid
    obtain ⟨rfl, rfl⟩ := laid
    exact .nothing fun tree => ⟨rfl, rfl⟩
  | first :: rest, before, after, refs, laid => by
    simp only [sections, Step.bind_eq_ok, Step.pure_eq_ok] at laid
    obtain ⟨_, _, firstLaid, others, _, restLaid, rfl, rfl⟩ := laid
    obtain ⟨rfl, first⟩ := switchSection_laid depth parent first firstLaid
    have rest := sections_laid depth parent rest restLaid
    rw [first.next_eq] at rest
    exact (first.append rest).imp fun tree ⟨firstOccupied, restOccupied⟩ =>
      ⟨_, _, rfl, firstOccupied, restOccupied⟩

end

theorem parameters_eq_ok (parameters : List Ident) {before after : LayoutState}
    {bindings : List Binding} (bound : parameters.mapM binding before = .ok bindings after) :
    bindings = (Placement.all Ident.placed parameters before.next).1.map Ident.binding ∧
      after = { before with next := (Placement.all Ident.placed parameters before.next).2 } := by
  induction parameters generalizing before bindings with
  | nil =>
      obtain ⟨rfl, rfl⟩ := Step.mapM_nil_eq_ok.mp bound
      exact ⟨rfl, rfl⟩
  | cons parameter parameters ih =>
      obtain ⟨first, others, middle, rfl, firstBound, restBound⟩ := Step.mapM_cons_eq_ok.mp bound
      obtain ⟨rfl, rfl⟩ := binding_eq_ok firstBound
      obtain ⟨rfl, rfl⟩ := ih restBound
      exact ⟨rfl, rfl⟩

end Layout

/-- The tree of a procedure holds the placed procedure and nothing else. -/
theorem StatementTree.occupies_of_ofProcedure {procedure : Procedure} {tree : StatementTree}
    (laid : StatementTree.ofProcedure procedure = .ok tree) : procedure.placed.Occupies tree := by
  unfold StatementTree.ofProcedure at laid
  split at laid
  next state succeeded =>
    cases laid
    simp only [Layout.procedure, Step.bind_eq_ok] at succeeded
    obtain ⟨_, _, bound, root, middle, bodyLaid, modified⟩ := succeeded
    obtain ⟨rfl, rfl⟩ := Layout.parameters_eq_ok _ bound
    obtain ⟨rfl, body⟩ := Layout.statement_laid 0 none procedure.body bodyLaid
    cases modified
    refine ⟨body.grows.name, rfl, rfl, body.holds _ ⟨fun _ _ _ => rfl, fun _ _ _ => rfl⟩⟩
  next => cases laid

end LexicalScope
