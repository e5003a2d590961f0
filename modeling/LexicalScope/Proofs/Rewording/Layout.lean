import LexicalScope.Proofs.Rewording.Syntax
import LexicalScope.StatementTree.Layout

/-!
# Laying out other texts

The layout copies texts and never looks at them. A procedure with other texts is laid out, or
refused, just as the procedure is, and its tree is that of the procedure with the other texts.
-/

namespace LexicalScope

/-- A state of the layout with other texts in its tree. -/
def LayoutState.reworded (w : Rewording) (state : LayoutState) : LayoutState :=
  { state with tree := state.tree.reworded w }

namespace StatementTree

variable {w : Rewording} {tree : StatementTree}

private theorem addStatement_reworded (node : StatementNode) :
    (tree.addStatement node).reworded w = (tree.reworded w).addStatement (node.reworded w) := by
  simp [addStatement, reworded]

private theorem addExpression_reworded (node : ExpressionNode) :
    (tree.addExpression node).reworded w = (tree.reworded w).addExpression (node.reworded w) := by
  simp [addExpression, reworded]

private theorem modifyStatement_reworded (ref : StatementRef)
    {change changeToo : StatementNode → StatementNode}
    (same : ∀ node, (change node).reworded w = changeToo (node.reworded w)) :
    (tree.modifyStatement ref change).reworded w =
      (tree.reworded w).modifyStatement ref changeToo := by
  cases ref with
  | none => rfl
  | some id => simp only [modifyStatement, reworded, map_modify same]

private theorem modifyExpression_reworded (ref : ExpressionRef)
    {change changeToo : ExpressionNode → ExpressionNode}
    (same : ∀ node, (change node).reworded w = changeToo (node.reworded w)) :
    (tree.modifyExpression ref change).reworded w =
      (tree.reworded w).modifyExpression ref changeToo := by
  cases ref with
  | none => rfl
  | some id => simp only [modifyExpression, reworded, map_modify same]

end StatementTree

namespace Layout

variable {w : Rewording} {First Second Third Fourth : Type}

/-- What comes out of a step, with other texts. -/
def outcomeReworded (w : Rewording) (change : First → Second) :
    EStateM.Result LayoutError LayoutState First → EStateM.Result LayoutError LayoutState Second
  | .ok value state => .ok (change value) (state.reworded w)
  | .error failure state => .error failure (state.reworded w)

/-- From a state with other texts a step does what another one does, with other texts. -/
def Rewords (w : Rewording) (change : First → Second) (step : Layout First)
    (stepToo : Layout Second) : Prop :=
  ∀ state : LayoutState, stepToo (state.reworded w) = outcomeReworded w change (step state)

namespace Rewords

variable {change : First → Second}

theorem pure {value : First} {valueToo : Second} (same : valueToo = change value) :
    Rewords w change (Pure.pure value) (Pure.pure valueToo) := fun state => by
  rw [same]
  rfl

theorem bind {changeToo : Third → Fourth} {step : Layout First} {stepToo : Layout Second}
    {next : First → Layout Third} {nextToo : Second → Layout Fourth}
    (first : Rewords w change step stepToo)
    (second : ∀ value, Rewords w changeToo (next value) (nextToo (change value))) :
    Rewords w changeToo (step >>= next) (stepToo >>= nextToo) := by
  intro state
  change EStateM.bind stepToo nextToo _ = outcomeReworded w changeToo (EStateM.bind step next state)
  unfold EStateM.bind
  rw [first state]
  cases step state with
  | ok value between => exact second value between
  | error failure between => rfl

theorem mapM {Item : Type} {itemChange : Item → Item} {step : Item → Layout First}
    {stepToo : Item → Layout Second}
    (each : ∀ item, Rewords w change (step item) (stepToo (itemChange item))) :
    ∀ items : List Item,
      Rewords w (List.map change) (items.mapM step) ((items.map itemChange).mapM stepToo)
  | [] => by
    rw [List.map_nil, List.mapM_nil, List.mapM_nil]
    exact .pure rfl
  | item :: rest => by
    rw [List.map_cons, List.mapM_cons, List.mapM_cons]
    exact .bind (each item) fun value => .bind (mapM each rest) fun values => .pure rfl

end Rewords

/-! ## Single steps -/

theorem rewords_openSpan (given : Option Span) :
    Rewords w id (openSpan given) (openSpan given) := by
  intro state
  cases given with
  | none =>
      unfold openSpan LayoutState.reworded
      dsimp only
      split <;> rfl
  | some span => rfl

theorem rewords_closeSpan (start : Nat) (given : Option Span) :
    Rewords w id (closeSpan start given) (closeSpan start given) := by
  intro state
  cases given with
  | none =>
      unfold closeSpan LayoutState.reworded
      dsimp only
      split <;> rfl
  | some span => rfl

theorem rewords_reserveStatement (parent : StatementRef) :
    Rewords w id (reserveStatement parent) (reserveStatement parent) := by
  intro state
  simp [reserveStatement, outcomeReworded, LayoutState.reworded, StatementTree.nextStatement,
    StatementTree.addStatement_reworded]
  rfl

private theorem rewords_reserveExpression (blank : w.literal "" = "") (statement : StatementId)
    (parent : ExpressionRef) :
    Rewords w id (reserveExpression statement parent) (reserveExpression statement parent) := by
  intro state
  simp [reserveExpression, outcomeReworded, LayoutState.reworded, StatementTree.nextExpression,
    StatementTree.addExpression_reworded, ExpressionNode.reworded, ExpressionContent.reworded,
    blank]

theorem rewords_fillStatement (statement : StatementId) (content : StatementContent) (span : Span) :
    Rewords w id (fillStatement statement content span)
      (fillStatement statement (content.reworded w) span) := by
  intro state
  have filled :
      (state.tree.modifyStatement (some statement) fun node =>
        { node with content := content, span := span }).reworded w =
      (state.tree.reworded w).modifyStatement (some statement) fun node =>
        { node with content := content.reworded w, span := span } :=
    StatementTree.modifyStatement_reworded _ fun node => rfl
  simp only [fillStatement, outcomeReworded, LayoutState.reworded, filled, id]

private theorem rewords_fillExpression (expression : ExpressionId) (content : ExpressionContent)
    (span : Span) :
    Rewords w id (fillExpression expression content span)
      (fillExpression expression (content.reworded w) span) := by
  intro state
  have filled :
      (state.tree.modifyExpression (some expression) fun node =>
        { node with content := content, span := span }).reworded w =
      (state.tree.reworded w).modifyExpression (some expression) fun node =>
        { node with content := content.reworded w, span := span } :=
    StatementTree.modifyExpression_reworded _ fun node => rfl
  simp only [fillExpression, outcomeReworded, LayoutState.reworded, filled, id]

private theorem rewords_checkStatementDepth (depth : Nat) :
    Rewords w id (checkStatementDepth depth) (checkStatementDepth depth) := by
  intro state
  unfold checkStatementDepth
  split <;> rfl

theorem rewords_checkExpressionDepth (depth : Nat) :
    Rewords w id (checkExpressionDepth depth) (checkExpressionDepth depth) := by
  intro state
  unfold checkExpressionDepth
  split <;> rfl

theorem rewords_binding (ident : Ident) :
    Rewords w (·.reworded w) (binding ident) (binding (ident.reworded w)) :=
  .bind (rewords_openSpan ident.span) fun start =>
    .bind (rewords_closeSpan start ident.span) fun _ => .pure rfl

private theorem rewords_optionalBinding (ident : Option Ident) :
    Rewords w (Option.map (·.reworded w)) (optionalBinding ident)
      (optionalBinding (ident.map (·.reworded w))) := by
  cases ident with
  | none => exact .pure rfl
  | some ident => exact .bind (rewords_binding ident) fun _ => .pure rfl

/-! ## Expressions -/

mutual

theorem rewords_expression (blank : w.literal "" = "") (statement : StatementId) (depth : Nat)
    (parent : ExpressionRef) :
    ∀ value : Expression, Rewords w id (expression statement depth parent value)
      (expression statement depth parent (value.reworded w))
  | .mk given form => by
    unfold expression
    exact .bind (rewords_checkExpressionDepth depth) fun _ =>
      .bind (rewords_openSpan given) fun start =>
      .bind (rewords_reserveExpression blank statement parent) fun id =>
      .bind (rewords_expressionForm blank statement (depth + 1) id form) fun content =>
      .bind (rewords_closeSpan start given) fun span =>
      .bind (rewords_fillExpression id content span) fun _ => .pure rfl
termination_by structural value => value

theorem rewords_expressionForm (blank : w.literal "" = "") (statement : StatementId) (depth : Nat)
    (id : ExpressionId) :
    ∀ form : ExpressionForm, Rewords w (·.reworded w) (expressionForm statement depth id form)
      (expressionForm statement depth id (form.reworded w))
  | .name _ | .literal _ | .out _ => .pure rfl
  | .unary _ operand =>
    .bind (rewords_expression blank statement depth (some id) operand) fun _ => .pure rfl
  | .binary _ left right =>
    .bind (rewords_expression blank statement depth (some id) left) fun _ =>
      .bind (rewords_expression blank statement depth (some id) right) fun _ => .pure rfl
  | .choice condition whenTrue whenFalse =>
    .bind (rewords_expression blank statement depth (some id) condition) fun _ =>
      .bind (rewords_expression blank statement depth (some id) whenTrue) fun _ =>
      .bind (rewords_expression blank statement depth (some id) whenFalse) fun _ => .pure rfl
  | .paren inner =>
    .bind (rewords_expression blank statement depth (some id) inner) fun _ => .pure rfl
  | .call callee arguments =>
    .bind (rewords_expression blank statement depth (some id) callee) fun _ =>
      .bind (rewords_expressions blank statement depth (some id) arguments) fun _ => .pure rfl
  | .member target _ =>
    .bind (rewords_expression blank statement depth (some id) target) fun _ => .pure rfl
  | .assign target value =>
    .bind (rewords_expression blank statement depth (some id) target) fun _ =>
      .bind (rewords_expression blank statement depth (some id) value) fun _ => .pure rfl
  | .test operand pattern =>
    .bind (rewords_expression blank statement depth (some id) operand) fun _ =>
      .bind (rewords_pattern blank statement depth (some id) pattern) fun _ => .pure rfl
  | .outVariable _ name => .bind (rewords_binding name) fun _ => .pure rfl
termination_by structural form => form

theorem rewords_expressions (blank : w.literal "" = "") (statement : StatementId) (depth : Nat)
    (parent : ExpressionRef) :
    ∀ values : List Expression, Rewords w id (expressions statement depth parent values)
      (expressions statement depth parent (Expression.rewordedAll w values))
  | [] => .pure rfl
  | first :: rest =>
    .bind (rewords_expression blank statement depth parent first) fun _ =>
      .bind (rewords_expressions blank statement depth parent rest) fun _ => .pure rfl
termination_by structural values => values

theorem rewords_pattern (blank : w.literal "" = "") (statement : StatementId) (depth : Nat)
    (parent : ExpressionRef) :
    ∀ value : Pattern, Rewords w (·.reworded w) (pattern statement depth parent value)
      (pattern statement depth parent (value.reworded w))
  | .type _ | .discard => .bind (rewords_checkExpressionDepth depth) fun _ => .pure rfl
  | .declaration _ name | .anyValue name =>
    .bind (rewords_checkExpressionDepth depth) fun _ =>
      .bind (rewords_binding name) fun _ => .pure rfl
  | .constant value =>
    .bind (rewords_checkExpressionDepth depth) fun _ =>
      .bind (rewords_expression blank statement (depth + 1) parent value) fun _ => .pure rfl
  | .recursive _ subpatterns name =>
    .bind (rewords_checkExpressionDepth depth) fun _ =>
      .bind (rewords_patterns blank statement (depth + 1) parent subpatterns) fun _ =>
      .bind (rewords_optionalBinding name) fun _ => .pure rfl
  | .negated inner =>
    .bind (rewords_checkExpressionDepth depth) fun _ =>
      .bind (rewords_pattern blank statement (depth + 1) parent inner) fun _ => .pure rfl
termination_by structural value => value

theorem rewords_patterns (blank : w.literal "" = "") (statement : StatementId) (depth : Nat)
    (parent : ExpressionRef) :
    ∀ values : List Pattern,
      Rewords w (PatternNode.rewordedAll w) (patterns statement depth parent values)
        (patterns statement depth parent (Pattern.rewordedAll w values))
  | [] => .pure rfl
  | first :: rest =>
    .bind (rewords_pattern blank statement depth parent first) fun _ =>
      .bind (rewords_patterns blank statement depth parent rest) fun _ => .pure rfl
termination_by structural values => values

end

/-! ## Statements -/

theorem rewords_header (blank : w.literal "" = "") (statement : StatementId) (value : Expression) :
    Rewords w id (header statement value) (header statement (value.reworded w)) :=
  .bind (rewords_expression blank statement 0 none value) fun _ => .pure rfl

theorem rewords_optionalHeader (blank : w.literal "" = "") (statement : StatementId)
    (value : Option Expression) :
    Rewords w id (optionalHeader statement value)
      (optionalHeader statement (value.map (·.reworded w))) := by
  cases value with
  | none => exact .pure rfl
  | some value => exact rewords_header blank statement value

private theorem rewords_declarator (blank : w.literal "" = "") (statement : StatementId)
    (value : Declarator) :
    Rewords w (·.reworded w) (declarator statement value)
      (declarator statement (value.reworded w)) :=
  .bind (rewords_binding value.name) fun _ =>
    .bind (rewords_optionalHeader blank statement value.initializer) fun _ => .pure rfl

private theorem rewords_headers (blank : w.literal "" = "") (statement : StatementId)
    (values : List Expression) :
    Rewords w id (values.mapM (header statement))
      ((values.map (·.reworded w)).mapM (header statement)) := by
  have mapped := Rewords.mapM (rewords_header blank statement) values
  rwa [List.map_id_fun] at mapped

private theorem rewords_closeLabel (start : Nat) (pattern : Option PatternNode)
    (guard : ExpressionRef) :
    Rewords w (·.reworded w) (return (⟨pattern, guard, ← closeSpan start none⟩ : LabelNode))
      (return (⟨pattern.map (·.reworded w), guard, ← closeSpan start none⟩ : LabelNode)) :=
  .bind (rewords_closeSpan start none) fun _ => .pure rfl

private theorem rewords_label (blank : w.literal "" = "") (statement : StatementId)
    (value : Label) :
    Rewords w (·.reworded w) (label statement value) (label statement (value.reworded w)) := by
  refine .bind (rewords_openSpan none) fun start => ?_
  cases value with
  | otherwise => exact rewords_closeLabel start none none
  | matching pattern guard =>
      exact .bind (rewords_pattern blank statement 0 none pattern) fun pattern =>
        .bind (rewords_optionalHeader blank statement guard) fun guard =>
        rewords_closeLabel start (some pattern) guard

mutual

theorem rewords_statement (blank : w.literal "" = "") (depth : Nat) (parent : StatementRef) :
    ∀ value : Statement, Rewords w id (statement depth parent value)
      (statement depth parent (value.reworded w))
  | .mk given form => by
    unfold statement
    exact .bind (rewords_checkStatementDepth depth) fun _ =>
      .bind (rewords_openSpan given) fun start =>
      .bind (rewords_reserveStatement parent) fun id =>
      .bind (rewords_statementForm blank (depth + 1) id form) fun content =>
      .bind (rewords_closeSpan start given) fun span =>
      .bind (rewords_fillStatement id content span) fun _ => .pure rfl
termination_by structural value => value

theorem rewords_statementForm (blank : w.literal "" = "") (depth : Nat) (id : StatementId) :
    ∀ form : StatementForm, Rewords w (·.reworded w) (statementForm depth id form)
      (statementForm depth id (form.reworded w))
  | .block members =>
    .bind (rewords_statements blank depth (some id) members) fun _ => .pure rfl
  | .branch condition thenBody none =>
    .bind (rewords_header blank id condition) fun _ =>
      .bind (rewords_statement blank depth (some id) thenBody) fun _ => .pure rfl
  | .branch condition thenBody (some elseBody) =>
    .bind (rewords_header blank id condition) fun _ =>
      .bind (rewords_statement blank depth (some id) thenBody) fun _ =>
      .bind (rewords_statement blank depth (some id) elseBody) fun _ => .pure rfl
  | .whileLoop condition body =>
    .bind (rewords_header blank id condition) fun _ =>
      .bind (rewords_statement blank depth (some id) body) fun _ => .pure rfl
  | .doLoop body condition =>
    .bind (rewords_statement blank depth (some id) body) fun _ =>
      .bind (rewords_header blank id condition) fun _ => .pure rfl
  | .forLoop declarators initializers condition incrementors body =>
    .bind (.mapM (rewords_declarator blank id) declarators) fun _ =>
      .bind (rewords_headers blank id initializers) fun _ =>
      .bind (rewords_optionalHeader blank id condition) fun _ =>
      .bind (rewords_headers blank id incrementors) fun _ =>
      .bind (rewords_statement blank depth (some id) body) fun _ => .pure rfl
  | .forEachLoop element collection body =>
    .bind (rewords_binding element) fun _ =>
      .bind (rewords_header blank id collection) fun _ =>
      .bind (rewords_statement blank depth (some id) body) fun _ => .pure rfl
  | .resource declarators held body =>
    .bind (.mapM (rewords_declarator blank id) declarators) fun _ =>
      .bind (rewords_optionalHeader blank id held) fun _ =>
      .bind (rewords_statement blank depth (some id) body) fun _ => .pure rfl
  | .switch subject sections =>
    .bind (rewords_header blank id subject) fun _ =>
      .bind (rewords_sections blank depth (some id) sections) fun _ => .pure rfl
  | .localDeclaration declarators =>
    .bind (.mapM (rewords_declarator blank id) declarators) fun _ => .pure rfl
  | .evaluation value => .bind (rewords_header blank id value) fun _ => .pure rfl
  | .returning value | .throwing value =>
    .bind (rewords_optionalHeader blank id value) fun _ => .pure rfl
  | .breaking | .continuing | .empty => .pure rfl
  | .labeled _ body =>
    .bind (rewords_statement blank depth (some id) body) fun _ => .pure rfl
termination_by structural form => form

theorem rewords_statements (blank : w.literal "" = "") (depth : Nat) (parent : StatementRef) :
    ∀ values : List Statement, Rewords w id (statements depth parent values)
      (statements depth parent (Statement.rewordedAll w values))
  | [] => .pure rfl
  | first :: rest =>
    .bind (rewords_statement blank depth parent first) fun _ =>
      .bind (rewords_statements blank depth parent rest) fun _ => .pure rfl
termination_by structural values => values

theorem rewords_switchSection (blank : w.literal "" = "") (depth : Nat) (parent : StatementRef) :
    ∀ value : Section, Rewords w id (switchSection depth parent value)
      (switchSection depth parent (value.reworded w))
  | .mk given labels members => by
    unfold switchSection
    exact .bind (rewords_openSpan given) fun start =>
      .bind (rewords_reserveStatement parent) fun id =>
      .bind (.mapM (rewords_label blank id) labels) fun labels =>
      .bind (rewords_statements blank depth (some id) members) fun members =>
      .bind (rewords_closeSpan start given) fun span =>
      .bind (rewords_fillStatement id (.switchSection labels members) span) fun _ => .pure rfl
termination_by structural value => value

theorem rewords_sections (blank : w.literal "" = "") (depth : Nat) (parent : StatementRef) :
    ∀ values : List Section, Rewords w id (sections depth parent values)
      (sections depth parent (Section.rewordedAll w values))
  | [] => .pure rfl
  | first :: rest =>
    .bind (rewords_switchSection blank depth parent first) fun _ =>
      .bind (rewords_sections blank depth parent rest) fun _ => .pure rfl
termination_by structural values => values

end

private theorem rewords_procedure (blank : w.literal "" = "") (value : Procedure) :
    Rewords w id (procedure value) (procedure (value.reworded w)) :=
  .bind (.mapM rewords_binding value.parameters) fun _ =>
    .bind (rewords_statement blank 0 none value.body) fun _ _ => rfl

end Layout

/-- A procedure with other texts has the tree of the procedure with these texts, or is refused for
the same reason. -/
theorem StatementTree.ofProcedure_reworded {w : Rewording} (blank : w.literal "" = "")
    (procedure : Procedure) :
    ofProcedure (procedure.reworded w) = (ofProcedure procedure).map (·.reworded w) := by
  have laid := Layout.rewords_procedure blank procedure ⟨.empty procedure.name, 0⟩
  have start : (⟨.empty procedure.name, 0⟩ : LayoutState).reworded w =
      ⟨.empty (procedure.reworded w).name, 0⟩ := by
    simp [LayoutState.reworded, empty, reworded, Procedure.reworded]
  rw [start] at laid
  rw [ofProcedure, laid, ofProcedure]
  cases Layout.procedure procedure ⟨.empty procedure.name, 0⟩ <;> rfl

end LexicalScope
