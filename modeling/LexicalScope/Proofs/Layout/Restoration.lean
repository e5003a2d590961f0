import LexicalScope.Procedure.Build
import LexicalScope.Proofs.Layout.Statements
import LexicalScope.Proofs.Procedure.Completion

/-!
# Reading a procedure back from its statement tree

A statement tree is read from its root, each part through the references of the node that holds it,
and the parts are put together to nested syntax again. The tree of a procedure reads back as the
procedure itself, completed by spans: laying it out loses nothing.
-/

namespace LexicalScope

/-! ## Reading back -/

/-- The name of a binding, at its span. -/
def Binding.ident (binding : Binding) : Ident := ⟨binding.name, some binding.span⟩

/-- A part that may be absent: no reference is no part. -/
def restoreOptional? {Id Part : Type} (restore : Option Id → Option Part) :
    Option Id → Option (Option Part)
  | none => some none
  | some id => (restore (some id)).map some

section Nodes

variable (expression : ExpressionRef → Option Expression)

mutual

/-- The pattern in a node, with its constants read by `expression`. -/
def PatternNode.restore? : PatternNode → Option Pattern
  | .type typeName => some (.type typeName)
  | .declaration typeName binding => some (.declaration typeName binding.ident)
  | .anyValue binding => some (.anyValue binding.ident)
  | .constant value => return .constant (← expression value)
  | .discard => some .discard
  | .recursive typeName subpatterns binding =>
    return .recursive typeName (← PatternNode.restoreAll? subpatterns) (binding.map Binding.ident)
  | .negated pattern => return .negated (← pattern.restore?)

/-- The patterns in a node. -/
def PatternNode.restoreAll? : List PatternNode → Option (List Pattern)
  | [] => some []
  | first :: rest => return (← first.restore?) :: (← PatternNode.restoreAll? rest)

end

/-- The form of an expression, with its parts read by `expression`. -/
def ExpressionContent.restore? : ExpressionContent → Option ExpressionForm
  | .name variableName => some (.name variableName)
  | .literal value => some (.literal value)
  | .unary operator operand => return .unary operator (← expression operand)
  | .binary operator left right =>
    return .binary operator (← expression left) (← expression right)
  | .choice condition whenTrue whenFalse =>
    return .choice (← expression condition) (← expression whenTrue) (← expression whenFalse)
  | .paren inner => return .paren (← expression inner)
  | .call callee arguments =>
    return .call (← expression callee) (← arguments.mapM expression)
  | .member target memberName => return .member (← expression target) memberName
  | .assign target value => return .assign (← expression target) (← expression value)
  | .test operand pattern =>
    return .test (← expression operand) (← pattern.restore? expression)
  | .outVariable type binding => some (.outVariable type binding.ident)
  | .out variableName => some (.out variableName)

/-- A declarator, with its initial value read by `expression`. -/
def DeclaratorNode.restore? (node : DeclaratorNode) : Option Declarator :=
  return ⟨node.binding.ident, ← restoreOptional? expression node.initializer⟩

/-- A label, with the expressions of its pattern and its guard read by `expression`. -/
def LabelNode.restore? (node : LabelNode) : Option Label :=
  match node.pattern, node.guard with
  | none, none => some .otherwise
  | none, some _ => none
  | some pattern, guard =>
    return .matching (← pattern.restore? expression) (← restoreOptional? expression guard)

variable (statement : StatementRef → Option Statement) (part : StatementRef → Option Section)

/-- The form of a statement, with its parts read by `expression`, `statement` and `part`. A section
is no statement of its own. -/
def StatementContent.restore? : StatementContent → Option StatementForm
  | .block statements => return .block (← statements.mapM statement)
  | .branch condition thenBody elseBody =>
    return .branch (← expression condition) (← statement thenBody)
      (← restoreOptional? statement elseBody)
  | .whileLoop condition body => return .whileLoop (← expression condition) (← statement body)
  | .doLoop body condition => return .doLoop (← statement body) (← expression condition)
  | .forLoop declarators initializers condition incrementors body =>
    return .forLoop (← declarators.mapM (·.restore? expression)) (← initializers.mapM expression)
      (← restoreOptional? expression condition) (← incrementors.mapM expression)
      (← statement body)
  | .forEachLoop element collection body =>
    return .forEachLoop element.ident (← expression collection) (← statement body)
  | .resource declarators held body =>
    return .resource (← declarators.mapM (·.restore? expression))
      (← restoreOptional? expression held) (← statement body)
  | .switch subject sections => return .switch (← expression subject) (← sections.mapM part)
  | .switchSection _ _ => none
  | .localDeclaration declarators =>
    return .localDeclaration (← declarators.mapM (·.restore? expression))
  | .evaluation value => return .evaluation (← expression value)
  | .returning value => return .returning (← restoreOptional? expression value)
  | .throwing value => return .throwing (← restoreOptional? expression value)
  | .breaking => some .breaking
  | .continuing => some .continuing
  | .labeled label body => return .labeled label (← statement body)
  | .empty => some .empty

end Nodes

namespace StatementTree

variable (tree : StatementTree)

/-- The expression at a reference, read to at most `steps` levels. -/
def restoreExpression? : Nat → ExpressionRef → Option Expression
  | 0, _ => none
  | steps + 1, ref => do
    let node ← tree.expression? ref
    return .mk (some node.span) (← node.content.restore? (restoreExpression? steps))

/-- An expression in the header of a statement. -/
def restoreHeader? : ExpressionRef → Option Expression :=
  tree.restoreExpression? (Limit.expressionNesting + 1)

/-- The section at a reference, with its statements read by `statement`. -/
def restoreSection? (statement : StatementRef → Option Statement) (ref : StatementRef) :
    Option Section := do
  let node ← tree.statement? ref
  match node.content with
  | .switchSection labels statements =>
    return .mk (some node.span) (← labels.mapM (·.restore? tree.restoreHeader?))
      (← statements.mapM statement)
  | _ => none

/-- The statement at a reference, read to at most `steps` levels. -/
def restoreStatement? : Nat → StatementRef → Option Statement
  | 0, _ => none
  | steps + 1, ref => do
    let node ← tree.statement? ref
    return .mk (some node.span) (← node.content.restore? tree.restoreHeader?
      (restoreStatement? steps) (tree.restoreSection? (restoreStatement? steps)))

/-- The procedure that a statement tree holds below its root. -/
def restore? : Option Procedure :=
  return ⟨tree.name, tree.parameters.map Binding.ident,
    ← tree.restoreStatement? (Limit.statementNesting + 1) tree.root⟩

variable {tree}

private theorem restoreExpression?_succ {ref : ExpressionRef} {node : ExpressionNode} {steps : Nat}
    {form : ExpressionForm} (found : tree.expression? ref = some node)
    (restored : node.content.restore? (tree.restoreExpression? steps) = some form) :
    tree.restoreExpression? (steps + 1) ref = some (.mk (some node.span) form) := by
  simp [restoreExpression?, found, restored]

private theorem restoreStatement?_succ {ref : StatementRef} {node : StatementNode} {steps : Nat}
    {form : StatementForm} (found : tree.statement? ref = some node)
    (restored : node.content.restore? tree.restoreHeader? (tree.restoreStatement? steps)
      (tree.restoreSection? (tree.restoreStatement? steps)) = some form) :
    tree.restoreStatement? (steps + 1) ref = some (.mk (some node.span) form) := by
  simp [restoreStatement?, found, restored]

end StatementTree

/-! ## What occupies its place reads back -/

theorem SpanCompletedBy.getD_eq {given filled : Option Span}
    (completed : SpanCompletedBy given filled) :
    some (filled.getD Span.dummy) = filled := by
  cases completed <;> rfl

theorem Ident.CompletedBy.restored {given name : Ident} (completed : given.CompletedBy name) :
    name.binding.ident = name := by
  obtain ⟨text, spanDone⟩ := completed
  exact congrArg (Ident.mk text) spanDone.getD_eq

private theorem Ident.map_restored {given names : List Ident}
    (completed : List.Forall₂ Ident.CompletedBy given names) :
    names.map (Binding.ident ∘ Ident.binding) = names := by
  induction completed with
  | nil => rfl
  | cons done _ induction => rw [List.map_cons, induction, Function.comp, done.restored]

theorem mapM_of_occupyAll {Part Node : Type} {completedBy : Part → Part → Prop}
    {occupies : Part → Node → Nat → Nat → Prop} {restore : Node → Option Part}
    (each : ∀ {given part node start stop}, completedBy given part →
      occupies part node start stop → restore node = some part)
    {given parts : List Part} {nodes : List Node} {start stop : Nat}
    (completed : List.Forall₂ completedBy given parts)
    (occupied : OccupyAll occupies parts nodes start stop) :
    nodes.mapM restore = some parts := by
  induction completed generalizing nodes start with
  | nil =>
      obtain ⟨rfl, _⟩ := occupied
      rfl
  | cons firstDone _ induction =>
      obtain ⟨node, others, middle, rfl, first, rest⟩ := occupied
      rw [List.mapM_cons, each firstDone first, induction rest]
      rfl

section Expressions

variable {tree : StatementTree} {owner : StatementId}

mutual

/-- An expression that occupies its place in a tree is read back from there. -/
theorem Expression.restore_of_occupies : ∀ (value : Expression) {given : Expression} {depth : Nat}
    {parent : ExpressionRef} {start stop steps : Nat}, given.CompletedBy value →
      value.Occupies tree owner depth parent start stop →
        Limit.expressionNesting < steps + depth →
          tree.restoreExpression? steps (some ⟨start⟩) = some value
  | .mk span form, _, depth, _, _, _, steps, completed, occupied, enough => by
    obtain ⟨shallow, content, found, inside⟩ := occupied
    obtain ⟨spanDone, formDone⟩ := completed
    cases steps with
    | zero => omega
    | succ fewer =>
        have lower : Limit.expressionNesting < fewer + (depth + 1) := by omega
        have restored := form.restore_of_occupies formDone inside lower
        rw [StatementTree.restoreExpression?_succ found restored, spanDone.getD_eq]
termination_by structural value => value

theorem ExpressionForm.restore_of_occupies : ∀ (form : ExpressionForm) {given : ExpressionForm}
    {depth : Nat} {id : ExpressionId} {content : ExpressionContent} {start stop steps : Nat},
    given.CompletedBy form → form.Occupies tree owner depth id content start stop →
      Limit.expressionNesting < steps + depth →
        content.restore? (tree.restoreExpression? steps) = some form
  | .name _ => fun _ occupied _ => by
    obtain ⟨rfl, _⟩ := occupied
    rfl
  | .literal _ => fun _ occupied _ => by
    obtain ⟨rfl, _⟩ := occupied
    rfl
  | .unary _ operand => fun completed occupied enough => by
    obtain ⟨rfl, inner⟩ := occupied
    cases completed with
    | unary _ done =>
      simp [ExpressionContent.restore?, operand.restore_of_occupies done inner enough]
  | .binary _ left right => fun completed occupied enough => by
    obtain ⟨_, rfl, first, second⟩ := occupied
    cases completed with
    | binary _ leftDone rightDone =>
      simp [ExpressionContent.restore?, left.restore_of_occupies leftDone first enough,
        right.restore_of_occupies rightDone second enough]
  | .choice condition whenTrue whenFalse => fun completed occupied enough => by
    obtain ⟨_, _, rfl, first, second, third⟩ := occupied
    cases completed with
    | choice conditionDone trueDone falseDone =>
      simp [ExpressionContent.restore?, condition.restore_of_occupies conditionDone first enough,
        whenTrue.restore_of_occupies trueDone second enough,
        whenFalse.restore_of_occupies falseDone third enough]
  | .paren inner => fun completed occupied enough => by
    obtain ⟨rfl, inside⟩ := occupied
    cases completed with
    | paren done =>
      simp [ExpressionContent.restore?, inner.restore_of_occupies done inside enough]
  | .call callee arguments => fun completed occupied enough => by
    obtain ⟨_, _, rfl, first, others⟩ := occupied
    cases completed with
    | call calleeDone argumentsDone =>
      simp [ExpressionContent.restore?, callee.restore_of_occupies calleeDone first enough,
        Expression.mapM_restore_of_allOccupy arguments argumentsDone others enough]
  | .member target _ => fun completed occupied enough => by
    obtain ⟨rfl, inside⟩ := occupied
    cases completed with
    | member _ done =>
      simp [ExpressionContent.restore?, target.restore_of_occupies done inside enough]
  | .assign target value => fun completed occupied enough => by
    obtain ⟨_, rfl, first, second⟩ := occupied
    cases completed with
    | assign targetDone valueDone =>
      simp [ExpressionContent.restore?, target.restore_of_occupies targetDone first enough,
        value.restore_of_occupies valueDone second enough]
  | .test operand pattern => fun completed occupied enough => by
    obtain ⟨_, _, rfl, first, second⟩ := occupied
    cases completed with
    | test operandDone patternDone =>
      simp [ExpressionContent.restore?, operand.restore_of_occupies operandDone first enough,
        pattern.restore_of_occupies patternDone second enough]
  | .outVariable _ name => fun completed occupied _ => by
    obtain ⟨rfl, _⟩ := occupied
    cases completed with
    | outVariable _ done => simp [ExpressionContent.restore?, done.restored]
  | .out _ => fun _ occupied _ => by
    obtain ⟨rfl, _⟩ := occupied
    rfl
termination_by structural form => form

theorem Expression.mapM_restore_of_allOccupy : ∀ (values : List Expression)
    {given : List Expression} {depth : Nat} {parent : ExpressionRef} {refs : List ExpressionRef}
    {start stop steps : Nat}, List.Forall₂ Expression.CompletedBy given values →
      Expression.AllOccupy tree owner depth parent values refs start stop →
        Limit.expressionNesting < steps + depth →
          refs.mapM (tree.restoreExpression? steps) = some values
  | [] => fun _ occupied _ => by
    obtain ⟨rfl, _⟩ := occupied
    rfl
  | first :: rest => fun completed occupied enough => by
    obtain ⟨_, _, rfl, firstOccupied, restOccupied⟩ := occupied
    cases completed with
    | cons firstDone restDone =>
      simp [first.restore_of_occupies firstDone firstOccupied enough,
        Expression.mapM_restore_of_allOccupy rest restDone restOccupied enough]
termination_by structural values => values

/-- A pattern whose constants occupy their places reads back from its node. -/
theorem Pattern.restore_of_occupies : ∀ (pattern : Pattern) {given : Pattern} {depth : Nat}
    {parent : ExpressionRef} {node : PatternNode} {start stop steps : Nat},
    given.CompletedBy pattern → pattern.Occupies tree owner depth parent node start stop →
      Limit.expressionNesting < steps + depth →
        node.restore? (tree.restoreExpression? steps) = some pattern
  | .type _ => fun _ occupied _ => by
    obtain ⟨_, rfl, _⟩ := occupied
    rfl
  | .declaration _ name => fun completed occupied _ => by
    obtain ⟨_, rfl, _⟩ := occupied
    cases completed with
    | declaration _ done => simp [PatternNode.restore?, done.restored]
  | .anyValue name => fun completed occupied _ => by
    obtain ⟨_, rfl, _⟩ := occupied
    cases completed with
    | anyValue done => simp [PatternNode.restore?, done.restored]
  | .constant value => fun completed occupied enough => by
    obtain ⟨_, rfl, inside⟩ := occupied
    cases completed with
    | constant done =>
      simp [PatternNode.restore?,
        value.restore_of_occupies done inside (Nat.lt_succ_of_lt enough)]
  | .discard => fun _ occupied _ => by
    obtain ⟨_, rfl, _⟩ := occupied
    rfl
  | .recursive _ subpatterns name => fun completed occupied enough => by
    obtain ⟨_, nodes, rfl, inside⟩ := occupied
    cases completed with
    | recursive _ subpatternsDone nameDone =>
      have named : (name.map Ident.binding).map Binding.ident = name := by
        cases nameDone with
        | none => rfl
        | some done => exact congrArg some done.restored
      simp [PatternNode.restore?, named, Pattern.restoreAll_of_allOccupy subpatterns
        subpatternsDone inside (Nat.lt_succ_of_lt enough)]
  | .negated pattern => fun completed occupied enough => by
    obtain ⟨_, _, rfl, inside⟩ := occupied
    cases completed with
    | negated done =>
      simp [PatternNode.restore?,
        pattern.restore_of_occupies done inside (Nat.lt_succ_of_lt enough)]
termination_by structural pattern => pattern

theorem Pattern.restoreAll_of_allOccupy : ∀ (patterns : List Pattern) {given : List Pattern}
    {depth : Nat} {parent : ExpressionRef} {nodes : List PatternNode} {start stop steps : Nat},
    List.Forall₂ Pattern.CompletedBy given patterns →
      Pattern.AllOccupy tree owner depth parent patterns nodes start stop →
        Limit.expressionNesting < steps + depth →
          PatternNode.restoreAll? (tree.restoreExpression? steps) nodes = some patterns
  | [] => fun _ occupied _ => by
    obtain ⟨rfl, _⟩ := occupied
    rfl
  | first :: rest => fun completed occupied enough => by
    obtain ⟨_, _, _, rfl, firstOccupied, restOccupied⟩ := occupied
    cases completed with
    | cons firstDone restDone =>
      simp [PatternNode.restoreAll?, first.restore_of_occupies firstDone firstOccupied enough,
        Pattern.restoreAll_of_allOccupy rest restDone restOccupied enough]
termination_by structural patterns => patterns

end

variable {start stop : Nat}

theorem Expression.restoreHeader_of_occupies {given value : Expression}
    (completed : given.CompletedBy value) (occupied : value.OccupiesHeader tree owner start stop) :
    tree.restoreHeader? (some ⟨start⟩) = some value :=
  value.restore_of_occupies completed occupied (Nat.lt_succ_self _)

theorem Expression.restoreOptional_of_occupies {given value : Option Expression}
    {ref : ExpressionRef} (completed : Option.Rel Expression.CompletedBy given value)
    (occupied : OccupyOptional (Expression.OccupiesHeader tree owner) value ref start stop) :
    restoreOptional? tree.restoreHeader? ref = some value := by
  cases completed with
  | none =>
      obtain ⟨rfl, _⟩ := occupied
      rfl
  | some done =>
      obtain ⟨rfl, inside⟩ := occupied
      simp [restoreOptional?, Expression.restoreHeader_of_occupies done inside]

private theorem Expression.mapM_restoreHeader_of_occupyAll {given values : List Expression}
    {refs : List ExpressionRef} (completed : List.Forall₂ Expression.CompletedBy given values)
    (occupied : OccupyAll (Expression.OccupiesAt tree owner) values refs start stop) :
    refs.mapM tree.restoreHeader? = some values := by
  refine mapM_of_occupyAll (fun done occupied => ?_) completed occupied
  obtain ⟨rfl, inside⟩ := occupied
  exact Expression.restoreHeader_of_occupies done inside

private theorem Declarator.mapM_restore_of_occupyAll {given declarators : List Declarator}
    {nodes : List DeclaratorNode}
    (completed : List.Forall₂ Declarator.CompletedBy given declarators)
    (occupied : OccupyAll (Declarator.Occupies tree owner) declarators nodes start stop) :
    nodes.mapM (·.restore? tree.restoreHeader?) = some declarators := by
  refine mapM_of_occupyAll (fun done occupied => ?_) completed occupied
  obtain ⟨nameDone, initializerDone⟩ := done
  obtain ⟨bound, initial⟩ := occupied
  simp [DeclaratorNode.restore?, bound, nameDone.restored,
    Expression.restoreOptional_of_occupies initializerDone initial]

private theorem Label.mapM_restore_of_occupyAll {given labels : List Label} {nodes : List LabelNode}
    (completed : List.Forall₂ Label.CompletedBy given labels)
    (occupied : OccupyAll (Label.Occupies tree owner) labels nodes start stop) :
    nodes.mapM (·.restore? tree.restoreHeader?) = some labels := by
  refine mapM_of_occupyAll (fun done occupied => ?_) completed occupied
  cases done with
  | otherwise =>
      obtain ⟨noPattern, noGuard, _⟩ := occupied
      simp [LabelNode.restore?, noPattern, noGuard]
  | @matching _ pattern _ _ patternDone guardDone =>
      obtain ⟨_, _, isPattern, inPattern, inGuard⟩ := occupied
      have patternRead := pattern.restore_of_occupies patternDone inPattern
        (Nat.lt_succ_self Limit.expressionNesting)
      rw [← StatementTree.restoreHeader?] at patternRead
      simp [LabelNode.restore?, isPattern, patternRead,
        Expression.restoreOptional_of_occupies guardDone inGuard]

end Expressions

section Statements

variable {tree : StatementTree}

mutual

theorem Statement.restore_of_occupies : ∀ (statement : Statement) {given : Statement} {depth : Nat}
    {parent : StatementRef} {start stop : Mark} {steps : Nat}, given.CompletedBy statement →
      statement.Occupies tree depth parent start stop →
        Limit.statementNesting < steps + depth →
          tree.restoreStatement? steps (some ⟨start.statements⟩) = some statement
  | .mk span form, _, depth, _, _, _, steps, completed, occupied, enough => by
    obtain ⟨shallow, content, found, inside⟩ := occupied
    obtain ⟨spanDone, formDone⟩ := completed
    cases steps with
    | zero => omega
    | succ fewer =>
        have lower : Limit.statementNesting < fewer + (depth + 1) := by omega
        have restored := form.restore_of_occupies formDone inside lower
        rw [StatementTree.restoreStatement?_succ found restored, spanDone.getD_eq]
termination_by structural statement => statement

theorem StatementForm.restore_of_occupies : ∀ (form : StatementForm) {given : StatementForm}
    {depth : Nat} {id : StatementId} {content : StatementContent} {start stop : Mark} {steps : Nat},
    given.CompletedBy form → form.Occupies tree depth id content start stop →
      Limit.statementNesting < steps + depth →
        content.restore? tree.restoreHeader? (tree.restoreStatement? steps)
          (tree.restoreSection? (tree.restoreStatement? steps)) = some form
  | .block statements => fun completed occupied enough => by
    obtain ⟨_, rfl, inside⟩ := occupied
    cases completed with
    | block done =>
      simp [StatementContent.restore?,
        Statement.mapM_restore_of_allOccupy statements done inside enough]
  | .branch condition thenBody none => fun completed occupied enough => by
    obtain ⟨_, rfl, first, second⟩ := occupied
    cases completed with
    | branch conditionDone thenDone _ =>
      simp [StatementContent.restore?, restoreOptional?,
        Expression.restoreHeader_of_occupies conditionDone first,
        thenBody.restore_of_occupies thenDone second enough]
  | .branch condition thenBody (some elseBody) => fun completed occupied enough => by
    obtain ⟨_, _, rfl, first, second, third⟩ := occupied
    cases completed with
    | branch conditionDone thenDone elseDone =>
      obtain elseDone | _ := elseDone
      simp [StatementContent.restore?, restoreOptional?,
        Expression.restoreHeader_of_occupies conditionDone first,
        thenBody.restore_of_occupies thenDone second enough,
        elseBody.restore_of_occupies elseDone third enough]
  | .whileLoop condition body => fun completed occupied enough => by
    obtain ⟨_, rfl, first, second⟩ := occupied
    cases completed with
    | whileLoop conditionDone bodyDone =>
      simp [StatementContent.restore?, Expression.restoreHeader_of_occupies conditionDone first,
        body.restore_of_occupies bodyDone second enough]
  | .doLoop body condition => fun completed occupied enough => by
    obtain ⟨_, rfl, first, second⟩ := occupied
    cases completed with
    | doLoop bodyDone conditionDone =>
      simp [StatementContent.restore?, body.restore_of_occupies bodyDone first enough,
        Expression.restoreHeader_of_occupies conditionDone second]
  | .forLoop declarators initializers condition incrementors body =>
    fun completed occupied enough => by
    obtain ⟨_, _, _, _, _, _, _, _, rfl, first, second, third, fourth, last⟩ := occupied
    cases completed with
    | forLoop declaratorsDone initializersDone conditionDone incrementorsDone bodyDone =>
      simp [StatementContent.restore?, Declarator.mapM_restore_of_occupyAll declaratorsDone first,
        Expression.mapM_restoreHeader_of_occupyAll initializersDone second,
        Expression.restoreOptional_of_occupies conditionDone third,
        Expression.mapM_restoreHeader_of_occupyAll incrementorsDone fourth,
        body.restore_of_occupies bodyDone last enough]
  | .forEachLoop element collection body => fun completed occupied enough => by
    obtain ⟨_, rfl, first, second⟩ := occupied
    cases completed with
    | forEachLoop elementDone collectionDone bodyDone =>
      simp [StatementContent.restore?, elementDone.restored,
        Expression.restoreHeader_of_occupies collectionDone first,
        body.restore_of_occupies bodyDone second enough]
  | .resource declarators held body => fun completed occupied enough => by
    obtain ⟨_, _, _, _, rfl, first, second, third⟩ := occupied
    cases completed with
    | resource declaratorsDone heldDone bodyDone =>
      simp [StatementContent.restore?, Declarator.mapM_restore_of_occupyAll declaratorsDone first,
        Expression.restoreOptional_of_occupies heldDone second,
        body.restore_of_occupies bodyDone third enough]
  | .switch subject sections => fun completed occupied enough => by
    obtain ⟨_, _, rfl, first, second⟩ := occupied
    cases completed with
    | switch subjectDone sectionsDone =>
      simp [StatementContent.restore?, Expression.restoreHeader_of_occupies subjectDone first,
        Section.mapM_restore_of_allOccupy sections sectionsDone second enough]
  | .localDeclaration declarators => fun completed occupied _ => by
    obtain ⟨_, rfl, inside, _⟩ := occupied
    cases completed with
    | localDeclaration done =>
      simp [StatementContent.restore?, Declarator.mapM_restore_of_occupyAll done inside]
  | .evaluation expression => fun completed occupied _ => by
    obtain ⟨rfl, inside, _⟩ := occupied
    cases completed with
    | evaluation done =>
      simp [StatementContent.restore?, Expression.restoreHeader_of_occupies done inside]
  | .returning value => fun completed occupied _ => by
    obtain ⟨_, rfl, inside, _⟩ := occupied
    cases completed with
    | returning done =>
      simp [StatementContent.restore?, Expression.restoreOptional_of_occupies done inside]
  | .throwing value => fun completed occupied _ => by
    obtain ⟨_, rfl, inside, _⟩ := occupied
    cases completed with
    | throwing done =>
      simp [StatementContent.restore?, Expression.restoreOptional_of_occupies done inside]
  | .labeled _ body => fun completed occupied enough => by
    obtain ⟨rfl, inside⟩ := occupied
    cases completed with
    | labeled _ done =>
      simp [StatementContent.restore?, body.restore_of_occupies done inside enough]
  | .breaking | .continuing | .empty => fun _ occupied _ => by
    obtain ⟨rfl, _⟩ := occupied
    rfl
termination_by structural form => form

theorem Statement.mapM_restore_of_allOccupy : ∀ (statements : List Statement)
    {given : List Statement} {depth : Nat} {parent : StatementRef} {refs : List StatementRef}
    {start stop : Mark} {steps : Nat}, List.Forall₂ Statement.CompletedBy given statements →
      Statement.AllOccupy tree depth parent statements refs start stop →
        Limit.statementNesting < steps + depth →
          refs.mapM (tree.restoreStatement? steps) = some statements
  | [] => fun _ occupied _ => by
    obtain ⟨rfl, _⟩ := occupied
    rfl
  | first :: rest => fun completed occupied enough => by
    obtain ⟨_, _, rfl, firstOccupied, restOccupied⟩ := occupied
    cases completed with
    | cons firstDone restDone =>
      simp [first.restore_of_occupies firstDone firstOccupied enough,
        Statement.mapM_restore_of_allOccupy rest restDone restOccupied enough]
termination_by structural statements => statements

theorem Section.restore_of_occupies : ∀ (part : Section) {given : Section} {depth : Nat}
    {parent : StatementRef} {start stop : Mark} {steps : Nat}, given.CompletedBy part →
      part.Occupies tree depth parent start stop → Limit.statementNesting < steps + depth →
        tree.restoreSection? (tree.restoreStatement? steps) (some ⟨start.statements⟩) = some part
  | .mk span labels statements => fun completed occupied enough => by
    obtain ⟨_, _, _, found, first, second⟩ := occupied
    obtain ⟨spanDone, labelsDone, statementsDone⟩ := completed
    simp [StatementTree.restoreSection?, found, spanDone.getD_eq,
      Label.mapM_restore_of_occupyAll labelsDone first,
      Statement.mapM_restore_of_allOccupy statements statementsDone second enough]
termination_by structural part => part

theorem Section.mapM_restore_of_allOccupy : ∀ (sections : List Section) {given : List Section}
    {depth : Nat} {parent : StatementRef} {refs : List StatementRef} {start stop : Mark}
    {steps : Nat}, List.Forall₂ Section.CompletedBy given sections →
      Section.AllOccupy tree depth parent sections refs start stop →
        Limit.statementNesting < steps + depth →
          refs.mapM (tree.restoreSection? (tree.restoreStatement? steps)) = some sections
  | [] => fun _ occupied _ => by
    obtain ⟨rfl, _⟩ := occupied
    rfl
  | first :: rest => fun completed occupied enough => by
    obtain ⟨_, _, rfl, firstOccupied, restOccupied⟩ := occupied
    cases completed with
    | cons firstDone restDone =>
      simp [first.restore_of_occupies firstDone firstOccupied enough,
        Section.mapM_restore_of_allOccupy rest restDone restOccupied enough]
termination_by structural sections => sections

end

end Statements

/-- A procedure that stands in a tree as a whole is what the tree reads back as. -/
theorem Procedure.Occupies.restore_eq {given procedure : Procedure} {tree : StatementTree}
    (completed : given.CompletedBy procedure) (occupied : procedure.Occupies tree) :
    tree.restore? = some procedure := by
  have body := procedure.body.restore_of_occupies completed.body occupied.body
    (Nat.lt_succ_self Limit.statementNesting)
  simp [StatementTree.restore?, occupied.root, occupied.name, occupied.parameters, body,
    Ident.map_restored completed.parameters]

/-- Laying out a procedure loses nothing: the tree reads back, from its root through the references
of its nodes, as the same procedure, with the stated spans kept and the missing ones supplied. -/
theorem StatementTree.restore?_of_ofProcedure {procedure : Procedure} {tree : StatementTree}
    (laidOut : StatementTree.ofProcedure procedure = .ok tree) :
    ∃ filled, tree.restore? = some filled ∧ procedure.CompletedBy filled :=
  ⟨procedure.placed, (occupies_of_ofProcedure laidOut).restore_eq procedure.completedBy_placed,
    procedure.completedBy_placed⟩

/-- A loop over a switch, in which the parameter, the switch and a name of a pattern state their
spans. -/
def Procedure.partlyPlaced : Procedure :=
  ⟨"p", [⟨"a", some ⟨0, 1⟩⟩], .forLoop [.plain "i" (some (.literal "0"))] (some (.name "i"))
    [.unary "++" (.name "i")] (.withSpan ⟨20, 90⟩ (.switch (.name "a")
      [.plain [.matching (.recursive none [.declaration "T" ⟨"x", some ⟨30, 31⟩⟩, .discard] none)
          (some (.name "x")), .otherwise] [.breaking],
        .plain [.matching (.constant (.literal "1")) none] [.ifElse (.name "a") .empty
          (.returning none)]]))⟩

theorem StatementTree.restore?_partlyPlaced :
    ∃ tree, StatementTree.ofProcedure .partlyPlaced = .ok tree ∧
      ∃ filled, tree.restore? = some filled ∧ Procedure.partlyPlaced.CompletedBy filled := by
  have accepted : (StatementTree.ofProcedure .partlyPlaced).isOk = true := by decide +kernel
  cases laidOut : StatementTree.ofProcedure .partlyPlaced with
  | error failure =>
      rw [laidOut] at accepted
      cases accepted
  | ok tree => exact ⟨tree, rfl, restore?_of_ofProcedure laidOut⟩

end LexicalScope
