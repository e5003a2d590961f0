import LexicalScope.Proofs.Procedure.Placement
import Mathlib.Data.List.Forall2

/-!
# Procedures completed by spans

A procedure is completed by another one that has the same parts in the same order and differs only
in spans: what states a span keeps it, and what states none gets one. Placing a procedure
completes it.
-/

namespace LexicalScope

/-- A stated span stays as it is, and a missing one is supplied. -/
inductive SpanCompletedBy : Option Span → Option Span → Prop
  | kept (span : Span) : SpanCompletedBy (some span) (some span)
  | supplied (span : Span) : SpanCompletedBy none (some span)

/-- The same name, at a span. -/
inductive Ident.CompletedBy : Ident → Ident → Prop
  | mk {given filled : Option Span} (name : String) :
      SpanCompletedBy given filled → Ident.CompletedBy ⟨name, given⟩ ⟨name, filled⟩

mutual

/-- The same expression, with all spans. -/
inductive Expression.CompletedBy : Expression → Expression → Prop
  | mk {given filled : Option Span} {form form' : ExpressionForm} :
      SpanCompletedBy given filled → ExpressionForm.CompletedBy form form' →
        Expression.CompletedBy (.mk given form) (.mk filled form')

/-- The same form of expression, with parts that have all spans. -/
inductive ExpressionForm.CompletedBy : ExpressionForm → ExpressionForm → Prop
  | name (name : String) : ExpressionForm.CompletedBy (.name name) (.name name)
  | literal (value : String) : ExpressionForm.CompletedBy (.literal value) (.literal value)
  | unary {operand operand' : Expression} (operator : String) :
      Expression.CompletedBy operand operand' →
        ExpressionForm.CompletedBy (.unary operator operand) (.unary operator operand')
  | binary {left left' right right' : Expression} (operator : String) :
      Expression.CompletedBy left left' → Expression.CompletedBy right right' →
        ExpressionForm.CompletedBy (.binary operator left right) (.binary operator left' right')
  | choice {condition condition' whenTrue whenTrue' whenFalse whenFalse' : Expression} :
      Expression.CompletedBy condition condition' → Expression.CompletedBy whenTrue whenTrue' →
        Expression.CompletedBy whenFalse whenFalse' →
          ExpressionForm.CompletedBy (.choice condition whenTrue whenFalse)
            (.choice condition' whenTrue' whenFalse')
  | paren {inner inner' : Expression} :
      Expression.CompletedBy inner inner' →
        ExpressionForm.CompletedBy (.paren inner) (.paren inner')
  | call {callee callee' : Expression} {arguments arguments' : List Expression} :
      Expression.CompletedBy callee callee' →
        List.Forall₂ Expression.CompletedBy arguments arguments' →
          ExpressionForm.CompletedBy (.call callee arguments) (.call callee' arguments')
  | member {target target' : Expression} (member : String) :
      Expression.CompletedBy target target' →
        ExpressionForm.CompletedBy (.member target member) (.member target' member)
  | assign {target target' value value' : Expression} :
      Expression.CompletedBy target target' → Expression.CompletedBy value value' →
        ExpressionForm.CompletedBy (.assign target value) (.assign target' value')
  | test {operand operand' : Expression} {pattern pattern' : Pattern} :
      Expression.CompletedBy operand operand' → Pattern.CompletedBy pattern pattern' →
        ExpressionForm.CompletedBy (.test operand pattern) (.test operand' pattern')
  | outVariable {name name' : Ident} (type : Option String) :
      Ident.CompletedBy name name' →
        ExpressionForm.CompletedBy (.outVariable type name) (.outVariable type name')
  | out (name : String) : ExpressionForm.CompletedBy (.out name) (.out name)

/-- The same pattern, with names and constants that have all spans. -/
inductive Pattern.CompletedBy : Pattern → Pattern → Prop
  | type (type : String) : Pattern.CompletedBy (.type type) (.type type)
  | declaration {name name' : Ident} (type : String) :
      Ident.CompletedBy name name' →
        Pattern.CompletedBy (.declaration type name) (.declaration type name')
  | anyValue {name name' : Ident} :
      Ident.CompletedBy name name' → Pattern.CompletedBy (.anyValue name) (.anyValue name')
  | constant {value value' : Expression} :
      Expression.CompletedBy value value' →
        Pattern.CompletedBy (.constant value) (.constant value')
  | discard : Pattern.CompletedBy .discard .discard
  | recursive {subpatterns subpatterns' : List Pattern} {name name' : Option Ident}
      (type : Option String) :
      List.Forall₂ Pattern.CompletedBy subpatterns subpatterns' →
        Option.Rel Ident.CompletedBy name name' →
          Pattern.CompletedBy (.recursive type subpatterns name)
            (.recursive type subpatterns' name')
  | negated {pattern pattern' : Pattern} :
      Pattern.CompletedBy pattern pattern' →
        Pattern.CompletedBy (.negated pattern) (.negated pattern')

end

/-- The same declarator, with all spans. -/
inductive Declarator.CompletedBy : Declarator → Declarator → Prop
  | mk {name name' : Ident} {initializer initializer' : Option Expression} :
      name.CompletedBy name' → Option.Rel Expression.CompletedBy initializer initializer' →
        Declarator.CompletedBy ⟨name, initializer⟩ ⟨name', initializer'⟩

/-- The same label, with all spans. -/
inductive Label.CompletedBy : Label → Label → Prop
  | matching {pattern pattern' : Pattern} {guard guard' : Option Expression} :
      pattern.CompletedBy pattern' → Option.Rel Expression.CompletedBy guard guard' →
        Label.CompletedBy (.matching pattern guard) (.matching pattern' guard')
  | otherwise : Label.CompletedBy .otherwise .otherwise

mutual

/-- The same statement, with all spans. -/
inductive Statement.CompletedBy : Statement → Statement → Prop
  | mk {given filled : Option Span} {form form' : StatementForm} :
      SpanCompletedBy given filled → StatementForm.CompletedBy form form' →
        Statement.CompletedBy (.mk given form) (.mk filled form')

/-- The same form of statement, with parts that have all spans. -/
inductive StatementForm.CompletedBy : StatementForm → StatementForm → Prop
  | block {statements statements' : List Statement} :
      List.Forall₂ Statement.CompletedBy statements statements' →
        StatementForm.CompletedBy (.block statements) (.block statements')
  | branch {condition condition' : Expression} {thenBody thenBody' : Statement}
      {elseBody elseBody' : Option Statement} :
      condition.CompletedBy condition' → Statement.CompletedBy thenBody thenBody' →
        Option.Rel Statement.CompletedBy elseBody elseBody' →
          StatementForm.CompletedBy (.branch condition thenBody elseBody)
            (.branch condition' thenBody' elseBody')
  | whileLoop {condition condition' : Expression} {body body' : Statement} :
      condition.CompletedBy condition' → Statement.CompletedBy body body' →
        StatementForm.CompletedBy (.whileLoop condition body) (.whileLoop condition' body')
  | doLoop {body body' : Statement} {condition condition' : Expression} :
      Statement.CompletedBy body body' → condition.CompletedBy condition' →
        StatementForm.CompletedBy (.doLoop body condition) (.doLoop body' condition')
  | forLoop {declarators declarators' : List Declarator}
      {initializers initializers' : List Expression} {condition condition' : Option Expression}
      {incrementors incrementors' : List Expression} {body body' : Statement} :
      List.Forall₂ Declarator.CompletedBy declarators declarators' →
        List.Forall₂ Expression.CompletedBy initializers initializers' →
          Option.Rel Expression.CompletedBy condition condition' →
            List.Forall₂ Expression.CompletedBy incrementors incrementors' →
              Statement.CompletedBy body body' →
                StatementForm.CompletedBy
                  (.forLoop declarators initializers condition incrementors body)
                  (.forLoop declarators' initializers' condition' incrementors' body')
  | forEachLoop {element element' : Ident} {collection collection' : Expression}
      {body body' : Statement} :
      element.CompletedBy element' → collection.CompletedBy collection' →
        Statement.CompletedBy body body' →
          StatementForm.CompletedBy (.forEachLoop element collection body)
            (.forEachLoop element' collection' body')
  | resource {declarators declarators' : List Declarator} {held held' : Option Expression}
      {body body' : Statement} :
      List.Forall₂ Declarator.CompletedBy declarators declarators' →
        Option.Rel Expression.CompletedBy held held' → Statement.CompletedBy body body' →
          StatementForm.CompletedBy (.resource declarators held body)
            (.resource declarators' held' body')
  | switch {subject subject' : Expression} {sections sections' : List Section} :
      subject.CompletedBy subject' → List.Forall₂ Section.CompletedBy sections sections' →
        StatementForm.CompletedBy (.switch subject sections) (.switch subject' sections')
  | localDeclaration {declarators declarators' : List Declarator} :
      List.Forall₂ Declarator.CompletedBy declarators declarators' →
        StatementForm.CompletedBy (.localDeclaration declarators) (.localDeclaration declarators')
  | evaluation {expression expression' : Expression} :
      expression.CompletedBy expression' →
        StatementForm.CompletedBy (.evaluation expression) (.evaluation expression')
  | returning {value value' : Option Expression} :
      Option.Rel Expression.CompletedBy value value' →
        StatementForm.CompletedBy (.returning value) (.returning value')
  | throwing {value value' : Option Expression} :
      Option.Rel Expression.CompletedBy value value' →
        StatementForm.CompletedBy (.throwing value) (.throwing value')
  | breaking : StatementForm.CompletedBy .breaking .breaking
  | continuing : StatementForm.CompletedBy .continuing .continuing
  | labeled {body body' : Statement} (label : String) :
      Statement.CompletedBy body body' →
        StatementForm.CompletedBy (.labeled label body) (.labeled label body')
  | empty : StatementForm.CompletedBy .empty .empty

/-- The same section, with all spans. -/
inductive Section.CompletedBy : Section → Section → Prop
  | mk {given filled : Option Span} {labels labels' : List Label}
      {statements statements' : List Statement} :
      SpanCompletedBy given filled → List.Forall₂ Label.CompletedBy labels labels' →
        List.Forall₂ Statement.CompletedBy statements statements' →
          Section.CompletedBy (.mk given labels statements) (.mk filled labels' statements')

end

/-- The same procedure, with all spans. -/
structure Procedure.CompletedBy (procedure filled : Procedure) : Prop where
  name : filled.name = procedure.name
  parameters : List.Forall₂ Ident.CompletedBy procedure.parameters filled.parameters
  body : procedure.body.CompletedBy filled.body

/-! ## Placing -/

theorem spanCompletedBy_covered (start next : Nat) (given : Option Span) :
    SpanCompletedBy given (some (Placement.covered start given next)) := by
  cases given with
  | none => exact .supplied _
  | some span => exact .kept span

theorem forall₂_all {Part : Type} {completedBy : Part → Part → Prop}
    {place : Part → Nat → Part × Nat} (each : ∀ part next, completedBy part (place part next).1)
    (parts : List Part) (next : Nat) :
    List.Forall₂ completedBy parts (Placement.all place parts next).1 := by
  induction parts generalizing next with
  | nil => exact .nil
  | cons first rest induction => exact .cons (each first next) (induction _)

theorem rel_optional {Part : Type} {completedBy : Part → Part → Prop}
    {place : Part → Nat → Part × Nat} (each : ∀ part next, completedBy part (place part next).1)
    (part : Option Part) (next : Nat) :
    Option.Rel completedBy part (Placement.optional place part next).1 := by
  cases part with
  | none => exact .none
  | some part => exact .some (each part next)

theorem Ident.completedBy_placed (ident : Ident) (next : Nat) :
    ident.CompletedBy (ident.placed next).1 :=
  .mk ident.name (spanCompletedBy_covered ..)

mutual

theorem Expression.completedBy_placed : ∀ (value : Expression) (next : Nat),
    value.CompletedBy (value.placed next).1
  | .mk _ form, _ => .mk (spanCompletedBy_covered ..) (form.completedBy_placed _)

theorem ExpressionForm.completedBy_placed : ∀ (form : ExpressionForm) (next : Nat),
    form.CompletedBy (form.placed next).1
  | .name name, _ => .name name
  | .literal value, _ => .literal value
  | .unary operator operand, _ => .unary operator (operand.completedBy_placed _)
  | .binary operator left right, _ =>
    .binary operator (left.completedBy_placed _) (right.completedBy_placed _)
  | .choice condition whenTrue whenFalse, _ =>
    .choice (condition.completedBy_placed _) (whenTrue.completedBy_placed _)
      (whenFalse.completedBy_placed _)
  | .paren inner, _ => .paren (inner.completedBy_placed _)
  | .call callee arguments, _ =>
    .call (callee.completedBy_placed _) (Expression.forall₂_placedAll arguments _)
  | .member target member, _ => .member member (target.completedBy_placed _)
  | .assign target value, _ =>
    .assign (target.completedBy_placed _) (value.completedBy_placed _)
  | .test operand pattern, _ =>
    .test (operand.completedBy_placed _) (pattern.completedBy_placed _)
  | .outVariable type name, _ => .outVariable type (name.completedBy_placed _)
  | .out name, _ => .out name

theorem Expression.forall₂_placedAll : ∀ (values : List Expression) (next : Nat),
    List.Forall₂ Expression.CompletedBy values (Expression.placedAll values next).1
  | [], _ => .nil
  | first :: rest, _ => .cons (first.completedBy_placed _) (Expression.forall₂_placedAll rest _)

theorem Pattern.completedBy_placed : ∀ (pattern : Pattern) (next : Nat),
    pattern.CompletedBy (pattern.placed next).1
  | .type type, _ => .type type
  | .declaration type name, _ => .declaration type (name.completedBy_placed _)
  | .anyValue name, _ => .anyValue (name.completedBy_placed _)
  | .constant value, _ => .constant (value.completedBy_placed _)
  | .discard, _ => .discard
  | .recursive type subpatterns name, _ =>
    .recursive type (Pattern.forall₂_placedAll subpatterns _)
      (rel_optional Ident.completedBy_placed name _)
  | .negated pattern, _ => .negated (pattern.completedBy_placed _)

theorem Pattern.forall₂_placedAll : ∀ (patterns : List Pattern) (next : Nat),
    List.Forall₂ Pattern.CompletedBy patterns (Pattern.placedAll patterns next).1
  | [], _ => .nil
  | first :: rest, _ => .cons (first.completedBy_placed _) (Pattern.forall₂_placedAll rest _)

end

private theorem Declarator.completedBy_placed (declarator : Declarator) (next : Nat) :
    declarator.CompletedBy (declarator.placed next).1 :=
  .mk (declarator.name.completedBy_placed _)
    (rel_optional Expression.completedBy_placed declarator.initializer _)

private theorem Label.completedBy_placed (label : Label) (next : Nat) :
    label.CompletedBy (label.placed next).1 := by
  cases label with
  | otherwise => exact .otherwise
  | matching pattern guard =>
      exact .matching (pattern.completedBy_placed _)
        (rel_optional Expression.completedBy_placed guard _)

mutual

theorem Statement.completedBy_placed : ∀ (statement : Statement) (next : Nat),
    statement.CompletedBy (statement.placed next).1
  | .mk _ form, _ => .mk (spanCompletedBy_covered ..) (form.completedBy_placed _)

theorem StatementForm.completedBy_placed : ∀ (form : StatementForm) (next : Nat),
    form.CompletedBy (form.placed next).1
  | .block statements, _ => .block (Statement.forall₂_placedAll statements _)
  | .branch condition thenBody none, _ =>
    .branch (condition.completedBy_placed _) (thenBody.completedBy_placed _) .none
  | .branch condition thenBody (some elseBody), _ =>
    .branch (condition.completedBy_placed _) (thenBody.completedBy_placed _)
      (.some (elseBody.completedBy_placed _))
  | .whileLoop condition body, _ =>
    .whileLoop (condition.completedBy_placed _) (body.completedBy_placed _)
  | .doLoop body condition, _ =>
    .doLoop (body.completedBy_placed _) (condition.completedBy_placed _)
  | .forLoop declarators initializers condition incrementors body, _ =>
    .forLoop (forall₂_all Declarator.completedBy_placed declarators _)
      (forall₂_all Expression.completedBy_placed initializers _)
      (rel_optional Expression.completedBy_placed condition _)
      (forall₂_all Expression.completedBy_placed incrementors _) (body.completedBy_placed _)
  | .forEachLoop element collection body, _ =>
    .forEachLoop (element.completedBy_placed _) (collection.completedBy_placed _)
      (body.completedBy_placed _)
  | .resource declarators held body, _ =>
    .resource (forall₂_all Declarator.completedBy_placed declarators _)
      (rel_optional Expression.completedBy_placed held _) (body.completedBy_placed _)
  | .switch subject sections, _ =>
    .switch (subject.completedBy_placed _) (Section.forall₂_placedAll sections _)
  | .localDeclaration declarators, _ =>
    .localDeclaration (forall₂_all Declarator.completedBy_placed declarators _)
  | .evaluation expression, _ => .evaluation (expression.completedBy_placed _)
  | .returning value, _ => .returning (rel_optional Expression.completedBy_placed value _)
  | .throwing value, _ => .throwing (rel_optional Expression.completedBy_placed value _)
  | .breaking, _ => .breaking
  | .continuing, _ => .continuing
  | .labeled label body, _ => .labeled label (body.completedBy_placed _)
  | .empty, _ => .empty

theorem Statement.forall₂_placedAll : ∀ (statements : List Statement) (next : Nat),
    List.Forall₂ Statement.CompletedBy statements (Statement.placedAll statements next).1
  | [], _ => .nil
  | first :: rest, _ => .cons (first.completedBy_placed _) (Statement.forall₂_placedAll rest _)

theorem Section.completedBy_placed : ∀ (part : Section) (next : Nat),
    part.CompletedBy (part.placed next).1
  | .mk _ labels statements, _ =>
    .mk (spanCompletedBy_covered ..) (forall₂_all Label.completedBy_placed labels _)
      (Statement.forall₂_placedAll statements _)

theorem Section.forall₂_placedAll : ∀ (sections : List Section) (next : Nat),
    List.Forall₂ Section.CompletedBy sections (Section.placedAll sections next).1
  | [], _ => .nil
  | first :: rest, _ => .cons (first.completedBy_placed _) (Section.forall₂_placedAll rest _)

end

/-- Placing a procedure only supplies the spans that it does not state. -/
theorem Procedure.completedBy_placed (procedure : Procedure) :
    procedure.CompletedBy procedure.placed where
  name := rfl
  parameters := forall₂_all Ident.completedBy_placed procedure.parameters 0
  body := procedure.body.completedBy_placed _

end LexicalScope
