import LexicalScope.Procedure.Syntax

/-!
# Placing the parts of a procedure

Every part of a procedure gets a span: the stated one, or one counted up in source order. The
offsets are unbounded here, so placing never fails. The stated spans of a procedure are listed too;
a procedure without any is placed by counting alone.
-/

namespace LexicalScope

namespace Placement

/-- The offset at which a part opens. -/
def opening (given : Option Span) (next : Nat) : Nat :=
  match given with
  | some span => span.start
  | none => next

/-- The next offset once a part has opened. -/
def opened (given : Option Span) (next : Nat) : Nat :=
  match given with
  | some span => max next span.start
  | none => next + 1

/-- The span of a part that opened at `start` and closes at the next offset. -/
def covered (start : Nat) (given : Option Span) (next : Nat) : Span :=
  match given with
  | some span => span
  | none => ⟨start, max next (start + 1)⟩

/-- The next offset once a part that opened at `start` has closed. -/
def closed (start : Nat) (given : Option Span) (next : Nat) : Nat :=
  match given with
  | some span => max next span.stop
  | none => max next (start + 1) + 1

/-- Places the elements of a list one after the other. -/
def all {Part : Type} (place : Part → Nat → Part × Nat) : List Part → Nat → List Part × Nat
  | [], next => ([], next)
  | first :: rest, next =>
    let placed := place first next
    let others := all place rest placed.2
    (placed.1 :: others.1, others.2)

/-- Places a part that may be absent. -/
def optional {Part : Type} (place : Part → Nat → Part × Nat) :
    Option Part → Nat → Option Part × Nat
  | none, next => (none, next)
  | some part, next => (some (place part next).1, (place part next).2)

end Placement

open Placement

/-- A name with a span, and the next offset. -/
def Ident.placed (ident : Ident) (next : Nat) : Ident × Nat :=
  let start := opening ident.span next
  let inner := opened ident.span next
  (⟨ident.name, some (covered start ident.span inner)⟩, closed start ident.span inner)

mutual

/-- An expression with spans, and the next offset. -/
def Expression.placed : Expression → Nat → Expression × Nat
  | .mk given form, next =>
    let start := opening given next
    let inner := form.placed (opened given next)
    (.mk (some (covered start given inner.2)) inner.1, closed start given inner.2)

/-- The parts of an expression with spans, and the next offset. -/
def ExpressionForm.placed : ExpressionForm → Nat → ExpressionForm × Nat
  | .name name, next => (.name name, next)
  | .literal value, next => (.literal value, next)
  | .unary operator operand, next =>
    let operand := operand.placed next
    (.unary operator operand.1, operand.2)
  | .binary operator left right, next =>
    let left := left.placed next
    let right := right.placed left.2
    (.binary operator left.1 right.1, right.2)
  | .choice condition whenTrue whenFalse, next =>
    let condition := condition.placed next
    let whenTrue := whenTrue.placed condition.2
    let whenFalse := whenFalse.placed whenTrue.2
    (.choice condition.1 whenTrue.1 whenFalse.1, whenFalse.2)
  | .paren inner, next =>
    let inner := inner.placed next
    (.paren inner.1, inner.2)
  | .call callee arguments, next =>
    let callee := callee.placed next
    let arguments := Expression.placedAll arguments callee.2
    (.call callee.1 arguments.1, arguments.2)
  | .member target member, next =>
    let target := target.placed next
    (.member target.1 member, target.2)
  | .assign target value, next =>
    let target := target.placed next
    let value := value.placed target.2
    (.assign target.1 value.1, value.2)
  | .test operand pattern, next =>
    let operand := operand.placed next
    let pattern := pattern.placed operand.2
    (.test operand.1 pattern.1, pattern.2)
  | .outVariable type name, next =>
    let name := name.placed next
    (.outVariable type name.1, name.2)
  | .out name, next => (.out name, next)

/-- Expressions with spans, and the next offset. -/
def Expression.placedAll : List Expression → Nat → List Expression × Nat
  | [], next => ([], next)
  | first :: rest, next =>
    let first := first.placed next
    let rest := Expression.placedAll rest first.2
    (first.1 :: rest.1, rest.2)

/-- A pattern whose names and constants have spans, and the next offset. -/
def Pattern.placed : Pattern → Nat → Pattern × Nat
  | .type type, next => (.type type, next)
  | .declaration type name, next =>
    let name := name.placed next
    (.declaration type name.1, name.2)
  | .anyValue name, next =>
    let name := name.placed next
    (.anyValue name.1, name.2)
  | .constant value, next =>
    let value := value.placed next
    (.constant value.1, value.2)
  | .discard, next => (.discard, next)
  | .recursive type subpatterns name, next =>
    let subpatterns := Pattern.placedAll subpatterns next
    let name := optional Ident.placed name subpatterns.2
    (.recursive type subpatterns.1 name.1, name.2)
  | .negated pattern, next =>
    let pattern := pattern.placed next
    (.negated pattern.1, pattern.2)

/-- Patterns whose names and constants have spans, and the next offset. -/
def Pattern.placedAll : List Pattern → Nat → List Pattern × Nat
  | [], next => ([], next)
  | first :: rest, next =>
    let first := first.placed next
    let rest := Pattern.placedAll rest first.2
    (first.1 :: rest.1, rest.2)

end

/-- A declarator with spans, and the next offset. -/
def Declarator.placed (declarator : Declarator) (next : Nat) : Declarator × Nat :=
  let name := declarator.name.placed next
  let initializer := optional Expression.placed declarator.initializer name.2
  (⟨name.1, initializer.1⟩, initializer.2)

/-- A label whose parts have spans, and the next offset. The label itself takes an offset where it
opens and one where it closes. -/
def Label.placed : Label → Nat → Label × Nat
  | .matching pattern guard, next =>
    let pattern := pattern.placed (next + 1)
    let guard := optional Expression.placed guard pattern.2
    (.matching pattern.1 guard.1, closed next none guard.2)
  | .otherwise, next => (.otherwise, closed next none (next + 1))

mutual

/-- A statement with spans, and the next offset. -/
def Statement.placed : Statement → Nat → Statement × Nat
  | .mk given form, next =>
    let start := opening given next
    let inner := form.placed (opened given next)
    (.mk (some (covered start given inner.2)) inner.1, closed start given inner.2)

/-- The parts of a statement with spans, and the next offset. -/
def StatementForm.placed : StatementForm → Nat → StatementForm × Nat
  | .block statements, next =>
    let statements := Statement.placedAll statements next
    (.block statements.1, statements.2)
  | .branch condition thenBody none, next =>
    let condition := condition.placed next
    let thenBody := thenBody.placed condition.2
    (.branch condition.1 thenBody.1 none, thenBody.2)
  | .branch condition thenBody (some elseBody), next =>
    let condition := condition.placed next
    let thenBody := thenBody.placed condition.2
    let elseBody := elseBody.placed thenBody.2
    (.branch condition.1 thenBody.1 (some elseBody.1), elseBody.2)
  | .whileLoop condition body, next =>
    let condition := condition.placed next
    let body := body.placed condition.2
    (.whileLoop condition.1 body.1, body.2)
  | .doLoop body condition, next =>
    let body := body.placed next
    let condition := condition.placed body.2
    (.doLoop body.1 condition.1, condition.2)
  | .forLoop declarators initializers condition incrementors body, next =>
    let declarators := all Declarator.placed declarators next
    let initializers := all Expression.placed initializers declarators.2
    let condition := optional Expression.placed condition initializers.2
    let incrementors := all Expression.placed incrementors condition.2
    let body := body.placed incrementors.2
    (.forLoop declarators.1 initializers.1 condition.1 incrementors.1 body.1, body.2)
  | .forEachLoop element collection body, next =>
    let element := element.placed next
    let collection := collection.placed element.2
    let body := body.placed collection.2
    (.forEachLoop element.1 collection.1 body.1, body.2)
  | .resource declarators held body, next =>
    let declarators := all Declarator.placed declarators next
    let held := optional Expression.placed held declarators.2
    let body := body.placed held.2
    (.resource declarators.1 held.1 body.1, body.2)
  | .switch subject sections, next =>
    let subject := subject.placed next
    let sections := Section.placedAll sections subject.2
    (.switch subject.1 sections.1, sections.2)
  | .localDeclaration declarators, next =>
    let declarators := all Declarator.placed declarators next
    (.localDeclaration declarators.1, declarators.2)
  | .evaluation expression, next =>
    let expression := expression.placed next
    (.evaluation expression.1, expression.2)
  | .returning value, next =>
    let value := optional Expression.placed value next
    (.returning value.1, value.2)
  | .throwing value, next =>
    let value := optional Expression.placed value next
    (.throwing value.1, value.2)
  | .breaking, next => (.breaking, next)
  | .continuing, next => (.continuing, next)
  | .labeled label body, next =>
    let body := body.placed next
    (.labeled label body.1, body.2)
  | .empty, next => (.empty, next)

/-- Statements with spans, and the next offset. -/
def Statement.placedAll : List Statement → Nat → List Statement × Nat
  | [], next => ([], next)
  | first :: rest, next =>
    let first := first.placed next
    let rest := Statement.placedAll rest first.2
    (first.1 :: rest.1, rest.2)

/-- A section with spans, and the next offset. -/
def Section.placed : Section → Nat → Section × Nat
  | .mk given labels statements, next =>
    let start := opening given next
    let labels := all Label.placed labels (opened given next)
    let statements := Statement.placedAll statements labels.2
    (.mk (some (covered start given statements.2)) labels.1 statements.1,
      closed start given statements.2)

/-- Sections with spans, and the next offset. -/
def Section.placedAll : List Section → Nat → List Section × Nat
  | [], next => ([], next)
  | first :: rest, next =>
    let first := first.placed next
    let rest := Section.placedAll rest first.2
    (first.1 :: rest.1, rest.2)

end

/-- A procedure whose parts all have spans: the parameters are placed first, then the body. -/
def Procedure.placed (procedure : Procedure) : Procedure :=
  let parameters := all Ident.placed procedure.parameters 0
  ⟨procedure.name, parameters.1, (procedure.body.placed parameters.2).1⟩

/-! ## Stated spans -/

/-- The span that a name states. -/
def Ident.stated (ident : Ident) : List Span := ident.span.toList

mutual

/-- The spans stated in an expression. -/
def Expression.stated : Expression → List Span
  | .mk given form => given.toList ++ form.stated

/-- The spans stated in the parts of an expression. -/
def ExpressionForm.stated : ExpressionForm → List Span
  | .name _ | .literal _ | .out _ => []
  | .unary _ operand => operand.stated
  | .binary _ left right => left.stated ++ right.stated
  | .choice condition whenTrue whenFalse =>
    condition.stated ++ whenTrue.stated ++ whenFalse.stated
  | .paren inner => inner.stated
  | .call callee arguments => callee.stated ++ Expression.statedInAll arguments
  | .member target _ => target.stated
  | .assign target value => target.stated ++ value.stated
  | .test operand pattern => operand.stated ++ pattern.stated
  | .outVariable _ name => name.stated

/-- The spans stated in expressions. -/
def Expression.statedInAll : List Expression → List Span
  | [] => []
  | first :: rest => first.stated ++ Expression.statedInAll rest

/-- The spans stated in a pattern. -/
def Pattern.stated : Pattern → List Span
  | .type _ | .discard => []
  | .declaration _ name => name.stated
  | .anyValue name => name.stated
  | .constant value => value.stated
  | .recursive _ subpatterns name =>
    Pattern.statedInAll subpatterns ++ name.toList.flatMap Ident.stated
  | .negated pattern => pattern.stated

/-- The spans stated in patterns. -/
def Pattern.statedInAll : List Pattern → List Span
  | [] => []
  | first :: rest => first.stated ++ Pattern.statedInAll rest

end

/-- The spans stated in an expression that may be absent. -/
def Expression.statedIfPresent (expression : Option Expression) : List Span :=
  expression.toList.flatMap Expression.stated

/-- The spans stated in a declarator. -/
def Declarator.stated (declarator : Declarator) : List Span :=
  declarator.name.stated ++ Expression.statedIfPresent declarator.initializer

/-- The spans stated in a label. -/
def Label.stated : Label → List Span
  | .matching pattern guard => pattern.stated ++ Expression.statedIfPresent guard
  | .otherwise => []

mutual

/-- The spans stated in a statement. -/
def Statement.stated : Statement → List Span
  | .mk given form => given.toList ++ form.stated

/-- The spans stated in the parts of a statement. -/
def StatementForm.stated : StatementForm → List Span
  | .block statements => Statement.statedInAll statements
  | .branch condition thenBody none => condition.stated ++ thenBody.stated
  | .branch condition thenBody (some elseBody) =>
    condition.stated ++ thenBody.stated ++ elseBody.stated
  | .whileLoop condition body => condition.stated ++ body.stated
  | .doLoop body condition => body.stated ++ condition.stated
  | .forLoop declarators initializers condition incrementors body =>
    declarators.flatMap Declarator.stated ++ initializers.flatMap Expression.stated ++
      Expression.statedIfPresent condition ++ incrementors.flatMap Expression.stated ++ body.stated
  | .forEachLoop element collection body => element.stated ++ collection.stated ++ body.stated
  | .resource declarators held body =>
    declarators.flatMap Declarator.stated ++ Expression.statedIfPresent held ++ body.stated
  | .switch subject sections => subject.stated ++ Section.statedInAll sections
  | .localDeclaration declarators => declarators.flatMap Declarator.stated
  | .evaluation expression => expression.stated
  | .returning value => Expression.statedIfPresent value
  | .throwing value => Expression.statedIfPresent value
  | .labeled _ body => body.stated
  | .breaking | .continuing | .empty => []

/-- The spans stated in statements. -/
def Statement.statedInAll : List Statement → List Span
  | [] => []
  | first :: rest => first.stated ++ Statement.statedInAll rest

/-- The spans stated in a section. -/
def Section.stated : Section → List Span
  | .mk given labels statements =>
    given.toList ++ labels.flatMap Label.stated ++ Statement.statedInAll statements

/-- The spans stated in sections. -/
def Section.statedInAll : List Section → List Span
  | [] => []
  | first :: rest => first.stated ++ Section.statedInAll rest

end

/-- The spans stated in a procedure. -/
def Procedure.stated (procedure : Procedure) : List Span :=
  procedure.parameters.flatMap Ident.stated ++ procedure.body.stated

end LexicalScope
