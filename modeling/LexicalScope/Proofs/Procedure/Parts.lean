import LexicalScope.Proofs.Procedure.Brackets

/-!
# The parts of a procedure

What nested syntax says about its parts: which ones there are, in which order and inside which, and
the spans that they state. Patterns and declarators are no parts of their own, and a label states no
span. Placing syntax gives its parts the spans that placing them by themselves gives.
-/

namespace LexicalScope

open Placement

/-! ## Parts -/

/-- The part that a bound name is. -/
def Ident.part (ident : Ident) : Part (Option Span) := .mk (.name ident.name) ident.span []

mutual

/-- The part that an expression is. -/
def Expression.part : Expression → Part (Option Span)
  | .mk given form => .mk .expression given form.innerParts

/-- The parts directly inside an expression. -/
def ExpressionForm.innerParts : ExpressionForm → List (Part (Option Span))
  | .name _ | .literal _ | .out _ => []
  | .unary _ operand => [operand.part]
  | .binary _ left right => [left.part, right.part]
  | .choice condition whenTrue whenFalse => [condition.part, whenTrue.part, whenFalse.part]
  | .paren inner => [inner.part]
  | .call callee arguments => callee.part :: Expression.partsOfAll arguments
  | .member target _ => [target.part]
  | .assign target value => [target.part, value.part]
  | .test operand pattern => operand.part :: pattern.parts
  | .outVariable _ name => [name.part]

/-- The parts that expressions are. -/
def Expression.partsOfAll : List Expression → List (Part (Option Span))
  | [] => []
  | first :: rest => first.part :: Expression.partsOfAll rest

/-- The names and constants of a pattern. -/
def Pattern.parts : Pattern → List (Part (Option Span))
  | .type _ | .discard => []
  | .declaration _ name => [name.part]
  | .anyValue name => [name.part]
  | .constant value => [value.part]
  | .recursive _ subpatterns name =>
    Pattern.partsOfAll subpatterns ++ name.toList.map Ident.part
  | .negated pattern => pattern.parts

/-- The names and constants of patterns. -/
def Pattern.partsOfAll : List Pattern → List (Part (Option Span))
  | [] => []
  | first :: rest => first.parts ++ Pattern.partsOfAll rest

end

/-- The part that an expression is, if there is one. -/
def Expression.partIfPresent (expression : Option Expression) : List (Part (Option Span)) :=
  expression.toList.map Expression.part

/-- The name of a declarator and its initial value. -/
def Declarator.parts (declarator : Declarator) : List (Part (Option Span)) :=
  declarator.name.part :: Expression.partIfPresent declarator.initializer

/-- The part that a label is. -/
def Label.part : Label → Part (Option Span)
  | .matching pattern guard =>
    .mk .label none (pattern.parts ++ Expression.partIfPresent guard)
  | .otherwise => .mk .label none []

mutual

/-- The part that a statement is. -/
def Statement.part : Statement → Part (Option Span)
  | .mk given form => .mk .statement given form.innerParts

/-- The parts directly inside a statement. -/
def StatementForm.innerParts : StatementForm → List (Part (Option Span))
  | .block statements => Statement.partsOfAll statements
  | .branch condition thenBody none => [condition.part, thenBody.part]
  | .branch condition thenBody (some elseBody) => [condition.part, thenBody.part, elseBody.part]
  | .whileLoop condition body => [condition.part, body.part]
  | .doLoop body condition => [body.part, condition.part]
  | .forLoop declarators initializers condition incrementors body =>
    declarators.flatMap Declarator.parts ++ initializers.map Expression.part ++
      Expression.partIfPresent condition ++ incrementors.map Expression.part ++ [body.part]
  | .forEachLoop element collection body => [element.part, collection.part, body.part]
  | .resource declarators held body =>
    declarators.flatMap Declarator.parts ++ Expression.partIfPresent held ++ [body.part]
  | .switch subject sections => subject.part :: Section.partsOfAll sections
  | .localDeclaration declarators => declarators.flatMap Declarator.parts
  | .evaluation expression => [expression.part]
  | .returning value => Expression.partIfPresent value
  | .throwing value => Expression.partIfPresent value
  | .labeled _ body => [body.part]
  | .breaking | .continuing | .empty => []

/-- The parts that statements are. -/
def Statement.partsOfAll : List Statement → List (Part (Option Span))
  | [] => []
  | first :: rest => first.part :: Statement.partsOfAll rest

/-- The part that a section is. -/
def Section.part : Section → Part (Option Span)
  | .mk given labels statements =>
    .mk .switchSection given (labels.map Label.part ++ Statement.partsOfAll statements)

/-- The parts that sections are. -/
def Section.partsOfAll : List Section → List (Part (Option Span))
  | [] => []
  | first :: rest => first.part :: Section.partsOfAll rest

end

/-- The parameters of a procedure and its body. -/
def Procedure.parts (procedure : Procedure) : List (Part (Option Span)) :=
  procedure.parameters.map Ident.part ++ [procedure.body.part]

/-! ## Placing parts -/

namespace Part

theorem placedAll_append (first second : List (Part (Option Span))) (next : Nat) :
    placedAll (first ++ second) next =
      ((placedAll first next).1 ++ (placedAll second (placedAll first next).2).1,
        (placedAll second (placedAll first next).2).2) := by
  induction first generalizing next with
  | nil => rfl
  | cons part parts induction =>
      rw [List.cons_append, placedAll, induction, placedAll]
      rfl

private theorem mapAll_append {First Second : Type} (change : First → Second)
    (first second : List (Part First)) :
    mapAll change (first ++ second) = mapAll change first ++ mapAll change second := by
  induction first with
  | nil => rfl
  | cons part parts induction => rw [List.cons_append, mapAll, induction, mapAll, List.cons_append]

private theorem shown_append (first second : List (Part (Option Span))) (next : Nat) :
    shown (first ++ second) next =
      shown first next ++ shown second (placedAll first next).2 := by
  rw [shown, placedAll_append, mapAll_append]
  rfl

end Part

/-- Parts placed from the offset `next` on come out as `placed`, and `last` is the next offset. -/
structure Part.PlacedAs (parts : List (Part (Option Span))) (next : Nat)
    (placed : List (Part (Option Span))) (last : Nat) : Prop where
  shown : placed = Part.shown parts next
  last_eq : last = (Part.placedAll parts next).2

namespace Part.PlacedAs

variable {first second parts placed others : List (Part (Option Span))} {next middle last : Nat}

theorem nothing : PlacedAs [] next [] next := ⟨rfl, rfl⟩

theorem append (left : PlacedAs first next placed middle)
    (right : PlacedAs second middle others last) :
    PlacedAs (first ++ second) next (placed ++ others) last := by
  obtain ⟨rfl, rfl⟩ := left
  obtain ⟨rfl, rfl⟩ := right
  exact ⟨(shown_append ..).symm, by rw [placedAll_append]⟩

theorem around (kind : PartKind) (given : Option Span)
    (inside : PlacedAs parts (opened given next) placed middle) :
    PlacedAs [.mk kind given parts] next
      [.mk kind (some (covered (opening given next) given middle)) placed]
      (closed (opening given next) given middle) := by
  obtain ⟨rfl, rfl⟩ := inside
  exact ⟨rfl, rfl⟩

end Part.PlacedAs

/-! ## Placing syntax -/

theorem Ident.part_placed (ident : Ident) (next : Nat) :
    Part.PlacedAs [ident.part] next [(ident.placed next).1.part] (ident.placed next).2 :=
  ⟨rfl, rfl⟩

private theorem Ident.partIfPresent_placed : ∀ (ident : Option Ident) (next : Nat),
    Part.PlacedAs (ident.toList.map Ident.part) next
      ((optional Ident.placed ident next).1.toList.map Ident.part)
      (optional Ident.placed ident next).2
  | none, _ => .nothing
  | some ident, next => ident.part_placed next

mutual

/-- Placing an expression places the part that it is. -/
theorem Expression.part_placed : ∀ (value : Expression) (next : Nat),
    Part.PlacedAs [value.part] next [(value.placed next).1.part] (value.placed next).2
  | .mk given form, next => (form.innerParts_placed (opened given next)).around .expression given

theorem ExpressionForm.innerParts_placed : ∀ (form : ExpressionForm) (next : Nat),
    Part.PlacedAs form.innerParts next (form.placed next).1.innerParts (form.placed next).2
  | .name _, _ | .literal _, _ | .out _, _ => .nothing
  | .unary _ operand, next => operand.part_placed next
  | .binary _ left right, next => (left.part_placed next).append (right.part_placed _)
  | .choice condition whenTrue whenFalse, next =>
    (condition.part_placed next).append ((whenTrue.part_placed _).append (whenFalse.part_placed _))
  | .paren inner, next => inner.part_placed next
  | .call callee arguments, next =>
    (callee.part_placed next).append (Expression.partsOfAll_placed arguments _)
  | .member target _, next => target.part_placed next
  | .assign target value, next => (target.part_placed next).append (value.part_placed _)
  | .test operand pattern, next => (operand.part_placed next).append (pattern.parts_placed _)
  | .outVariable _ name, next => name.part_placed next

theorem Expression.partsOfAll_placed : ∀ (values : List Expression) (next : Nat),
    Part.PlacedAs (Expression.partsOfAll values) next
      (Expression.partsOfAll (Expression.placedAll values next).1)
      (Expression.placedAll values next).2
  | [], _ => .nothing
  | first :: rest, next => (first.part_placed next).append (Expression.partsOfAll_placed rest _)

/-- Placing a pattern places its names and constants. -/
theorem Pattern.parts_placed : ∀ (pattern : Pattern) (next : Nat),
    Part.PlacedAs pattern.parts next (pattern.placed next).1.parts (pattern.placed next).2
  | .type _, _ | .discard, _ => .nothing
  | .declaration _ name, next => name.part_placed next
  | .anyValue name, next => name.part_placed next
  | .constant value, next => value.part_placed next
  | .recursive _ subpatterns name, next =>
    (Pattern.partsOfAll_placed subpatterns next).append (Ident.partIfPresent_placed name _)
  | .negated pattern, next => pattern.parts_placed next

theorem Pattern.partsOfAll_placed : ∀ (patterns : List Pattern) (next : Nat),
    Part.PlacedAs (Pattern.partsOfAll patterns) next
      (Pattern.partsOfAll (Pattern.placedAll patterns next).1) (Pattern.placedAll patterns next).2
  | [], _ => .nothing
  | first :: rest, next => (first.parts_placed next).append (Pattern.partsOfAll_placed rest _)

end

end LexicalScope
