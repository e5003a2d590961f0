import LexicalScope.Limit
import LexicalScope.Procedure.Syntax
import LexicalScope.StatementTree.Error

/-!
# What encloses the places of a procedure

The places of a procedure in source order, each with what encloses it, and the limits on enclosure.
A statement counts the statements around it, but not the sections of switches. An expression or
pattern counts the expressions and patterns around it that belong to the same statement or label.
-/

namespace LexicalScope

/-- What stands at a place. -/
inductive PlaceKind where
  | statement | switchSection | label | expression | pattern
deriving DecidableEq, Repr

/-- Whether expressions and patterns stand at such places. -/
def PlaceKind.isValue : PlaceKind → Bool
  | .expression | .pattern => true
  | .statement | .switchSection | .label => false

/-- A place of a procedure: what stands there and what encloses it, the innermost first. -/
structure Place where
  /-- What stands there. -/
  kind : PlaceKind
  /-- What encloses it. -/
  around : List PlaceKind
deriving DecidableEq, Repr

namespace Place

/-- How many statements enclose what these enclose. -/
def statementsAround (around : List PlaceKind) : Nat := around.count .statement

/-- How many expressions and patterns of the same statement or label enclose what these enclose. -/
def valuesAround (around : List PlaceKind) : Nat := (around.takeWhile PlaceKind.isValue).length

/-- Whether a place is enclosed by as many of its like as the limit. -/
def isTooDeep (place : Place) : Bool :=
  match place.kind with
  | .statement => Limit.statementNesting ≤ statementsAround place.around
  | .expression | .pattern => Limit.expressionNesting ≤ valuesAround place.around
  | .switchSection | .label => false

/-- The fault of a procedure with a place that is too deep. -/
def fault (procedure : String) (place : Place) : TreeError :=
  if place.kind.isValue then
    .expressionsTooDeep procedure Limit.expressionNesting
  else
    .statementsTooDeep procedure Limit.statementNesting

@[simp] theorem valuesAround_expression (around : List PlaceKind) :
    valuesAround (.expression :: around) = valuesAround around + 1 :=
  rfl

@[simp] theorem statementsAround_statement (around : List PlaceKind) :
    statementsAround (.statement :: around) = statementsAround around + 1 :=
  List.count_cons_self

@[simp] theorem statementsAround_switchSection (around : List PlaceKind) :
    statementsAround (.switchSection :: around) = statementsAround around :=
  List.count_cons_of_ne (by decide)

end Place

/-! ## Expressions -/

mutual

/-- The places of an expression. -/
def Expression.places (around : List PlaceKind) : Expression → List Place
  | .mk _ form => ⟨.expression, around⟩ :: form.places (.expression :: around)

/-- The places inside an expression. -/
def ExpressionForm.places (around : List PlaceKind) : ExpressionForm → List Place
  | .name _ | .literal _ | .outVariable _ _ | .out _ => []
  | .unary _ operand => operand.places around
  | .binary _ left right => left.places around ++ right.places around
  | .choice condition whenTrue whenFalse =>
    condition.places around ++ (whenTrue.places around ++ whenFalse.places around)
  | .paren inner => inner.places around
  | .call callee arguments => callee.places around ++ Expression.placesOfAll around arguments
  | .member target _ => target.places around
  | .assign target value => target.places around ++ value.places around
  | .test operand pattern => operand.places around ++ pattern.places around

/-- The places of expressions, one after the other. -/
def Expression.placesOfAll (around : List PlaceKind) : List Expression → List Place
  | [] => []
  | first :: rest => first.places around ++ Expression.placesOfAll around rest

/-- The places of a pattern. -/
def Pattern.places (around : List PlaceKind) : Pattern → List Place
  | .type _ | .declaration _ _ | .anyValue _ | .discard => [⟨.pattern, around⟩]
  | .constant value => ⟨.pattern, around⟩ :: value.places (.pattern :: around)
  | .recursive _ subpatterns _ =>
    ⟨.pattern, around⟩ :: Pattern.placesOfAll (.pattern :: around) subpatterns
  | .negated inner => ⟨.pattern, around⟩ :: inner.places (.pattern :: around)

/-- The places of patterns, one after the other. -/
def Pattern.placesOfAll (around : List PlaceKind) : List Pattern → List Place
  | [] => []
  | first :: rest => first.places around ++ Pattern.placesOfAll around rest

end

/-! ## Statements -/

/-- The places of an expression that may be absent. -/
def Expression.placesIfPresent (around : List PlaceKind) : Option Expression → List Place
  | none => []
  | some value => value.places around

/-- The places of a declarator. -/
def Declarator.places (around : List PlaceKind) (declarator : Declarator) : List Place :=
  Expression.placesIfPresent around declarator.initializer

/-- The places of a label. -/
def Label.places (around : List PlaceKind) : Label → List Place
  | .matching pattern guard =>
    ⟨.label, around⟩ ::
      (pattern.places (.label :: around) ++ Expression.placesIfPresent (.label :: around) guard)
  | .otherwise => [⟨.label, around⟩]

mutual

/-- The places of a statement. -/
def Statement.places (around : List PlaceKind) : Statement → List Place
  | .mk _ form => ⟨.statement, around⟩ :: form.places (.statement :: around)

/-- The places inside a statement. -/
def StatementForm.places (around : List PlaceKind) : StatementForm → List Place
  | .block statements => Statement.placesOfAll around statements
  | .branch condition thenBody none => condition.places around ++ thenBody.places around
  | .branch condition thenBody (some elseBody) =>
    condition.places around ++ (thenBody.places around ++ elseBody.places around)
  | .whileLoop condition body => condition.places around ++ body.places around
  | .doLoop body condition => body.places around ++ condition.places around
  | .forLoop declarators initializers condition incrementors body =>
    declarators.flatMap (Declarator.places around) ++
      (initializers.flatMap (Expression.places around) ++
        (Expression.placesIfPresent around condition ++
          (incrementors.flatMap (Expression.places around) ++ body.places around)))
  | .forEachLoop _ collection body => collection.places around ++ body.places around
  | .resource declarators held body =>
    declarators.flatMap (Declarator.places around) ++
      (Expression.placesIfPresent around held ++ body.places around)
  | .switch subject sections => subject.places around ++ Section.placesOfAll around sections
  | .localDeclaration declarators => declarators.flatMap (Declarator.places around)
  | .evaluation value => value.places around
  | .returning value | .throwing value => Expression.placesIfPresent around value
  | .labeled _ body => body.places around
  | .breaking | .continuing | .empty => []

/-- The places of statements, one after the other. -/
def Statement.placesOfAll (around : List PlaceKind) : List Statement → List Place
  | [] => []
  | first :: rest => first.places around ++ Statement.placesOfAll around rest

/-- The places of a section. -/
def Section.places (around : List PlaceKind) : Section → List Place
  | .mk _ labels statements =>
    ⟨.switchSection, around⟩ ::
      (labels.flatMap (Label.places (.switchSection :: around)) ++
        Statement.placesOfAll (.switchSection :: around) statements)

/-- The places of sections, one after the other. -/
def Section.placesOfAll (around : List PlaceKind) : List Section → List Place
  | [] => []
  | first :: rest => first.places around ++ Section.placesOfAll around rest

end

/-- The places of a procedure. -/
def Procedure.places (procedure : Procedure) : List Place := procedure.body.places []

end LexicalScope
