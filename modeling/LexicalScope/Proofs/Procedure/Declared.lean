import LexicalScope.Proofs.Procedure.Placement
import LexicalScope.Scope.Declaration

/-!
# What a procedure declares

The names that the parts of a procedure introduce, in the order in which the parts are evaluated. A
designation in a pattern or an output argument introduces nothing if its name discards the value;
every other name is introduced wherever it is bound. Placing a procedure changes none of this.
-/

namespace LexicalScope

/-- A name with the way in which it is introduced and the span of the name. -/
structure Entry where
  /-- The introduced name. -/
  name : String
  /-- How the name is introduced. -/
  kind : DeclarationKind
  /-- The span of the name. -/
  span : Span
deriving DecidableEq, Repr

/-- The entry of a declaration. -/
def Declaration.entry (declaration : Declaration) : Entry :=
  ⟨declaration.name, declaration.kind, declaration.span⟩

namespace Ident

/-- The entry of a name introduced in a way. -/
def entry (ident : Ident) (kind : DeclarationKind) : Entry :=
  ⟨ident.name, kind, ident.span.getD Span.dummy⟩

/-- The entry of a designation, none if it discards the value. -/
def designated (ident : Ident) (kind : DeclarationKind) : List Entry :=
  if ident.name = "_" then [] else [ident.entry kind]

end Ident

mutual

/-- The names that an expression introduces. -/
def Expression.declared : Expression → List Entry
  | .mk _ form => form.declared

/-- The names that the parts of an expression introduce. -/
def ExpressionForm.declared : ExpressionForm → List Entry
  | .name _ | .literal _ | .out _ => []
  | .unary _ operand => operand.declared
  | .binary _ left right => left.declared ++ right.declared
  | .choice condition whenTrue whenFalse =>
    condition.declared ++ whenTrue.declared ++ whenFalse.declared
  | .paren inner => inner.declared
  | .call callee arguments => callee.declared ++ Expression.declaredInAll arguments
  | .member target _ => target.declared
  | .assign target value => target.declared ++ value.declared
  | .test operand pattern => operand.declared ++ pattern.declared
  | .outVariable _ name => name.designated .outputArgument

/-- The names that expressions introduce. -/
def Expression.declaredInAll : List Expression → List Entry
  | [] => []
  | first :: rest => first.declared ++ Expression.declaredInAll rest

/-- The names that a pattern introduces, those of its parts before its own. -/
def Pattern.declared : Pattern → List Entry
  | .type _ | .discard => []
  | .declaration _ name => name.designated .patternVariable
  | .anyValue name => name.designated .patternVariable
  | .constant value => value.declared
  | .recursive _ subpatterns name =>
    Pattern.declaredInAll subpatterns ++ name.toList.flatMap (·.designated .patternVariable)
  | .negated pattern => pattern.declared

/-- The names that patterns introduce. -/
def Pattern.declaredInAll : List Pattern → List Entry
  | [] => []
  | first :: rest => first.declared ++ Pattern.declaredInAll rest

end

/-- The names that an expression introduces if it is there. -/
def Expression.declaredIfPresent (expression : Option Expression) : List Entry :=
  expression.toList.flatMap Expression.declared

/-- The names that a declarator introduces, its own before those of its initial value. -/
def Declarator.declared (declarator : Declarator) : List Entry :=
  declarator.name.entry (.localVariable declarator.initializer.isSome) ::
    Expression.declaredIfPresent declarator.initializer

/-- The names that a label introduces. -/
def Label.declared : Label → List Entry
  | .matching pattern guard => pattern.declared ++ Expression.declaredIfPresent guard
  | .otherwise => []

mutual

/-- The names that a statement introduces. -/
def Statement.declared : Statement → List Entry
  | .mk _ form => form.declared

/-- The names that the parts of a statement introduce. -/
def StatementForm.declared : StatementForm → List Entry
  | .block statements => Statement.declaredInAll statements
  | .branch condition thenBody none => condition.declared ++ thenBody.declared
  | .branch condition thenBody (some elseBody) =>
    condition.declared ++ thenBody.declared ++ elseBody.declared
  | .whileLoop condition body => condition.declared ++ body.declared
  | .doLoop body condition => body.declared ++ condition.declared
  | .forLoop declarators initializers condition incrementors body =>
    declarators.flatMap Declarator.declared ++ initializers.flatMap Expression.declared ++
      Expression.declaredIfPresent condition ++ incrementors.flatMap Expression.declared ++
      body.declared
  | .forEachLoop element collection body =>
    element.entry .iteration :: collection.declared ++ body.declared
  | .resource declarators held body =>
    declarators.flatMap Declarator.declared ++ Expression.declaredIfPresent held ++ body.declared
  | .switch subject sections => subject.declared ++ Section.declaredInAll sections
  | .localDeclaration declarators => declarators.flatMap Declarator.declared
  | .evaluation expression => expression.declared
  | .returning value => Expression.declaredIfPresent value
  | .throwing value => Expression.declaredIfPresent value
  | .labeled _ body => body.declared
  | .breaking | .continuing | .empty => []

/-- The names that statements introduce. -/
def Statement.declaredInAll : List Statement → List Entry
  | [] => []
  | first :: rest => first.declared ++ Statement.declaredInAll rest

/-- The names that a section introduces, those of its labels first. -/
def Section.declared : Section → List Entry
  | .mk _ labels statements =>
    labels.flatMap Label.declared ++ Statement.declaredInAll statements

/-- The names that sections introduce. -/
def Section.declaredInAll : List Section → List Entry
  | [] => []
  | first :: rest => first.declared ++ Section.declaredInAll rest

end

/-- The names that a procedure introduces, its parameters first. -/
def Procedure.declared (procedure : Procedure) : List Entry :=
  procedure.parameters.map (·.entry .parameter) ++ procedure.body.declared

/-! ## Placing -/

/-- An entry without its span. -/
def Entry.introduced (entry : Entry) : String × DeclarationKind := (entry.name, entry.kind)

namespace Placement

variable {Part : Type} {place : Part → Nat → Part × Nat} {declared : Part → List Entry}

/-- Placing the elements of a list introduces the same names if placing each does. -/
theorem map_introduced_all
    (each : ∀ part next, (declared (place part next).1).map Entry.introduced =
      (declared part).map Entry.introduced) (parts : List Part) (next : Nat) :
    ((all place parts next).1.flatMap declared).map Entry.introduced =
      (parts.flatMap declared).map Entry.introduced := by
  induction parts generalizing next with
  | nil => rfl
  | cons first rest induction => simp [all, each, induction]

theorem map_introduced_optional
    (each : ∀ part next, (declared (place part next).1).map Entry.introduced =
      (declared part).map Entry.introduced) (part : Option Part) (next : Nat) :
    ((optional place part next).1.toList.flatMap declared).map Entry.introduced =
      (part.toList.flatMap declared).map Entry.introduced := by
  cases part with
  | none => rfl
  | some part => simp [optional, each]

end Placement

theorem Ident.map_introduced_placed (ident : Ident) (kind : DeclarationKind) (next : Nat) :
    ((ident.placed next).1.designated kind).map Entry.introduced =
      (ident.designated kind).map Entry.introduced := by
  by_cases discards : ident.name = "_"
  · simp [placed, designated, discards]
  · simp [placed, designated, discards, entry, Entry.introduced]

mutual

theorem Expression.map_introduced_placed : ∀ (value : Expression) (next : Nat),
    (value.placed next).1.declared.map Entry.introduced = value.declared.map Entry.introduced
  | .mk _ form, _ => form.map_introduced_placed _

theorem ExpressionForm.map_introduced_placed : ∀ (form : ExpressionForm) (next : Nat),
    (form.placed next).1.declared.map Entry.introduced = form.declared.map Entry.introduced
  | .name _, _ => rfl
  | .literal _, _ => rfl
  | .unary _ operand, _ => operand.map_introduced_placed _
  | .binary _ left right, _ => by
    simp [ExpressionForm.placed, ExpressionForm.declared, left.map_introduced_placed,
      right.map_introduced_placed]
  | .choice condition whenTrue whenFalse, _ => by
    simp [ExpressionForm.placed, ExpressionForm.declared, condition.map_introduced_placed,
      whenTrue.map_introduced_placed, whenFalse.map_introduced_placed]
  | .paren inner, _ => inner.map_introduced_placed _
  | .call callee arguments, _ => by
    simp [ExpressionForm.placed, ExpressionForm.declared, callee.map_introduced_placed,
      Expression.map_introduced_placedAll arguments]
  | .member target _, _ => target.map_introduced_placed _
  | .assign target value, _ => by
    simp [ExpressionForm.placed, ExpressionForm.declared, target.map_introduced_placed,
      value.map_introduced_placed]
  | .test operand pattern, _ => by
    simp [ExpressionForm.placed, ExpressionForm.declared, operand.map_introduced_placed,
      pattern.map_introduced_placed]
  | .outVariable _ name, _ => name.map_introduced_placed ..
  | .out _, _ => rfl

theorem Expression.map_introduced_placedAll : ∀ (values : List Expression) (next : Nat),
    (Expression.declaredInAll (Expression.placedAll values next).1).map Entry.introduced =
      (Expression.declaredInAll values).map Entry.introduced
  | [], _ => rfl
  | first :: rest, _ => by
    simp [Expression.placedAll, Expression.declaredInAll, first.map_introduced_placed,
      Expression.map_introduced_placedAll rest]

theorem Pattern.map_introduced_placed : ∀ (pattern : Pattern) (next : Nat),
    (pattern.placed next).1.declared.map Entry.introduced = pattern.declared.map Entry.introduced
  | .type _, _ => rfl
  | .declaration _ name, _ => name.map_introduced_placed ..
  | .anyValue name, _ => name.map_introduced_placed ..
  | .constant value, _ => value.map_introduced_placed _
  | .discard, _ => rfl
  | .recursive _ subpatterns name, _ => by
    rw [Pattern.placed, Pattern.declared, Pattern.declared, List.map_append, List.map_append,
      Pattern.map_introduced_placedAll subpatterns]
    congr 1
    exact Placement.map_introduced_optional (fun name next => name.map_introduced_placed _ next) ..
  | .negated pattern, _ => pattern.map_introduced_placed _

theorem Pattern.map_introduced_placedAll : ∀ (patterns : List Pattern) (next : Nat),
    (Pattern.declaredInAll (Pattern.placedAll patterns next).1).map Entry.introduced =
      (Pattern.declaredInAll patterns).map Entry.introduced
  | [], _ => rfl
  | first :: rest, _ => by
    simp [Pattern.placedAll, Pattern.declaredInAll, first.map_introduced_placed,
      Pattern.map_introduced_placedAll rest]

end

theorem Expression.map_introduced_optional (value : Option Expression) (next : Nat) :
    (Expression.declaredIfPresent (Placement.optional Expression.placed value next).1).map
        Entry.introduced = (Expression.declaredIfPresent value).map Entry.introduced :=
  Placement.map_introduced_optional Expression.map_introduced_placed ..

theorem Declarator.map_introduced_placed (declarator : Declarator) (next : Nat) :
    (declarator.placed next).1.declared.map Entry.introduced =
      declarator.declared.map Entry.introduced := by
  have initial := Expression.map_introduced_optional declarator.initializer
    (declarator.name.placed next).2
  have present : (declarator.placed next).1.initializer.isSome = declarator.initializer.isSome := by
    rw [Declarator.placed]
    cases declarator.initializer <;> rfl
  rw [Declarator.declared, Declarator.declared, List.map_cons, List.map_cons, present]
  exact congrArg _ initial

theorem Label.map_introduced_placed (label : Label) (next : Nat) :
    (label.placed next).1.declared.map Entry.introduced = label.declared.map Entry.introduced := by
  cases label with
  | otherwise => rfl
  | matching pattern guard =>
      simp [Label.placed, Label.declared, pattern.map_introduced_placed,
        Expression.map_introduced_optional]

mutual

theorem Statement.map_introduced_placed : ∀ (statement : Statement) (next : Nat),
    (statement.placed next).1.declared.map Entry.introduced =
      statement.declared.map Entry.introduced
  | .mk _ form, _ => form.map_introduced_placed _

theorem StatementForm.map_introduced_placed : ∀ (form : StatementForm) (next : Nat),
    (form.placed next).1.declared.map Entry.introduced = form.declared.map Entry.introduced
  | .block statements, _ => Statement.map_introduced_placedAll statements _
  | .branch condition thenBody none, _ => by
    simp [StatementForm.placed, StatementForm.declared, condition.map_introduced_placed,
      thenBody.map_introduced_placed]
  | .branch condition thenBody (some elseBody), _ => by
    simp [StatementForm.placed, StatementForm.declared, condition.map_introduced_placed,
      thenBody.map_introduced_placed, elseBody.map_introduced_placed]
  | .whileLoop condition body, _ => by
    simp [StatementForm.placed, StatementForm.declared, condition.map_introduced_placed,
      body.map_introduced_placed]
  | .doLoop body condition, _ => by
    simp [StatementForm.placed, StatementForm.declared, condition.map_introduced_placed,
      body.map_introduced_placed]
  | .forLoop declarators initializers condition incrementors body, _ => by
    simp only [StatementForm.placed, StatementForm.declared, List.map_append,
      Placement.map_introduced_all Declarator.map_introduced_placed,
      Placement.map_introduced_all Expression.map_introduced_placed,
      Expression.map_introduced_optional, body.map_introduced_placed]
  | .forEachLoop element collection body, _ => by
    simp [StatementForm.placed, StatementForm.declared, Ident.placed, Ident.entry,
      Entry.introduced, collection.map_introduced_placed, body.map_introduced_placed]
  | .resource declarators held body, _ => by
    simp only [StatementForm.placed, StatementForm.declared, List.map_append,
      Placement.map_introduced_all Declarator.map_introduced_placed,
      Expression.map_introduced_optional, body.map_introduced_placed]
  | .switch subject sections, _ => by
    simp [StatementForm.placed, StatementForm.declared, subject.map_introduced_placed,
      Section.map_introduced_placedAll sections]
  | .localDeclaration _, _ => Placement.map_introduced_all Declarator.map_introduced_placed ..
  | .evaluation expression, _ => expression.map_introduced_placed _
  | .returning _, _ => Expression.map_introduced_optional ..
  | .throwing _, _ => Expression.map_introduced_optional ..
  | .labeled _ body, _ => body.map_introduced_placed _
  | .breaking, _ => rfl
  | .continuing, _ => rfl
  | .empty, _ => rfl

theorem Statement.map_introduced_placedAll : ∀ (statements : List Statement) (next : Nat),
    (Statement.declaredInAll (Statement.placedAll statements next).1).map Entry.introduced =
      (Statement.declaredInAll statements).map Entry.introduced
  | [], _ => rfl
  | first :: rest, _ => by
    simp [Statement.placedAll, Statement.declaredInAll, first.map_introduced_placed,
      Statement.map_introduced_placedAll rest]

theorem Section.map_introduced_placed : ∀ (part : Section) (next : Nat),
    (part.placed next).1.declared.map Entry.introduced = part.declared.map Entry.introduced
  | .mk _ labels statements, _ => by
    simp only [Section.placed, Section.declared, List.map_append,
      Placement.map_introduced_all Label.map_introduced_placed,
      Statement.map_introduced_placedAll statements]

theorem Section.map_introduced_placedAll : ∀ (sections : List Section) (next : Nat),
    (Section.declaredInAll (Section.placedAll sections next).1).map Entry.introduced =
      (Section.declaredInAll sections).map Entry.introduced
  | [], _ => rfl
  | first :: rest, _ => by
    simp [Section.placedAll, Section.declaredInAll, first.map_introduced_placed,
      Section.map_introduced_placedAll rest]

end

/-- Placing a procedure changes spans only, not what the procedure introduces. -/
theorem Procedure.map_introduced_placed (procedure : Procedure) :
    procedure.placed.declared.map Entry.introduced =
      procedure.declared.map Entry.introduced := by
  have parameters : ∀ (idents : List Ident) (next : Nat),
      ((Placement.all Ident.placed idents next).1.map (·.entry .parameter)).map
        Entry.introduced = (idents.map (·.entry .parameter)).map Entry.introduced := by
    intro idents
    induction idents with
    | nil => exact fun _ => rfl
    | cons first rest induction =>
        intro next
        exact congrArg (List.cons _) (induction _)
  simp only [placed, declared, List.map_append, parameters, procedure.body.map_introduced_placed]

end LexicalScope
