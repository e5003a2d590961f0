import LexicalScope.Procedure.Build
import LexicalScope.Proofs.Procedure.Enclosure
import LexicalScope.Proofs.Step
import LexicalScope.StatementTree.Layout

/-!
# Where the layout refuses a procedure

Laying a procedure out comes to its places in source order. It refuses the first that is too deep,
and passes when none is.
-/

namespace LexicalScope

/-- A value in parentheses. -/
def Expression.parenthesized (value : Expression) : Nat → Expression
  | 0 => value
  | count + 1 => .paren (value.parenthesized count)

namespace Layout

/-- A step of laying out the procedure `name` comes to places in their order: it refuses the first
that is too deep and fails to pass none but such places, unless offsets run out. -/
structure ComesTo {Result : Type} (name : String) (places : List Place) (step : Layout Result) :
    Prop where
  passed : ∀ {before after result}, before.tree.name = name → step before = .ok result after →
    after.tree.name = name ∧ places.find? Place.isTooDeep = none
  refused : ∀ {before after error}, before.tree.name = name →
    step before = .error (.refused error) after →
      (places.find? Place.isTooDeep).map (Place.fault name) = some error

namespace ComesTo

variable {First Second Item : Type} {name : String} {places more : List Place}
  {step : Layout First} {next : First → Layout Second}

theorem nothing (keeps : ∀ {before after result}, step before = .ok result after →
      after.tree.name = before.tree.name)
    (grants : ∀ {before after error}, step before ≠ .error (.refused error) after) :
    ComesTo name [] step where
  passed named succeeded := ⟨(keeps succeeded).trans named, rfl⟩
  refused _ failed := absurd failed grants

theorem always (succeeds : ∀ before, ∃ result after, step before = .ok result after ∧
    after.tree.name = before.tree.name) : ComesTo name [] step := by
  constructor
  · intro before after result named succeeded
    obtain ⟨_, _, known, kept⟩ := succeeds before
    cases known.symm.trans succeeded
    exact ⟨kept.trans named, rfl⟩
  · intro before after error _ failed
    obtain ⟨_, _, known, _⟩ := succeeds before
    cases known.symm.trans failed

theorem pure (result : First) : ComesTo name [] (Pure.pure result) :=
  .always fun before => ⟨result, before, rfl, rfl⟩

/-- One step after the other comes to the places of both. -/
theorem bind (first : ComesTo name places step)
    (second : ∀ result, ComesTo name more (next result)) :
    ComesTo name (places ++ more) (step >>= next) where
  passed named succeeded := by
    obtain ⟨value, between, stepped, continued⟩ := Step.bind_eq_ok.mp succeeded
    obtain ⟨namedBetween, shallow⟩ := first.passed named stepped
    obtain ⟨namedAfter, shallowToo⟩ := (second value).passed namedBetween continued
    exact ⟨namedAfter, by rw [List.find?_append, shallow, shallowToo]; rfl⟩
  refused named failed := by
    rw [List.find?_append]
    rcases Step.bind_eq_error.mp failed with stopped | ⟨value, between, stepped, stopped⟩
    · obtain ⟨place, found, same⟩ := Option.map_eq_some_iff.mp (first.refused named stopped)
      rw [found]
      exact congrArg some same
    · obtain ⟨namedBetween, shallow⟩ := first.passed named stepped
      rw [shallow]
      exact (second value).refused namedBetween stopped

theorem behind (first : ComesTo name [] step)
    (second : ∀ result, ComesTo name more (next result)) :
    ComesTo name more (step >>= next) :=
  first.bind second

theorem ahead (first : ComesTo name places step)
    (second : ∀ result, ComesTo name [] (next result)) :
    ComesTo name places (step >>= next) := by
  have both := first.bind second
  rwa [List.append_nil] at both

theorem mapM {step : Item → Layout First} {placesOf : Item → List Place}
    (each : ∀ item, ComesTo name (placesOf item) (step item)) (items : List Item) :
    ComesTo name (items.flatMap placesOf) (items.mapM step) := by
  induction items with
  | nil => rw [List.mapM_nil]; exact .pure []
  | cons item items induction =>
      rw [List.mapM_cons, List.flatMap_cons]
      exact (each item).bind fun _ => .ahead induction fun _ => .pure _

/-! ## Spans and nodes -/

theorem openSpan (given : Option Span) : ComesTo name [] (openSpan given) := by
  cases given with
  | some span => exact .always fun before => ⟨_, _, rfl, rfl⟩
  | none =>
      refine .nothing ?_ ?_ <;> intro before after _ <;> simp only [Layout.openSpan] <;> split <;>
        rintro ⟨⟩
      rfl

theorem closeSpan (start : Nat) (given : Option Span) :
    ComesTo name [] (closeSpan start given) := by
  cases given with
  | some span => exact .always fun before => ⟨_, _, rfl, rfl⟩
  | none =>
      refine .nothing ?_ ?_ <;> intro before after _ <;> simp only [Layout.closeSpan] <;> split <;>
        rintro ⟨⟩
      rfl

theorem binding (ident : Ident) : ComesTo name [] (binding ident) :=
  .behind (.openSpan ident.span) fun _ => .behind (.closeSpan _ ident.span) fun _ => .pure _

private theorem optionalBinding : ∀ ident, ComesTo name [] (optionalBinding ident)
  | none => .pure none
  | some ident => .behind (.binding ident) fun _ => .pure _

theorem reserveStatement (parent : StatementRef) : ComesTo name [] (reserveStatement parent) :=
  .always fun _ => ⟨_, _, rfl, rfl⟩

theorem fillStatement (id : StatementId) (content : StatementContent) (span : Span) :
    ComesTo name [] (fillStatement id content span) :=
  .always fun _ => ⟨_, _, rfl, rfl⟩

private theorem reserveExpression (owner : StatementId) (parent : ExpressionRef) :
    ComesTo name [] (reserveExpression owner parent) :=
  .always fun _ => ⟨_, _, rfl, rfl⟩

private theorem fillExpression (id : ExpressionId) (content : ExpressionContent) (span : Span) :
    ComesTo name [] (fillExpression id content span) :=
  .always fun _ => ⟨_, _, rfl, rfl⟩

/-! ## Places -/

/-- A check that refuses just what is too deep comes to the place that it checks. -/
theorem check {place : Place} {limit depth : Nat} {step : Layout Unit}
    (decides : place.isTooDeep = decide (limit ≤ depth))
    (checks : ∀ before : LayoutState, step before =
      if depth < limit then .ok () before
      else .error (.refused (place.fault before.tree.name)) before) :
    ComesTo name [place] step where
  passed named succeeded := by
    rw [checks] at succeeded
    split at succeeded
    case isTrue few =>
      cases succeeded
      have shallow : place.isTooDeep = false := by
        rw [decides, decide_eq_false_iff_not, Nat.not_le]
        exact few
      exact ⟨named, by rw [List.find?_cons_of_neg (by simp [shallow]), List.find?_nil]⟩
    case isFalse => cases succeeded
  refused named failed := by
    rw [checks, named] at failed
    split at failed
    case isTrue => cases failed
    case isFalse many =>
      cases failed
      have deep : place.isTooDeep = true := by
        rw [decides, decide_eq_true_iff]
        exact Nat.le_of_not_lt many
      rw [List.find?_cons_of_pos deep]
      rfl

private theorem checkStatement (around : List PlaceKind) :
    ComesTo name [⟨.statement, around⟩]
      (checkStatementDepth (Place.statementsAround around)) :=
  .check rfl fun _ => rfl

private theorem checkExpression (around : List PlaceKind) :
    ComesTo name [⟨.expression, around⟩] (checkExpressionDepth (Place.valuesAround around)) :=
  .check rfl fun _ => rfl

private theorem checkPattern (around : List PlaceKind) :
    ComesTo name [⟨.pattern, around⟩] (checkExpressionDepth (Place.valuesAround around)) :=
  .check rfl fun _ => rfl

theorem passing {place : Place} (unlimited : place.isTooDeep = false)
    (inside : ComesTo name places step) : ComesTo name (place :: places) step := by
  have same : (place :: places).find? Place.isTooDeep = places.find? Place.isTooDeep :=
    List.find?_cons_of_neg (by simp [unlimited])
  constructor
  · rw [same]
    exact inside.passed
  · rw [same]
    exact inside.refused

/-! ## Expressions -/

mutual

theorem expression (owner : StatementId) (around : List PlaceKind) (parent : ExpressionRef) :
    ∀ value : Expression, ComesTo name (value.places around)
      (expression owner (Place.valuesAround around) parent value)
  | .mk given form =>
    .bind (.checkExpression around) fun _ =>
      .behind (.openSpan given) fun start => .behind (.reserveExpression owner parent) fun id =>
        .ahead (expressionForm owner (.expression :: around) id form) fun content =>
          .behind (.closeSpan start given) fun span =>
            .behind (.fillExpression id content span) fun _ => .pure id

theorem expressionForm (owner : StatementId) (around : List PlaceKind) (id : ExpressionId) :
    ∀ form : ExpressionForm, ComesTo name (form.places around)
      (expressionForm owner (Place.valuesAround around) id form)
  | .name _ | .literal _ | .out _ => .pure _
  | .unary _ operand => .ahead (expression owner around id operand) fun _ => .pure _
  | .binary _ left right =>
    .bind (expression owner around id left) fun _ =>
      .ahead (expression owner around id right) fun _ => .pure _
  | .choice condition whenTrue whenFalse =>
    .bind (expression owner around id condition) fun _ =>
      .bind (expression owner around id whenTrue) fun _ =>
        .ahead (expression owner around id whenFalse) fun _ => .pure _
  | .paren inner => .ahead (expression owner around id inner) fun _ => .pure _
  | .call callee arguments =>
    .bind (expression owner around id callee) fun _ =>
      .ahead (expressions owner around id arguments) fun _ => .pure _
  | .member target _ => .ahead (expression owner around id target) fun _ => .pure _
  | .assign target value =>
    .bind (expression owner around id target) fun _ =>
      .ahead (expression owner around id value) fun _ => .pure _
  | .test operand value =>
    .bind (expression owner around id operand) fun _ =>
      .ahead (pattern owner around id value) fun _ => .pure _
  | .outVariable _ ident => .behind (.binding ident) fun _ => .pure _

theorem expressions (owner : StatementId) (around : List PlaceKind) (parent : ExpressionRef) :
    ∀ values : List Expression, ComesTo name (Expression.placesOfAll around values)
      (expressions owner (Place.valuesAround around) parent values)
  | [] => .pure []
  | first :: rest =>
    .bind (expression owner around parent first) fun _ =>
      .ahead (expressions owner around parent rest) fun _ => .pure _

theorem pattern (owner : StatementId) (around : List PlaceKind) (parent : ExpressionRef) :
    ∀ value : Pattern, ComesTo name (value.places around)
      (pattern owner (Place.valuesAround around) parent value)
  | .type _ | .discard => .ahead (.checkPattern around) fun _ => .pure _
  | .declaration _ ident | .anyValue ident =>
    .ahead (.checkPattern around) fun _ => .behind (.binding ident) fun _ => .pure _
  | .constant value =>
    .bind (.checkPattern around) fun _ =>
      .ahead (expression owner (.pattern :: around) parent value) fun _ => .pure _
  | .recursive _ subpatterns ident =>
    .bind (.checkPattern around) fun _ =>
      .ahead (patterns owner (.pattern :: around) parent subpatterns) fun _ =>
        .behind (.optionalBinding ident) fun _ => .pure _
  | .negated inner =>
    .bind (.checkPattern around) fun _ =>
      .ahead (pattern owner (.pattern :: around) parent inner) fun _ => .pure _

theorem patterns (owner : StatementId) (around : List PlaceKind) (parent : ExpressionRef) :
    ∀ values : List Pattern, ComesTo name (Pattern.placesOfAll around values)
      (patterns owner (Place.valuesAround around) parent values)
  | [] => .pure []
  | first :: rest =>
    .bind (pattern owner around parent first) fun _ =>
      .ahead (patterns owner around parent rest) fun _ => .pure _

end

/-! ## Statements -/

section Headers

variable (owner : StatementId) {around : List PlaceKind} (outermost : Place.valuesAround around = 0)

include outermost

theorem header (value : Expression) :
    ComesTo name (value.places around) (header owner value) := by
  have whole : ComesTo name _ _ := expression owner around none value
  rw [outermost] at whole
  exact .ahead whole fun _ => .pure _

theorem optionalHeader : ∀ value : Option Expression,
    ComesTo name (Expression.placesIfPresent around value) (optionalHeader owner value)
  | none => .pure none
  | some value => .header owner outermost value

private theorem declarator (value : Declarator) :
    ComesTo name (value.places around) (declarator owner value) :=
  .behind (.binding value.name) fun _ =>
    .ahead (.optionalHeader owner outermost value.initializer) fun _ => .pure _

end Headers

private theorem label (owner : StatementId) (around : List PlaceKind) :
    ∀ value : Label, ComesTo name (value.places around) (label owner value)
  | .matching value guard =>
    .passing rfl <| .behind (.openSpan none) fun start =>
      .bind (.pattern owner (.label :: around) none value) fun _ =>
        .ahead (.optionalHeader owner rfl guard) fun _ => .behind (.pure _) fun _ =>
          .behind (.closeSpan start none) fun _ => .pure _
  | .otherwise =>
    .passing rfl <| .behind (.openSpan none) fun start =>
      .behind (.pure _) fun _ => .behind (.closeSpan start none) fun _ => .pure _

mutual

theorem statement (around : List PlaceKind) (parent : StatementRef) :
    ∀ value : Statement, ComesTo name (value.places around)
      (statement (Place.statementsAround around) parent value)
  | .mk given form => by
    have inside := fun id => statementForm (.statement :: around) rfl id form
    rw [Place.statementsAround_statement] at inside
    exact .bind (.checkStatement around) fun _ =>
      .behind (.openSpan given) fun start => .behind (.reserveStatement parent) fun id =>
        .ahead (inside id) fun content =>
          .behind (.closeSpan start given) fun span =>
            .behind (.fillStatement id content span) fun _ => .pure id

theorem statementForm (around : List PlaceKind) (outermost : Place.valuesAround around = 0)
    (id : StatementId) : ∀ form : StatementForm, ComesTo name (form.places around)
      (statementForm (Place.statementsAround around) id form)
  | .block members => .ahead (statements around (some id) members) fun _ => .pure _
  | .branch condition thenBody none =>
    .bind (.header id outermost condition) fun _ =>
      .ahead (statement around (some id) thenBody) fun _ => .pure _
  | .branch condition thenBody (some elseBody) =>
    .bind (.header id outermost condition) fun _ =>
      .bind (statement around (some id) thenBody) fun _ =>
        .ahead (statement around (some id) elseBody) fun _ => .pure _
  | .whileLoop condition body =>
    .bind (.header id outermost condition) fun _ =>
      .ahead (statement around (some id) body) fun _ => .pure _
  | .doLoop body condition =>
    .bind (statement around (some id) body) fun _ =>
      .ahead (.header id outermost condition) fun _ => .pure _
  | .forLoop declarators initializers condition incrementors body =>
    .bind (.mapM (.declarator id outermost) declarators) fun _ =>
      .bind (.mapM (.header id outermost) initializers) fun _ =>
        .bind (.optionalHeader id outermost condition) fun _ =>
          .bind (.mapM (.header id outermost) incrementors) fun _ =>
            .ahead (statement around (some id) body) fun _ => .pure _
  | .forEachLoop element collection body =>
    .behind (.binding element) fun _ =>
      .bind (.header id outermost collection) fun _ =>
        .ahead (statement around (some id) body) fun _ => .pure _
  | .resource declarators held body =>
    .bind (.mapM (.declarator id outermost) declarators) fun _ =>
      .bind (.optionalHeader id outermost held) fun _ =>
        .ahead (statement around (some id) body) fun _ => .pure _
  | .switch subject parts =>
    .bind (.header id outermost subject) fun _ =>
      .ahead (sections around (some id) parts) fun _ => .pure _
  | .localDeclaration declarators =>
    .ahead (.mapM (.declarator id outermost) declarators) fun _ => .pure _
  | .evaluation value => .ahead (.header id outermost value) fun _ => .pure _
  | .returning value | .throwing value =>
    .ahead (.optionalHeader id outermost value) fun _ => .pure _
  | .labeled _ body => .ahead (statement around (some id) body) fun _ => .pure _
  | .breaking | .continuing | .empty => .pure _

theorem statements (around : List PlaceKind) (parent : StatementRef) :
    ∀ values : List Statement, ComesTo name (Statement.placesOfAll around values)
      (statements (Place.statementsAround around) parent values)
  | [] => .pure []
  | first :: rest =>
    .bind (statement around parent first) fun _ =>
      .ahead (statements around parent rest) fun _ => .pure _

theorem switchSection (around : List PlaceKind) (parent : StatementRef) :
    ∀ value : Section, ComesTo name (value.places around)
      (switchSection (Place.statementsAround around) parent value)
  | .mk given labels members => by
    have inside := fun id => statements (.switchSection :: around) (some id) members
    rw [Place.statementsAround_switchSection] at inside
    exact .passing rfl <| .behind (.openSpan given) fun start =>
      .behind (.reserveStatement parent) fun id =>
        .bind (.mapM (.label id (.switchSection :: around)) labels) fun labels =>
          .ahead (inside id) fun members => .behind (.closeSpan start given) fun span =>
            .behind (.fillStatement id (.switchSection labels members) span) fun _ => .pure id

theorem sections (around : List PlaceKind) (parent : StatementRef) :
    ∀ values : List Section, ComesTo name (Section.placesOfAll around values)
      (sections (Place.statementsAround around) parent values)
  | [] => .pure []
  | first :: rest =>
    .bind (switchSection around parent first) fun _ =>
      .ahead (sections around parent rest) fun _ => .pure _

end

theorem procedure (value : Procedure) : ComesTo name value.places (Layout.procedure value) := by
  have parameters : ComesTo name (value.parameters.flatMap fun _ => []) _ :=
    .mapM .binding value.parameters
  rw [List.flatMap_eq_nil_iff.mpr fun _ _ => rfl] at parameters
  exact .behind parameters fun _ => .ahead (.statement [] none value.body) fun _ =>
    .always fun _ => ⟨_, _, rfl, rfl⟩

end ComesTo

/-- A value in more parentheses than expressions may nest is refused before offsets run out. -/
theorem expression_parenthesized (value : Expression) (owner : StatementId) :
    ∀ (count depth : Nat) (parent : ExpressionRef) (before : LayoutState),
      Limit.expressionNesting ≤ depth + count → before.next + count < Limit.offset →
        ∃ error after, expression owner depth parent (value.parenthesized count) before =
          .error (.refused error) after
  | 0, depth, parent, before, deep, _ => by
    obtain ⟨given, form⟩ := value
    have many : ¬ depth < Limit.expressionNesting := Nat.not_lt.mpr deep
    exact ⟨_, _, Step.bind_eq_error.mpr (.inl (if_neg many))⟩
  | count + 1, depth, parent, before, deep, room => by
    by_cases few : depth < Limit.expressionNesting
    · have opens : openSpan none before = .ok before.next { before with next := before.next + 1 } :=
        if_pos (by omega)
      obtain ⟨error, after, failed⟩ := expression_parenthesized value owner count (depth + 1)
        (some before.tree.nextExpression)
        ⟨before.tree.addExpression ⟨.literal "", Span.dummy, some owner, parent⟩, before.next + 1⟩
        (by omega) (by simp only; omega)
      exact ⟨error, after, Step.bind_eq_error.mpr <| .inr ⟨_, _, if_pos few,
        Step.bind_eq_error.mpr <| .inr ⟨_, _, opens, Step.bind_eq_error.mpr <| .inr ⟨_, _, rfl,
          Step.bind_eq_error.mpr <| .inl <| Step.bind_eq_error.mpr <| .inl failed⟩⟩⟩⟩
    · exact ⟨_, _, Step.bind_eq_error.mpr (.inl (if_neg few))⟩

end Layout

/-- Unless offsets run out, a procedure is laid out exactly when none of its places is too deep, and
the first that is gives the fault otherwise. -/
theorem StatementTree.ofProcedure_refuses (procedure : Procedure)
    (inRange : ∀ error, StatementTree.ofProcedure procedure ≠ .error (.overflow error)) :
    ((∃ tree, StatementTree.ofProcedure procedure = .ok tree) ↔
      ∀ place ∈ procedure.places, place.isTooDeep = false) ∧
    ∀ place, procedure.places.find? Place.isTooDeep = some place →
      StatementTree.ofProcedure procedure = .error (.refused (place.fault procedure.name)) := by
  have comes : Layout.ComesTo procedure.name procedure.places _ := .procedure procedure
  have shallow_iff : procedure.places.find? Place.isTooDeep = none ↔
      ∀ place ∈ procedure.places, place.isTooDeep = false := by
    simp only [List.find?_eq_none, Bool.not_eq_true]
  unfold StatementTree.ofProcedure at inRange ⊢
  cases laid : Layout.procedure procedure ⟨.empty procedure.name, 0⟩ with
  | ok _ state =>
      obtain ⟨-, shallow⟩ := comes.passed rfl laid
      refine ⟨⟨fun _ => shallow_iff.mp shallow, fun _ => ⟨state.tree, rfl⟩⟩, ?_⟩
      rintro place found
      cases shallow.symm.trans found
  | error error state =>
      cases error with
      | overflow error => exact absurd (by rw [laid]) (inRange error)
      | refused error =>
          obtain ⟨first, found, rfl⟩ := Option.map_eq_some_iff.mp (comes.refused rfl laid)
          refine ⟨⟨?_, fun shallow => ?_⟩, ?_⟩
          · rintro ⟨_, ⟨⟩⟩
          · cases (shallow_iff.mpr shallow).symm.trans found
          · intro place foundToo
            cases found.symm.trans foundToo
            rfl

/-- A procedure that returns a value in parentheses. -/
def Procedure.parenthesizing (count : Nat) : Procedure :=
  .plain "p" [] (.returning (some ((Expression.name "x").parenthesized count)))

private theorem StatementTree.inRange_parenthesizing {count : Nat}
    (deep : Limit.expressionNesting ≤ count) (room : 1 + count < Limit.offset)
    (overflow : OffsetOverflow) :
    StatementTree.ofProcedure (.parenthesizing count) ≠ .error (.overflow overflow) := by
  obtain ⟨error, after, refused⟩ := Layout.expression_parenthesized (.name "x") ⟨0⟩ count 0 none
    ⟨(StatementTree.empty "p").addStatement ⟨.empty, Span.dummy, none⟩, 1⟩
    (by omega) room
  have failed : Layout.procedure (.parenthesizing count) ⟨.empty "p", 0⟩ =
      .error (.refused error) after :=
    Step.bind_eq_error.mpr <| .inr ⟨[], _, rfl, Step.bind_eq_error.mpr <| .inl <|
      Step.bind_eq_error.mpr <| .inr ⟨_, _, rfl, Step.bind_eq_error.mpr <| .inr ⟨_, _, rfl,
        Step.bind_eq_error.mpr <| .inr ⟨_, _, rfl, Step.bind_eq_error.mpr <| .inl <|
          Step.bind_eq_error.mpr <| .inl <| Step.bind_eq_error.mpr <| .inl refused⟩⟩⟩⟩
  intro same
  rw [StatementTree.ofProcedure, show (Procedure.parenthesizing count).name = "p" from rfl,
    failed] at same
  cases same

private theorem Expression.find?_parenthesized (name : String) :
    ∀ (count : Nat) (around : List PlaceKind),
    Limit.expressionNesting = Place.valuesAround around + count → ∃ inner,
      (((Expression.name name).parenthesized count).places around).find? Place.isTooDeep =
        some ⟨.expression, inner⟩
  | 0, around, full =>
    ⟨around, List.find?_cons_of_pos (decide_eq_true (Nat.le_of_eq full))⟩
  | count + 1, around, full => by
    obtain ⟨inner, found⟩ := find?_parenthesized name count (.expression :: around)
      (by rw [Place.valuesAround_expression]; omega)
    refine ⟨inner, Eq.trans (List.find?_cons_of_neg ?_) found⟩
    simp only [Place.isTooDeep, decide_eq_true_eq]
    omega

theorem StatementTree.ofProcedure_refuses_parenthesizing :
    (∀ error, StatementTree.ofProcedure (.parenthesizing 2000) ≠ .error (.overflow error)) ∧
      StatementTree.ofProcedure (.parenthesizing 2000) =
        .error (.refused (.expressionsTooDeep "p" Limit.expressionNesting)) := by
  have inRange := StatementTree.inRange_parenthesizing
    (show Limit.expressionNesting ≤ 2000 by decide) (by decide)
  obtain ⟨inner, found⟩ := Expression.find?_parenthesized "x" 2000 [.statement] rfl
  exact ⟨inRange, (StatementTree.ofProcedure_refuses (.parenthesizing 2000) inRange).2
    ⟨.expression, inner⟩ (Eq.trans (List.find?_cons_of_neg (by decide)) found)⟩

end LexicalScope
