import LexicalScope.Proofs.Layout.Growth
import LexicalScope.Proofs.Layout.Refusal
import LexicalScope.Proofs.Procedure.Interchange
import LexicalScope.Proofs.Procedure.Parts

/-!
# Where offsets run out

The layout asks for the offset behind each one that it issues, even where no further part needs it.
So it runs out of offsets exactly where placing the parts of a procedure without a bound issues the
last offset of the range or one behind the range. Stated spans bring that about on their own: they
move the next offset up to any end that an interchange text can state.
-/

namespace LexicalScope

open Placement

namespace Part

/-- Placing parts from the offset `next` on issues an offset with none behind it in the range. -/
def RunsOut (parts : List (Part (Option Span))) (next : Nat) : Prop :=
  ∃ offset, .issued offset ∈ stepsOfAll (placedAll parts next).1 ∧ Limit.offset ≤ offset + 1

/-- A part that opened at `start` and closes at the next offset is issued an offset that has none
behind it in the range. -/
def ClosesOut (start : Nat) (given : Option Span) (next : Nat) : Prop :=
  given = none ∧ Limit.offset ≤ max next (start + 1) + 1

mutual

/-- The places of a part and of all inside it. -/
def allPlaces {Place : Type} : Part Place → List Place
  | mk _ place parts => place :: allPlacesOf parts

/-- The places of parts and of all inside them. -/
def allPlacesOf {Place : Type} : List (Part Place) → List Place
  | [] => []
  | first :: rest => first.allPlaces ++ allPlacesOf rest

end

/-- No stated span reaches beyond an offset. -/
def StatesUpTo (bound : Nat) (spans : List (Option Span)) : Prop :=
  ∀ span, some span ∈ spans → span.start ≤ bound ∧ span.stop ≤ bound

variable {first second parts : List (Part (Option Span))} {kind : PartKind} {span : Span}
  {next : Nat}

private theorem stepsOfAll_append (left right : List (Part PlacedSpan)) :
    stepsOfAll (left ++ right) = stepsOfAll left ++ stepsOfAll right := by
  induction left with
  | nil => rfl
  | cons part left induction =>
      calc stepsOfAll (part :: left ++ right)
          = part.steps ++ stepsOfAll (left ++ right) := by rw [List.cons_append, stepsOfAll]
        _ = part.steps ++ (stepsOfAll left ++ stepsOfAll right) := by rw [induction]
        _ = stepsOfAll (part :: left) ++ stepsOfAll right := by rw [stepsOfAll, List.append_assoc]

theorem not_runsOut_nil : ¬ RunsOut [] next := fun ⟨_, member, _⟩ => nomatch member

theorem runsOut_append : RunsOut (first ++ second) next ↔
    RunsOut first next ∨ RunsOut second (placedAll first next).2 := by
  simp only [RunsOut, placedAll_append, stepsOfAll_append, List.mem_append, or_and_right, exists_or]

private theorem runsOut_stated : RunsOut [.mk kind (some span) parts] next ↔
    RunsOut parts (opened (some span) next) := by
  simp [RunsOut, placedAll, placed, stepsOfAll, steps]

/-- A part that states no span runs out of offsets where it opens, inside, or where it closes. -/
theorem runsOut_unstated : RunsOut [.mk kind none parts] next ↔
    Limit.offset ≤ next + 1 ∨ RunsOut parts (opened none next) ∨
      ClosesOut (opening none next) none (placedAll parts (opened none next)).2 := by
  simp [RunsOut, ClosesOut, placedAll, placed, stepsOfAll, steps, covered, opening, or_and_right,
    exists_or]

/-! ## A bound -/

mutual

/-- Placing moves the next offset on by two for each part without a span, and not beyond the stated
spans otherwise. -/
theorem placed_le {bound : Nat} : ∀ (part : Part (Option Span)) {next more : Nat},
    StatesUpTo bound part.allPlaces → next ≤ bound + more →
      (part.placed next).2 ≤ bound + (more + 2 * part.allPlaces.count none)
  | mk _ none parts, next, more, within, le => by
    have inside : (placedAll parts (next + 1)).2 ≤
        bound + (more + 1 + 2 * (allPlacesOf parts).count none) :=
      placedAll_le parts (fun span member => within span (List.mem_cons_of_mem _ member)) (by omega)
    simp only [placed, opened, opening, closed, allPlaces, List.count_cons_self]
    omega
  | mk _ (some span) parts, next, more, within, le => by
    obtain ⟨starts, stops⟩ := within span List.mem_cons_self
    have inside : (placedAll parts (max next span.start)).2 ≤
        bound + (more + 2 * (allPlacesOf parts).count none) :=
      placedAll_le parts (fun span member => within span (List.mem_cons_of_mem _ member)) (by omega)
    have same : (some span :: allPlacesOf parts).count none = (allPlacesOf parts).count none :=
      List.count_cons_of_ne (Option.some_ne_none span)
    simp only [placed, opened, closed, allPlaces, same]
    omega

theorem placedAll_le {bound : Nat} : ∀ (parts : List (Part (Option Span))) {next more : Nat},
    StatesUpTo bound (allPlacesOf parts) → next ≤ bound + more →
      (placedAll parts next).2 ≤ bound + (more + 2 * (allPlacesOf parts).count none)
  | [], next, more, _, le => by simpa [placedAll, allPlacesOf] using le
  | first :: rest, next, more, within, le => by
    have head := placed_le first (fun span member =>
      within span (List.mem_append_left _ member)) le
    have tail := placedAll_le rest (fun span member =>
      within span (List.mem_append_right _ member)) head
    rw [allPlacesOf, List.count_append, placedAll]
    omega

end

private theorem not_runsOut_of_statesUpTo {bound : Nat}
    (within : StatesUpTo bound (allPlacesOf parts))
    (room : bound + 2 * (allPlacesOf parts).count none < Limit.offset) : ¬ RunsOut parts 0 := by
  rintro ⟨offset, issued, beyond⟩
  have behind := (advance_placedAll parts 0).lt_of_mem issued
  have last := placedAll_le parts within (Nat.zero_le (bound + 0))
  omega

end Part

namespace Layout

/-- A step passes to the next offset that `last` says and fails just where `fails` says, apart from
refusing what is too deep. -/
structure Advances {Result : Type} (last : Nat → Nat) (fails : Nat → Prop) (step : Layout Result) :
    Prop where
  passed : ∀ {before after result}, step before = .ok result after →
    after.next = last before.next ∧ ¬ fails before.next
  overflowed : ∀ {before after error}, step before = .error (.overflow error) after →
    fails before.next

/-- A step issues offsets as placing parts does, and fails where these run out. -/
def Places {Result : Type} (parts : List (Part (Option Span))) (step : Layout Result) : Prop :=
  Advances (fun next => (Part.placedAll parts next).2) (Part.RunsOut parts) step

/-- A step issues offsets as placing parts and then closing the part around them does. -/
def Closes {Result : Type} (start : Nat) (given : Option Span) (parts : List (Part (Option Span)))
    (step : Layout Result) : Prop :=
  Advances (fun next => closed start given (Part.placedAll parts next).2)
    (fun next => Part.RunsOut parts next ∨ Part.ClosesOut start given (Part.placedAll parts next).2)
    step

theorem Advances.bind {First Second : Type} {step : Layout First}
    {following : First → Layout Second} {last lastToo : Nat → Nat} {fails failsToo : Nat → Prop}
    (first : Advances last fails step)
    (second : ∀ result, Advances lastToo failsToo (following result)) :
    Advances (fun next => lastToo (last next)) (fun next => fails next ∨ failsToo (last next))
      (step >>= following) where
  passed succeeded := by
    obtain ⟨result, between, stepped, continued⟩ := Step.bind_eq_ok.mp succeeded
    obtain ⟨sameNext, passes⟩ := first.passed stepped
    obtain ⟨sameLast, passesToo⟩ := (second result).passed continued
    rw [sameNext] at sameLast passesToo
    exact ⟨sameLast, not_or.mpr ⟨passes, passesToo⟩⟩
  overflowed failed := by
    rcases Step.bind_eq_error.mp failed with stopped | ⟨result, between, stepped, stopped⟩
    · exact .inl (first.overflowed stopped)
    · rw [← (first.passed stepped).1]
      exact .inr ((second result).overflowed stopped)

private theorem advances_openSpan (given : Option Span) :
    Advances (opened given) (fun next => given = none ∧ Limit.offset ≤ next + 1)
      (openSpan given) := by
  constructor
  · intro before after start succeeded
    refine ⟨by rw [(openSpan_eq_ok succeeded).2], ?_⟩
    rintro ⟨rfl, beyond⟩
    simp only [openSpan, if_neg (Nat.not_lt.mpr beyond)] at succeeded
    cases succeeded
  · intro before after error failed
    cases given with
    | some span => cases failed
    | none =>
        refine ⟨rfl, Nat.le_of_not_lt fun room => ?_⟩
        simp only [openSpan, if_pos room] at failed
        cases failed

private theorem advances_closeSpan (start : Nat) (given : Option Span) :
    Advances (closed start given) (Part.ClosesOut start given) (closeSpan start given) := by
  constructor
  · intro before after span succeeded
    refine ⟨by rw [(closeSpan_eq_ok succeeded).2], ?_⟩
    rintro ⟨rfl, beyond⟩
    simp only [closeSpan, if_neg (Nat.not_lt.mpr beyond)] at succeeded
    cases succeeded
  · intro before after error failed
    cases given with
    | some span => cases failed
    | none =>
        refine ⟨rfl, Nat.le_of_not_lt fun room => ?_⟩
        simp only [closeSpan, if_pos room] at failed
        cases failed

section Rules

variable {First Second Item : Type} {parts more : List (Part (Option Span))} {step : Layout First}
  {following : First → Layout Second} {start : Nat} {given : Option Span}

namespace Places

theorem bind (first : Places parts step) (second : ∀ result, Places more (following result)) :
    Places (parts ++ more) (step >>= following) := by
  have both := Advances.bind first second
  simpa only [Places, Part.placedAll_append, ← Part.runsOut_append] using both

theorem quiet (keeps : ∀ {before after result}, step before = .ok result after →
      after.next = before.next)
    (never : ∀ {before after error}, step before ≠ .error (.overflow error) after) :
    Places [] step where
  passed succeeded := ⟨keeps succeeded, Part.not_runsOut_nil⟩
  overflowed failed := absurd failed never

theorem always (succeeds : ∀ before, ∃ result after, step before = .ok result after ∧
    after.next = before.next) : Places [] step := by
  refine .quiet (fun {before after result} succeeded => ?_) fun {before after error} failed => ?_
  · obtain ⟨_, _, known, kept⟩ := succeeds before
    cases known.symm.trans succeeded
    exact kept
  · obtain ⟨_, _, known, _⟩ := succeeds before
    cases known.symm.trans failed

theorem pure (result : First) : Places [] (Pure.pure result) :=
  .always fun before => ⟨result, before, rfl, rfl⟩

theorem behind (first : Places [] step) (second : ∀ result, Places more (following result)) :
    Places more (step >>= following) :=
  first.bind second

theorem ahead (first : Places parts step) (second : ∀ result, Places [] (following result)) :
    Places parts (step >>= following) := by
  have both := first.bind second
  rwa [List.append_nil] at both

theorem mapM {step : Item → Layout First} {partsOf : Item → List (Part (Option Span))}
    (each : ∀ item, Places (partsOf item) (step item)) (items : List Item) :
    Places (items.flatMap partsOf) (items.mapM step) := by
  induction items with
  | nil => rw [List.mapM_nil]; exact .pure []
  | cons item items induction =>
      rw [List.mapM_cons, List.flatMap_cons]
      exact (each item).bind fun _ => .ahead induction fun _ => .pure _

end Places

namespace Closes

theorem bind (first : Places parts step)
    (second : ∀ result, Closes start given more (following result)) :
    Closes start given (parts ++ more) (step >>= following) := by
  have both := Advances.bind first second
  simpa only [Closes, Part.placedAll_append, Part.runsOut_append, or_assoc] using both

theorem behind (first : Places [] step)
    (second : ∀ result, Closes start given more (following result)) :
    Closes start given more (step >>= following) :=
  bind first second

theorem ahead (first : Places parts step)
    (second : ∀ result, Closes start given [] (following result)) :
    Closes start given parts (step >>= following) := by
  have both := bind first second
  rwa [List.append_nil] at both

theorem last {following : Span → Layout Second} (finish : ∀ span, Places [] (following span)) :
    Closes start given [] (closeSpan start given >>= following) := by
  have both := Advances.bind (advances_closeSpan start given) finish
  have never : ∀ next, ¬ Part.RunsOut [] next := fun _ => Part.not_runsOut_nil
  simpa only [Closes, Part.placedAll, never, or_false, false_or] using both

end Closes

/-- A part is opened, what is inside is placed, and it is closed. -/
theorem Places.around {following : Nat → Layout Second} (kind : PartKind)
    (inside : ∀ start, Closes start given parts (following start)) :
    Places [.mk kind given parts] (openSpan given >>= following) := by
  have opens := advances_openSpan given
  -- A stated span fails neither where the part opens nor where it closes.
  have runsOut : ∀ next, Part.RunsOut [.mk kind given parts] next ↔
      (given = none ∧ Limit.offset ≤ next + 1) ∨ Part.RunsOut parts (opened given next) ∨
        Part.ClosesOut (opening given next) given (Part.placedAll parts (opened given next)).2 := by
    intro next
    cases given with
    | some span => simpa [Part.ClosesOut] using Part.runsOut_stated
    | none => simpa only [true_and] using Part.runsOut_unstated
  constructor
  · intro before after result succeeded
    obtain ⟨start, between, isOpened, continued⟩ := Step.bind_eq_ok.mp succeeded
    obtain ⟨rfl, rfl⟩ := openSpan_eq_ok isOpened
    obtain ⟨same, passes⟩ := (inside _).passed continued
    exact ⟨same, fun fails => ((runsOut _).mp fails).elim (opens.passed isOpened).2 passes⟩
  · intro before after error failed
    refine (runsOut _).mpr ?_
    rcases Step.bind_eq_error.mp failed with stopped | ⟨start, between, isOpened, stopped⟩
    · exact .inl (opens.overflowed stopped)
    · obtain ⟨rfl, rfl⟩ := openSpan_eq_ok isOpened
      exact .inr ((inside _).overflowed stopped)

end Rules

/-! ## Spans, nodes and checks -/

namespace Places

theorem binding (ident : Ident) : Places [ident.part] (binding ident) :=
  .around (.name ident.name) fun _ => .last fun _ => .pure _

private theorem optionalBinding : ∀ ident : Option Ident,
    Places (ident.toList.map Ident.part) (optionalBinding ident)
  | none => .pure none
  | some ident => .ahead (.binding ident) fun _ => .pure _

theorem reserveStatement (parent : StatementRef) : Places [] (reserveStatement parent) :=
  .always fun _ => ⟨_, _, rfl, rfl⟩

theorem fillStatement (id : StatementId) (content : StatementContent) (span : Span) :
    Places [] (fillStatement id content span) :=
  .always fun _ => ⟨_, _, rfl, rfl⟩

private theorem reserveExpression (owner : StatementId) (parent : ExpressionRef) :
    Places [] (reserveExpression owner parent) :=
  .always fun _ => ⟨_, _, rfl, rfl⟩

private theorem fillExpression (id : ExpressionId) (content : ExpressionContent) (span : Span) :
    Places [] (fillExpression id content span) :=
  .always fun _ => ⟨_, _, rfl, rfl⟩

private theorem checkStatementDepth (depth : Nat) : Places [] (checkStatementDepth depth) := by
  refine .quiet (fun succeeded => by rw [(checkStatementDepth_eq_ok succeeded).2]) ?_
  intro before after error
  unfold Layout.checkStatementDepth
  split <;> exact nofun

theorem checkExpressionDepth (depth : Nat) : Places [] (checkExpressionDepth depth) := by
  refine .quiet (fun succeeded => by rw [(checkExpressionDepth_eq_ok succeeded).2]) ?_
  intro before after error
  unfold Layout.checkExpressionDepth
  split <;> exact nofun

/-! ## Expressions -/

mutual

theorem expression (owner : StatementId) (depth : Nat) (parent : ExpressionRef) :
    ∀ value : Expression, Places [value.part] (expression owner depth parent value)
  | .mk _ form =>
    .behind (.checkExpressionDepth depth) fun _ =>
      .around .expression fun _ => .behind (.reserveExpression owner parent) fun id =>
        .ahead (expressionForm owner (depth + 1) id form) fun content =>
          .last fun span => .behind (.fillExpression id content span) fun _ => .pure id

theorem expressionForm (owner : StatementId) (depth : Nat) (id : ExpressionId) :
    ∀ form : ExpressionForm, Places form.innerParts (expressionForm owner depth id form)
  | .name _ | .literal _ | .out _ => .pure _
  | .unary _ operand => .ahead (expression owner depth id operand) fun _ => .pure _
  | .binary _ left right =>
    (expression owner depth id left).bind fun _ =>
      .ahead (expression owner depth id right) fun _ => .pure _
  | .choice condition whenTrue whenFalse =>
    (expression owner depth id condition).bind fun _ =>
      (expression owner depth id whenTrue).bind fun _ =>
        .ahead (expression owner depth id whenFalse) fun _ => .pure _
  | .paren inner => .ahead (expression owner depth id inner) fun _ => .pure _
  | .call callee arguments =>
    (expression owner depth id callee).bind fun _ =>
      .ahead (expressions owner depth id arguments) fun _ => .pure _
  | .member target _ => .ahead (expression owner depth id target) fun _ => .pure _
  | .assign target value =>
    (expression owner depth id target).bind fun _ =>
      .ahead (expression owner depth id value) fun _ => .pure _
  | .test operand value =>
    (expression owner depth id operand).bind fun _ =>
      .ahead (pattern owner depth id value) fun _ => .pure _
  | .outVariable _ ident => .ahead (.binding ident) fun _ => .pure _

theorem expressions (owner : StatementId) (depth : Nat) (parent : ExpressionRef) :
    ∀ values : List Expression, Places (Expression.partsOfAll values)
      (expressions owner depth parent values)
  | [] => .pure []
  | first :: rest =>
    (expression owner depth parent first).bind fun _ =>
      .ahead (expressions owner depth parent rest) fun _ => .pure _

theorem pattern (owner : StatementId) (depth : Nat) (parent : ExpressionRef) :
    ∀ value : Pattern, Places value.parts (pattern owner depth parent value)
  | .type _ | .discard => .behind (.checkExpressionDepth depth) fun _ => .pure _
  | .declaration _ ident | .anyValue ident =>
    .behind (.checkExpressionDepth depth) fun _ => .ahead (.binding ident) fun _ => .pure _
  | .constant value =>
    .behind (.checkExpressionDepth depth) fun _ =>
      .ahead (expression owner (depth + 1) parent value) fun _ => .pure _
  | .recursive _ subpatterns ident =>
    .behind (.checkExpressionDepth depth) fun _ =>
      (patterns owner (depth + 1) parent subpatterns).bind fun _ =>
        .ahead (.optionalBinding ident) fun _ => .pure _
  | .negated inner =>
    .behind (.checkExpressionDepth depth) fun _ =>
      .ahead (pattern owner (depth + 1) parent inner) fun _ => .pure _

theorem patterns (owner : StatementId) (depth : Nat) (parent : ExpressionRef) :
    ∀ values : List Pattern, Places (Pattern.partsOfAll values)
      (patterns owner depth parent values)
  | [] => .pure []
  | first :: rest =>
    (pattern owner depth parent first).bind fun _ =>
      .ahead (patterns owner depth parent rest) fun _ => .pure _

end

/-! ## Statements -/

theorem header (owner : StatementId) (value : Expression) :
    Places [value.part] (header owner value) :=
  .ahead (.expression owner 0 none value) fun _ => .pure _

private theorem headers (owner : StatementId) (values : List Expression) :
    Places (values.map Expression.part) (values.mapM (Layout.header owner)) := by
  rw [List.map_eq_flatMap]
  exact .mapM (.header owner) values

theorem optionalHeader (owner : StatementId) : ∀ value : Option Expression,
    Places (Expression.partIfPresent value) (optionalHeader owner value)
  | none => .pure none
  | some value => .header owner value

private theorem declarator (owner : StatementId) (value : Declarator) :
    Places value.parts (declarator owner value) :=
  (Places.binding value.name).bind fun _ =>
    .ahead (.optionalHeader owner value.initializer) fun _ => .pure _

private theorem label (owner : StatementId) :
    ∀ value : Label, Places [value.part] (label owner value)
  | .matching value guard =>
    .around .label fun _ => .bind (.pattern owner 0 none value) fun _ =>
      .ahead (.optionalHeader owner guard) fun _ => .behind (.pure _) fun _ =>
        .last fun _ => .pure _
  | .otherwise => .around .label fun _ => .behind (.pure _) fun _ => .last fun _ => .pure _

private theorem labels (owner : StatementId) (values : List Label) :
    Places (values.map Label.part) (values.mapM (Layout.label owner)) := by
  rw [List.map_eq_flatMap]
  exact .mapM (.label owner) values

mutual

theorem statement (depth : Nat) (parent : StatementRef) :
    ∀ value : Statement, Places [value.part] (statement depth parent value)
  | .mk _ form =>
    .behind (.checkStatementDepth depth) fun _ =>
      .around .statement fun _ => .behind (.reserveStatement parent) fun id =>
        .ahead (statementForm (depth + 1) id form) fun content =>
          .last fun span => .behind (.fillStatement id content span) fun _ => .pure id

theorem statementForm (depth : Nat) (id : StatementId) :
    ∀ form : StatementForm, Places form.innerParts (statementForm depth id form)
  | .block members => .ahead (statements depth (some id) members) fun _ => .pure _
  | .branch condition thenBody none =>
    (header id condition).bind fun _ =>
      .ahead (statement depth (some id) thenBody) fun _ => .pure _
  | .branch condition thenBody (some elseBody) =>
    (header id condition).bind fun _ =>
      (statement depth (some id) thenBody).bind fun _ =>
        .ahead (statement depth (some id) elseBody) fun _ => .pure _
  | .whileLoop condition body =>
    (header id condition).bind fun _ =>
      .ahead (statement depth (some id) body) fun _ => .pure _
  | .doLoop body condition =>
    (statement depth (some id) body).bind fun _ =>
      .ahead (header id condition) fun _ => .pure _
  | .forLoop declarators initializers condition incrementors body => by
    simp only [StatementForm.innerParts, List.append_assoc]
    exact (Places.mapM (.declarator id) declarators).bind fun _ =>
      (headers id initializers).bind fun _ =>
        (optionalHeader id condition).bind fun _ =>
          (headers id incrementors).bind fun _ =>
            .ahead (statement depth (some id) body) fun _ => .pure _
  | .forEachLoop element collection body =>
    (Places.binding element).bind fun _ =>
      (header id collection).bind fun _ =>
        .ahead (statement depth (some id) body) fun _ => .pure _
  | .resource declarators held body => by
    simp only [StatementForm.innerParts, List.append_assoc]
    exact (Places.mapM (.declarator id) declarators).bind fun _ =>
      (optionalHeader id held).bind fun _ =>
        .ahead (statement depth (some id) body) fun _ => .pure _
  | .switch subject parts =>
    (header id subject).bind fun _ =>
      .ahead (sections depth (some id) parts) fun _ => .pure _
  | .localDeclaration declarators => .ahead (.mapM (.declarator id) declarators) fun _ => .pure _
  | .evaluation value => .ahead (header id value) fun _ => .pure _
  | .returning value | .throwing value => .ahead (optionalHeader id value) fun _ => .pure _
  | .labeled _ body => .ahead (statement depth (some id) body) fun _ => .pure _
  | .breaking | .continuing | .empty => .pure _

theorem statements (depth : Nat) (parent : StatementRef) :
    ∀ values : List Statement, Places (Statement.partsOfAll values)
      (statements depth parent values)
  | [] => .pure []
  | first :: rest =>
    (statement depth parent first).bind fun _ =>
      .ahead (statements depth parent rest) fun _ => .pure _

theorem switchSection (depth : Nat) (parent : StatementRef) :
    ∀ value : Section, Places [value.part] (switchSection depth parent value)
  | .mk _ labeling members =>
    .around .switchSection fun _ => .behind (.reserveStatement parent) fun id =>
      .bind (labels id labeling) fun labels =>
        .ahead (statements depth (some id) members) fun members =>
          .last fun span => .behind (.fillStatement id (.switchSection labels members) span)
            fun _ => .pure id

theorem sections (depth : Nat) (parent : StatementRef) :
    ∀ values : List Section, Places (Section.partsOfAll values) (sections depth parent values)
  | [] => .pure []
  | first :: rest =>
    (switchSection depth parent first).bind fun _ =>
      .ahead (sections depth parent rest) fun _ => .pure _

end

theorem procedure (value : Procedure) : Places value.parts (Layout.procedure value) := by
  have parameters : Places (value.parameters.map Ident.part)
      (value.parameters.mapM Layout.binding) := by
    rw [List.map_eq_flatMap]
    exact .mapM .binding value.parameters
  exact parameters.bind fun _ => .ahead (.statement 0 none value.body) fun _ =>
    .always fun _ => ⟨_, _, rfl, rfl⟩

end Places

end Layout

/-- Placing the parts of a procedure issues an offset that has none behind it in the range. -/
def Procedure.RunsOut (procedure : Procedure) : Prop := Part.RunsOut procedure.parts 0

namespace StatementTree

variable {procedure : Procedure} {tree : StatementTree}

private theorem runsOut_of_overflow {error : OffsetOverflow}
    (failed : ofProcedure procedure = .error (.overflow error)) : procedure.RunsOut := by
  unfold ofProcedure at failed
  split at failed
  next => cases failed
  next laid =>
    cases failed
    exact (Layout.Places.procedure procedure).overflowed laid

private theorem not_runsOut_of_ofProcedure (laidOut : ofProcedure procedure = .ok tree) :
    ¬ procedure.RunsOut := by
  unfold ofProcedure at laidOut
  split at laidOut
  next laid => exact ((Layout.Places.procedure procedure).passed laid).2
  next => cases laidOut

private theorem exists_isTooDeep_of_refused {error : TreeError}
    (failed : ofProcedure procedure = .error (.refused error)) :
    ∃ place ∈ procedure.places, place.isTooDeep = true := by
  have comes : Layout.ComesTo procedure.name procedure.places _ := .procedure procedure
  unfold ofProcedure at failed
  split at failed
  next => cases failed
  next laid =>
    cases failed
    obtain ⟨place, found, _⟩ := Option.map_eq_some_iff.mp (comes.refused rfl laid)
    exact ⟨place, List.mem_of_find?_eq_some found, List.find?_some found⟩

/-- A procedure is laid out or refused unless placing its parts runs out of offsets, which it does
not while the stated spans leave room for two offsets for each part without a span. The layout of a
procedure with no place that is too deep overflows just if offsets run out. -/
theorem ofProcedure_overflows (procedure : Procedure) :
    (¬ procedure.RunsOut → (∃ tree, ofProcedure procedure = .ok tree) ∨
      ∃ error, ofProcedure procedure = .error (.refused error)) ∧
    (∀ bound, Part.StatesUpTo bound (Part.allPlacesOf procedure.parts) →
      bound + 2 * (Part.allPlacesOf procedure.parts).count none < Limit.offset →
        ¬ procedure.RunsOut) ∧
    ((∀ place ∈ procedure.places, place.isTooDeep = false) →
      ((∃ error, ofProcedure procedure = .error (.overflow error)) ↔ procedure.RunsOut)) := by
  refine ⟨fun room => ?_, fun bound within room => Part.not_runsOut_of_statesUpTo within room,
    fun shallow => ⟨fun ⟨_, failed⟩ => runsOut_of_overflow failed, fun runsOut => ?_⟩⟩
  · cases laidOut : ofProcedure procedure with
    | ok tree => exact .inl ⟨tree, rfl⟩
    | error failure =>
        cases failure with
        | refused error => exact .inr ⟨error, rfl⟩
        | overflow error => exact absurd (runsOut_of_overflow laidOut) room
  · cases laidOut : ofProcedure procedure with
    | ok tree => exact absurd runsOut (not_runsOut_of_ofProcedure laidOut)
    | error failure =>
        cases failure with
        | overflow error => exact ⟨error, rfl⟩
        | refused error =>
            obtain ⟨place, member, deep⟩ := exists_isTooDeep_of_refused laidOut
            cases (shallow place member).symm.trans deep

end StatementTree

/-- A block around an empty statement whose stated span ends at an offset. -/
def Procedure.endingAt (stop : Nat) : Procedure :=
  ⟨"p", [], .mk none (.block [.mk (some ⟨0, stop⟩) .empty])⟩

/-- The block needs one more offset than it has where the statement ends at the last one. -/
theorem StatementTree.ofProcedure_overflows_endingAt :
    (¬ (Procedure.endingAt 4294967293).RunsOut ∧
      ((∃ tree, ofProcedure (.endingAt 4294967293) = .ok tree) ∨
        ∃ error, ofProcedure (.endingAt 4294967293) = .error (.refused error))) ∧
    (Procedure.endingAt 4294967295).RunsOut ∧
      ∃ error, ofProcedure (.endingAt 4294967295) = .error (.overflow error) := by
  have within : Part.StatesUpTo 4294967293
      (Part.allPlacesOf (Procedure.endingAt 4294967293).parts) := by
    intro span member
    obtain rfl : span = ⟨0, 4294967293⟩ := by
      simpa [Procedure.parts, Procedure.endingAt, Statement.part, StatementForm.innerParts,
        Statement.partsOfAll, Part.allPlaces, Part.allPlacesOf] using member
    exact ⟨Nat.zero_le _, Nat.le_refl _⟩
  have runsOut : (Procedure.endingAt 4294967295).RunsOut :=
    ⟨4294967295, .tail _ (.tail _ (.head _)), by decide⟩
  obtain ⟨answers, fits, _⟩ := ofProcedure_overflows (.endingAt 4294967293)
  obtain ⟨_, _, overflows⟩ := ofProcedure_overflows (.endingAt 4294967295)
  have room := fits 4294967293 within (by decide)
  exact ⟨⟨room, answers room⟩, runsOut, (overflows (by decide)).mpr runsOut⟩

/-- The block is read from a text, and it has a place for each part within the range of offsets; yet
it is not laid out, for want of an offset that no part needs. -/
theorem StatementTree.ofProcedure_endingAt :
    Procedure.parseAll (Procedure.endingAt 4294967295).toJson.compact =
        .ok [.endingAt 4294967295] ∧
      (Procedure.endingAt 4294967295).placed.InRange ∧
      ofProcedure (.endingAt 4294967295) = .error (.overflow .outOfRange) :=
  ⟨Procedure.parseAll_single (by decide) (by decide), by decide, rfl⟩

end LexicalScope
