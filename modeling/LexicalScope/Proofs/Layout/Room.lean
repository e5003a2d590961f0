import LexicalScope.Procedure.Build
import LexicalScope.Proofs.Step
import LexicalScope.StatementTree.Layout

/-!
# Room for offsets

A part without a span takes one offset where it opens and one where it closes. Laying it out
succeeds where its nesting is allowed and as many offsets are left as it takes with its own parts.
-/

namespace LexicalScope.Layout

/-- From an offset on, a step succeeds where there is room for some offsets, and takes no more. -/
def Takes {Result : Type} (offset : Nat) (step : Layout Result) (room : Nat) : Prop :=
  ∀ before : LayoutState, offset ≤ before.next → before.next + room < Limit.offset →
    ∃ result after, step before = .ok result after ∧ before.next ≤ after.next ∧
      after.next ≤ before.next + room

namespace Takes

variable {First Second : Type} {step : Layout First} {next : First → Layout Second}
  {offset later start room more depth : Nat}

theorem mono (takes : Takes offset step room) (behind : offset ≤ later) (le : room ≤ more) :
    Takes later step more := fun before lower enough =>
  have ⟨result, after, succeeded, grown, few⟩ := takes before (by omega) (by omega)
  ⟨result, after, succeeded, grown, by omega⟩

/-- A step that leaves the offsets alone. -/
theorem free (succeeds : ∀ before, ∃ result after, step before = .ok result after ∧
    after.next = before.next) : Takes offset step 0 := fun before _ _ =>
  have ⟨result, after, succeeded, same⟩ := succeeds before
  ⟨result, after, succeeded, Nat.le_of_eq same.symm, Nat.le_of_eq same⟩

theorem pure (result : First) : Takes offset (Pure.pure result) 0 :=
  .free fun before => ⟨result, before, rfl, rfl⟩

/-- Two steps take what each of them takes. -/
theorem bind (first : Takes offset step room) (second : ∀ result, Takes offset (next result) more) :
    Takes offset (step >>= next) (room + more) := by
  intro before lower enough
  obtain ⟨value, between, stepped, grown, few⟩ := first before lower (by omega)
  obtain ⟨result, after, continued, grownToo, fewToo⟩ := second value between (by omega) (by omega)
  exact ⟨result, after, Step.bind_eq_ok.mpr ⟨value, between, stepped, continued⟩, by omega,
    by omega⟩

/-- Behind a step that leaves the offsets alone. -/
theorem behind (first : Takes offset step 0) (second : ∀ result, Takes offset (next result) room) :
    Takes offset (step >>= next) room :=
  (first.bind second).mono (Nat.le_refl _) (Nat.le_of_eq (Nat.zero_add room))

/-- Ahead of a step that leaves the offsets alone. -/
theorem ahead (first : Takes offset step room) (second : ∀ result, Takes offset (next result) 0) :
    Takes offset (step >>= next) room :=
  (first.bind second).mono (Nat.le_refl _) (Nat.le_refl _)

theorem mapM_singleton {Item : Type} {step : Item → Layout First} {item : Item}
    (takes : Takes offset (step item) room) : Takes offset ([item].mapM step) room := by
  rw [List.mapM_cons, List.mapM_nil]
  exact .ahead takes fun _ => .behind (.pure []) fun _ => .pure _

/-! ## Spans -/

theorem opened {next : Nat → Layout Second}
    (inside : ∀ start, Takes (start + 1) (next start) room) :
    Takes offset (openSpan none >>= next) (room + 1) := by
  intro before lower enough
  obtain ⟨result, after, continued, grown, few⟩ :=
    inside before.next { before with next := before.next + 1 } (Nat.le_refl _) (by simp; omega)
  have opens : openSpan none before = .ok before.next { before with next := before.next + 1 } :=
    if_pos (by omega)
  refine ⟨result, after, Step.bind_eq_ok.mpr ⟨_, _, opens, continued⟩, ?_, ?_⟩ <;>
    simp only at grown few <;> omega

theorem closed (behind : start < offset) : Takes offset (closeSpan start none) 1 := by
  intro before lower enough
  have closes : closeSpan start none before =
      .ok ⟨start, before.next⟩ { before with next := before.next + 1 } := by
    unfold closeSpan
    rw [Nat.max_eq_left (by omega)]
    exact if_pos (by omega)
  exact ⟨_, _, closes, Nat.le_succ _, Nat.le_refl _⟩

/-! ## Nodes -/

theorem reserveStatement (parent : StatementRef) : Takes offset (reserveStatement parent) 0 :=
  .free fun _ => ⟨_, _, rfl, rfl⟩

theorem fillStatement (id : StatementId) (content : StatementContent) (span : Span) :
    Takes offset (fillStatement id content span) 0 :=
  .free fun _ => ⟨_, _, rfl, rfl⟩

private theorem reserveExpression (owner : StatementId) (parent : ExpressionRef) :
    Takes offset (reserveExpression owner parent) 0 :=
  .free fun _ => ⟨_, _, rfl, rfl⟩

private theorem fillExpression (id : ExpressionId) (content : ExpressionContent) (span : Span) :
    Takes offset (fillExpression id content span) 0 :=
  .free fun _ => ⟨_, _, rfl, rfl⟩

theorem expression {owner : StatementId} {parent : ExpressionRef} {form : ExpressionForm}
    (bound : depth < Limit.expressionNesting)
    (parts : ∀ id, Takes 0 (expressionForm owner (depth + 1) id form) room) :
    Takes offset (expression owner depth parent (.plain form)) (room + 2) := by
  unfold Expression.plain Layout.expression
  exact .behind (.free fun before => ⟨(), before, if_pos bound, rfl⟩) fun _ =>
    .opened fun start => .behind (.reserveExpression owner parent) fun id =>
      .bind ((parts id).mono (Nat.zero_le _) (Nat.le_refl _)) fun content =>
        .ahead (.closed (Nat.lt_succ_self start)) fun span =>
          .behind (.fillExpression id content span) fun _ => .pure id

/-- A statement takes two offsets more than its parts. -/
theorem statement {parent : StatementRef} {form : StatementForm}
    (bound : depth < Limit.statementNesting)
    (parts : ∀ id, Takes 0 (statementForm (depth + 1) id form) room) :
    Takes offset (statement depth parent (.plain form)) (room + 2) := by
  unfold Statement.plain Layout.statement
  exact .behind (.free fun before => ⟨(), before, if_pos bound, rfl⟩) fun _ =>
    .opened fun start => .behind (.reserveStatement parent) fun id =>
      .bind ((parts id).mono (Nat.zero_le _) (Nat.le_refl _)) fun content =>
        .ahead (.closed (Nat.lt_succ_self start)) fun span =>
          .behind (.fillStatement id content span) fun _ => .pure id

theorem statements_singleton {parent : StatementRef} {member : Statement}
    (takes : Takes offset (Layout.statement depth parent member) room) :
    Takes offset (statements depth parent [member]) room :=
  .ahead takes fun _ => .behind (.pure []) fun _ => .pure _

theorem otherwise {owner : StatementId} : Takes offset (label owner .otherwise) 2 :=
  .opened fun start => .behind (.pure _) fun _ =>
    .ahead (.closed (Nat.lt_succ_self start)) fun _ => .pure _

theorem switchSection {parent : StatementRef} {labels : List Label} {members : List Statement}
    (marked : ∀ id, Takes 0 (labels.mapM (label id)) room)
    (body : ∀ id, Takes 0 (statements depth (some id) members) more) :
    Takes offset (switchSection depth parent (.plain labels members)) (room + more + 2) := by
  unfold Section.plain Layout.switchSection
  rw [Nat.add_assoc]
  exact .opened fun start => .behind (.reserveStatement parent) fun id =>
    .bind ((marked id).mono (Nat.zero_le _) (Nat.le_refl _)) fun labels =>
      .bind ((body id).mono (Nat.zero_le _) (Nat.le_refl _)) fun members =>
        .ahead (.closed (Nat.lt_succ_self start)) fun span =>
          .behind (.fillStatement id (.switchSection labels members) span) fun _ => .pure id

theorem sections_singleton {parent : StatementRef} {member : Section}
    (takes : Takes offset (Layout.switchSection depth parent member) room) :
    Takes offset (sections depth parent [member]) room :=
  .ahead takes fun _ => .behind (.pure []) fun _ => .pure _

end Takes

end LexicalScope.Layout
