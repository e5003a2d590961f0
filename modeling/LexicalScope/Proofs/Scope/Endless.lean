import LexicalScope.Proofs.Scope.Balance
import LexicalScope.Proofs.StatementTree.Links

/-!
# Checks without an end

The check of references looks at every expression below a header as often as it is met, and asks
only which statement owns it. It comes to an end in every tree in which nothing below a header is a
part of itself. A tree whose references agree is checked, and then bound, for ever if something is.
-/

namespace LexicalScope

namespace StatementTree

variable {tree : StatementTree} {statement : StatementId} {part : ExpressionId}

/-- Nothing below a header is a part of itself. -/
def IsForward (tree : StatementTree) : Prop :=
  ∀ statement part, tree.IsBelowHeader statement part → ¬ tree.LeadsBack part

/-- Below every expression of a header the pending expressions come to an end. -/
def IsSettled (tree : StatementTree) : Prop :=
  ∀ statement, ∀ whole ∈ tree.headerExpressions (some statement), tree.Settles statement whole

private theorem IsForward.isSettled (forward : tree.IsForward) : tree.IsSettled :=
  fun statement whole inHeader => settles_of_not_leadsBack fun part isPart =>
    forward statement part ⟨whole, inHeader, isPart⟩

private theorem IsSettled.checkLinks_ne_endless (settled : tree.IsSettled) :
    tree.checkLinks ≠ .error .endless := by
  intro endless
  rcases of_checkLinks_eq_error endless with ⟨_, same, _⟩ | ⟨_, statement, whole, inHeader, pending⟩
  · cases same
  · exact pending (settled statement whole inHeader)

/-- In a tree that passes the check nothing below a header is a part of itself. -/
theorem isForward_of_checkLinks_eq_ok (passed : tree.checkLinks = .ok ()) : tree.IsForward := by
  rintro statement part ⟨whole, inHeader, isPart⟩
  obtain ⟨_, _, passed⟩ := exists_checkExpression_of_part
    (checkExpression_of_checkLinks_eq_ok passed inHeader) isPart
  exact not_leadsBack_of_ok passed

/-- Where the references agree, the check passes or is endless. -/
theorem Agrees.checkLinks_eq_ok (agrees : tree.Agrees) (ends : tree.checkLinks ≠ .error .endless) :
    tree.checkLinks = .ok () := by
  cases checked : tree.checkLinks with
  | ok => rfl
  | error failure =>
      rcases of_checkLinks_eq_error checked with ⟨error, _, exhibits⟩ | ⟨rfl, _⟩
      · exact absurd exhibits (agrees.not_exhibits error)
      · exact absurd checked ends

/-- Below an expression the check says what the pending expressions come to. They come to an end
where nothing below a header is a part of itself; then the check of the tree answers, and so does
binding it. Of the trees whose references agree, the check answers for no others. -/
theorem checkLinks_answers (tree : StatementTree) :
    (∀ statement whole (outcome : Except TreeError Unit),
      (∃ turns, tree.drain statement turns [whole] = some outcome) ↔
        tree.checkExpression statement tree.expressionSteps whole = outcome.mapError .faulty) ∧
      (tree.IsForward → tree.IsSettled) ∧
      (tree.IsSettled →
        ∃ outcome : Except TreeError Unit, tree.checkLinks = outcome.mapError .faulty) ∧
      (tree.Agrees →
        ((∃ outcome : Except TreeError Unit, tree.checkLinks = outcome.mapError .faulty) ↔
          tree.IsForward)) ∧
      ∀ binder : Binder, (binder.bind tree).1 = .error .endless ↔
        tree.checkLinks = .error .endless := by
  have settles : tree.IsSettled →
      ∃ outcome : Except TreeError Unit, tree.checkLinks = outcome.mapError .faulty :=
    fun settled => exists_answer_iff.mpr settled.checkLinks_ne_endless
  refine ⟨fun statement whole outcome => exists_drain_iff, IsForward.isSettled, settles,
    fun agrees => ⟨fun answers => ?_, fun forward => ?_⟩,
    fun binder => (binder.isAtRest_bind tree).2.2⟩
  · exact isForward_of_checkLinks_eq_ok (agrees.checkLinks_eq_ok (exists_answer_iff.mp answers))
  · exact settles forward.isSettled

/-- A tree put together by hand in which two sums each use one expression twice. -/
def sharing : StatementTree where
  name := "p"
  statements := #[⟨.evaluation (some ⟨0⟩), ⟨0, 9⟩, none⟩]
  expressions := #[⟨.binary "+" (some ⟨1⟩) (some ⟨1⟩), ⟨0, 8⟩, some ⟨0⟩, none⟩,
    ⟨.binary "*" (some ⟨2⟩) (some ⟨2⟩), ⟨0, 4⟩, some ⟨0⟩, some ⟨0⟩⟩,
    ⟨.name "a", ⟨0, 1⟩, some ⟨0⟩, some ⟨1⟩⟩]
  parameters := []
  root := some ⟨0⟩

theorem checkLinks_answers_sharing :
    sharing.IsForward ∧ sharing.IsSettled ∧ sharing.Agrees ∧ sharing.checkLinks = .ok () ∧
      ∀ binder : Binder, (binder.bind sharing).1 ≠ .error .endless := by
  have acyclic : sharing.IsAcyclic := isAcyclic_of_ascending (by decide)
  have forward : sharing.IsForward := fun _ part _ => acyclic part
  have passed : sharing.checkLinks = .ok () := by decide +kernel
  have agrees := agrees_of_checkLinks_eq_ok passed
  obtain ⟨_, settles, answers, exact, binds⟩ := checkLinks_answers sharing
  obtain ⟨outcome, answered⟩ := answers (settles forward)
  have accepted : outcome = .ok () := by
    rw [passed] at answered
    cases outcome with
    | ok => rfl
    | error => cases answered
  rw [accepted] at answered
  refine ⟨(exact agrees).mp ⟨_, answered⟩, settles forward, agrees, answered, ?_⟩
  intro binder endless
  cases passed.symm.trans ((binds binder).mp endless)

/-- A tree put together by hand whose only expression is a pair of parentheses around itself. -/
def selfEnclosing : StatementTree where
  name := "p"
  statements := #[⟨.evaluation (some ⟨0⟩), ⟨0, 1⟩, none⟩]
  expressions := #[⟨.paren (some ⟨0⟩), ⟨0, 1⟩, some ⟨0⟩, none⟩]
  parameters := []
  root := some ⟨0⟩

/-- The pending expressions of this tree never come to an end, and neither does its check, nor any
attempt to bind it. -/
theorem endless_selfEnclosing :
    (⟨0⟩ : ExpressionId) ∈ selfEnclosing.headerExpressions (some ⟨0⟩) ∧
      ¬ selfEnclosing.Settles ⟨0⟩ ⟨0⟩ ∧
      (¬ ∃ outcome : Except TreeError Unit,
        selfEnclosing.checkLinks = outcome.mapError .faulty) ∧
      ∀ binder : Binder, (binder.bind selfEnclosing).1 = .error .endless := by
  have failed : selfEnclosing.checkLinks = .error .endless := by decide +kernel
  refine ⟨by decide, fun settles => settles_iff.mp settles (by decide +kernel),
    fun answers => exists_answer_iff.mp answers failed, fun binder => ?_⟩
  exact (binder.isAtRest_bind selfEnclosing).2.2.mpr failed

end StatementTree

end LexicalScope
