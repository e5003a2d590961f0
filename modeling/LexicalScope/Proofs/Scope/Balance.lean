import LexicalScope.Proofs.Scope.Numbering

/-!
# One tree after another

A binder that binds one tree after another answers each of them as a new binder would. However a
bind ends, in whatever depth of regions and unbraced bodies it failed, nothing is open behind it: a
region is left and an unbraced body is counted back on failure too, so that a step leaves what is
around it as it was.
-/

namespace LexicalScope

namespace Binder

/-- No region is open, and no unbraced body is counted. -/
structure IsAtRest (binder : Binder) : Prop where
  enclosing : binder.enclosing = []
  current : binder.current = none
  bleedDepth : binder.bleedDepth = 0

/-- What a binder answers to trees one after the other, each answer with the binder behind it. -/
def answers (binder : Binder) : List StatementTree → List (Except ScopeError ScopeTree × Binder)
  | [] => []
  | tree :: rest => binder.bind tree :: (binder.bind tree).2.answers rest

variable {binder before after : Binder} {tree : StatementTree} {settings : ScopeSettings}
  {statements expressions : Nat} {failure : ScopeError}

private theorem isAtRest_reset (binder : Binder) : binder.reset.IsAtRest := ⟨rfl, rfl, rfl⟩

private theorem IsAtRest.sized (atRest : binder.IsAtRest) :
    (binder.sized statements expressions).IsAtRest :=
  ⟨atRest.enclosing, atRest.current, atRest.bleedDepth⟩

private theorem IsAtRest.emptied (atRest : binder.IsAtRest) : binder.emptied.IsAtRest :=
  ⟨atRest.enclosing, atRest.current, atRest.bleedDepth⟩

private theorem IsAtRest.grows (atRest : before.IsAtRest) (grows : before.Grows after) :
    after.IsAtRest where
  enclosing := grows.enclosing.trans atRest.enclosing
  current := grows.current.trans atRest.current
  bleedDepth := grows.bleedDepth.trans atRest.bleedDepth

/-- Binding a procedure leaves what is around it as it was, also where it fails. -/
theorem grows_bindProcedure (tree : StatementTree) :
    Bind.Tracks (fun before after => before.Grows after ∧
      (before.IsNumbered → after.IsNumbered)) (Bind.bindProcedure tree) :=
  (tracked_isNumbered tree).tracks_bindProcedure

/-- Behind a bind nothing is open, the settings are the same, and the bind was endless just if the
check of references was. -/
theorem isAtRest_bind (binder : Binder) (tree : StatementTree) :
    (binder.bind tree).2.IsAtRest ∧ (binder.bind tree).2.settings = binder.settings ∧
      ((binder.bind tree).1 = .error .endless ↔ tree.checkLinks = .error .endless) := by
  unfold bind
  cases tree.checkLinks with
  | error failure => cases failure <;> exact ⟨isAtRest_reset binder, rfl, by simp⟩
  | ok =>
      have kept := grows_bindProcedure tree
        (binder.reset.sized tree.statements.size tree.expressions.size)
      dsimp only
      cases ran : Bind.bindProcedure tree
          (binder.reset.sized tree.statements.size tree.expressions.size) <;>
        rw [ran] at kept
      case ok _ after =>
        exact ⟨((isAtRest_reset binder).sized.grows kept.1).emptied, kept.1.settings, by simp⟩
      case error failure after =>
        obtain ⟨⟨grows, _⟩, other⟩ := kept
        exact ⟨(isAtRest_reset binder).sized.grows grows, grows.settings, by simpa using other⟩

/-- What a binder answers depends on its settings only. -/
theorem bind_eq_ofStatementTree (binder : Binder) (tree : StatementTree) :
    (binder.bind tree).1 = ScopeTree.ofStatementTree binder.settings tree := by
  unfold ScopeTree.ofStatementTree bind
  cases tree.checkLinks with
  | error failure => cases failure <;> rfl
  | ok => rfl

/-- A binder answers trees one after the other as new binders with its settings do, whatever it met
before and however its binds end, and nothing is open behind any of them. -/
theorem answers_balanced (binder : Binder) (trees : List StatementTree) :
    (binder.answers trees).map (·.1) = trees.map (ScopeTree.ofStatementTree binder.settings) ∧
      ∀ answer ∈ binder.answers trees,
        answer.2.IsAtRest ∧ answer.2.settings = binder.settings := by
  induction trees generalizing binder with
  | nil => exact ⟨rfl, fun _ absurd => (nomatch absurd)⟩
  | cons tree rest induction =>
      obtain ⟨atRest, settings, _⟩ := binder.isAtRest_bind tree
      obtain ⟨same, balanced⟩ := induction (binder.bind tree).2
      rw [settings] at same balanced
      refine ⟨?_, List.forall_mem_cons.mpr ⟨⟨atRest, settings⟩, balanced⟩⟩
      rw [answers, List.map_cons, same, bind_eq_ofStatementTree, List.map_cons]

end Binder

end LexicalScope
