import LexicalScope.Proofs.StatementTree.Nesting
import LexicalScope.Proofs.Step
import LexicalScope.StatementTree.Links
import Mathlib.Data.List.Nodup
import Mathlib.Data.List.Perm.Subperm

/-!
# Pending expressions

What is below a header can be checked with a list of the expressions that are still to be looked at:
the first one is taken away, and its parts come in its place, the last part first. Nothing is noted
about expressions that were met before, so the list need not become empty. It does, or a fault is
met, exactly when the walk down from the header comes to an end, and both then say the same.
-/

namespace LexicalScope

namespace StatementTree

/-- Looks at pending expressions of a statement for a number of turns, one each turn. There is no
outcome as long as expressions are pending and no fault is met. -/
def drain (tree : StatementTree) (statement : StatementId) :
    Nat → List ExpressionId → Option (Except TreeError Unit)
  | _, [] => some (.ok ())
  | 0, _ :: _ => none
  | turns + 1, expression :: pending =>
    match tree.expression? (some expression) with
    | none => some (.error (.danglingExpression (some statement) (some expression)))
    | some node =>
      if node.statement ≠ some statement then
        some (.error (.ownerMismatch (some expression) (some statement) node.statement))
      else
        tree.drain statement turns (node.content.children.reverse ++ pending)

/-- The pending expressions come to an end below an expression. -/
def Settles (tree : StatementTree) (statement : StatementId) (whole : ExpressionId) : Prop :=
  ∃ turns outcome, tree.drain statement turns [whole] = some outcome

/-- An expression is a part of itself. -/
def LeadsBack (tree : StatementTree) (expression : ExpressionId) : Prop :=
  Relation.TransGen (fun upper lower => lower ∈ tree.expressionChildren (some upper))
    expression expression

/-- A number of turns lead from some pending expressions to others. -/
def Leads (tree : StatementTree) (statement : StatementId) (turns : Nat)
    (pending later : List ExpressionId) : Prop :=
  ∀ more, tree.drain statement (turns + more) pending = tree.drain statement more later

/-- From an expression the turns come to a part of it, with what was pending still pending. -/
structure Descends (tree : StatementTree) (statement : StatementId)
    (upper lower : ExpressionId) : Prop where
  part : Relation.TransGen (fun upper lower => lower ∈ tree.expressionChildren (some upper))
    upper lower
  leads : ∀ pending, ∃ turns added, 0 < turns ∧
    tree.Leads statement turns (upper :: pending) (lower :: (added ++ pending))

/-- An error is the fault of an expression below a header that does not exist or belongs to another
statement. -/
inductive IsFaultOf (tree : StatementTree) (statement : StatementId) (expression : ExpressionId) :
    TreeError → Prop
  | missing : tree.expression? (some expression) = none →
      IsFaultOf tree statement expression (.danglingExpression (some statement) (some expression))
  | foreign {node : ExpressionNode} : tree.expression? (some expression) = some node →
      node.statement ≠ some statement → IsFaultOf tree statement expression
        (.ownerMismatch (some expression) (some statement) node.statement)

variable {tree : StatementTree} {statement : StatementId} {whole part upper lower : ExpressionId}
  {pending later last expressions : List ExpressionId} {outcome : Except TreeError Unit}
  {error : TreeError} {turns more steps : Nat} {node : ExpressionNode}

/-! ## Turns -/

@[simp] theorem drain_nil : tree.drain statement turns [] = some (.ok ()) := by
  cases turns <;> rfl

/-- An outcome stays when more turns are allowed. -/
theorem drain_mono (drained : tree.drain statement turns pending = some outcome)
    (le : turns ≤ more) : tree.drain statement more pending = some outcome := by
  induction turns generalizing pending more with
  | zero =>
      cases pending with
      | nil => exact drain_nil.trans drained
      | cons => cases drained
  | succ turns induction =>
      obtain ⟨more, rfl⟩ := Nat.exists_eq_add_of_le' le
      cases pending with
      | nil => exact drain_nil.trans (drain_nil.symm.trans drained)
      | cons whole pending =>
          rw [← Nat.add_assoc, drain] at *
          split
          next missing => simpa only [missing] using drained
          next node found =>
            simp only [found] at drained
            split_ifs at drained ⊢ with other
            · exact drained
            · exact induction drained (Nat.le_add_left turns more)

namespace Leads

private theorem refl : tree.Leads statement 0 pending pending := fun more => by rw [Nat.zero_add]

theorem trans (first : tree.Leads statement turns pending later)
    (second : tree.Leads statement steps later last) :
    tree.Leads statement (turns + steps) pending last := fun more => by
  rw [Nat.add_assoc, first, second]

theorem turn (found : tree.expression? (some whole) = some node)
    (owned : node.statement = some statement) :
    tree.Leads statement 1 (whole :: pending) (node.content.children.reverse ++ pending) :=
  fun more => by
    rw [Nat.add_comm, drain]
    simp only [found, owned, ne_eq, not_true_eq_false, if_false]

private theorem drain_eq_none (leads : tree.Leads statement turns pending later)
    (endless : ∀ more, tree.drain statement more later = none) (more : Nat) :
    tree.drain statement more pending = none := by
  by_contra some
  obtain ⟨outcome, drained⟩ := Option.ne_none_iff_exists'.mp some
  have same := drain_mono drained (Nat.le_add_left more turns)
  rw [leads more, endless more] at same
  cases same

end Leads

namespace Descends

private theorem trans {middle : ExpressionId} (first : tree.Descends statement upper middle)
    (second : tree.Descends statement middle lower) : tree.Descends statement upper lower where
  part := first.part.trans second.part
  leads pending := by
    obtain ⟨turns, added, positive, leads⟩ := first.leads pending
    obtain ⟨steps, addedToo, _, leadsOn⟩ := second.leads (added ++ pending)
    refine ⟨turns + steps, addedToo ++ added, by omega, ?_⟩
    rw [List.append_assoc]
    exact leads.trans leadsOn

/-- An expression that the turns come back to stays pending for ever. -/
theorem drain_eq_none (back : tree.Descends statement whole whole) (turns : Nat)
    (pending : List ExpressionId) : tree.drain statement turns (whole :: pending) = none := by
  induction turns using Nat.strongRecOn generalizing pending with
  | ind turns induction =>
      -- An outcome after some turns would be one after the fewer turns behind a round.
      obtain ⟨round, added, positive, leads⟩ := back.leads pending
      by_contra some
      obtain ⟨outcome, drained⟩ := Option.ne_none_iff_exists'.mp some
      have again := drain_mono drained (Nat.le_max_right round turns)
      rw [← Nat.add_sub_of_le (Nat.le_max_left round turns), leads] at again
      by_cases few : turns ≤ round
      · rw [Nat.max_eq_left few, Nat.sub_self] at again
        cases again
      · rw [induction _ (by omega)] at again
        cases again

end Descends

/-! ## Walks and turns -/

theorem exists_answer_iff {answer : Except LinkFailure Unit} :
    (∃ outcome : Except TreeError Unit, answer = outcome.mapError .faulty) ↔
      answer ≠ .error .endless := by
  constructor
  · rintro ⟨outcome, rfl⟩ endless
    cases outcome <;> cases endless
  · intro ends
    cases answer with
    | ok => exact ⟨.ok (), rfl⟩
    | error failure =>
        cases failure with
        | faulty error => exact ⟨.error error, rfl⟩
        | endless => exact absurd rfl ends

/-- What passes one by one passes as a list of pending expressions. -/
theorem exists_leads_of_forall
    (passed : ∀ expression ∈ expressions, ∀ pending, ∃ turns,
      tree.Leads statement turns (expression :: pending) pending) (pending : List ExpressionId) :
    ∃ turns, tree.Leads statement turns (expressions ++ pending) pending := by
  induction expressions with
  | nil => exact ⟨0, .refl⟩
  | cons first rest induction =>
      obtain ⟨head, others⟩ := List.forall_mem_cons.mp passed
      obtain ⟨turns, leads⟩ := head (rest ++ pending)
      obtain ⟨steps, leadsOn⟩ := induction others
      exact ⟨turns + steps, leads.trans leadsOn⟩

theorem exists_of_checkExpression_eq_ok
    (passed : tree.checkExpression statement (steps + 1) whole = .ok ()) :
    ∃ node, tree.expression? (some whole) = some node ∧ node.statement = some statement ∧
      ∀ part ∈ node.content.children, tree.checkExpression statement steps part = .ok () := by
  rw [checkExpression] at passed
  split at passed
  next => cases passed
  next node found =>
    split at passed
    next => cases passed
    next owned =>
      refine ⟨node, found, not_not.mp owned, fun part listed => ?_⟩
      exact Step.forM_eq_ok_iff.mp passed part (List.mem_reverse.mpr listed)

theorem exists_leads_of_ok (passed : tree.checkExpression statement steps whole = .ok ())
    (pending : List ExpressionId) :
    ∃ turns, tree.Leads statement turns (whole :: pending) pending := by
  induction steps generalizing whole pending with
  | zero => cases passed
  | succ steps induction =>
      obtain ⟨node, found, owned, parts⟩ := exists_of_checkExpression_eq_ok passed
      obtain ⟨turns, leads⟩ := exists_leads_of_forall
        (fun part listed => induction (parts part (List.mem_reverse.mp listed))) pending
      exact ⟨1 + turns, (Leads.turn found owned).trans leads⟩

private theorem IsFaultOf.drain (fault : tree.IsFaultOf statement whole error)
    (pending : List ExpressionId) :
    tree.drain statement 1 (whole :: pending) = some (.error error) := by
  rw [StatementTree.drain]
  cases fault with
  | missing missing => simp only [missing]
  | foreign found other => simp only [found, if_pos other]

theorem exists_of_checkExpression_eq_error {failure : LinkFailure}
    (failed : tree.checkExpression statement (steps + 1) whole = .error failure) :
    (∃ error, failure = .faulty error ∧ tree.IsFaultOf statement whole error) ∨
      ∃ part, tree.expression? (some whole) ≠ none ∧
        part ∈ tree.expressionChildren (some whole) ∧
        tree.checkExpression statement steps part = .error failure ∧
        ∀ pending, ∃ turns added, 0 < turns ∧
          tree.Leads statement turns (whole :: pending) (part :: (added ++ pending)) := by
  rw [checkExpression] at failed
  split at failed
  next missing =>
    cases failed
    exact .inl ⟨_, rfl, .missing missing⟩
  next node found =>
    split at failed
    next other =>
      cases failed
      exact .inl ⟨_, rfl, .foreign found other⟩
    next owned =>
      obtain ⟨before, part, after, parts, ahead, failed⟩ :=
        Step.exists_append_of_forM_eq_error failed
      have listed : part ∈ node.content.children.reverse := by
        rw [parts]
        exact List.mem_append_right before List.mem_cons_self
      refine .inr ⟨part, by simp [found], ?_, failed, fun pending => ?_⟩
      · simpa [expressionChildren, found] using listed
      · obtain ⟨turns, leads⟩ := exists_leads_of_forall
          (fun passed member => exists_leads_of_ok (ahead passed member))
          (part :: (after ++ pending))
        refine ⟨1 + turns, after, by omega, (Leads.turn found (not_not.mp owned)).trans ?_⟩
        rwa [parts, List.append_assoc, List.cons_append]

private theorem exists_drain_of_faulty
    (failed : tree.checkExpression statement steps whole = .error (.faulty error))
    (pending : List ExpressionId) :
    ∃ turns, tree.drain statement turns (whole :: pending) = some (.error error) := by
  induction steps generalizing whole pending with
  | zero => cases failed
  | succ steps induction =>
      rcases exists_of_checkExpression_eq_error failed with
        ⟨_, same, fault⟩ | ⟨part, _, _, failed, reached⟩
      · cases same
        exact ⟨1, fault.drain pending⟩
      · obtain ⟨turns, added, _, leads⟩ := reached pending
        obtain ⟨others, drained⟩ := induction failed (added ++ pending)
        exact ⟨turns + others, (leads others).trans drained⟩

theorem exists_part_of_faulty
    (failed : tree.checkExpression statement steps whole = .error (.faulty error)) :
    ∃ part, tree.IsPart whole part ∧ tree.IsFaultOf statement part error := by
  induction steps generalizing whole with
  | zero => cases failed
  | succ steps induction =>
      rcases exists_of_checkExpression_eq_error failed with
        ⟨_, same, fault⟩ | ⟨next, _, listed, failed, _⟩
      · cases same
        exact ⟨whole, .refl, fault⟩
      · obtain ⟨part, isPart, fault⟩ := induction failed
        exact ⟨part, .head listed isPart, fault⟩

private theorem exists_path_of_endless
    (failed : tree.checkExpression statement steps whole = .error .endless) :
    ∃ path : List ExpressionId, path.length = steps ∧
      (∀ expression ∈ path, expression.index < tree.expressions.size ∧
        (expression = whole ∨ tree.Descends statement whole expression)) ∧
      path.Pairwise (tree.Descends statement) := by
  induction steps generalizing whole with
  | zero => exact ⟨[], rfl, fun _ absurd => (nomatch absurd), .nil⟩
  | succ steps induction =>
      rcases exists_of_checkExpression_eq_error failed with
        ⟨_, same, _⟩ | ⟨next, present, listed, failed, reached⟩
      · cases same
      · -- The path collects what the walk goes down through; every later one is a part of every
        -- earlier one, so equal ones would come back to themselves.
        obtain ⟨path, length, inside, ordered⟩ := induction failed
        have first : tree.Descends statement whole next := ⟨.single listed, reached⟩
        have below : ∀ expression ∈ path, tree.Descends statement whole expression := by
          intro expression member
          rcases (inside expression member).2 with rfl | descends
          · exact first
          · exact first.trans descends
        obtain ⟨node, found⟩ := Option.ne_none_iff_exists'.mp present
        refine ⟨whole :: path, by rw [List.length_cons, length], ?_,
          List.pairwise_cons.mpr ⟨below, ordered⟩⟩
        refine List.forall_mem_cons.mpr ⟨⟨(Array.getElem?_eq_some_iff.mp found).1, .inl rfl⟩, ?_⟩
        exact fun expression member =>
          ⟨(inside expression member).1, .inr (below expression member)⟩

/-- A walk that runs out of steps has come back to an expression. -/
theorem exists_descends_of_endless
    (failed : tree.checkExpression statement tree.expressionSteps whole = .error .endless) :
    ∃ part, (part = whole ∨ tree.Descends statement whole part) ∧
      tree.Descends statement part part := by
  obtain ⟨path, length, inside, ordered⟩ := exists_path_of_endless failed
  by_contra! never
  -- Otherwise the path would hold more expressions than the tree has.
  have distinct : (path.map ExpressionId.index).Nodup := by
    refine List.pairwise_map.mpr (ordered.imp_of_mem fun {upper lower} _ member descends same => ?_)
    obtain rfl : upper = lower := congrArg ExpressionId.mk same
    exact never upper (inside upper member).2 descends
  have inRange : path.map ExpressionId.index ⊆ List.range tree.expressions.size := by
    intro index member
    obtain ⟨expression, isPassed, rfl⟩ := List.mem_map.mp member
    exact List.mem_range.mpr (inside expression isPassed).1
  have short := (List.subperm_of_subset distinct inRange).length_le
  rw [List.length_map, length, List.length_range, expressionSteps] at short
  omega

/-- The pending expressions below an expression come to the outcome of the walk down from it, and to
none if that does not end. -/
theorem exists_drain_iff :
    (∃ turns, tree.drain statement turns [whole] = some outcome) ↔
      tree.checkExpression statement tree.expressionSteps whole = outcome.mapError .faulty := by
  have unique : ∀ {turns steps : Nat} {one two : Except TreeError Unit},
      tree.drain statement turns [whole] = some one →
        tree.drain statement steps [whole] = some two → one = two := by
    intro turns steps one two first second
    refine Option.some.inj ?_
    calc some one
        = tree.drain statement (max turns steps) [whole] :=
          (drain_mono first (Nat.le_max_left turns steps)).symm
      _ = some two := drain_mono second (Nat.le_max_right turns steps)
  cases checked : tree.checkExpression statement tree.expressionSteps whole with
  | ok =>
      obtain ⟨turns, leads⟩ := exists_leads_of_ok checked []
      have passes : tree.drain statement turns [whole] = some (.ok ()) := (leads 0).trans drain_nil
      constructor
      · rintro ⟨steps, drained⟩
        rw [unique drained passes]
        rfl
      · intro same
        cases outcome with
        | ok => exact ⟨turns, passes⟩
        | error => cases same
  | error failure =>
      cases failure with
      | faulty error =>
          obtain ⟨turns, fails⟩ := exists_drain_of_faulty checked []
          constructor
          · rintro ⟨steps, drained⟩
            rw [unique drained fails]
            rfl
          · intro same
            cases outcome with
            | ok => cases same
            | error other =>
                cases same
                exact ⟨turns, fails⟩
      | endless =>
          obtain ⟨part, reached, back⟩ := exists_descends_of_endless checked
          have never : ∀ turns, tree.drain statement turns [whole] = none := by
            rcases reached with rfl | descends
            · exact fun turns => back.drain_eq_none turns []
            · obtain ⟨turns, added, _, leads⟩ := descends.leads []
              exact leads.drain_eq_none fun more => back.drain_eq_none more _
          constructor
          · rintro ⟨turns, drained⟩
            cases (never turns).symm.trans drained
          · intro same
            cases outcome <;> cases same

theorem settles_iff : tree.Settles statement whole ↔
    tree.checkExpression statement tree.expressionSteps whole ≠ .error .endless := by
  rw [← exists_answer_iff]
  constructor
  · rintro ⟨turns, outcome, drained⟩
    exact ⟨outcome, exists_drain_iff.mp ⟨turns, drained⟩⟩
  · rintro ⟨outcome, checked⟩
    obtain ⟨turns, drained⟩ := exists_drain_iff.mpr checked
    exact ⟨turns, outcome, drained⟩

/-! ## Parts of themselves -/

theorem exists_checkExpression_of_part
    (passed : tree.checkExpression statement steps whole = .ok ())
    (isPart : tree.IsPart whole part) :
    ∃ less, less ≤ steps ∧ tree.checkExpression statement less part = .ok () := by
  induction steps generalizing whole with
  | zero => cases passed
  | succ steps induction =>
      rcases Relation.ReflTransGen.cases_head isPart with rfl | ⟨next, listed, isPart⟩
      · exact ⟨steps + 1, Nat.le_refl _, passed⟩
      · obtain ⟨node, found, _, parts⟩ := exists_of_checkExpression_eq_ok passed
        have inNode : next ∈ node.content.children := by
          simpa [expressionChildren, found] using listed
        obtain ⟨less, le, passed⟩ := induction (parts next inNode) isPart
        exact ⟨less, Nat.le_succ_of_le le, passed⟩

/-- What passes a walk is no part of itself. -/
theorem not_leadsBack_of_ok (passed : tree.checkExpression statement steps whole = .ok ()) :
    ¬ tree.LeadsBack whole := by
  induction steps using Nat.strongRecOn generalizing whole with
  | ind steps induction =>
      intro back
      obtain ⟨next, listed, isPart⟩ := Relation.TransGen.head'_iff.mp back
      cases steps with
      | zero => cases passed
      | succ steps =>
          obtain ⟨node, found, _, parts⟩ := exists_of_checkExpression_eq_ok passed
          have inNode : next ∈ node.content.children := by
            simpa [expressionChildren, found] using listed
          obtain ⟨fewer, le, again⟩ := exists_checkExpression_of_part (parts next inNode) isPart
          exact induction fewer (Nat.lt_succ_of_le le) again back

/-- Below an expression without parts that are parts of themselves nothing is pending for ever. -/
theorem settles_of_not_leadsBack
    (forward : ∀ part, tree.IsPart whole part → ¬ tree.LeadsBack part) :
    tree.Settles statement whole := by
  refine settles_iff.mpr fun endless => ?_
  obtain ⟨part, reached, back⟩ := exists_descends_of_endless endless
  refine forward part ?_ back.part
  rcases reached with rfl | descends
  · exact .refl
  · exact descends.part.to_reflTransGen

end StatementTree

end LexicalScope
