import LexicalScope.Proofs.StatementTree.Pending

/-!
# The check of references

Whatever a tree lists, the check of its references accepts it exactly if what every statement lists,
and every expression below its header, exists and refers back to it, and a fault that it reports is
one that the tree has. Where no expression leads back to itself the walk below a header comes to an
end, so there is always an answer.
-/

namespace LexicalScope

namespace StatementTree

variable {tree : StatementTree} {statement : StatementId} {child : StatementRef}
  {whole part : ExpressionId} {failure : LinkFailure} {error : TreeError}

/-- No expression leads back to itself through the parts of expressions. -/
def IsAcyclic (tree : StatementTree) : Prop :=
  ∀ expression, ¬ Relation.TransGen
    (fun upper lower => lower ∈ tree.expressionChildren (some upper)) expression expression

/-- A statement lists a child. -/
def HasChild (tree : StatementTree) (statement : StatementId) (child : StatementRef) : Prop :=
  child ∈ (tree.children (some statement)).map (·.1)

/-- An expression is one of the header of a statement or a part of one. -/
def IsBelowHeader (tree : StatementTree) (statement : StatementId) (part : ExpressionId) : Prop :=
  ∃ whole ∈ tree.headerExpressions (some statement), tree.IsPart whole part

/-- The references of a tree agree. -/
structure Agrees (tree : StatementTree) : Prop where
  root : ∃ node, tree.statement? tree.root = some node
  /-- Every listed child exists and names its lister as its parent. -/
  child : ∀ statement child, tree.HasChild statement child →
    ∃ node, tree.statement? child = some node ∧ node.parent = some statement
  /-- A switch lists only sections. -/
  placed : ∀ statement child, tree.HasChild statement child →
    tree.kind? (some statement) = some .switch → tree.kind? child = some .switchSection
  /-- Every expression below a header exists and names the statement of the header as its owner. -/
  expression : ∀ statement part, tree.IsBelowHeader statement part →
    ∃ node, tree.expression? (some part) = some node ∧ node.statement = some statement

/-- A tree has the fault that an error describes, at the references that it names. -/
def Exhibits (tree : StatementTree) : TreeError → Prop
  | .missingRoot procedure => procedure = tree.name ∧ tree.statement? tree.root = none
  | .danglingStatement parent child =>
    ∃ statement, parent = some statement ∧ tree.HasChild statement child ∧
      tree.statement? child = none
  | .danglingExpression statement expression =>
    ∃ owner part, statement = some owner ∧ expression = some part ∧
      tree.IsBelowHeader owner part ∧ tree.expression? (some part) = none
  | .parentMismatch child expected found =>
    ∃ statement node, expected = some statement ∧ tree.HasChild statement child ∧
      tree.statement? child = some node ∧ node.parent = found ∧ found ≠ expected
  | .ownerMismatch expression expected found =>
    ∃ owner part node, expected = some owner ∧ expression = some part ∧
      tree.IsBelowHeader owner part ∧ tree.expression? (some part) = some node ∧
      node.statement = found ∧ found ≠ expected
  | .misplacedSection switch child =>
    ∃ statement node, switch = some statement ∧ tree.kind? (some statement) = some .switch ∧
      tree.HasChild statement child ∧ tree.statement? child = some node ∧
      node.kind ≠ .switchSection
  | .statementsTooDeep _ _ => False
  | .expressionsTooDeep _ _ => False

/-! ## Walks below a header -/

/-- A walk below a header that passes finds only expressions that exist and belong to the
statement. -/
theorem of_checkExpression_eq_ok {steps : Nat}
    (passed : tree.checkExpression statement steps whole = .ok ())
    (isPart : tree.IsPart whole part) :
    ∃ node, tree.expression? (some part) = some node ∧ node.statement = some statement := by
  obtain ⟨less, _, passed⟩ := exists_checkExpression_of_part passed isPart
  cases less with
  | zero => cases passed
  | succ less =>
      obtain ⟨node, found, owned, _⟩ := exists_of_checkExpression_eq_ok passed
      exact ⟨node, found, owned⟩

private theorem exhibits_of_checkExpression {steps : Nat}
    (inHeader : whole ∈ tree.headerExpressions (some statement))
    (failed : tree.checkExpression statement steps whole = .error (.faulty error)) :
    tree.Exhibits error := by
  obtain ⟨part, isPart, fault⟩ := exists_part_of_faulty failed
  have below : tree.IsBelowHeader statement part := ⟨whole, inHeader, isPart⟩
  cases fault with
  | missing missing => exact ⟨statement, part, rfl, rfl, below, missing⟩
  | foreign found other => exact ⟨statement, part, _, rfl, rfl, below, found, rfl, other⟩

/-! ## Statements -/

private theorem checkChild_eq_ok_iff {node : StatementNode} :
    tree.checkChild statement node child = .ok () ↔
      ∃ inner, tree.statement? child = some inner ∧ inner.parent = some statement ∧
        (node.kind = .switch → inner.kind = .switchSection) := by
  unfold checkChild
  cases tree.statement? child with
  | none => simp
  | some inner =>
      simp only [Option.some.injEq, exists_eq_left']
      split_ifs with other misplaced
      · exact iff_of_false nofun fun agrees => other agrees.1
      · exact iff_of_false nofun fun agrees => misplaced.2 (agrees.2 misplaced.1)
      · exact iff_of_true rfl ⟨not_not.mp other, fun isSwitch =>
          Decidable.byContradiction fun noSection => misplaced ⟨isSwitch, noSection⟩⟩

private theorem exhibits_of_checkChild {node : StatementNode}
    (found : tree.statement? (some statement) = some node) (listed : tree.HasChild statement child)
    (failed : tree.checkChild statement node child = .error failure) :
    ∃ error, failure = .faulty error ∧ tree.Exhibits error := by
  unfold checkChild at failed
  split at failed
  next missing =>
    cases failed
    exact ⟨_, rfl, statement, rfl, listed, missing⟩
  next inner innerFound =>
    split_ifs at failed with other misplaced
    · cases failed
      exact ⟨_, rfl, statement, inner, rfl, listed, innerFound, rfl, other⟩
    · cases failed
      refine ⟨_, rfl, statement, inner, rfl, ?_, listed, innerFound, misplaced.2⟩
      rw [kind?, found, Option.map_some, misplaced.1]

/-- A statement that fails the check of its children and its header exhibits the fault, or below an
expression of its header something is pending for ever. -/
theorem of_checkStatement_eq_error (failed : tree.checkStatement statement = .error failure) :
    (∃ error, failure = .faulty error ∧ tree.Exhibits error) ∨
      failure = .endless ∧
        ∃ whole ∈ tree.headerExpressions (some statement), ¬ tree.Settles statement whole := by
  unfold checkStatement at failed
  split at failed
  next => cases failed
  next node found =>
    rcases Step.and_then_eq_error.mp failed with failed | ⟨_, failed⟩
    · obtain ⟨child, member, failed⟩ := Step.exists_of_forM_eq_error failed
      refine .inl (exhibits_of_checkChild found (List.mem_map.mpr ⟨child, ?_, rfl⟩) failed)
      simpa [children, found] using member
    · obtain ⟨whole, member, failed⟩ := Step.exists_of_forM_eq_error failed
      have inHeader : whole ∈ tree.headerExpressions (some statement) := by
        simpa [headerExpressions, found] using member
      cases failure with
      | endless => exact .inr ⟨rfl, whole, inHeader, fun settles => settles_iff.mp settles failed⟩
      | faulty error =>
          exact .inl ⟨error, rfl, exhibits_of_checkExpression inHeader failed⟩

/-- Where the references agree there is no fault. -/
theorem Agrees.not_exhibits (agrees : tree.Agrees) (error : TreeError) : ¬ tree.Exhibits error := by
  cases error with
  | missingRoot procedure =>
      rintro ⟨_, missing⟩
      obtain ⟨node, found⟩ := agrees.root
      cases missing.symm.trans found
  | danglingStatement parent child =>
      rintro ⟨statement, _, listed, missing⟩
      obtain ⟨node, found, _⟩ := agrees.child statement child listed
      cases missing.symm.trans found
  | danglingExpression statement expression =>
      rintro ⟨owner, part, _, _, below, missing⟩
      obtain ⟨node, found, _⟩ := agrees.expression owner part below
      cases missing.symm.trans found
  | parentMismatch child expected found =>
      rintro ⟨statement, node, rfl, listed, isNode, rfl, other⟩
      obtain ⟨known, isKnown, isParent⟩ := agrees.child statement child listed
      obtain rfl := Option.some.inj (isNode.symm.trans isKnown)
      exact other isParent
  | ownerMismatch expression expected found =>
      rintro ⟨owner, part, node, rfl, _, below, isNode, rfl, other⟩
      obtain ⟨known, isKnown, isOwner⟩ := agrees.expression owner part below
      obtain rfl := Option.some.inj (isNode.symm.trans isKnown)
      exact other isOwner
  | misplacedSection switch child =>
      rintro ⟨statement, node, _, isSwitch, listed, isNode, noSection⟩
      have placed := agrees.placed statement child listed isSwitch
      rw [kind?, isNode, Option.map_some] at placed
      exact noSection (Option.some.inj placed)
  | statementsTooDeep | expressionsTooDeep => exact not_false

/-! ## The whole tree -/

theorem of_checkLinks_eq_ok (passed : tree.checkLinks = .ok ()) :
    (∃ root, tree.statement? tree.root = some root) ∧
      ∀ {statement node}, tree.statement? (some statement) = some node →
        (∀ child ∈ node.content.children, tree.checkChild statement node child.1 = .ok ()) ∧
          ∀ whole ∈ node.content.expressions,
            tree.checkExpression statement tree.expressionSteps whole = .ok () := by
  unfold checkLinks at passed
  split at passed
  next => cases passed
  next root rootFound =>
    refine ⟨⟨root, rootFound⟩, fun {statement node} found => ?_⟩
    have inRange := List.mem_range.mpr (Array.getElem?_eq_some_iff.mp found).1
    have checked := Step.forM_eq_ok_iff.mp passed statement.index inRange
    rw [checkStatement, found] at checked
    obtain ⟨listed, header⟩ := Step.and_then_eq_ok.mp checked
    exact ⟨Step.forM_eq_ok_iff.mp listed, Step.forM_eq_ok_iff.mp header⟩

theorem checkExpression_of_checkLinks_eq_ok (passed : tree.checkLinks = .ok ())
    (inHeader : whole ∈ tree.headerExpressions (some statement)) :
    tree.checkExpression statement tree.expressionSteps whole = .ok () := by
  cases found : tree.statement? (some statement) with
  | none => simp [headerExpressions, found] at inHeader
  | some node =>
      have inNode : whole ∈ node.content.expressions := by
        simpa [headerExpressions, found] using inHeader
      exact ((of_checkLinks_eq_ok passed).2 found).2 whole inNode

/-- The references of every tree agree that passes the check. -/
theorem agrees_of_checkLinks_eq_ok (passed : tree.checkLinks = .ok ()) : tree.Agrees := by
  have listedChild : ∀ {statement child}, tree.HasChild statement child →
      ∃ node inner, tree.statement? (some statement) = some node ∧
        tree.statement? child = some inner ∧ inner.parent = some statement ∧
        (node.kind = .switch → inner.kind = .switchSection) := by
    intro statement child listed
    obtain ⟨entry, member, rfl⟩ := List.mem_map.mp listed
    cases found : tree.statement? (some statement) with
    | none => simp [children, found] at member
    | some node =>
        have inNode : entry ∈ node.content.children := by simpa [children, found] using member
        have checked := ((of_checkLinks_eq_ok passed).2 found).1 entry inNode
        obtain ⟨inner, agrees⟩ := checkChild_eq_ok_iff.mp checked
        exact ⟨node, inner, rfl, agrees⟩
  refine ⟨(of_checkLinks_eq_ok passed).1, fun statement child listed => ?_,
    fun statement child listed isSwitch => ?_, fun statement part below => ?_⟩
  · obtain ⟨_, inner, _, innerFound, isParent, _⟩ := listedChild listed
    exact ⟨inner, innerFound, isParent⟩
  · obtain ⟨node, inner, found, innerFound, _, placed⟩ := listedChild listed
    rw [kind?, found] at isSwitch
    rw [kind?, innerFound, Option.map_some, placed (Option.some.inj isSwitch)]
  · obtain ⟨whole, inHeader, isPart⟩ := below
    exact of_checkExpression_eq_ok (checkExpression_of_checkLinks_eq_ok passed inHeader) isPart

/-- A tree that fails the check exhibits the fault, or below an expression of a header something is
pending for ever. -/
theorem of_checkLinks_eq_error (failed : tree.checkLinks = .error failure) :
    (∃ error, failure = .faulty error ∧ tree.Exhibits error) ∨
      failure = .endless ∧ ∃ statement,
        ∃ whole ∈ tree.headerExpressions (some statement), ¬ tree.Settles statement whole := by
  unfold checkLinks at failed
  split at failed
  next missing =>
    cases failed
    exact .inl ⟨_, rfl, rfl, missing⟩
  next =>
    obtain ⟨index, _, failed⟩ := Step.exists_of_forM_eq_error failed
    rcases of_checkStatement_eq_error failed with exhibits | ⟨endless, pending⟩
    · exact .inl exhibits
    · exact .inr ⟨endless, ⟨index⟩, pending⟩

/-- Where no expression leads back to itself, a fault is reported and not met for ever. -/
theorem IsAcyclic.exhibits_of_checkLinks (acyclic : tree.IsAcyclic)
    (failed : tree.checkLinks = .error failure) :
    ∃ error, failure = .faulty error ∧ tree.Exhibits error :=
  (of_checkLinks_eq_error failed).resolve_right fun ⟨_, _, _, _, endless⟩ =>
    endless (settles_of_not_leadsBack fun part _ => acyclic part)

/-- Of the trees in which no expression leads back to itself, the check of references accepts just
those whose references agree, and otherwise it reports a fault that the tree has. -/
theorem checkLinks_exact (acyclic : tree.IsAcyclic) :
    (tree.checkLinks = .ok () ↔ tree.Agrees) ∧
      ∀ failure, tree.checkLinks = .error failure →
        ∃ error, failure = .faulty error ∧ tree.Exhibits error := by
  refine ⟨⟨agrees_of_checkLinks_eq_ok, fun agrees => ?_⟩,
    fun failure failed => acyclic.exhibits_of_checkLinks failed⟩
  cases checked : tree.checkLinks with
  | ok => rfl
  | error failure =>
      obtain ⟨error, _, exhibits⟩ := acyclic.exhibits_of_checkLinks checked
      exact absurd exhibits (agrees.not_exhibits error)

/-- No expression leads back to itself where parts stand behind what they are a part of. -/
theorem isAcyclic_of_ascending (ascending : ∀ index < tree.expressions.size,
    ∀ part ∈ tree.expressionChildren (some ⟨index⟩), index < part.index) : tree.IsAcyclic := by
  have step : ∀ {whole part}, part ∈ tree.expressionChildren (some whole) →
      whole.index < part.index := by
    intro whole part listed
    by_cases bounded : whole.index < tree.expressions.size
    · exact ascending whole.index bounded part listed
    · have missing : tree.expression? (some whole) = none :=
        Array.getElem?_eq_none (Nat.not_lt.mp bounded)
      simp [expressionChildren, missing] at listed
  have walk : ∀ {whole part}, Relation.TransGen
      (fun upper lower => lower ∈ tree.expressionChildren (some upper)) whole part →
      whole.index < part.index := by
    intro whole part leads
    induction leads with
    | single listed => exact step listed
    | tail _ listed behind => exact Nat.lt_trans behind (step listed)
  exact fun expression leads => Nat.lt_irrefl _ (walk leads)

/-- A tree put together by hand, with a sum below the first of two statements that uses a name
which the second one owns. -/
def borrowing : StatementTree where
  name := "p"
  statements := #[⟨.block [some ⟨1⟩, some ⟨2⟩], ⟨0, 9⟩, none⟩,
    ⟨.evaluation (some ⟨0⟩), ⟨1, 4⟩, some ⟨0⟩⟩, ⟨.evaluation (some ⟨2⟩), ⟨4, 8⟩, some ⟨0⟩⟩]
  expressions := #[⟨.binary "+" (some ⟨1⟩) (some ⟨2⟩), ⟨1, 3⟩, some ⟨1⟩, none⟩,
    ⟨.name "a", ⟨1, 2⟩, some ⟨1⟩, some ⟨0⟩⟩, ⟨.name "b", ⟨5, 6⟩, some ⟨2⟩, none⟩]
  parameters := []
  root := some ⟨0⟩

theorem checkLinks_borrowing :
    borrowing.IsAcyclic ∧ ¬ borrowing.Agrees ∧
      borrowing.checkLinks =
        .error (.faulty (.ownerMismatch (some ⟨2⟩) (some ⟨1⟩) (some ⟨2⟩))) ∧
      borrowing.Exhibits (.ownerMismatch (some ⟨2⟩) (some ⟨1⟩) (some ⟨2⟩)) := by
  have acyclic : borrowing.IsAcyclic := isAcyclic_of_ascending (by decide)
  have failed : borrowing.checkLinks =
      .error (.faulty (.ownerMismatch (some ⟨2⟩) (some ⟨1⟩) (some ⟨2⟩))) := by decide +kernel
  obtain ⟨accepts, reports⟩ := checkLinks_exact acyclic
  obtain ⟨error, same, exhibits⟩ := reports _ failed
  cases same
  refine ⟨acyclic, fun agrees => ?_, failed, exhibits⟩
  cases failed.symm.trans (accepts.mpr agrees)

end StatementTree

end LexicalScope
