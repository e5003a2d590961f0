import LexicalScope.Proofs.Layout.Links
import LexicalScope.Proofs.StatementTree.Descent
import LexicalScope.Proofs.StatementTree.Links

/-!
# Back-references

The references from parts back to what lists them agree with the lists in every tree that the layout
makes. A tree that only passes the check of references need not be like that. A statement that
something lists names the one statement that does, and an expression below a header has the owner of
that header; but the check reads neither what holds an expression nor the parent of a statement that
nothing lists, such as the root, and it does not notice that a child is listed twice.
-/

namespace LexicalScope

namespace StatementTree

/-- The root leads to a statement through lists of children. -/
def IsReached (tree : StatementTree) (statement : StatementId) : Prop :=
  ∃ first, tree.root = some first ∧
    Relation.ReflTransGen (fun upper lower => tree.HasChild upper (some lower)) first statement

/-- The expressions below headers name what lists them as their holder. -/
structure HoldersAgree (tree : StatementTree) : Prop where
  header : ∀ statement, ∀ whole ∈ tree.headerExpressions (some statement), tree.holder whole = none
  part : ∀ statement upper, tree.IsBelowHeader statement upper →
    ∀ lower ∈ tree.expressionChildren (some upper), tree.holder lower = some upper

/-- All references back agree with the lists below the root. -/
structure BackReferences (tree : StatementTree) : Prop where
  root : tree.parent tree.root = none
  /-- Every other statement is listed once, by the statement that it names as its parent. -/
  listed : ∀ statement, tree.IsReached statement → tree.root ≠ some statement →
    ∃ lister, tree.parent (some statement) = some lister ∧
      ((tree.children (some lister)).map (·.1)).count (some statement) = 1 ∧
      ∀ other, tree.HasChild other (some statement) → other = lister
  holders : tree.HoldersAgree

/-- The tree with other parents of its statements and other holders of its expressions. -/
def relinked (tree : StatementTree) (parents : StatementId → StatementRef)
    (holders : ExpressionId → ExpressionRef) : StatementTree :=
  { tree with
    statements := tree.statements.mapIdx fun index node => { node with parent := parents ⟨index⟩ }
    expressions := tree.expressions.mapIdx fun index node =>
      { node with parent := holders ⟨index⟩ } }

variable {tree : StatementTree} {statement lister other child : StatementId}
  {part : ExpressionId} {parents : StatementId → StatementRef}
  {holders : ExpressionId → ExpressionRef}

/-! ## What lists a statement -/

theorem Agrees.parent_of_hasChild (agrees : tree.Agrees)
    (listed : tree.HasChild lister (some child)) : tree.parent (some child) = some lister := by
  obtain ⟨node, found, isParent⟩ := agrees.child lister (some child) listed
  rw [parent_eq found, isParent]

theorem Agrees.lister_unique (agrees : tree.Agrees) (listed : tree.HasChild lister (some child))
    (listedToo : tree.HasChild other (some child)) : other = lister :=
  Option.some.inj
    ((agrees.parent_of_hasChild listedToo).symm.trans (agrees.parent_of_hasChild listed))

theorem IsReached.eq_root_or_listed (reached : tree.IsReached statement) :
    tree.root = some statement ∨
      ∃ lister, tree.IsReached lister ∧ tree.HasChild lister (some statement) := by
  obtain ⟨first, isRoot, leads⟩ := reached
  rcases Relation.ReflTransGen.cases_tail leads with rfl | ⟨lister, leads, listed⟩
  · exact .inl isRoot
  · exact .inr ⟨lister, ⟨first, isRoot, leads⟩, listed⟩

/-- What is reached from a root without a parent has only so many statements around it. -/
theorem Agrees.exists_isLevel (agrees : tree.Agrees) (parentless : tree.parent tree.root = none)
    (reached : tree.IsReached statement) : ∃ level, tree.IsLevel statement level := by
  obtain ⟨first, isRoot, leads⟩ := reached
  induction leads with
  | refl => exact ⟨0, .root (isRoot ▸ parentless)⟩
  | tail _ listed induction =>
      obtain ⟨level, isLevel⟩ := induction
      exact ⟨level + 1, .nested (agrees.parent_of_hasChild listed) isLevel⟩

private theorem Agrees.header_unique (agrees : tree.Agrees)
    (below : tree.IsBelowHeader statement part) (belowToo : tree.IsBelowHeader other part) :
    other = statement := by
  obtain ⟨node, found, owned⟩ := agrees.expression statement part below
  obtain ⟨again, foundToo, ownedToo⟩ := agrees.expression other part belowToo
  obtain rfl := Option.some.inj (found.symm.trans foundToo)
  exact Option.some.inj (ownedToo.symm.trans owned)

/-- Where the references agree, those back agree just if the root has no parent, no child is listed
twice by a statement that is reached, and the holders agree. -/
theorem Agrees.backReferences_iff (agrees : tree.Agrees) :
    tree.BackReferences ↔ tree.parent tree.root = none ∧
      (∀ lister, tree.IsReached lister → ((tree.children (some lister)).map (·.1)).Nodup) ∧
      tree.HoldersAgree := by
  constructor
  · intro back
    refine ⟨back.root, fun lister reached => List.nodup_iff_count_le_one.mpr fun child => ?_,
      back.holders⟩
    by_contra! twice
    -- The root has no parent, so nothing lists it, and all else that is reached is listed once.
    have listed : tree.HasChild lister child := List.count_pos_iff.mp (by omega)
    obtain ⟨node, found, _⟩ := agrees.child lister child listed
    obtain ⟨id, rfl, _⟩ := Option.bind_eq_some_iff.mp found
    have isParent := agrees.parent_of_hasChild listed
    have notRoot : tree.root ≠ some id := by
      intro isRoot
      rw [← isRoot, back.root] at isParent
      cases isParent
    obtain ⟨first, isRoot, leads⟩ := reached
    obtain ⟨above, isAbove, once, _⟩ := back.listed id ⟨first, isRoot, leads.tail listed⟩ notRoot
    obtain rfl := Option.some.inj (isParent.symm.trans isAbove)
    omega
  · rintro ⟨parentless, distinct, holders⟩
    refine ⟨parentless, fun statement reached notRoot => ?_, holders⟩
    obtain ⟨lister, isReached, listed⟩ := reached.eq_root_or_listed.resolve_left notRoot
    exact ⟨lister, agrees.parent_of_hasChild listed,
      List.count_eq_one_of_mem (distinct lister isReached) listed,
      fun other listedToo => agrees.lister_unique listed listedToo⟩

/-! ## What the check does not read -/

theorem statement?_relinked (id : StatementId) :
    (tree.relinked parents holders).statement? (some id) =
      (tree.statement? (some id)).map fun node => { node with parent := parents id } := by
  simp [relinked, statement?]

private theorem expression?_relinked (id : ExpressionId) :
    (tree.relinked parents holders).expression? (some id) =
      (tree.expression? (some id)).map fun node => { node with parent := holders id } := by
  simp [relinked, expression?]

private theorem checkExpression_relinked (steps : Nat) (whole : ExpressionId) :
    (tree.relinked parents holders).checkExpression statement steps whole =
      tree.checkExpression statement steps whole := by
  induction steps generalizing whole with
  | zero => rfl
  | succ steps induction =>
      have same := funext induction
      rw [checkExpression, checkExpression, expression?_relinked, same]
      cases tree.expression? (some whole) <;> rfl

private theorem checkStatement_relinked
    (kept : ∀ lister child, tree.HasChild lister (some child) →
      parents child = tree.parent (some child)) :
    (tree.relinked parents holders).checkStatement statement = tree.checkStatement statement := by
  have sameWalk : (tree.relinked parents holders).checkExpression statement =
      tree.checkExpression statement :=
    funext fun steps => funext fun whole => checkExpression_relinked steps whole
  have sameSteps : (tree.relinked parents holders).expressionSteps = tree.expressionSteps := by
    simp [relinked, expressionSteps]
  rw [checkStatement, checkStatement, statement?_relinked]
  cases found : tree.statement? (some statement) with
  | none => rfl
  | some node =>
      simp only [Option.map_some, sameWalk, sameSteps]
      congr 1
      refine Step.forM_congr fun entry member => ?_
      cases isChild : entry.1 with
      | none => rfl
      | some child =>
          have listed : tree.HasChild statement (some child) := by
            refine List.mem_map.mpr ⟨entry, ?_, isChild⟩
            simpa [children, found] using member
          rw [checkChild, checkChild, statement?_relinked, kept statement child listed]
          cases childFound : tree.statement? (some child) with
          | none => rfl
          | some inner =>
              rw [parent_eq childFound]
              rfl

/-- The check comes to the same with other holders of expressions, and with other parents of what
nothing lists. -/
theorem checkLinks_relinked
    (kept : ∀ lister child, tree.HasChild lister (some child) →
      parents child = tree.parent (some child)) :
    (tree.relinked parents holders).checkLinks = tree.checkLinks := by
  have sameSize : (tree.relinked parents holders).statements.size = tree.statements.size := by
    simp [relinked]
  have sameRoot : (tree.relinked parents holders).root = tree.root := rfl
  rw [checkLinks, checkLinks, sameSize, sameRoot]
  cases isRoot : tree.root with
  | none => rfl
  | some root =>
      rw [statement?_relinked]
      cases tree.statement? (some root) with
      | none => rfl
      | some node => exact Step.forM_congr fun index _ => checkStatement_relinked kept

/-! ## Trees of procedures -/

/-- In the tree of a procedure all references back agree with the lists. -/
theorem backReferences_of_ofProcedure {procedure : Procedure}
    (laidOut : ofProcedure procedure = .ok tree) : tree.BackReferences := by
  have proper := proper_of_ofProcedure laidOut
  have agrees := agrees_of_checkLinks_eq_ok (checkLinks_eq_ok laidOut)
  refine agrees.backReferences_iff.mpr ⟨?_, fun lister _ => ?_,
    fun statement whole inHeader => (header_of_ofProcedure laidOut statement whole inHeader).2.1,
    fun _ upper _ lower listed => (part_of_ofProcedure laidOut upper lower listed).2.2.1⟩
  · rw [proper.root, proper.parent_root]
  · cases found : tree.statement? (some lister) with
    | none => simp [children, found]
    | some node => simpa [children, found] using proper.distinct found

/-! ## Trees that pass the check -/

/-- In a tree that passes the check, a statement that something lists is listed by its parent alone,
and an expression below a header is below that header only. The references back agree with the lists
just if, besides, the root has no parent, no child is listed twice, and the holders agree; the check
reads no holders, and no parents of statements that nothing lists. -/
theorem backReferences_of_checkLinks (passed : tree.checkLinks = .ok ()) :
    (∀ statement, tree.IsReached statement → tree.root ≠ some statement →
      ∃ lister, tree.IsReached lister ∧ tree.parent (some statement) = some lister ∧
        ∀ other, tree.HasChild other (some statement) ↔ other = lister) ∧
    (∀ statement part, tree.IsBelowHeader statement part →
      tree.owner part = some statement ∧
        ∀ other, tree.IsBelowHeader other part ↔ other = statement) ∧
    (tree.parent tree.root = none →
      ∀ statement, tree.IsReached statement → ∃ level, tree.IsLevel statement level) ∧
    (tree.BackReferences ↔ tree.parent tree.root = none ∧
      (∀ lister, tree.IsReached lister → ((tree.children (some lister)).map (·.1)).Nodup) ∧
      tree.HoldersAgree) ∧
    ∀ parents holders, (∀ lister child, tree.HasChild lister (some child) →
        parents child = some lister) →
      (tree.relinked parents holders).checkLinks = .ok () := by
  have agrees := agrees_of_checkLinks_eq_ok passed
  refine ⟨fun statement reached notRoot => ?_, fun statement part below => ?_,
    fun parentless statement reached => agrees.exists_isLevel parentless reached,
    agrees.backReferences_iff, fun parents holders kept => ?_⟩
  · obtain ⟨lister, isReached, listed⟩ := reached.eq_root_or_listed.resolve_left notRoot
    refine ⟨lister, isReached, agrees.parent_of_hasChild listed, fun other => ?_⟩
    exact ⟨agrees.lister_unique listed, fun same => same ▸ listed⟩
  · obtain ⟨node, found, owned⟩ := agrees.expression statement part below
    refine ⟨(owner_eq found).trans owned, fun other => ?_⟩
    exact ⟨agrees.header_unique below, fun same => same ▸ below⟩
  · refine (checkLinks_relinked fun lister child listed => ?_).trans passed
    rw [kept lister child listed, agrees.parent_of_hasChild listed]

/-- A tree put together by hand: a block around one statement, whose expression is a name in
parentheses. -/
def parenthesized : StatementTree where
  name := "p"
  statements := #[⟨.block [some ⟨1⟩], ⟨0, 9⟩, none⟩, ⟨.evaluation (some ⟨0⟩), ⟨1, 4⟩, some ⟨0⟩⟩]
  expressions := #[⟨.paren (some ⟨1⟩), ⟨1, 4⟩, some ⟨1⟩, none⟩,
    ⟨.name "a", ⟨2, 3⟩, some ⟨1⟩, some ⟨0⟩⟩]
  parameters := []
  root := some ⟨0⟩

/-- The references back agree in this tree, and it still passes the check when the root names a
parent and nothing names a holder. -/
theorem backReferences_parenthesized :
    parenthesized.checkLinks = .ok () ∧ parenthesized.BackReferences ∧
      (∀ other, parenthesized.HasChild other (some ⟨1⟩) ↔ other = ⟨0⟩) ∧
      (parenthesized.relinked (fun id => if id = ⟨1⟩ then some ⟨0⟩ else some ⟨5⟩)
        fun _ => none).checkLinks = .ok () := by
  have passed : parenthesized.checkLinks = .ok () := by decide +kernel
  have lists : ∀ lister, (parenthesized.children (some lister)).map (·.1) =
      if lister = ⟨0⟩ then [some ⟨1⟩] else [] := by
    rintro ⟨_ | _ | _⟩ <;> rfl
  have headers : ∀ statement, parenthesized.headerExpressions (some statement) =
      if statement = ⟨1⟩ then [⟨0⟩] else [] := by
    rintro ⟨_ | _ | _⟩ <;> rfl
  have parts : ∀ upper, parenthesized.expressionChildren (some upper) =
      if upper = ⟨0⟩ then [⟨1⟩] else [] := by
    rintro ⟨_ | _ | _⟩ <;> rfl
  have reached : parenthesized.IsReached ⟨1⟩ := by
    refine ⟨⟨0⟩, rfl, .single ?_⟩
    rw [HasChild, lists]
    exact List.mem_singleton_self _
  have holders : parenthesized.HoldersAgree := by
    refine ⟨fun statement whole inHeader => ?_, fun _ upper _ lower listed => ?_⟩
    · simp only [headers, List.mem_ite_nil_right, List.mem_singleton] at inHeader
      rw [inHeader.2]
      rfl
    · simp only [parts, List.mem_ite_nil_right, List.mem_singleton] at listed
      rw [listed.1, listed.2]
      rfl
  obtain ⟨alone, _, _, exact, unread⟩ := backReferences_of_checkLinks passed
  refine ⟨passed, exact.mpr ⟨rfl, fun lister _ => ?_, holders⟩, ?_, unread _ _ ?_⟩
  · rw [lists]
    split <;> simp
  · obtain ⟨lister, _, isParent, only⟩ := alone ⟨1⟩ reached (by decide)
    obtain rfl : ⟨0⟩ = lister := Option.some.inj isParent
    exact only
  · intro lister child listed
    simp only [HasChild, lists, List.mem_ite_nil_right, List.mem_singleton] at listed
    obtain ⟨rfl, same⟩ := listed
    rw [Option.some.inj same]
    rfl

/-- A tree put together by hand: the root names a parent and lists its only child twice, and a name
in parentheses names nothing as its holder. -/
def misreferring : StatementTree where
  name := "p"
  statements := #[⟨.block [some ⟨1⟩, some ⟨1⟩], ⟨0, 9⟩, some ⟨5⟩⟩,
    ⟨.evaluation (some ⟨0⟩), ⟨1, 4⟩, some ⟨0⟩⟩]
  expressions := #[⟨.paren (some ⟨1⟩), ⟨1, 4⟩, some ⟨1⟩, none⟩, ⟨.name "a", ⟨2, 3⟩, some ⟨1⟩, none⟩]
  parameters := []
  root := some ⟨0⟩

/-- This tree passes the check, although its root names a parent, its child is listed twice, and a
part of an expression does not name it. -/
theorem checkLinks_misreferring :
    misreferring.checkLinks = .ok () ∧ misreferring.parent misreferring.root = some ⟨5⟩ ∧
      (misreferring.IsReached ⟨1⟩ ∧
        ((misreferring.children (some ⟨0⟩)).map (·.1)).count (some ⟨1⟩) = 2) ∧
      (misreferring.IsBelowHeader ⟨1⟩ ⟨0⟩ ∧ ⟨1⟩ ∈ misreferring.expressionChildren (some ⟨0⟩) ∧
        misreferring.holder ⟨1⟩ = none) ∧
      ¬ misreferring.BackReferences := by
  have listed : misreferring.HasChild ⟨0⟩ (some ⟨1⟩) := List.mem_cons_self
  refine ⟨by decide +kernel, rfl, ⟨⟨⟨0⟩, rfl, .single listed⟩, by decide⟩,
    ⟨⟨⟨0⟩, List.mem_cons_self, .refl⟩, List.mem_cons_self, rfl⟩, fun back => ?_⟩
  cases back.root

end StatementTree

end LexicalScope
