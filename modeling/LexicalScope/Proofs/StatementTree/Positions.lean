import LexicalScope.Proofs.StatementTree.Descent
import LexicalScope.Scope.Boundary
import Mathlib.Data.List.Nodup

/-!
# Positions and classes

In a proper tree a statement has the position at which its parent lists it. It opens a region of its
own because of its kind, because it is the head of a chain, or because of that position.
-/

namespace LexicalScope.StatementTree

variable {tree : StatementTree} {id child statement : StatementId} {ref : StatementRef}
  {node inner : StatementNode} {position : Position}

/-- A statement is classified as one that opens a region. -/
def IsBoundary (tree : StatementTree) (statement : StatementId) : Prop :=
  ∃ classification, tree.classifyListed? (some statement) = some classification ∧
    classification.isBoundary = true

/-- A statement opens a region wherever it stands: its kind always does, or it is the head of a
chain. -/
def OpensAnywhere (tree : StatementTree) (statement : StatementId) : Prop :=
  (tree.classify (some statement) .member).isBoundary = true

/-- A statement is the alternative of an `if`. -/
def IsElseBody (tree : StatementTree) (statement : StatementId) : Prop :=
  ∃ upper condition thenBody,
    tree.content? (some upper) = some (.branch condition thenBody (some statement))

/-! ## Positions -/

/-- A listed child stands at the position at which it is listed. -/
theorem Proper.position?_of_child (proper : tree.Proper)
    (found : tree.statement? (some id) = some node)
    (listed : (some child, position) ∈ node.content.children) :
    tree.position? (some child) = some position := by
  obtain ⟨_, inner, same, childFound, isParent, _⟩ := proper.child found listed
  obtain rfl := Option.some.inj same
  have isFirst : node.content.children.find? (fun other => other.1 == some child) =
      some (some child, position) := by
    have known : (node.content.children.find? fun other => other.1 == some child).isSome :=
      List.find?_isSome.mpr ⟨_, listed, beq_self_eq_true _⟩
    obtain ⟨other, isOther⟩ := Option.isSome_iff_exists.mp known
    have sameRef : other.1 = some child := by simpa using List.find?_some isOther
    rw [isOther, List.inj_on_of_nodup_map (proper.distinct found)
      (List.mem_of_find?_eq_some isOther) listed sameRef]
  simp [position?, childFound, isParent, children, found, isFirst]

/-- Every statement stands at the root or where another one lists it. -/
theorem Proper.position_cases (proper : tree.Proper)
    (found : tree.statement? (some id) = some node) :
    tree.position? (some id) = some .root ∨ ∃ position above outer,
      tree.position? (some id) = some position ∧ tree.statement? (some above) = some outer ∧
        (some id, position) ∈ outer.content.children := by
  cases isParent : node.parent with
  | none => exact .inl (by simp [position?, found, isParent])
  | some above =>
      obtain ⟨outer, outerFound, member⟩ :=
        proper.child_of_parent ((parent_eq found).trans isParent)
      obtain ⟨⟨_, position⟩, listed, rfl⟩ := List.mem_map.mp member
      exact .inr ⟨position, above, outer, proper.position?_of_child outerFound listed, outerFound,
        listed⟩

theorem Proper.exists_classification (proper : tree.Proper)
    (found : tree.statement? (some id) = some node) :
    ∃ position, tree.classifyListed? (some id) = some (tree.classify (some id) position) := by
  rcases proper.position_cases found with isRoot | ⟨position, _, _, isPosition, _⟩
  · exact ⟨.root, by rw [classifyListed?, isRoot]; rfl⟩
  · exact ⟨position, by rw [classifyListed?, isPosition]; rfl⟩

/-- An `if` lists its first branch. -/
theorem thenBody_mem_children {condition : ExpressionRef} {thenBody elseBody : StatementRef}
    (content : node.content = .branch condition thenBody elseBody) :
    (thenBody, .nested .thenBody) ∈ node.content.children := by
  rw [content]
  cases elseBody <;> exact List.mem_cons_self

theorem branch_of_mem_children {content : StatementContent}
    (listed : (some child, .nested .elseBody) ∈ content.children) :
    ∃ condition thenBody, content = .branch condition thenBody (some child) := by
  cases content with
  | branch condition thenBody elseBody =>
      cases elseBody with
      | none => simp [StatementContent.children] at listed
      | some elseBody =>
          obtain rfl : child = elseBody := by simpa [StatementContent.children] using listed
          exact ⟨condition, thenBody, rfl⟩
  | _ => simp [StatementContent.children] at listed

theorem exists_branch_of_children
    (listed : (some child, .nested .elseBody) ∈ tree.children (some id)) :
    ∃ condition thenBody,
      tree.content? (some id) = some (.branch condition thenBody (some child)) := by
  cases found : tree.statement? (some id) with
  | none => simp [children, found] at listed
  | some node =>
      simp only [children, found, Option.map_some, Option.getD_some] at listed
      obtain ⟨condition, thenBody, content⟩ := branch_of_mem_children listed
      exact ⟨condition, thenBody, by rw [content?_eq found, content]⟩

theorem Proper.position?_eq_elseBody_iff (proper : tree.Proper)
    (found : tree.statement? (some id) = some node) :
    tree.position? (some id) = some (.nested .elseBody) ↔ tree.IsElseBody id := by
  constructor
  · intro stands
    rcases proper.position_cases found with isRoot | ⟨position, above, outer, isPosition, known,
      listed⟩
    · rw [isRoot] at stands
      cases stands
    · obtain rfl := Option.some.inj (isPosition.symm.trans stands)
      obtain ⟨condition, thenBody, isContent⟩ := branch_of_mem_children listed
      exact ⟨above, condition, thenBody, by rw [content?_eq known, isContent]⟩
  · rintro ⟨upper, condition, thenBody, content⟩
    obtain ⟨outer, known, isContent⟩ := Option.map_eq_some_iff.mp content
    exact proper.position?_of_child known (by simp [isContent, StatementContent.children])

/-! ## Classes -/

/-- An `if` with a plain `else` is one whose alternative is no `if` and that is no alternative. -/
theorem Proper.isTwoWay_iff (proper : tree.Proper) {condition : ExpressionRef}
    {thenBody : StatementRef} {elseBody : StatementId}
    (found : tree.statement? (some id) = some node)
    (content : node.content = .branch condition thenBody (some elseBody)) :
    tree.isTwoWay (some id) = true ↔
      tree.kind? (some elseBody) ≠ some .branch ∧ ¬ tree.IsElseBody id := by
  have listed : some elseBody ∈ node.content.children.map (·.1) := by
    simp [content, StatementContent.children]
  obtain ⟨_, alternative, _, elseFound, _⟩ := proper.exists_of_child found listed
  rw [kind?_eq elseFound, ← proper.position?_eq_elseBody_iff found]
  simp [isTwoWay, found, content, elseFound]

/-- An `if` without alternative is none with a plain `else`. -/
theorem not_isTwoWay (found : tree.statement? ref = some node)
    (single : ∀ condition thenBody elseBody,
      node.content ≠ .branch condition thenBody (some elseBody)) :
    ¬ tree.isTwoWay ref = true := by
  unfold isTwoWay
  simp only [found, Option.map_some]
  cases content : node.content with
  | branch condition thenBody elseBody =>
      cases elseBody with
      | none => simp [statement?]
      | some elseBody => exact absurd content (single _ _ _)
  | _ => simp

theorem opensAnywhere_iff (found : tree.statement? (some id) = some node) :
    tree.OpensAnywhere id ↔ node.kind.scopeRule = .boundary ∨
      (∃ condition thenBody elseBody, node.content = .branch condition thenBody (some elseBody)) ∧
        ¬ tree.isTwoWay (some id) = true := by
  unfold OpensAnywhere classify branchingClass
  simp only [found, Classification.isBoundary, StatementNode.kind]
  cases content : node.content with
  | branch condition thenBody elseBody =>
      cases elseBody <;> simp [StatementContent.kind, StatementKind.scopeRule]
  | _ => simp [StatementContent.kind, StatementKind.scopeRule]

/-- The alternative of an `if` opens a region, as does the first branch of one with a plain `else`;
elsewhere only what opens a region anywhere does. -/
theorem isBoundary_classify (found : tree.statement? (some statement) = some node) :
    (tree.classify (some statement) position).isBoundary = true ↔
      position = .nested .elseBody ∨
      (position = .nested .thenBody ∧ tree.isTwoWay node.parent = true) ∨
      tree.OpensAnywhere statement := by
  unfold OpensAnywhere classify
  simp only [found, Classification.isBoundary]
  by_cases twoWay : tree.isTwoWay node.parent = true
  · cases position with
    | nested slot => cases slot <;> simp [twoWay]
    | _ => simp
  · cases position with
    | nested slot => cases slot <;> simp [twoWay]
    | _ => simp

theorem Proper.isBoundary_iff (proper : tree.Proper) (found : tree.statement? (some id) = some node)
    (listed : (some child, position) ∈ node.content.children) :
    tree.IsBoundary child ↔ position = .nested .elseBody ∨
      (position = .nested .thenBody ∧ tree.isTwoWay (some id) = true) ∨
      tree.OpensAnywhere child := by
  obtain ⟨_, inner, same, childFound, isParent, _⟩ := proper.child found listed
  obtain rfl := Option.some.inj same
  rw [← isParent, ← isBoundary_classify childFound, IsBoundary, classifyListed?,
    proper.position?_of_child found listed]
  simp

theorem Proper.opensAnywhere_of_single (proper : tree.Proper)
    (found : tree.statement? (some id) = some node)
    (single : ∀ condition thenBody elseBody,
      node.content ≠ .branch condition thenBody (some elseBody))
    (listed : some child ∈ node.content.children.map (·.1)) (isBoundary : tree.IsBoundary child) :
    tree.OpensAnywhere child := by
  obtain ⟨⟨_, position⟩, listed, rfl⟩ := List.mem_map.mp listed
  rcases (proper.isBoundary_iff found listed).mp isBoundary with rfl | ⟨_, twoWay⟩ | opens
  · obtain ⟨condition, thenBody, content⟩ := branch_of_mem_children listed
    exact absurd content (single condition thenBody child)
  · exact absurd twoWay (not_isTwoWay found single)
  · exact opens

theorem Proper.opensAnywhere_thenBody (proper : tree.Proper) {condition : ExpressionRef}
    {thenBody : StatementId} {elseBody : StatementRef}
    (found : tree.statement? (some id) = some node)
    (content : node.content = .branch condition (some thenBody) elseBody)
    (notTwoWay : ¬ tree.isTwoWay (some id) = true) (isBoundary : tree.IsBoundary thenBody) :
    tree.OpensAnywhere thenBody := by
  have listed := thenBody_mem_children content
  rcases (proper.isBoundary_iff found listed).mp isBoundary with absurd | ⟨_, twoWay⟩ | opens
  · cases absurd
  · exact absurd twoWay notTwoWay
  · exact opens

/-- Both branches of an `if` with a plain `else` open a region, as does any alternative. -/
theorem Proper.isBoundary_thenBody (proper : tree.Proper) {condition : ExpressionRef}
    {thenBody : StatementId} {elseBody : StatementRef}
    (found : tree.statement? (some id) = some node)
    (content : node.content = .branch condition (some thenBody) elseBody)
    (twoWay : tree.isTwoWay (some id) = true) : tree.IsBoundary thenBody := by
  have listed := thenBody_mem_children content
  exact (proper.isBoundary_iff found listed).mpr (.inr (.inl ⟨rfl, twoWay⟩))

/-- What opens a region anywhere does so where it stands. -/
theorem Proper.isBoundary_of_opensAnywhere (proper : tree.Proper)
    (found : tree.statement? (some id) = some node) (opens : tree.OpensAnywhere id) :
    tree.IsBoundary id := by
  obtain ⟨position, isClass⟩ := proper.exists_classification found
  exact ⟨_, isClass, (isBoundary_classify found).mpr (.inr (.inr opens))⟩

end LexicalScope.StatementTree
