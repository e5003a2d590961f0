import LexicalScope.Proofs.StatementTree.Positions

/-!
# Unbraced bodies around a statement

Between a statement and one around it, the unbraced bodies are counted along the parents, from the
statement itself up to below the one around it.
-/

namespace LexicalScope

theorem Classification.addsBleedLevel_eq_false {classification : Classification}
    (isBoundary : classification.isBoundary = true) : classification.addsBleedLevel = false := by
  obtain ⟨scopeClass, rule, position⟩ := classification
  cases scopeClass with
  | boundary => rfl
  | embedded => cases isBoundary

namespace StatementTree

variable {tree : StatementTree} {id statement upper body boundary : StatementId}
  {node : StatementNode} {position : Position} {steps depth : Nat}

/-! ## Parents -/

private theorem Proper.chain_succ (proper : tree.Proper) (enough : id.index < steps) :
    tree.chain (steps + 1) (some id) = tree.chain steps (some id) := by
  induction steps generalizing id with
  | zero => cases enough
  | succ steps induction =>
      rw [chain, chain]
      cases isParent : tree.parent (some id) with
      | none => cases steps <;> rfl
      | some above =>
          have less := proper.ranked isParent
          rw [induction (by omega)]

theorem Proper.chain_eq (proper : tree.Proper) (enough : id.index < steps) :
    tree.chain steps (some id) = id :: tree.chain steps (tree.parent (some id)) := by
  rw [← proper.chain_succ enough, chain]

/-- The statements from one on up to another that is around it, without the latter. -/
def climb (tree : StatementTree) (statement boundary : StatementId) : List StatementId :=
  (tree.chain tree.statements.size (some statement)).takeWhile (· ≠ boundary)

private theorem climb_self : tree.climb boundary boundary = [] := by
  unfold climb
  cases tree.statements.size <;> simp [chain]

private theorem Proper.climb_of_parent (proper : tree.Proper)
    (isParent : tree.parent (some statement) = some upper) (different : statement ≠ boundary) :
    tree.climb statement boundary = statement :: tree.climb upper boundary := by
  obtain ⟨_, found, _⟩ := Option.bind_eq_some_iff.mp isParent
  have inTree : statement.index < tree.statements.size :=
    (Array.getElem?_eq_some_iff.mp found).1
  rw [climb, proper.chain_eq inTree, isParent]
  exact List.takeWhile_cons_of_pos (decide_eq_true different)

/-! ## Unbraced bodies -/

/-- Whether a statement stands where an unbraced body of a conditional, a loop or a resource may
stand. -/
def isUnbraced (tree : StatementTree) (statement : StatementId) : Bool :=
  (tree.position? (some statement)).any (·.isUnbracedBody)

/-- The number of unbraced bodies from a statement on up to another that is around it, without the
latter. -/
def unbracedBodies (tree : StatementTree) (statement boundary : StatementId) : Nat :=
  (tree.climb statement boundary).countP tree.isUnbraced

@[simp] theorem unbracedBodies_self : tree.unbracedBodies boundary boundary = 0 := by
  rw [unbracedBodies, climb_self, List.countP_nil]

private theorem Proper.unbracedBodies_of_parent (proper : tree.Proper)
    (isParent : tree.parent (some statement) = some upper) (different : statement ≠ boundary) :
    tree.unbracedBodies statement boundary =
      tree.unbracedBodies upper boundary + if tree.isUnbraced statement then 1 else 0 := by
  rw [unbracedBodies, proper.climb_of_parent isParent different, List.countP_cons]
  rfl

/-- A depth is the number of unbraced bodies from a statement up to a boundary around it. -/
structure Measures (tree : StatementTree) (statement boundary : StatementId) (depth : Nat) :
    Prop where
  within : tree.IsWithin statement boundary
  bodies : tree.unbracedBodies statement boundary = depth

/-- A switch is an unbraced body below a boundary around it. -/
def IsBareSwitch (tree : StatementTree) (statement boundary : StatementId) : Prop :=
  statement ≠ boundary ∧ tree.kind? (some statement) = some .switch ∧
    tree.isUnbraced statement = true

instance : Decidable (tree.IsBareSwitch statement boundary) :=
  inferInstanceAs (Decidable (_ ∧ _ ∧ _))

/-- A depth is the number of unbraced bodies from a statement up to a boundary around it, where the
statement itself does not count if it is a switch. -/
structure Counts (tree : StatementTree) (statement boundary : StatementId) (depth : Nat) :
    Prop where
  within : tree.IsWithin statement boundary
  bodies : tree.unbracedBodies statement boundary =
    depth + if tree.IsBareSwitch statement boundary then 1 else 0

theorem measures_self : tree.Measures boundary boundary 0 :=
  ⟨.refl boundary, unbracedBodies_self⟩

theorem counts_self : tree.Counts boundary boundary 0 where
  within := .refl boundary
  bodies := by
    rw [unbracedBodies_self, if_neg fun bare => bare.1 rfl]

theorem Counts.measures (counts : tree.Counts statement boundary depth)
    (notSwitch : tree.kind? (some statement) ≠ some .switch) :
    tree.Measures statement boundary depth where
  within := counts.within
  bodies := by
    rw [counts.bodies, if_neg fun bare => notSwitch bare.2.1]
    rfl

/-! ## Headers bound around a statement -/

/-- The header of a statement belongs to the region around it: the statement opens none, or it is a
switch. -/
def BindsAround (tree : StatementTree) (statement : StatementId) : Prop :=
  tree.OpensAnywhere statement → tree.kind? (some statement) = some .switch

/-- A depth is right for the names in the header of a statement, unless the header belongs to a
region that the statement opens. -/
def CountsHeader (tree : StatementTree) (statement boundary : StatementId) (depth : Nat) : Prop :=
  tree.BindsAround statement → tree.Counts statement boundary depth

theorem bindsAround_of_transparent (found : tree.statement? (some statement) = some node)
    (transparent : node.kind.scopeRule = .transparent) : tree.BindsAround statement := by
  intro opens
  rcases (opensAnywhere_iff found).mp opens with isBoundary | ⟨⟨_, _, _, content⟩, _⟩
  · rw [transparent] at isBoundary
    cases isBoundary
  · rw [StatementNode.kind, content] at transparent
    cases transparent

/-- An `if` that heads or continues no chain binds its condition around itself. -/
theorem bindsAround_of_branch {condition : ExpressionRef} {thenBody elseBody : StatementRef}
    (found : tree.statement? (some statement) = some node)
    (content : node.content = .branch condition thenBody elseBody)
    (twoWay : elseBody.isSome → tree.isTwoWay (some statement) = true) :
    tree.BindsAround statement := by
  intro opens
  rcases (opensAnywhere_iff found).mp opens with isBoundary | ⟨⟨_, _, _, same⟩, notTwoWay⟩
  · rw [StatementNode.kind, content] at isBoundary
    cases isBoundary
  · obtain ⟨_, _, rfl⟩ := StatementContent.branch.inj (content.symm.trans same)
    exact absurd (twoWay rfl) notTwoWay

theorem opensAnywhere_of_rule {kind : StatementKind}
    (isKind : tree.kind? (some statement) = some kind) (rule : kind.scopeRule = .boundary) :
    tree.OpensAnywhere statement := by
  obtain ⟨node, found, rfl⟩ := Option.map_eq_some_iff.mp isKind
  exact (opensAnywhere_iff found).mpr (.inl rule)

theorem addsBleedLevel_classify (found : tree.statement? (some statement) = some node) :
    (tree.classify (some statement) position).addsBleedLevel =
      (!(tree.classify (some statement) position).isBoundary && position.isUnbracedBody) := by
  have isPosition : (tree.classify (some statement) position).position = position := by
    simp only [classify, found]
  rw [Classification.addsBleedLevel, Classification.isBoundary, isPosition]
  cases (tree.classify (some statement) position).scopeClass <;> rfl

section Children

variable (proper : tree.Proper) (found : tree.statement? (some upper) = some node)
  (listed : (some body, position) ∈ node.content.children)
include proper found listed

/-- A child stands unbraced by the position at which it is listed. -/
theorem Proper.isUnbraced_of_child : tree.isUnbraced body = position.isUnbracedBody := by
  rw [isUnbraced, proper.position?_of_child found listed, Option.any_some]

variable (notElse : position ≠ .nested .elseBody)
  (notTwoWay : position = .nested .thenBody → ¬ tree.isTwoWay (some upper) = true)
include notElse notTwoWay

/-- A child whose position opens no region adds a level if it stands unbraced and opens none
anywhere. -/
theorem Proper.addsBleedLevel_of_child :
    (tree.classify (some body) position).addsBleedLevel = true ↔
      ¬ tree.OpensAnywhere body ∧ tree.isUnbraced body = true := by
  obtain ⟨_, inner, same, bodyFound, above, _⟩ := proper.child found listed
  obtain rfl := Option.some.inj same
  have opens_iff : (tree.classify (some body) position).isBoundary = true ↔
      tree.OpensAnywhere body := by
    rw [isBoundary_classify bodyFound, or_iff_right notElse, or_iff_right]
    rintro ⟨isThen, twoWay⟩
    exact notTwoWay isThen (above ▸ twoWay)
  rw [addsBleedLevel_classify bodyFound, Bool.and_eq_true, Bool.not_eq_true', ← opens_iff,
    Bool.not_eq_true, proper.isUnbraced_of_child found listed]

/-- Where unbraced bodies were counted up from the parent of a child, the level that the child adds
makes the count right for the header of the child. -/
theorem Proper.countsHeader_child (measures : tree.Measures upper boundary depth) :
    tree.CountsHeader body boundary
      (if (tree.classify (some body) position).addsBleedLevel then depth + 1 else depth) := by
  intro around
  have isParent : tree.parent (some body) = some upper :=
    proper.parent_of_child found (List.mem_map_of_mem listed)
  have different : body ≠ boundary := by
    rintro rfl
    exact Under.not_under_child proper.ranked isParent measures.within
  have adds := proper.addsBleedLevel_of_child found listed notElse notTwoWay
  refine ⟨(Under.ofParent isParent).trans measures.within, ?_⟩
  rw [proper.unbracedBodies_of_parent isParent different, measures.bodies]
  -- A child that opens a region adds no level. Its header is bound here only if it is a switch, and
  -- then the level is the one that `IsBareSwitch` leaves out.
  by_cases opens : tree.OpensAnywhere body
  · have addsNone : ¬ (tree.classify (some body) position).addsBleedLevel = true :=
      fun holds => (adds.mp holds).1 opens
    have bare : tree.IsBareSwitch body boundary ↔ tree.isUnbraced body = true :=
      ⟨fun bare => bare.2.2, fun unbraced => ⟨different, around opens, unbraced⟩⟩
    rw [if_neg addsNone]
    simp only [bare]
  · have notBare : ¬ tree.IsBareSwitch body boundary := fun bare =>
      opens (opensAnywhere_of_rule bare.2.1 rfl)
    simp only [adds, opens, not_false_eq_true, true_and, if_neg notBare]
    split <;> rfl

end Children

end StatementTree

end LexicalScope
