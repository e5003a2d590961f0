import LexicalScope.Proofs.Layout.Links
import LexicalScope.Proofs.Scope.Pairs

/-!
# References without declarations

The check of references passes over an expression that is recorded in no region. None is: every
expression belongs to the header of some statement, and binding the header records it. So the check
reports just the names that are read where no declaration of them is in scope.
-/

namespace LexicalScope

variable {tree : StatementTree} {scopes : ScopeTree} {globals : List String} {id : ExpressionId}
  {name : String} {finding : Finding}

/-- The expression that an unresolved reference reports. -/
def Finding.reference? : Finding → ExpressionRef
  | unresolved _ _ expression => expression
  | _ => none

private theorem ExpressionContent.reference?_eq_some_iff {content : ExpressionContent} :
    content.reference? = some name ↔ content = .name name ∨ content = .out name := by
  cases content <;> simp [reference?]

namespace StatementTree

/-- An expression is called directly by a call. -/
def IsCalled (tree : StatementTree) (id : ExpressionId) : Prop :=
  ∃ caller node arguments, tree.expression? (some caller) = some node ∧
    node.content = .call (some id) arguments

/-- Whether an expression is called can be read off the expression that it names as its holder. -/
theorem isCallee_iff {procedure : Procedure} (laidOut : ofProcedure procedure = .ok tree) :
    tree.isCallee id = true ↔ tree.IsCalled id := by
  constructor
  · intro called
    unfold isCallee at called
    split at called
    next => cases called
    next node _ =>
      split at called
      next callee arguments isCall =>
        obtain ⟨outer, outerFound, content⟩ := Option.map_eq_some_iff.mp isCall
        obtain ⟨caller, isHolder, _⟩ := Option.bind_eq_some_iff.mp outerFound
        rw [beq_iff_eq] at called
        exact ⟨caller, outer, arguments, isHolder ▸ outerFound, called ▸ content⟩
      next => cases called
  · rintro ⟨caller, outer, arguments, outerFound, content⟩
    have member : id ∈ tree.expressionChildren (some caller) := by
      simp [expressionChildren, outerFound, content, ExpressionContent.children,
        ExpressionContent.slots]
    obtain ⟨inside, _, held, _⟩ := part_of_ofProcedure laidOut _ _ member
    obtain ⟨node, found⟩ := exists_expression inside
    have isHolder : node.parent = some caller := by simpa [holder, found] using held
    simp [isCallee, found, isHolder, outerFound, content]

end StatementTree

namespace ScopeTree

private theorem Follows.resolveIn_eq_none_iff (follows : scopes.Follows tree) {region : RegionId}
    (bounded : region.index < scopes.regions.size) :
    scopes.resolveIn name (some region) = none ↔
      ∀ declaration ∈ scopes.declarations, declaration.name = name →
        ¬ scopes.InScope region declaration := by
  have found : scopes.region? (some region) = some scopes.regions[region.index] :=
    Array.getElem?_eq_getElem bounded
  rw [resolveIn, Option.bind_eq_none_iff]
  constructor
  · rintro nothing declaration member rfl inScope
    obtain ⟨number, looked⟩ := exists_lookupFrom follows.agree found
      (follows.depth_lt_regionWalk found) member inScope
    obtain ⟨_, _, isNumber, _⟩ := inScope_of_lookupFrom follows.agree looked
    exact Option.some_ne_none _ (isNumber.symm.trans (nothing number looked))
  · intro nothing number looked
    obtain ⟨declaration, member, _, isName, inScope⟩ := inScope_of_lookupFrom follows.agree looked
    exact absurd inScope (nothing declaration member isName)

/-- A variable is read, as a name or an out argument, and is neither a global nor called; and no
declaration of it lies in the region in which it is recorded or in a region around that one. -/
structure IsUnresolved (scopes : ScopeTree) (tree : StatementTree) (globals : List String)
    (id : ExpressionId) (name : String) : Prop where
  reads : ∃ node, tree.expression? (some id) = some node ∧
    (node.content = .name name ∨ node.content = .out name)
  notGlobal : name ∉ globals
  notCalled : ¬ tree.IsCalled id
  undeclared : ∃ region, scopes.regionOfExpression (some id) = some region ∧
    ∀ declaration ∈ scopes.declarations, declaration.name = name →
      ¬ scopes.InScope region declaration

theorem IsUnresolved.index_lt (unresolved : scopes.IsUnresolved tree globals id name) :
    id.index < tree.expressions.size := by
  obtain ⟨node, found, _⟩ := unresolved.reads
  exact (Array.getElem?_eq_some_iff.mp found).1

section Bound

variable {procedure : Procedure} {settings : ScopeSettings}
  (laidOut : StatementTree.ofProcedure procedure = .ok tree)
  (bound : ofStatementTree settings tree = .ok scopes)
include laidOut bound

theorem exists_regionOfExpression (inTree : id.index < tree.expressions.size) :
    ∃ region, scopes.regionOfExpression (some id) = some region ∧
      region.index < scopes.regions.size := by
  obtain ⟨node, found⟩ := StatementTree.exists_expression inTree
  obtain ⟨owner, _, isOwner, _⟩ := (StatementTree.proper_of_ofProcedure laidOut).owned found
  obtain ⟨region, isRecorded, bounded, _⟩ := (follows_of_ofProcedure laidOut bound).expression
    ((StatementTree.owner_eq found).trans isOwner)
  exact ⟨region, isRecorded, bounded⟩

private theorem checkReference_eq_some_iff : scopes.checkReference tree globals id = some finding ↔
    ∃ name, scopes.IsUnresolved tree globals id name ∧
      finding = .unresolved name (tree.expressionSpan (some id)) (some id) := by
  have follows := follows_of_ofProcedure laidOut bound
  constructor
  · intro isFinding
    simp only [checkReference, Option.bind_eq_bind, Option.bind_eq_some_iff,
      Option.ite_none_left_eq_some, Bool.or_eq_true, List.contains_iff_mem,
      StatementTree.isCallee_iff laidOut, not_or] at isFinding
    obtain ⟨node, found, name, isName, ⟨notGlobal, notCalled⟩, region, isRecorded, isFinding⟩ :=
      isFinding
    obtain ⟨recorded, same, bounded⟩ := exists_regionOfExpression laidOut bound
      (Array.getElem?_eq_some_iff.mp found).1
    obtain rfl := Option.some.inj (same.symm.trans isRecorded)
    split at isFinding
    next => cases isFinding
    next nothing =>
      have isSpan : tree.expressionSpan (some id) = node.span := by
        simp [StatementTree.expressionSpan, found]
      exact ⟨name, ⟨⟨node, found, ExpressionContent.reference?_eq_some_iff.mp isName⟩, notGlobal,
        notCalled, recorded, isRecorded, (follows.resolveIn_eq_none_iff bounded).mp nothing⟩,
        isSpan ▸ (Option.some.inj isFinding).symm⟩
  · rintro ⟨name, unresolved, rfl⟩
    obtain ⟨node, found, isName⟩ := unresolved.reads
    obtain ⟨region, isRecorded, undeclared⟩ := unresolved.undeclared
    obtain ⟨recorded, same, bounded⟩ := exists_regionOfExpression laidOut bound unresolved.index_lt
    obtain rfl := Option.some.inj (same.symm.trans isRecorded)
    have notCallee : ¬ tree.isCallee id = true :=
      (StatementTree.isCallee_iff laidOut).not.mpr unresolved.notCalled
    have nothing := (follows.resolveIn_eq_none_iff bounded).mpr undeclared
    simp [checkReference, found, ExpressionContent.reference?_eq_some_iff.mpr isName,
      unresolved.notGlobal, notCallee, isRecorded, nothing, StatementTree.expressionSpan]

end Bound

private theorem reference?_of_checkReference
    (isFinding : scopes.checkReference tree globals id = some finding) :
    finding.reference? = some id := by
  simp only [checkReference, Option.bind_eq_bind, Option.bind_eq_some_iff,
    Option.ite_none_left_eq_some] at isFinding
  obtain ⟨_, _, _, _, _, _, _, isFinding⟩ := isFinding
  split at isFinding
  · cases isFinding
  · obtain rfl := Option.some.inj isFinding
    rfl

private theorem pairwise_references :
    ((scopes.checkReferences tree globals).filterMap Finding.reference?).Pairwise
      fun first second => first.index < second.index := by
  refine pairwise_filterMap_range fun isFinding isReference => ?_
  obtain rfl := Option.some.inj ((reference?_of_checkReference isFinding).symm.trans isReference)
  rfl

/-- Globals only silence the references to them. -/
theorem checkReference_eq_filter : scopes.checkReference tree globals id =
    (scopes.checkReference tree [] id).filter fun finding => !globals.contains finding.name := by
  unfold checkReference
  rcases tree.expression? (some id) with _ | node
  · rfl
  rcases isName : node.content.reference? with _ | name
  · simp [isName]
  by_cases called : tree.isCallee id
  · simp [called]
  rcases scopes.regionOfExpression (some id) with _ | region
  · simp [called]
  rcases resolved : scopes.resolveIn name (some region) with _ | declaration
  · have names : (Finding.unresolved name node.span (some id)).name = name := rfl
    by_cases isGlobal : name ∈ globals <;>
      simp [isName, called, resolved, isGlobal, names, Option.filter]
  · simp [isName, called, resolved]

private theorem checkReferences_eq_filter (globals : List String) :
    scopes.checkReferences tree globals =
      (scopes.checkReferences tree []).filter fun finding => !globals.contains finding.name := by
  rw [checkReferences, checkReferences, List.filter_filterMap]
  exact List.filterMap_congr fun _ _ => checkReference_eq_filter

private theorem checkReferences_append (more : List String) :
    scopes.checkReferences tree (globals ++ more) =
      (scopes.checkReferences tree globals).filter fun finding => !more.contains finding.name := by
  rw [checkReferences_eq_filter, checkReferences_eq_filter globals, List.filter_filter]
  refine List.filter_congr fun finding _ => ?_
  simp [Bool.and_comm]

/-- The references that are reported, in order and none twice, are those to names that are neither
global nor called and of which no declaration is in scope. No expression escapes for want of a
region, so that adding globals removes just the findings for them. -/
theorem checkReferences_exact {procedure : Procedure} {settings : ScopeSettings}
    (laidOut : StatementTree.ofProcedure procedure = .ok tree)
    (bound : ofStatementTree settings tree = .ok scopes) (globals : List String) :
    (∀ finding, finding ∈ scopes.checkReferences tree globals ↔
      ∃ id name, scopes.IsUnresolved tree globals id name ∧
        finding = .unresolved name (tree.expressionSpan (some id)) (some id)) ∧
    (((scopes.checkReferences tree globals).filterMap Finding.reference?).Pairwise
      fun first second => first.index < second.index) ∧
    (∀ id : ExpressionId, id.index < tree.expressions.size →
      ∃ region, scopes.regionOfExpression (some id) = some region ∧
        region.index < scopes.regions.size) ∧
    ∀ more, scopes.checkReferences tree (globals ++ more) =
      (scopes.checkReferences tree globals).filter fun finding =>
        !more.contains finding.name := by
  refine ⟨fun finding => ?_, pairwise_references,
    fun id inTree => exists_regionOfExpression laidOut bound inTree, checkReferences_append⟩
  simp only [checkReferences, List.mem_filterMap, List.mem_range,
    checkReference_eq_some_iff laidOut bound]
  constructor
  · rintro ⟨index, _, name, unresolved, isFinding⟩
    exact ⟨⟨index⟩, name, unresolved, isFinding⟩
  · rintro ⟨id, name, unresolved, isFinding⟩
    exact ⟨id.index, unresolved.index_lt, name, unresolved, isFinding⟩

end ScopeTree

/-- Names in the header of a loop, in a guard and a constant of a pattern, and in a call. -/
def Procedure.referring : Procedure :=
  .plain "p" ["a"] (.whileLoop (.test (.name "a") (.constant (.name "b")))
    (.switch (.testAs (.name "c") "T" "x")
      [.plain [.matching (.negated (.constant (.name "d"))) (some (.name "x"))]
        [.evaluation (.call (.name "f") [.name "x", .out "e"]), .breaking]]))

theorem ScopeTree.checkReferences_referring :
    ∃ tree scopes, StatementTree.ofProcedure .referring = .ok tree ∧
      ofStatementTree .default tree = .ok scopes ∧
      (scopes.checkReferences tree ["c"]).map Finding.name = ["b", "d", "e"] ∧
      (∀ finding, finding ∈ scopes.checkReferences tree ["c"] ↔
        ∃ id name, scopes.IsUnresolved tree ["c"] id name ∧
          finding = .unresolved name (tree.expressionSpan (some id)) (some id)) ∧
      (((scopes.checkReferences tree ["c"]).filterMap Finding.reference?).Pairwise
        fun first second => first.index < second.index) ∧
      (∀ id : ExpressionId, id.index < tree.expressions.size →
        ∃ region, scopes.regionOfExpression (some id) = some region ∧
          region.index < scopes.regions.size) ∧
      ∀ more, scopes.checkReferences tree (["c"] ++ more) =
        (scopes.checkReferences tree ["c"]).filter fun finding =>
          !more.contains finding.name := by
  have binds : Procedure.referring.binds .default (fun tree scopes =>
      (scopes.checkReferences tree ["c"]).map Finding.name == ["b", "d", "e"]) = true := by
    decide +kernel
  obtain ⟨tree, scopes, laidOut, bound, check⟩ := Procedure.exists_of_binds binds
  exact ⟨tree, scopes, laidOut, bound, eq_of_beq check, checkReferences_exact laidOut bound ["c"]⟩

end LexicalScope
