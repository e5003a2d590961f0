import LexicalScope.Procedure.Build
import LexicalScope.Proofs.Scope.Divisions

/-!
# Boundary statements and the regions they open

How statements are classified and which regions binding opens are decided apart from each other.
They agree: a statement other than the body of the procedure is a boundary statement if and only if
a region is opened by it, and then a region is recorded for it.
-/

namespace LexicalScope

theorem RegionRecord.size_putFirst (record : RegionRecord) (index : Nat) (region : RegionRef) :
    (record.putFirst index region).size = record.size := by
  unfold putFirst
  split
  · rfl
  · exact Array.size_setIfInBounds

namespace Binder

/-- A binder has recorded a region for each statement that opened one, and for no other. -/
structure RecordsBoundaries (statements : Nat) (binder : Binder) : Prop where
  size : binder.boundaryRegions.size = statements
  found : ∀ {statement : StatementId} {id : RegionId},
    binder.boundaryRegions.lookup statement.index = some id →
      ∃ region, binder.shape? id.index = some region ∧ region.boundary = some statement
  known : ∀ {index : Nat} {region : Region} {statement : StatementId},
    binder.shape? index = some region → region.boundary = some statement →
      statement.index < statements →
        ∃ id, binder.boundaryRegions.lookup statement.index = some id

variable {statements : Nat} {binder other : Binder} {kind : RegionKind} {boundary : StatementRef}
  {span : Span} {branch : Option BranchTag}

/-- Entering a region records it for its boundary, unless one is recorded already. -/
theorem lookup_enter (statement : StatementId) :
    (binder.enter kind boundary span branch).boundaryRegions.lookup statement.index =
      if boundary = some statement ∧ statement.index < binder.boundaryRegions.size ∧
          binder.boundaryRegions.lookup statement.index = none then
        some ⟨binder.regions.size⟩
      else binder.boundaryRegions.lookup statement.index := by
  unfold enter
  cases boundary with
  | none => simp
  | some opening =>
      by_cases same : opening = statement
      · subst same
        cases known : binder.boundaryRegions.lookup opening.index with
        | none => simp [RegionRecord.putFirst, known, lookup_put]
        | some first => simp [RegionRecord.putFirst, known]
      · have different : opening.index ≠ statement.index :=
          fun equal => same (congrArg StatementId.mk equal)
        simp only [RegionRecord.putFirst, Option.some.injEq, same, false_and, if_false]
        split
        · rfl
        · rw [lookup_put, if_neg fun both => different both.1]

private theorem shape?_enter_of_shape? {index : Nat} {region : Region}
    (isShape : binder.shape? index = some region) :
    (binder.enter kind boundary span branch).shape? index = some region := by
  obtain ⟨_, found, _⟩ := Option.map_eq_some_iff.mp isShape
  rw [shape?_enter, if_neg (Nat.ne_of_lt (Array.getElem?_eq_some_iff.mp found).1), isShape]

private theorem RecordsBoundaries.of_same (records : binder.RecordsBoundaries statements)
    (shape : ∀ index, other.shape? index = binder.shape? index)
    (same : other.boundaryRegions = binder.boundaryRegions) :
    other.RecordsBoundaries statements where
  size := same ▸ records.size
  found looked := by
    rw [same] at looked
    obtain ⟨region, isShape, isBoundary⟩ := records.found looked
    exact ⟨region, (shape _).trans isShape, isBoundary⟩
  known isShape isBoundary bounded := by
    rw [same]
    exact records.known ((shape _).symm.trans isShape) isBoundary bounded

private theorem RecordsBoundaries.enter (records : binder.RecordsBoundaries statements)
    (kind : RegionKind) (boundary : StatementRef) (span : Span) (branch : Option BranchTag) :
    (binder.enter kind boundary span branch).RecordsBoundaries statements where
  size := by
    rw [← records.size]
    cases boundary with
    | none => rfl
    | some opening => exact RegionRecord.size_putFirst ..
  found {statement id} looked := by
    rw [lookup_enter] at looked
    split at looked
    next isNew =>
      obtain rfl := Option.some.inj looked
      exact ⟨_, by rw [shape?_enter, if_pos rfl], isNew.1⟩
    next =>
      obtain ⟨region, isShape, isBoundary⟩ := records.found looked
      exact ⟨region, shape?_enter_of_shape? isShape, isBoundary⟩
  known {index region statement} isShape isBoundary bounded := by
    rw [lookup_enter]
    split
    next => exact ⟨_, rfl⟩
    next isOld =>
      rw [shape?_enter] at isShape
      split at isShape
      next =>
        obtain rfl := Option.some.inj isShape
        refine Option.ne_none_iff_exists'.mp fun unknown => isOld ⟨isBoundary, ?_, unknown⟩
        rw [records.size]
        exact bounded
      next => exact records.known isShape isBoundary bounded

private theorem preserved_recordsBoundaries (tree : StatementTree) (statements : Nat) :
    Bind.Preserved tree (RecordsBoundaries statements) where
  enter kind boundary span branch records := records.enter kind boundary span branch
  leave {binder} records := by
    refine records.of_same (fun index => by rw [shape?, shape?, regions_leave]) ?_
    unfold Binder.leave
    split <;> rfl
  declare name kind span statement expression records :=
    records.of_same (shape?_declare name kind span statement expression) rfl
  recordStatement statement _ records := by
    cases statement <;> exact records.of_same (fun _ => rfl) rfl
  recordExpression expression records := by
    cases expression <;> exact records.of_same (fun _ => rfl) rfl
  bleed _ records := records.of_same (fun _ => rfl) rfl

private theorem recordsBoundaries_blank (settings : ScopeSettings) (statements expressions : Nat) :
    (blank settings statements expressions).RecordsBoundaries statements where
  size := by simp [blank, RegionRecord.blank]
  found {statement id} looked := by
    have nothing := RegionRecord.lookup_blank statements statement.index
    exact absurd (nothing.symm.trans looked) (by rintro ⟨⟩)
  known isShape := by simp [blank, shape?] at isShape

end Binder

namespace ScopeTree

variable {procedure : Procedure} {settings : ScopeSettings} {tree : StatementTree}
  {scopes : ScopeTree} {statement : StatementId} {node : StatementNode}

/-- A region is recorded just for the statements that open one. -/
theorem isSome_boundaryRegion_iff (bound : ofStatementTree settings tree = .ok scopes)
    (inTree : statement.index < tree.statements.size) :
    (scopes.boundaryRegion (some statement)).isSome = true ↔ scopes.HasBoundary statement := by
  obtain ⟨after, succeeded, rfl⟩ := of_ofStatementTree bound
  have records : after.RecordsBoundaries tree.statements.size :=
    (Binder.preserved_recordsBoundaries tree _).of_bindProcedure succeeded
      (Binder.recordsBoundaries_blank ..)
  rw [Option.isSome_iff_exists]
  constructor
  · rintro ⟨id, looked⟩
    obtain ⟨shape, isShape, isBoundary⟩ := records.found looked
    obtain ⟨region, found, rfl⟩ := Option.map_eq_some_iff.mp isShape
    exact ⟨region, Array.mem_of_getElem? found, isBoundary⟩
  · rintro ⟨region, member, isBoundary⟩
    obtain ⟨index, found⟩ := Array.getElem?_of_mem member
    have isShape : after.shape? index = some region.shape :=
      Option.map_eq_some_iff.mpr ⟨region, found, rfl⟩
    exact records.known isShape isBoundary inTree

private theorem hasBoundary_iff (laidOut : StatementTree.ofProcedure procedure = .ok tree)
    (bound : ofStatementTree settings tree = .ok scopes)
    (found : tree.statement? (some statement) = some node) (notRoot : tree.root ≠ some statement) :
    scopes.HasBoundary statement ↔ tree.IsBoundary statement := by
  have proper := StatementTree.proper_of_ofProcedure laidOut
  have follows := follows_of_ofProcedure laidOut bound
  rw [proper.root] at notRoot
  constructor
  · rintro ⟨region, member, isBoundary⟩
    obtain ⟨index, regionFound⟩ := Array.getElem?_of_mem member
    have isInner : (⟨index⟩ : RegionId) ≠ ⟨0⟩ := by
      intro isZero
      obtain rfl := congrArg RegionId.index isZero
      obtain ⟨root, rootFound, _, _, rootBoundary, _⟩ := follows.root
      obtain rfl := Option.some.inj (Eq.trans rootFound.symm regionFound)
      exact notRoot (rootBoundary.symm.trans isBoundary)
    obtain ⟨known, isKnown, classified⟩ :=
      exists_isBoundary_of_region proper bound regionFound isInner
    obtain rfl := Option.some.inj (isKnown.symm.trans isBoundary)
    exact classified
  · intro classified
    rcases proper.listed found with rfl | ⟨above, outer, _, outerFound, listed⟩
    · exact absurd rfl notRoot
    · exact (divides_of_ofStatementTree proper bound outerFound).child outerFound listed classified

/-- The classification of a statement and the regions that binding opens agree: a statement other
than the body of the procedure is classified, as a boundary if and only if a region is recorded for
it, and then there is a region that it opens. -/
theorem isSome_boundaryRegion_iff_isBoundary
    (laidOut : StatementTree.ofProcedure procedure = .ok tree)
    (bound : ofStatementTree settings tree = .ok scopes)
    (inTree : statement.index < tree.statements.size) (notRoot : tree.root ≠ some statement) :
    ∃ classification, tree.classifyListed? (some statement) = some classification ∧
      ((scopes.boundaryRegion (some statement)).isSome = true ↔
        classification.isBoundary = true) ∧
      ((∃ region ∈ scopes.regions, region.boundary = some statement) ↔
        classification.isBoundary = true) := by
  have proper := StatementTree.proper_of_ofProcedure laidOut
  have found : tree.statement? (some statement) = some tree.statements[statement.index] :=
    Array.getElem?_eq_getElem inTree
  obtain ⟨position, isClass⟩ := proper.exists_classification found
  have isBoundary_iff : tree.IsBoundary statement ↔
      (tree.classify (some statement) position).isBoundary = true := by
    simp [StatementTree.IsBoundary, isClass]
  have opened_iff : (∃ region ∈ scopes.regions, region.boundary = some statement) ↔
      (tree.classify (some statement) position).isBoundary = true :=
    calc (∃ region ∈ scopes.regions, region.boundary = some statement)
        ↔ tree.IsBoundary statement := hasBoundary_iff laidOut bound found notRoot
      _ ↔ (tree.classify (some statement) position).isBoundary = true := isBoundary_iff
  exact ⟨_, isClass, (isSome_boundaryRegion_iff bound inTree).trans opened_iff, opened_iff⟩

end ScopeTree

/-- A label before an `if` with a plain `else`, both of whose branches are single statements. -/
def Procedure.labeledElse : Procedure :=
  .plain "p" ["a"] (.block [.labeled "l" (.ifElse (.name "a") (.returning none)
    (.evaluation (.name "a")))])

theorem ScopeTree.isSome_boundaryRegion_iff_labeledElse :
    ∃ tree scopes, StatementTree.ofProcedure .labeledElse = .ok tree ∧
      ScopeTree.ofStatementTree .default tree = .ok scopes ∧ 3 < tree.statements.size ∧
      tree.root ≠ some ⟨3⟩ ∧
      ∃ classification, tree.classifyListed? (some ⟨3⟩) = some classification ∧
        ((scopes.boundaryRegion (some ⟨3⟩)).isSome = true ↔ classification.isBoundary = true) ∧
        ((∃ region ∈ scopes.regions, region.boundary = some ⟨3⟩) ↔
          classification.isBoundary = true) := by
  have binds : Procedure.labeledElse.binds .default
      (fun tree _ => decide (3 < tree.statements.size ∧ tree.root ≠ some ⟨3⟩)) = true := by
    decide +kernel
  obtain ⟨tree, scopes, laidOut, bound, check⟩ := Procedure.exists_of_binds binds
  obtain ⟨inTree, notRoot⟩ := of_decide_eq_true check
  exact ⟨tree, scopes, laidOut, bound, inTree, notRoot,
    isSome_boundaryRegion_iff_isBoundary laidOut bound inTree notRoot⟩

end LexicalScope
