import LexicalScope.Proofs.Scope.Reuse

/-!
# The reasons of conflicts

The walks from two regions climb first the one and then the other, and an exit is compared with a
start in one direction at a time. Still the order of the two makes no difference: regions exclude
each other by where they part, and they part in one place only. So a conflict is the same from both
sides, and its reason says how the regions lie to each other.
-/

namespace LexicalScope

namespace ScopeTree

variable {tree : StatementTree} {scopes : ScopeTree} {a b : RegionRef}

/-- Both references name something, and the region of the first is that of the second or one around
it. -/
def IsAround (scopes : ScopeTree) (outer inner : RegionRef) : Prop :=
  ∃ a b, outer = some a ∧ inner = some b ∧ scopes.IsWithin b a

/-- The region of the first reference is a proper ancestor of that of the second. -/
def IsProperlyAround (scopes : ScopeTree) (outer inner : RegionRef) : Prop :=
  outer ≠ inner ∧ scopes.IsAround outer inner

namespace Follows

/-- The walk from a reference meets just the regions around it, also if it names no region of the
tree. -/
theorem isAncestorOrSelf_iff_isAround (follows : scopes.Follows tree) :
    scopes.isAncestorOrSelf a b = true ↔ scopes.IsAround a b := by
  cases b with
  | none =>
      have nothing : scopes.isAncestorOrSelf a none = false := by
        unfold isAncestorOrSelf ancestors
        rw [Limit.regionWalk]
        rfl
      rw [nothing]
      constructor
      · intro absurd
        cases absurd
      · rintro ⟨_, _, _, absurd, _⟩
        cases absurd
  | some inner =>
      have member : ∀ outer, outer ∈ scopes.ancestors (some inner) ↔
          scopes.IsWithin inner outer := by
        intro outer
        by_cases bounded : inner.index < scopes.regions.size
        · have found : scopes.region? (some inner) = some scopes.regions[inner.index] :=
            Array.getElem?_eq_getElem bounded
          exact mem_chain_iff follows.agree found (follows.depth_lt_regionWalk found)
        · have missing : scopes.region? (some inner) = none :=
            Array.getElem?_eq_none (Nat.not_lt.mp bounded)
          exact mem_chain_of_parent_eq_none (by simp [parent, missing])
      unfold isAncestorOrSelf IsAround
      simp only [List.any_eq_true, beq_iff_eq, member]
      constructor
      · rintro ⟨outer, within, rfl⟩
        exact ⟨outer, inner, rfl, rfl, within⟩
      · rintro ⟨outer, known, rfl, same, within⟩
        obtain rfl := Option.some.inj same
        exact ⟨outer, within, rfl⟩

end Follows

/-! ## Regions that exclude each other -/

theorem exists_part_of_refs (agree : Consistent scopes.regions scopes.declarations)
    (exclusive : scopes.areExclusive a b = true) :
    ∃ x y, a = some x ∧ b = some y ∧ x.index < scopes.regions.size ∧
      y.index < scopes.regions.size ∧
      ∃ outer left right leftRegion rightRegion, scopes.Part x y outer left right ∧
        scopes.region? (some left) = some leftRegion ∧
        scopes.region? (some right) = some rightRegion ∧
        (leftRegion.isOtherAlternative rightRegion = true ∨
          leftRegion.exitsBefore rightRegion.span.start = true ∨
          rightRegion.exitsBefore leftRegion.span.start = true) := by
  have bounded : ∀ {inner outer : RegionId} {region : Region}, scopes.IsWithin inner outer →
      scopes.region? (some outer) = some region → inner.index < scopes.regions.size := by
    intro inner outer region within found
    rcases within.eq_or_parent with rfl | ⟨above, isParent, _⟩
    · exact (Array.getElem?_eq_some_iff.mp found).1
    · obtain ⟨region, found, _⟩ := Option.bind_eq_some_iff.mp isParent
      exact (Array.getElem?_eq_some_iff.mp found).1
  cases a with
  | none => cases exclusive
  | some x =>
      cases b with
      | none => cases exclusive
      | some y =>
          obtain ⟨outer, left, right, leftRegion, rightRegion, part, leftFound, rightFound,
            excluded⟩ := exists_part_of_areExclusive agree exclusive
          exact ⟨x, y, rfl, rfl, bounded part.inLeft leftFound, bounded part.inRight rightFound,
            outer, left, right, leftRegion, rightRegion, part, leftFound, rightFound, excluded⟩

namespace Follows

private theorem areExclusive_swap (follows : scopes.Follows tree)
    (exclusive : scopes.areExclusive a b = true) : scopes.areExclusive b a = true := by
  obtain ⟨x, y, rfl, rfl, xBound, yBound, outer, left, right, leftRegion, rightRegion, part,
    leftFound, rightFound, excluded⟩ := exists_part_of_refs follows.agree exclusive
  refine follows.areExclusive_of_part part.symm yBound xBound rightFound leftFound ?_
  rw [Region.isOtherAlternative_comm]
  exact excluded.imp_right Or.symm

theorem areExclusive_comm (follows : scopes.Follows tree) (a b : RegionRef) :
    scopes.areExclusive a b = scopes.areExclusive b a :=
  Bool.eq_iff_iff.mpr ⟨follows.areExclusive_swap, follows.areExclusive_swap⟩

private theorem areExclusive_eq_false (follows : scopes.Follows tree)
    (around : scopes.IsAround a b) : scopes.areExclusive a b = false := by
  refine Bool.eq_false_iff.mpr fun exclusive => ?_
  obtain ⟨x, y, rfl, rfl, _, _, _, _, _, _, _, part, _⟩ :=
    exists_part_of_refs follows.agree exclusive
  obtain ⟨outer, inner, isOuter, isInner, within⟩ := around
  obtain rfl := Option.some.inj isOuter
  obtain rfl := Option.some.inj isInner
  exact part.symm.not_within (ranked follows.agree) within

end Follows

/-! ## Conflicts of declarations -/

/-- Two declarations conflict the same from both sides, and the reason says how their regions lie to
each other. -/
structure ConflictsExactly (scopes : ScopeTree) (a b : Declaration) : Prop where
  comm : scopes.conflict? a b = scopes.conflict? b a
  otherNames : a.name ≠ b.name → scopes.conflict? a b = none
  sameRegion : a.name = b.name →
    (scopes.conflict? a b = some .sameRegion ↔ a.region = b.region)
  enclosingRegion : a.name = b.name →
    (scopes.conflict? a b = some .enclosingRegion ↔
      scopes.IsProperlyAround a.region b.region ∨ scopes.IsProperlyAround b.region a.region)
  apart : a.name = b.name → a.region ≠ b.region → ¬ scopes.IsProperlyAround a.region b.region →
    ¬ scopes.IsProperlyAround b.region a.region →
    scopes.conflict? a b =
      if scopes.areExclusive a.region b.region then none else some .sequentialRegions

/-- Whether one of two regions is properly around the other is what the conflict asks after it has
found them different. -/
theorem Follows.isProperlyAround_or_iff (follows : scopes.Follows tree) (different : a ≠ b) :
    scopes.IsProperlyAround a b ∨ scopes.IsProperlyAround b a ↔
      (scopes.isAncestorOrSelf a b || scopes.isAncestorOrSelf b a) = true := by
  rw [Bool.or_eq_true, follows.isAncestorOrSelf_iff_isAround, follows.isAncestorOrSelf_iff_isAround]
  unfold IsProperlyAround
  rw [and_iff_right different, and_iff_right different.symm]

private theorem Follows.conflictsExactly (follows : scopes.Follows tree) (a b : Declaration) :
    scopes.ConflictsExactly a b := by
  have around (different : a.region ≠ b.region) := follows.isProperlyAround_or_iff different
  constructor
  · unfold conflict?
    simp only [ne_comm (a := a.name), eq_comm (a := a.region),
      Bool.or_comm (scopes.isAncestorOrSelf a.region b.region),
      follows.areExclusive_comm a.region b.region]
  · intro otherNames
    exact if_pos otherNames
  all_goals
    intro sameName
    unfold conflict?
    rw [if_neg (not_not.mpr sameName)]
  · by_cases same : a.region = b.region
    · simp [same]
    · rw [if_neg same]
      exact iff_of_false (by split_ifs <;> simp) same
  · by_cases same : a.region = b.region
    · simp [same, IsProperlyAround]
    · rw [if_neg same, around same]
      by_cases near : (scopes.isAncestorOrSelf a.region b.region ||
          scopes.isAncestorOrSelf b.region a.region) = true
      · simp [near]
      · rw [if_neg near]
        exact iff_of_false (by split_ifs <;> simp) near
  · intro different notAround notInside
    rw [if_neg different, if_neg (mt (around different).mpr (not_or.mpr ⟨notAround, notInside⟩))]

/-- In every procedure, regions exclude each other regardless of their order and never where one is
around the other, and any two declarations conflict the same from both sides, for the reason that
their regions give. -/
theorem conflict?_exact {procedure : Procedure} {settings : ScopeSettings}
    (laidOut : StatementTree.ofProcedure procedure = .ok tree)
    (bound : ofStatementTree settings tree = .ok scopes) :
    (∀ a b, scopes.areExclusive a b = scopes.areExclusive b a) ∧
      (∀ a b, scopes.isAncestorOrSelf a b = true ↔ scopes.IsAround a b) ∧
      (∀ a b, scopes.IsAround a b → scopes.areExclusive a b = false) ∧
      ∀ a ∈ scopes.declarations, ∀ b ∈ scopes.declarations, scopes.ConflictsExactly a b :=
  have follows := follows_of_ofProcedure laidOut bound
  ⟨follows.areExclusive_comm, fun _ _ => follows.isAncestorOrSelf_iff_isAround,
    fun _ _ => follows.areExclusive_eq_false, fun a _ b _ => follows.conflictsExactly a b⟩

end ScopeTree

/-- A procedure that declares a name in a block that it leaves, in a block behind it, and around
both. -/
def Procedure.redeclaringAround : Procedure :=
  .plain "p" ["a"] (.block
    [.ifThen (.name "a") (.block [.localVariable "x" none, .returning none]),
      .block [.localVariable "x" none], .localVariable "x" none])

theorem ScopeTree.conflict?_redeclaringAround :
    ∃ tree scopes a b c, StatementTree.ofProcedure .redeclaringAround = .ok tree ∧
      ScopeTree.ofStatementTree .default tree = .ok scopes ∧ a ∈ scopes.declarations ∧
      b ∈ scopes.declarations ∧ c ∈ scopes.declarations ∧ a.name = "x" ∧ b.name = "x" ∧
      c.name = "x" ∧ scopes.conflict? a b = none ∧ scopes.conflict? b a = none ∧
      scopes.conflict? c a = some .enclosingRegion ∧
      (scopes.IsProperlyAround a.region c.region ∨ scopes.IsProperlyAround c.region a.region) := by
  have binds : Procedure.redeclaringAround.binds .default (fun _ scopes => decide (
      ∃ a ∈ scopes.declarations, ∃ b ∈ scopes.declarations, ∃ c ∈ scopes.declarations,
        a.name = "x" ∧ b.name = "x" ∧ c.name = "x" ∧ scopes.conflict? a b = none ∧
        scopes.conflict? a c = some .enclosingRegion)) = true := by
    decide +kernel
  obtain ⟨tree, scopes, laidOut, bound, check⟩ := Procedure.exists_of_binds binds
  obtain ⟨a, aMember, b, bMember, c, cMember, aName, bName, cName, exclusive, enclosing⟩ :=
    of_decide_eq_true check
  obtain ⟨_, _, _, conflicts⟩ := conflict?_exact laidOut bound
  have conflictAB := conflicts a aMember b bMember
  have conflictAC := conflicts a aMember c cMember
  exact ⟨tree, scopes, a, b, c, laidOut, bound, aMember, bMember, cMember, aName, bName, cName,
    exclusive, conflictAB.comm ▸ exclusive, conflictAC.comm ▸ enclosing,
    (conflictAC.enclosingRegion (aName.trans cName.symm)).mp enclosing⟩

end LexicalScope
