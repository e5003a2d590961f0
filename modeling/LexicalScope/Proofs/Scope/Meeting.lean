import LexicalScope.Proofs.Scope.Consistency
import LexicalScope.Scope.Conflict

/-!
# Where two regions meet

Climbing from two regions ends in the lowest region around both. If neither region is around the
other, the regions reached last before it are different ones directly inside it.
-/

namespace LexicalScope.ScopeTree

variable {scopes : ScopeTree} {inner outer a b left right : RegionId} {meeting : Meeting}

theorem climbTo_cases {level steps : Nat} {below : RegionRef} {climb : Climb}
    (climbed : scopes.climbTo level steps inner below = some climb) :
    ∃ depth, scopes.depth? (some inner) = some depth ∧
      (depth ≤ level ∧ climb = ⟨steps, inner, below⟩ ∨
        level < depth ∧ ∃ fewer outer, steps = fewer + 1 ∧
          scopes.parent (some inner) = some outer ∧
          scopes.climbTo level fewer outer (some inner) = some climb) := by
  rw [climbTo.eq_def] at climbed
  cases isDepth : scopes.depth? (some inner) with
  | none => simp [isDepth] at climbed
  | some depth =>
      refine ⟨depth, rfl, ?_⟩
      simp only [isDepth] at climbed
      split at climbed
      next deeper =>
        split at climbed
        next fewer outer isParent => exact .inr ⟨deeper, fewer, outer, rfl, isParent, climbed⟩
        next => cases climbed
      next notDeeper => exact .inl ⟨Nat.not_lt.mp notDeeper, (Option.some.inj climbed).symm⟩

/-- Climbing to a depth ends in a region around the first one: in this one if it is not deeper, and
otherwise at that depth. -/
theorem climbTo_eq_some (agree : Consistent scopes.regions scopes.declarations) {level steps : Nat}
    {below : RegionRef} {climb : Climb}
    (climbed : scopes.climbTo level steps inner below = some climb) :
    ∃ depth, scopes.depth? (some inner) = some depth ∧ scopes.IsWithin inner climb.region ∧
      (depth ≤ level ∧ climb.region = inner ∧ climb.below = below ∨
        level < depth ∧ scopes.depth? (some climb.region) = some level) := by
  induction steps generalizing inner below with
  | zero =>
      obtain ⟨depth, isDepth, ⟨notDeeper, rfl⟩ | ⟨_, _, _, absurd, _⟩⟩ := climbTo_cases climbed
      · exact ⟨depth, isDepth, .refl _, .inl ⟨notDeeper, rfl, rfl⟩⟩
      · cases absurd
  | succ steps induction =>
      obtain ⟨depth, isDepth, ⟨notDeeper, rfl⟩ | ⟨deeper, fewer, above, one, isParent, rest⟩⟩ :=
        climbTo_cases climbed
      · exact ⟨depth, isDepth, .refl _, .inl ⟨notDeeper, rfl, rfl⟩⟩
      · obtain rfl := Nat.succ.inj one
        obtain ⟨higher, isHigher, within, reached⟩ := induction rest
        obtain ⟨known, isKnown, same⟩ := depth?_of_parent agree isParent
        obtain rfl := Option.some.inj (isHigher.symm.trans isKnown)
        obtain rfl := Option.some.inj (isDepth.symm.trans same)
        refine ⟨_, isDepth, (Under.ofParent isParent).trans within, .inr ⟨deeper, ?_⟩⟩
        rcases reached with ⟨notDeeper, isRegion, _⟩ | ⟨_, isLevel⟩
        · rw [isRegion, isKnown, Nat.le_antisymm notDeeper (Nat.lt_succ_iff.mp deeper)]
        · exact isLevel

/-- Two regions part below an outer one: they lie in different regions directly inside it. -/
structure Part (scopes : ScopeTree) (a b outer left right : RegionId) : Prop where
  different : left ≠ right
  leftParent : scopes.parent (some left) = some outer
  rightParent : scopes.parent (some right) = some outer
  inLeft : scopes.IsWithin a left
  inRight : scopes.IsWithin b right

theorem meet_cases {steps : Nat} {leftRef rightRef : RegionRef}
    (met : scopes.meet steps ⟨a, leftRef, rightRef⟩ b = some meeting) :
    (a = b ∧ meeting = ⟨a, leftRef, rightRef⟩) ∨
      a ≠ b ∧ ∃ fewer above beside, steps = fewer + 1 ∧ scopes.parent (some a) = some above ∧
        scopes.parent (some b) = some beside ∧
        scopes.meet fewer ⟨above, some a, some b⟩ beside = some meeting := by
  rw [meet.eq_def] at met
  dsimp only at met
  split at met
  next same => exact .inl ⟨same, (Option.some.inj met).symm⟩
  next different =>
    split at met
    next fewer above beside isAbove isBeside =>
      exact .inr ⟨different, fewer, above, beside, rfl, isAbove, isBeside, met⟩
    next => cases met

private theorem meet_eq_some {steps : Nat} {leftRef rightRef : RegionRef}
    (met : scopes.meet steps ⟨a, leftRef, rightRef⟩ b = some meeting) :
    (a = b ∧ meeting = ⟨a, leftRef, rightRef⟩) ∨
      ∃ left right, meeting.left = some left ∧ meeting.right = some right ∧
        scopes.Part a b meeting.region left right := by
  induction steps generalizing a b leftRef rightRef with
  | zero =>
      rcases meet_cases met with same | ⟨_, _, _, _, absurd, _⟩
      · exact .inl same
      · cases absurd
  | succ steps induction =>
      rcases meet_cases met with
        same | ⟨different, fewer, above, beside, one, isAbove, isBeside, rest⟩
      · exact .inl same
      · obtain rfl := Nat.succ.inj one
        rcases induction rest with ⟨rfl, rfl⟩ | ⟨left, right, isLeft, isRight, part⟩
        · exact .inr ⟨a, b, rfl, rfl, different, isAbove, isBeside, .refl _, .refl _⟩
        · exact .inr ⟨left, right, isLeft, isRight, part.different, part.leftParent,
            part.rightParent, (Under.ofParent isAbove).trans part.inLeft,
            (Under.ofParent isBeside).trans part.inRight⟩

/-- The walk to the lowest region around two with any limit of its steps. -/
def meetingWithin (scopes : ScopeTree) (limit : Nat) (a b : RegionId) : Option Meeting := do
  let depth ← scopes.depth? (some b)
  let left ← scopes.climbTo depth limit a none
  let depth ← scopes.depth? (some left.region)
  let right ← scopes.climbTo depth left.steps b none
  scopes.meet right.steps ⟨left.region, left.below, right.below⟩ right.region

theorem lowestCommonAncestor_some :
    scopes.lowestCommonAncestor (some a) (some b) = scopes.meetingWithin Limit.regionWalk a b :=
  rfl

/-- Climbing to the depth of the other region first and then side by side. -/
theorem meetingWithin_eq_some {limit : Nat}
    (met : scopes.meetingWithin limit a b = some meeting) :
    ∃ depth level left right, scopes.depth? (some b) = some depth ∧
      scopes.climbTo depth limit a none = some left ∧
      scopes.depth? (some left.region) = some level ∧
      scopes.climbTo level left.steps b none = some right ∧
      scopes.meet right.steps ⟨left.region, left.below, right.below⟩ right.region =
        some meeting := by
  simp only [meetingWithin, Option.bind_eq_bind, Option.bind_eq_some_iff] at met
  obtain ⟨depth, isDepth, left, leftClimb, level, isLevel, right, rightClimb, met⟩ := met
  exact ⟨depth, level, left, right, isDepth, leftClimb, isLevel, rightClimb, met⟩

/-- Where the walks from two regions meet, one of the regions is around the other, or they part. -/
theorem ends_of_meetingWithin (agree : Consistent scopes.regions scopes.declarations) {limit : Nat}
    (met : scopes.meetingWithin limit a b = some meeting) :
    (scopes.IsWithin b a ∧ meeting.left = none) ∨ (scopes.IsWithin a b ∧ meeting.right = none) ∨
      ∃ left right, meeting.left = some left ∧ meeting.right = some right ∧
        scopes.Part a b meeting.region left right := by
  obtain ⟨depth, level, first, second, isDepth, firstClimb, isLevel, secondClimb, met⟩ :=
    meetingWithin_eq_some met
  obtain ⟨_, _, inFirst, firstEnd⟩ := climbTo_eq_some agree firstClimb
  obtain ⟨known, isKnown, inSecond, secondEnd⟩ := climbTo_eq_some agree secondClimb
  obtain rfl := Option.some.inj (isDepth.symm.trans isKnown)
  rcases meet_eq_some met with ⟨same, rfl⟩ | ⟨left, right, isLeft, isRight, part⟩
  · rcases firstEnd with ⟨_, isFirst, nothing⟩ | ⟨_, reached⟩
    · exact .inl ⟨isFirst ▸ same ▸ inSecond, nothing⟩
    · obtain rfl := Option.some.inj (isLevel.symm.trans reached)
      rcases secondEnd with ⟨_, isSecond, nothing⟩ | ⟨deeper, _⟩
      · exact .inr (.inl ⟨isSecond ▸ same ▸ inFirst, nothing⟩)
      · exact absurd deeper (Nat.lt_irrefl _)
  · exact .inr (.inr ⟨left, right, isLeft, isRight, part.different, part.leftParent,
      part.rightParent, inFirst.trans part.inLeft, inSecond.trans part.inRight⟩)

/-- The lowest region around two: one of them is around the other, or they part below it. -/
theorem lowestCommonAncestor_eq_some (agree : Consistent scopes.regions scopes.declarations)
    (met : scopes.lowestCommonAncestor (some a) (some b) = some meeting) :
    (scopes.IsWithin b a ∧ meeting.left = none) ∨ (scopes.IsWithin a b ∧ meeting.right = none) ∨
      ∃ left right, meeting.left = some left ∧ meeting.right = some right ∧
        scopes.Part a b meeting.region left right := by
  rw [lowestCommonAncestor_some] at met
  exact ends_of_meetingWithin agree met

namespace Part

theorem symm (part : scopes.Part a b outer left right) : scopes.Part b a outer right left :=
  ⟨part.different.symm, part.rightParent, part.leftParent, part.inRight, part.inLeft⟩

/-- Regions that part lie one beside the other. -/
theorem not_within (ranked : Ranked (fun id => scopes.parent (some id)) RegionId.index)
    (part : scopes.Part a b outer left right) : ¬ scopes.IsWithin a b := fun within =>
  part.different (Under.child_unique ranked part.leftParent part.rightParent part.inLeft
    (within.trans part.inRight))

private theorem left_eq_of_within
    (ranked : Ranked (fun id => scopes.parent (some id)) RegionId.index)
    {other otherLeft otherRight : RegionId} (part : scopes.Part a b outer left right)
    (parts : scopes.Part a b other otherLeft otherRight) (within : scopes.IsWithin left otherLeft) :
    left = otherLeft := by
  rcases within.eq_or_parent with same | ⟨above, isAbove, higher⟩
  · exact same
  · -- Otherwise both sides of the other parting would be around the second region.
    obtain rfl := Option.some.inj (part.leftParent.symm.trans isAbove)
    have inOther : scopes.IsWithin b otherLeft :=
      (part.inRight.trans (Under.ofParent part.rightParent)).trans higher
    exact absurd (Under.child_unique ranked parts.leftParent parts.rightParent inOther
      parts.inRight) parts.different

theorem unique (ranked : Ranked (fun id => scopes.parent (some id)) RegionId.index)
    {other otherLeft otherRight : RegionId} (part : scopes.Part a b outer left right)
    (parts : scopes.Part a b other otherLeft otherRight) :
    left = otherLeft ∧ right = otherRight := by
  have same : left = otherLeft := by
    rcases part.inLeft.total parts.inLeft with within | within
    · exact part.left_eq_of_within ranked parts within
    · exact (parts.left_eq_of_within ranked part within).symm
  refine ⟨same, ?_⟩
  subst same
  obtain rfl := Option.some.inj (part.leftParent.symm.trans parts.leftParent)
  exact Under.child_unique ranked part.rightParent parts.rightParent part.inRight parts.inRight

end Part

/-- Regions that exclude each other part, and they are different alternatives of one conditional
there, or one of them is left before the other starts. -/
theorem exists_part_of_areExclusive (agree : Consistent scopes.regions scopes.declarations)
    (exclusive : scopes.areExclusive (some a) (some b) = true) :
    ∃ outer left right leftRegion rightRegion, scopes.Part a b outer left right ∧
      scopes.region? (some left) = some leftRegion ∧
      scopes.region? (some right) = some rightRegion ∧
      (leftRegion.isOtherAlternative rightRegion = true ∨
        leftRegion.exitsBefore rightRegion.span.start = true ∨
        rightRegion.exitsBefore leftRegion.span.start = true) := by
  unfold areExclusive at exclusive
  cases met : scopes.lowestCommonAncestor (some a) (some b) with
  | none => simp [met] at exclusive
  | some meeting =>
      simp only [met] at exclusive
      rcases lowestCommonAncestor_eq_some agree met with
        ⟨_, nothing⟩ | ⟨_, nothing⟩ | ⟨left, right, isLeft, isRight, part⟩
      · simp [nothing, region?] at exclusive
      · cases scopes.region? meeting.left <;> simp [nothing, region?] at exclusive
      · rw [isLeft, isRight] at exclusive
        cases leftFound : scopes.region? (some left) with
        | none => simp [leftFound] at exclusive
        | some leftRegion =>
            cases rightFound : scopes.region? (some right) with
            | none => simp [leftFound, rightFound] at exclusive
            | some rightRegion =>
                simp only [leftFound, rightFound, Bool.or_eq_true, or_assoc] at exclusive
                exact ⟨meeting.region, left, right, leftRegion, rightRegion, part, leftFound,
                  rightFound, exclusive⟩

end LexicalScope.ScopeTree
