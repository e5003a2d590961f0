import LexicalScope.Procedure.Build
import LexicalScope.Proofs.Scope.Ancestry

/-!
# The lowest region around two

The walks from two regions climb to one depth and from there side by side, and note which region
each of them has left last. They meet in the deepest region around both, with its children on the
ways to the two. Every step leads one level up, and no region of a procedure lies so deep that the
limit of the steps comes into play.
-/

namespace LexicalScope

namespace ScopeTree

variable {tree : StatementTree} {scopes : ScopeTree} {inner outer start a b left right : RegionId}
  {below leftBelow rightBelow : RegionRef} {region first second : Region} {climb : Climb}
  {meeting : Meeting} {level steps limit : Nat}

/-- A reference is to the child of a region that is another region or around it, and to none just if
the two are the same. -/
structure IsTowards (scopes : ScopeTree) (inner outer : RegionId) (below : RegionRef) : Prop where
  none_iff : below = none ↔ inner = outer
  some_iff : ∀ child, below = some child ↔
    scopes.parent (some child) = some outer ∧ scopes.IsWithin inner child

/-- A meeting is in the deepest of the regions around two, with its children towards them. -/
structure IsLowestAround (scopes : ScopeTree) (a b : RegionId) (meeting : Meeting) : Prop where
  around : ∀ outer, scopes.IsWithin a outer ∧ scopes.IsWithin b outer ↔
    scopes.IsWithin meeting.region outer
  deepest : ∀ outer, scopes.IsWithin a outer → scopes.IsWithin b outer → outer ≠ meeting.region →
    ∃ upper lower, scopes.depth? (some outer) = some upper ∧
      scopes.depth? (some meeting.region) = some lower ∧ upper < lower
  left : scopes.IsTowards a meeting.region meeting.left
  right : scopes.IsTowards b meeting.region meeting.right

/-! ## What the walks note -/

/-- What a walk notes on its way from a region to one around it: nothing where it starts, and the
region that it has left last once it has taken a step. -/
inductive Notes (scopes : ScopeTree) (start : RegionId) : RegionId → RegionRef → Prop
  | here : Notes scopes start start none
  | step {inner outer : RegionId} : scopes.parent (some inner) = some outer →
      scopes.IsWithin start inner → Notes scopes start outer (some inner)

namespace Notes

theorem isWithin (notes : scopes.Notes start outer below) : scopes.IsWithin start outer := by
  cases notes with
  | here => exact .refl _
  | step isParent within => exact within.under_parent isParent

private theorem eq_of_none (notes : scopes.Notes start outer none) : start = outer := by
  cases notes
  rfl

private theorem climbTo (notes : scopes.Notes start inner below)
    (climbed : scopes.climbTo level steps inner below = some climb) :
    scopes.Notes start climb.region climb.below := by
  induction steps generalizing inner below with
  | zero =>
      obtain ⟨_, _, ⟨_, rfl⟩ | ⟨_, _, _, absurd, _⟩⟩ := climbTo_cases climbed
      · exact notes
      · cases absurd
  | succ steps induction =>
      obtain ⟨_, _, ⟨_, rfl⟩ | ⟨_, _, _, one, isParent, rest⟩⟩ := climbTo_cases climbed
      · exact notes
      · obtain rfl := Nat.succ.inj one
        exact induction (.step isParent notes.isWithin) rest

private theorem meet (leftNotes : scopes.Notes a left leftBelow)
    (rightNotes : scopes.Notes b right rightBelow)
    (met : scopes.meet steps ⟨left, leftBelow, rightBelow⟩ right = some meeting) :
    scopes.Notes a meeting.region meeting.left ∧ scopes.Notes b meeting.region meeting.right := by
  induction steps generalizing left right leftBelow rightBelow with
  | zero =>
      obtain ⟨rfl, rfl⟩ | ⟨_, _, _, _, absurd, _⟩ := meet_cases met
      · exact ⟨leftNotes, rightNotes⟩
      · cases absurd
  | succ steps induction =>
      obtain ⟨rfl, rfl⟩ | ⟨_, _, _, _, one, isAbove, isBeside, rest⟩ := meet_cases met
      · exact ⟨leftNotes, rightNotes⟩
      · obtain rfl := Nat.succ.inj one
        exact induction (.step isAbove leftNotes.isWithin) (.step isBeside rightNotes.isWithin) rest

private theorem isTowards (ranked : Ranked (fun id => scopes.parent (some id)) RegionId.index)
    (notes : scopes.Notes start outer below) : scopes.IsTowards start outer below := by
  cases notes with
  | here =>
      refine ⟨⟨fun _ => rfl, fun _ => rfl⟩, fun child => ⟨nofun, fun ⟨isParent, within⟩ => ?_⟩⟩
      exact absurd within (Under.not_under_child ranked isParent)
  | @step inner _ isParent within =>
      refine ⟨⟨nofun, ?_⟩, fun child => ⟨?_, fun ⟨isParentToo, withinToo⟩ => ?_⟩⟩
      · rintro rfl
        exact absurd within (Under.not_under_child ranked isParent)
      · rintro ⟨⟩
        exact ⟨isParent, within⟩
      · exact congrArg some (Under.child_unique ranked isParent isParentToo within withinToo)

end Notes

/-! ## Where the walks meet -/

private theorem depth_lt_of_isWithin (agree : Consistent scopes.regions scopes.declarations)
    (within : scopes.IsWithin inner outer) (different : inner ≠ outer) :
    ∃ upper lower, scopes.depth? (some outer) = some upper ∧
      scopes.depth? (some inner) = some lower ∧ upper < lower := by
  induction within using Relation.ReflTransGen.head_induction_on with
  | refl => exact absurd rfl different
  | @head inner middle isParent _ induction =>
      obtain ⟨depth, isDepth, deeper⟩ := depth?_of_parent agree isParent
      by_cases same : middle = outer
      · subst same
        exact ⟨depth, depth + 1, isDepth, deeper, Nat.lt_succ_self depth⟩
      · obtain ⟨upper, lower, isUpper, isLower, less⟩ := induction same
        obtain rfl := Option.some.inj (isDepth.symm.trans isLower)
        exact ⟨upper, depth + 1, isUpper, deeper, Nat.lt_succ_of_lt less⟩

/-- Regions that part have nothing around both but what is around the place where they part. -/
theorem Part.isWithin_of_both
    (ranked : Ranked (fun id => scopes.parent (some id)) RegionId.index) {around : RegionId}
    (part : scopes.Part a b outer left right) (leftWithin : scopes.IsWithin a around)
    (rightWithin : scopes.IsWithin b around) : scopes.IsWithin outer around := by
  have notInside : ¬ scopes.IsWithin around left := fun inside =>
    part.different (Under.child_unique ranked part.leftParent part.rightParent
      (rightWithin.trans inside) part.inRight)
  rcases part.inLeft.total leftWithin with higher | inside
  · rcases higher.eq_or_parent with same | ⟨above, isParent, higher⟩
    · exact absurd (same ▸ .refl _) notInside
    · obtain rfl := Option.some.inj (part.leftParent.symm.trans isParent)
      exact higher
  · exact absurd inside notInside

/-- Wherever the walks from two regions meet, and whatever their limit is, it is in the lowest
region around both. -/
theorem isLowestAround_of_meetingWithin (agree : Consistent scopes.regions scopes.declarations)
    (met : scopes.meetingWithin limit a b = some meeting) :
    scopes.IsLowestAround a b meeting := by
  have isRanked : Ranked (fun id => scopes.parent (some id)) RegionId.index := ranked agree
  obtain ⟨_, _, _, _, _, leftClimb, _, rightClimb, together⟩ := meetingWithin_eq_some met
  obtain ⟨leftNotes, rightNotes⟩ :=
    Notes.meet (Notes.here.climbTo leftClimb) (Notes.here.climbTo rightClimb) together
  have around : ∀ outer, scopes.IsWithin a outer ∧ scopes.IsWithin b outer ↔
      scopes.IsWithin meeting.region outer := by
    refine fun outer => ⟨fun ⟨leftWithin, rightWithin⟩ => ?_, fun within =>
      ⟨leftNotes.isWithin.trans within, rightNotes.isWithin.trans within⟩⟩
    rcases ends_of_meetingWithin agree met with ⟨_, nothing⟩ | ⟨_, nothing⟩ | ⟨_, _, _, _, part⟩
    · rw [nothing] at leftNotes
      exact leftNotes.eq_of_none ▸ leftWithin
    · rw [nothing] at rightNotes
      exact rightNotes.eq_of_none ▸ rightWithin
    · exact part.isWithin_of_both isRanked leftWithin rightWithin
  refine ⟨around, fun outer leftWithin rightWithin different => ?_, leftNotes.isTowards isRanked,
    rightNotes.isTowards isRanked⟩
  exact depth_lt_of_isWithin agree ((around outer).mp ⟨leftWithin, rightWithin⟩) different.symm

private theorem IsLowestAround.unique
    (isRanked : Ranked (fun id => scopes.parent (some id)) RegionId.index) {other : Meeting}
    (lowest : scopes.IsLowestAround a b meeting) (lowestToo : scopes.IsLowestAround a b other) :
    meeting = other := by
  have region : meeting.region = other.region :=
    Under.antisymm isRanked ((lowest.around _).mp ((lowestToo.around _).mpr (.refl _)))
      ((lowestToo.around _).mp ((lowest.around _).mpr (.refl _)))
  have towards : ∀ {start below other}, scopes.IsTowards start meeting.region below →
      scopes.IsTowards start meeting.region other → below = other := by
    intro start below other isTowards isTowardsToo
    ext child
    rw [isTowards.some_iff, isTowardsToo.some_iff]
  cases meeting
  cases other
  cases region
  cases towards lowest.left lowestToo.left
  cases towards lowest.right lowestToo.right
  rfl

/-! ## Procedures -/

private theorem length_chain (agree : Consistent scopes.regions scopes.declarations)
    (top : ∀ {id region}, scopes.region? (some id) = some region → region.parent = none →
      region.depth = 0)
    (found : scopes.region? (some inner) = some region) (enough : region.depth < steps) :
    (scopes.chain steps (some inner)).length = region.depth + 1 := by
  induction steps generalizing inner region with
  | zero => exact absurd enough (Nat.not_lt_zero _)
  | succ steps induction =>
      rw [chain, List.length_cons, parent_eq found]
      cases isParent : region.parent with
      | none =>
          have nothing : scopes.chain steps none = [] := by cases steps <;> rfl
          rw [nothing, top found isParent, List.length_nil]
      | some parent =>
          obtain ⟨_, next, nextFound, deeper⟩ := agree.parent found isParent
          rw [induction nextFound (by omega), deeper]

private theorem Follows.length_ancestors (follows : scopes.Follows tree)
    (found : scopes.region? (some inner) = some region) :
    (scopes.ancestors (some inner)).length = region.depth + 1 := by
  refine length_chain follows.agree (fun {id region} found noParent => ?_) found
    (follows.depth_lt_regionWalk found)
  refine (follows.depth_eq_zero_iff found).mpr (Decidable.byContradiction fun notRoot => ?_)
  obtain ⟨parent, _, isParent, _⟩ := follows.exists_parent found notRoot
  rw [parent_eq found, noParent] at isParent
  cases isParent

/-- Any two regions of a procedure have a lowest region around both, and it is found, also with no
more steps than the regions are deep. No region is so deep that a walk from it would be cut off, so
the regions met on the way are just those around it. -/
theorem lowestCommonAncestor_exact {procedure : Procedure} {settings : ScopeSettings}
    (laidOut : StatementTree.ofProcedure procedure = .ok tree)
    (bound : ofStatementTree settings tree = .ok scopes) :
    (∀ a b first second, scopes.region? (some a) = some first →
      scopes.region? (some b) = some second →
        ∃ meeting, scopes.lowestCommonAncestor (some a) (some b) = some meeting ∧
          scopes.IsLowestAround a b meeting ∧ ∀ limit, first.depth ≤ limit → second.depth ≤ limit →
            scopes.meetingWithin limit a b = some meeting) ∧
      ∀ inner region, scopes.region? (some inner) = some region →
        region.depth + 1 < Limit.regionWalk ∧
          (scopes.ancestors (some inner)).length = region.depth + 1 ∧
          ∀ outer, scopes.isAncestorOrSelf (some outer) (some inner) = true ↔
            Relation.ReflTransGen (fun lower upper => scopes.parent (some lower) = some upper)
              inner outer := by
  have follows := follows_of_ofProcedure laidOut bound
  refine ⟨fun a b first second leftFound rightFound => ?_, fun inner region found =>
    ⟨?_, follows.length_ancestors found, fun outer => ?_⟩⟩
  · obtain ⟨meeting, met⟩ := follows.exists_lowestCommonAncestor leftFound rightFound
    have lowest := isLowestAround_of_meetingWithin follows.agree met
    refine ⟨meeting, met, lowest, fun limit leftEnough rightEnough => ?_⟩
    obtain ⟨other, metToo⟩ :=
      follows.exists_meetingWithin leftFound rightFound leftEnough rightEnough
    have lowestToo := isLowestAround_of_meetingWithin follows.agree metToo
    rw [metToo, lowestToo.unique (ranked follows.agree) lowest]
  · exact Nat.lt_of_le_of_lt (Nat.succ_le_succ (follows.depth_le found)) (by decide)
  · exact follows.isAncestorOrSelf_iff (Array.getElem?_eq_some_iff.mp found).1

end ScopeTree

/-- A procedure with a block inside one arm of a conditional and a loop as the other arm. -/
def Procedure.parting : Procedure :=
  .plain "p" ["a"] (.block
    [.ifElse (.name "a") (.block [.block [.localVariable "x" none]])
      (.whileLoop (.name "a") (.localVariable "y" none))])

theorem ScopeTree.lowestCommonAncestor_parting :
    ∃ tree scopes meeting, StatementTree.ofProcedure .parting = .ok tree ∧
      ScopeTree.ofStatementTree .default tree = .ok scopes ∧
      scopes.lowestCommonAncestor (some ⟨2⟩) (some ⟨4⟩) = some meeting ∧
      scopes.IsLowestAround ⟨2⟩ ⟨4⟩ meeting ∧ meeting = ⟨⟨0⟩, some ⟨1⟩, some ⟨3⟩⟩ := by
  have binds : Procedure.parting.binds .default (fun _ scopes => decide (
      2 < scopes.regions.size ∧ 4 < scopes.regions.size ∧
        scopes.lowestCommonAncestor (some ⟨2⟩) (some ⟨4⟩) =
          some ⟨⟨0⟩, some ⟨1⟩, some ⟨3⟩⟩)) = true := by
    decide +kernel
  obtain ⟨tree, scopes, laidOut, bound, check⟩ := Procedure.exists_of_binds binds
  obtain ⟨leftBound, rightBound, isMeeting⟩ := of_decide_eq_true check
  obtain ⟨meeting, met, lowest, _⟩ := (lowestCommonAncestor_exact laidOut bound).1 ⟨2⟩ ⟨4⟩ _ _
    (Array.getElem?_eq_getElem leftBound) (Array.getElem?_eq_getElem rightBound)
  exact ⟨tree, scopes, meeting, laidOut, bound, met, lowest,
    Option.some.inj (met.symm.trans isMeeting)⟩

end LexicalScope
