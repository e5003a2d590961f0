import LexicalScope.Proofs.Layout.Preorder
import LexicalScope.Proofs.Pass.Reach

/-!
# The route of a pass

The route of a forward pass names the points that the pass comes to: the one before each statement
that it reaches and, where it leaves the statement normally, the one immediately behind it. What a
pass breaks out of it left at a `break` that nothing in between catches.
-/

namespace LexicalScope

private theorem StatementContent.eq_breaking_or_inner {content : StatementContent} {inner : Exit}
    (breaks : content.exit inner = .breaking) :
    content = .breaking ∨ inner = .breaking ∧ content.kind.catchesBreak = false := by
  cases content with
  | breaking => exact .inl rfl
  | returning | throwing | continuing => cases breaks
  | whileLoop | doLoop | forLoop | forEachLoop =>
      simp only [exit] at breaks
      split at breaks <;> cases breaks
  | switch subject sections =>
      simp only [exit] at breaks
      split at breaks
      next => cases breaks
      next abrupt => exact absurd breaks abrupt
  | _ => exact .inr ⟨breaks, rfl⟩

/-- A point in a pass. -/
inductive Point where
  | before (statement : StatementId)
  /-- The point immediately behind a statement. -/
  | behind (statement : StatementId)
deriving DecidableEq, Repr

namespace Point

/-- The statement at a point. -/
def statement : Point → StatementId
  | before statement | behind statement => statement

/-- The statement that a pass reaches at a point. -/
def reached? : Point → Option StatementId
  | before statement => some statement
  | behind _ => none

end Point

/-- A pass through statements one behind the other comes to some points and leaves by an exit. -/
inductive StatementTree.Route (tree : StatementTree) :
    List StatementRef → List Point → Exit → Prop
  | done : Route tree [] [] .normal
  | next {statement node way rest inside later inner exit} :
      tree.statement? (some statement) = some node → way ∈ node.content.ways →
      Route tree way inside inner → node.content.exit inner = .normal →
      Route tree rest later exit →
      Route tree (some statement :: rest)
        (.before statement :: inside ++ .behind statement :: later) exit
  | leave {statement node way rest inside inner} :
      tree.statement? (some statement) = some node → way ∈ node.content.ways →
      Route tree way inside inner → node.content.exit inner ≠ .normal →
      Route tree (some statement :: rest) (.before statement :: inside) (node.content.exit inner)

namespace StatementTree

variable {tree : StatementTree}

/-- The routes through statements one behind the other that go through fewer than `steps` statements
within statements or behind each other. -/
def routes (tree : StatementTree) : Nat → List StatementRef → List (List Point × Exit)
  | 0, _ => []
  | _ + 1, [] => [([], .normal)]
  | _ + 1, none :: _ => []
  | steps + 1, some statement :: rest =>
    match tree.statement? (some statement) with
    | none => []
    | some node =>
      node.content.ways.flatMap fun way =>
        (tree.routes steps way).flatMap fun (inside, inner) =>
          if node.content.exit inner = .normal then
            (tree.routes steps rest).map fun (later, exit) =>
              (.before statement :: inside ++ .behind statement :: later, exit)
          else
            [(.before statement :: inside, node.content.exit inner)]

theorem route_of_mem_routes {steps : Nat} {refs : List StatementRef} {points : List Point}
    {exit : Exit} (listed : (points, exit) ∈ tree.routes steps refs) :
    tree.Route refs points exit := by
  induction steps generalizing refs points exit with
  | zero => cases listed
  | succ steps induction =>
      match refs with
      | [] =>
          obtain ⟨rfl, rfl⟩ := Prod.mk.inj (List.mem_singleton.mp listed)
          exact .done
      | none :: _ => cases listed
      | some statement :: rest =>
          unfold routes at listed
          cases found : tree.statement? (some statement) with
          | none => simp [found] at listed
          | some node =>
              simp only [found, List.mem_flatMap] at listed
              obtain ⟨way, isWay, ⟨inside, inner⟩, insideListed, listed⟩ := listed
              have insideRoute := induction insideListed
              split at listed
              next normal =>
                obtain ⟨⟨later, last⟩, laterListed, same⟩ := List.mem_map.mp listed
                obtain ⟨rfl, rfl⟩ := Prod.mk.inj same
                exact .next found isWay insideRoute normal (induction laterListed)
              next abrupt =>
                obtain ⟨rfl, rfl⟩ := Prod.mk.inj (List.mem_singleton.mp listed)
                exact .leave found isWay insideRoute abrupt

variable {refs way : List StatementRef} {points inside : List Point} {exit inner : Exit}
  {statement id body : StatementId} {node : StatementNode}

/-! ## Routes and passes -/

theorem Point.mem_reached : id ∈ points.filterMap Point.reached? ↔ .before id ∈ points := by
  simp only [List.mem_filterMap]
  constructor
  · rintro ⟨point | point, member, same⟩
    · exact Option.some.inj same ▸ member
    · cases same
  · exact fun member => ⟨_, member, rfl⟩

theorem Route.pass (route : tree.Route refs points exit) :
    tree.Pass refs (points.filterMap Point.reached?) exit := by
  induction route with
  | done => exact .done
  | next found isWay _ normal _ insidePass laterPass =>
      rw [List.filterMap_append]
      exact .next found isWay insidePass normal laterPass
  | leave found isWay _ abrupt insidePass => exact .leave found isWay insidePass abrupt

/-- The passes are those that have a route. -/
theorem pass_iff_route {reached : List StatementId} : tree.Pass refs reached exit ↔
    ∃ points, tree.Route refs points exit ∧ points.filterMap Point.reached? = reached := by
  constructor
  · intro pass
    induction pass with
    | done => exact ⟨[], .done, rfl⟩
    | next found isWay _ normal _ inside later =>
        obtain ⟨insidePoints, insideRoute, rfl⟩ := inside
        obtain ⟨laterPoints, laterRoute, rfl⟩ := later
        exact ⟨_, .next found isWay insideRoute normal laterRoute, List.filterMap_append⟩
    | leave found isWay _ abrupt inside =>
        obtain ⟨insidePoints, insideRoute, rfl⟩ := inside
        exact ⟨_, .leave found isWay insideRoute abrupt, rfl⟩
  · rintro ⟨points, route, rfl⟩
    exact route.pass

/-- The points of a route lie at the statements that it goes through. -/
theorem Route.among (proper : tree.Proper) (route : tree.Route refs points exit) {point : Point}
    (member : point ∈ points) : tree.IsAmong refs point.statement := by
  induction route with
  | done => cases member
  | @next statement node way rest inside later inner exit found isWay _ _ _ insideAmong
      laterAmong =>
      rw [isAmong_cons]
      simp only [List.mem_append, List.mem_cons] at member
      rcases member with (rfl | inInside) | rfl | inLater
      · exact .inl ⟨_, rfl, .refl _⟩
      · exact .inl ⟨_, rfl, (proper.below_of_way found isWay (insideAmong inInside)).2⟩
      · exact .inl ⟨_, rfl, .refl _⟩
      · exact .inr (laterAmong inLater)
  | @leave statement node way rest inside inner found isWay _ _ insideAmong =>
      rw [isAmong_cons]
      rcases List.mem_cons.mp member with rfl | inInside
      · exact .inl ⟨_, rfl, .refl _⟩
      · exact .inl ⟨_, rfl, (proper.below_of_way found isWay (insideAmong inInside)).2⟩

/-- A route that reaches the point before one statement goes on to leave another one normally, all
among some points. -/
def LeavesPast (tree : StatementTree) (body id : StatementId) (points : List Point) : Prop :=
  ∃ node way inside inner, tree.statement? (some id) = some node ∧ way ∈ node.content.ways ∧
    tree.Route way inside inner ∧ node.content.exit inner = .normal ∧ .before body ∈ inside ∧
    inside ⊆ points

private theorem LeavesPast.mono (leaves : tree.LeavesPast body id points) {more : List Point}
    (subset : points ⊆ more) : tree.LeavesPast body id more := by
  obtain ⟨node, way, inside, inner, found, isWay, route, normal, member, within⟩ := leaves
  exact ⟨node, way, inside, inner, found, isWay, route, normal, member,
    List.Subset.trans within subset⟩

/-- A route that reaches what is below a statement and comes to the point behind the statement goes
through the statement and leaves it normally. -/
theorem Route.leavesPast (proper : tree.Proper) (preordered : tree.Preordered)
    (route : tree.Route refs points exit) (ordered : refs.Pairwise tree.Precedes)
    (below : tree.IsBelow body id) (reached : .before body ∈ points) (left : .behind id ∈ points) :
    tree.LeavesPast body id points := by
  have different : ∀ {statement}, tree.IsWithin id statement → body ≠ statement := by
    rintro statement within rfl
    exact below.1 (below.2.antisymm proper.ranked within)
  have orderedWay : ∀ {statement node way}, tree.statement? (some statement) = some node →
      way ∈ node.content.ways → way.Pairwise tree.Precedes := fun found isWay =>
    (preordered found).sublist (StatementContent.sublist_of_mem_ways isWay)
  induction route with
  | done => cases reached
  | @next statement node way rest inside later inner exit found isWay insideRoute normal laterRoute
      deeper further =>
      have apart : ∀ {inner}, tree.IsWithin inner statement → ¬ tree.IsAmong rest inner := by
        rintro inner within ⟨other, member, inOther⟩
        exact Nat.lt_irrefl _ (List.rel_of_pairwise_cons ordered member inner inner
          (isAmong_singleton.mpr within) (isAmong_singleton.mpr inOther))
      have insideSubset : inside ⊆ .before statement :: inside ++ .behind statement :: later :=
        fun _ inInside => List.mem_append_left _ (List.mem_cons_of_mem _ inInside)
      simp only [List.mem_append, List.mem_cons, reduceCtorEq, false_or] at reached left
      -- What is within the statement is reached inside.
      have reachedInside : tree.IsWithin id statement → .before body ∈ inside := fun within =>
        (reached.resolve_right fun inLater => apart (below.2.trans within)
          (laterRoute.among proper inLater)).resolve_left fun same =>
            different within (Point.before.inj same)
      rcases left with leftInside | same | leftLater
      · have within := (proper.below_of_way found isWay (insideRoute.among proper leftInside)).2
        exact (deeper (orderedWay found isWay) (reachedInside within) leftInside).mono insideSubset
      · obtain rfl := Point.behind.inj same
        exact ⟨node, way, inside, inner, found, isWay, insideRoute, normal,
          reachedInside (.refl _), insideSubset⟩
      · obtain ⟨other, isOther, inOther⟩ := laterRoute.among proper leftLater
        have notHere : ¬ tree.IsWithin body statement := fun within =>
          apart within ⟨other, isOther, below.2.trans inOther⟩
        have inLater : .before body ∈ later := reached.resolve_left fun here => notHere <| by
          rcases here with same | inInside
          · exact Point.before.inj same ▸ .refl _
          · exact (proper.below_of_way found isWay (insideRoute.among proper inInside)).2
        exact (further (List.Pairwise.of_cons ordered) inLater leftLater).mono fun _ inMore =>
          List.mem_append_right _ (List.mem_cons_of_mem _ inMore)
  | @leave statement node way rest inside inner found isWay insideRoute _ deeper =>
      simp only [List.mem_cons, reduceCtorEq, false_or] at reached left
      have within := (proper.below_of_way found isWay (insideRoute.among proper left)).2
      have reachedInside := reached.resolve_left fun same =>
        different within (Point.before.inj same)
      exact (deeper (orderedWay found isWay) reachedInside left).mono (List.subset_cons_self _ _)

/-! ## Leaving by a break -/

/-- A `break` within a statement leads out of it: nothing in between catches the `break`. -/
structure BreaksOut (tree : StatementTree) (body jump : StatementId) : Prop where
  content : tree.content? (some jump) = some .breaking
  within : tree.IsWithin jump body
  free : ∀ {around node}, tree.statement? (some around) = some node → tree.IsWithin jump around →
    tree.IsWithin around body → node.kind.catchesBreak = false

namespace Pass

variable {reached : List StatementId}

/-- A pass that is left by a `break` reaches one that leads out of a statement that it goes
through. -/
theorem exists_break (proper : tree.Proper) (pass : tree.Pass refs reached .breaking) :
    ∃ ref jump, some ref ∈ refs ∧ jump ∈ reached ∧ tree.BreaksOut ref jump := by
  generalize isBreak : Exit.breaking = exit at pass
  induction pass with
  | done => cases isBreak
  | next found isWay _ _ _ _ later =>
      obtain ⟨ref, jump, member, jumped, breaks⟩ := later isBreak
      exact ⟨ref, jump, List.mem_cons_of_mem _ member, List.mem_append_right _ jumped, breaks⟩
  | @leave statement node way rest inside inner found isWay _ _ deeper =>
      rcases StatementContent.eq_breaking_or_inner isBreak.symm with isContent | ⟨rfl, free⟩
      · refine ⟨statement, statement, List.mem_cons_self, List.mem_cons_self, ?_, .refl _, ?_⟩
        · rw [content?_eq found, isContent]
        · intro around other known above within
          obtain rfl := above.antisymm proper.ranked within
          obtain rfl := Option.some.inj (found.symm.trans known)
          rw [StatementNode.kind, isContent]
          rfl
      · obtain ⟨child, jump, member, jumped, breaks⟩ := deeper rfl
        have above := proper.parent_of_child found
          ((StatementContent.sublist_of_mem_ways isWay).mem member)
        refine ⟨statement, jump, List.mem_cons_self, List.mem_cons_of_mem _ jumped, breaks.content,
          breaks.within.under_parent above, fun {around other} known inAround within => ?_⟩
        rcases breaks.within.total inAround with inner | outer
        · rcases inner.eq_or_parent with rfl | ⟨parent, isParent, higher⟩
          · exact breaks.free known breaks.within (.refl _)
          · obtain rfl := Option.some.inj (above.symm.trans isParent)
            obtain rfl := within.antisymm proper.ranked higher
            exact Option.some.inj (found.symm.trans known) ▸ free
        · exact breaks.free known inAround outer

/-- A pass that reaches a statement no pass leaves normally is not left normally, unless something
around the statement catches a `break`. -/
theorem abrupt_of_mem (leaves : ∀ rest reached exit, tree.Pass (some body :: rest) reached exit →
      exit ≠ .normal) (proper : tree.Proper) (pass : tree.Pass refs reached exit)
    (member : body ∈ reached)
    (free : ∀ {around node}, tree.statement? (some around) = some node → tree.IsAmong refs around →
      tree.IsBelow body around → node.kind.catchesBreak = false) : exit ≠ .normal := by
  induction pass with
  | done => cases member
  | leave _ _ _ abrupt _ => exact abrupt
  | @next statement node way rest inside behind inner exit found isWay insidePass normal behindPass
      deeper further =>
      rw [List.mem_append, List.mem_cons] at member
      rcases member with (rfl | inInside) | inBehind
      · exact leaves _ _ _ (.next found isWay insidePass normal behindPass)
      · have below := proper.below_of_way found isWay (insidePass.among proper inInside)
        have abrupt := deeper inInside fun known among below =>
          free known (isAmong_cons.mpr (.inl ⟨_, rfl, (proper.below_of_way found isWay among).2⟩))
            below
        have catches := (StatementContent.eq_normal_or_catches normal).resolve_left abrupt
        have caught := free found (isAmong_cons.mpr (.inl ⟨_, rfl, .refl _⟩)) below
        exact absurd (catches.symm.trans caught) (by decide)
      · exact further inBehind fun known among => free known (isAmong_cons.mpr (.inr among))

end Pass

end StatementTree

end LexicalScope
