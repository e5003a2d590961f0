import LexicalScope.Proofs.Pass.Basic

/-!
# What a pass reaches

Of the ways through a statement a pass takes only one, so it never reaches statements that are in
different ways only. Statements that always exit are left otherwise than normally, and what stands
behind them up to where the exit is caught is not reached.
-/

namespace LexicalScope.StatementTree

variable {tree : StatementTree} {refs rest way : List StatementRef}
  {reached inside : List StatementId} {exit inner : Exit} {statement id first second : StatementId}
  {node : StatementNode}

/-- What lies within a way lies below the statement. -/
theorem Proper.below_of_way (proper : tree.Proper)
    (found : tree.statement? (some statement) = some node) (isWay : way ∈ node.content.ways)
    (among : tree.IsAmong way id) : tree.IsBelow id statement := by
  obtain ⟨child, member, within⟩ := among
  rw [proper.below_iff found]
  exact ⟨child, (StatementContent.sublist_of_mem_ways isWay).mem member, within⟩

private theorem Proper.among_way (proper : tree.Proper)
    (found : tree.statement? (some statement) = some node) (isWay : way ∈ node.content.ways)
    (among : tree.IsAmong way first) (within : tree.IsWithin first id)
    (below : tree.IsBelow id statement) : tree.IsAmong way id := by
  obtain ⟨child, member, inChild⟩ := among
  obtain ⟨other, otherMember, inOther⟩ := (proper.below_iff found).mp below
  obtain rfl := proper.child_unique found
    ((StatementContent.sublist_of_mem_ways isWay).mem member) otherMember inChild
    (within.trans inOther)
  exact ⟨child, member, inOther⟩

theorem Bracketed.ordered_way (bracketed : tree.Bracketed)
    (found : tree.statement? (some statement) = some node) (isWay : way ∈ node.content.ways) :
    tree.Ordered way :=
  (bracketed.ordered found).sublist (StatementContent.sublist_of_mem_ways isWay)

namespace Pass

/-- A pass reaches statements within those that it goes through. -/
theorem among (proper : tree.Proper) (pass : tree.Pass refs reached exit) (member : id ∈ reached) :
    tree.IsAmong refs id := by
  induction pass with
  | done => cases member
  | @next statement node way rest inside behind inner exit found isWay _ _ _ insideAmong
      behindAmong =>
      rw [List.cons_append, List.mem_cons, List.mem_append] at member
      rcases member with rfl | inInside | inBehind
      · exact isAmong_cons.mpr (.inl ⟨_, rfl, .refl _⟩)
      · exact isAmong_cons.mpr
          (.inl ⟨_, rfl, (proper.below_of_way found isWay (insideAmong inInside)).2⟩)
      · exact isAmong_cons.mpr (.inr (behindAmong inBehind))
  | @leave statement node way rest inside inner found isWay _ _ insideAmong =>
      rcases List.mem_cons.mp member with rfl | inInside
      · exact isAmong_cons.mpr (.inl ⟨_, rfl, .refl _⟩)
      · exact isAmong_cons.mpr
          (.inl ⟨_, rfl, (proper.below_of_way found isWay (insideAmong inInside)).2⟩)

theorem within_of_mem (proper : tree.Proper)
    (found : tree.statement? (some statement) = some node) (isWay : way ∈ node.content.ways)
    (pass : tree.Pass way inside inner) (member : id ∈ statement :: inside) :
    tree.IsWithin id statement := by
  rcases List.mem_cons.mp member with rfl | inInside
  · exact .refl _
  · exact (proper.below_of_way found isWay (pass.among proper inInside)).2

/-- What a pass reaches within a statement below the one that it goes through is reached inside, and
the way leads to it. -/
theorem among_of_below (proper : tree.Proper)
    (found : tree.statement? (some statement) = some node) (isWay : way ∈ node.content.ways)
    (pass : tree.Pass way inside inner) (member : first ∈ statement :: inside)
    (within : tree.IsWithin first id) (below : tree.IsBelow id statement) :
    first ∈ inside ∧ tree.IsAmong way id := by
  rcases List.mem_cons.mp member with rfl | inInside
  · exact absurd (within.antisymm proper.ranked below.2).symm below.1
  · exact ⟨inInside, proper.among_way found isWay (pass.among proper inInside) within below⟩

private theorem sameWay_inside (proper : tree.Proper) {other : StatementNode}
    (isFound : tree.statement? (some statement) = some other) (isWay : way ∈ other.content.ways)
    (pass : tree.Pass way inside inner) (found : tree.statement? (some id) = some node)
    (within : tree.IsWithin id statement) (firstReached : first ∈ statement :: inside)
    (secondReached : second ∈ statement :: inside) (firstBelow : tree.IsBelow first id)
    (secondBelow : tree.IsBelow second id)
    (deeper : tree.IsAmong way id → first ∈ inside → second ∈ inside →
      ∃ way ∈ node.content.ways, tree.IsAmong way first ∧ tree.IsAmong way second) :
    ∃ way ∈ node.content.ways, tree.IsAmong way first ∧ tree.IsAmong way second := by
  by_cases same : id = statement
  · subst same
    obtain rfl := Option.some.inj (found.symm.trans isFound)
    have inside : ∀ {reached}, reached ∈ id :: inside → tree.IsBelow reached id →
        tree.IsAmong way reached := fun member below =>
      pass.among proper ((List.mem_cons.mp member).resolve_left below.1)
    exact ⟨way, isWay, inside firstReached firstBelow, inside secondReached secondBelow⟩
  · obtain ⟨firstInside, among⟩ := among_of_below proper isFound isWay pass firstReached
      firstBelow.2 ⟨same, within⟩
    obtain ⟨secondInside, _⟩ := among_of_below proper isFound isWay pass secondReached
      secondBelow.2 ⟨same, within⟩
    exact deeper among firstInside secondInside

/-- What a pass reaches below a statement lies within one way through the statement. -/
theorem sameWay (proper : tree.Proper) (bracketed : tree.Bracketed)
    (pass : tree.Pass refs reached exit) (ordered : tree.Ordered refs)
    (found : tree.statement? (some id) = some node) (among : tree.IsAmong refs id)
    (firstReached : first ∈ reached) (secondReached : second ∈ reached)
    (firstBelow : tree.IsBelow first id) (secondBelow : tree.IsBelow second id) :
    ∃ way ∈ node.content.ways, tree.IsAmong way first ∧ tree.IsAmong way second := by
  induction pass with
  | done => cases firstReached
  | @next statement other way rest inside behind inner exit isFound isWay insidePass _ behindPass
      deeper later =>
      rw [List.mem_append] at firstReached secondReached
      rcases isAmong_cons.mp among with ⟨_, same, within⟩ | inRest
      · obtain rfl := Option.some.inj same
        have notBehind : ∀ {reached}, tree.IsBelow reached id → reached ∉ behind :=
          fun below member => bracketed.apart_of_ordered proper ordered isFound
            (below.2.trans within) (behindPass.among proper member)
        exact sameWay_inside proper isFound isWay insidePass found within
          (firstReached.resolve_right (notBehind firstBelow))
          (secondReached.resolve_right (notBehind secondBelow)) firstBelow secondBelow
          (deeper (bracketed.ordered_way isFound isWay))
      · obtain ⟨later', member, inLater⟩ := inRest
        have notInside : ∀ {reached}, tree.IsBelow reached id → reached ∉ statement :: inside :=
          fun below member' => bracketed.apart_of_ordered proper ordered isFound
            (within_of_mem proper isFound isWay insidePass member')
            ⟨later', member, below.2.trans inLater⟩
        exact later (List.Pairwise.of_cons ordered) ⟨later', member, inLater⟩
          (firstReached.resolve_left (notInside firstBelow))
          (secondReached.resolve_left (notInside secondBelow))
  | @leave statement other way rest inside inner isFound isWay insidePass _ deeper =>
      rcases isAmong_cons.mp among with ⟨_, same, within⟩ | ⟨other, member, inOther⟩
      · obtain rfl := Option.some.inj same
        exact sameWay_inside proper isFound isWay insidePass found within firstReached
          secondReached firstBelow secondBelow (deeper (bracketed.ordered_way isFound isWay))
      · exact absurd ⟨other, member, firstBelow.2.trans inOther⟩
          (bracketed.apart_of_ordered proper ordered isFound
            (within_of_mem proper isFound isWay insidePass firstReached))

/-! ## Statements that always exit -/

/-- A pass through statements one of which is never left normally is not left normally. -/
theorem leaves_of_member {ref : StatementRef} (member : ref ∈ refs)
    (leaves : ∀ rest reached exit, tree.Pass (ref :: rest) reached exit → exit ≠ .normal)
    (pass : tree.Pass refs reached exit) : exit ≠ .normal := by
  induction pass with
  | done => cases member
  | next found isWay insidePass normal behindPass _ later =>
      rcases List.mem_cons.mp member with rfl | inRest
      · exact leaves _ _ _ (.next found isWay insidePass normal behindPass)
      · exact later inRest
  | leave _ _ _ abrupt _ => exact abrupt

/-- No pass leaves a statement that always exits normally. -/
theorem leaves_of_alwaysExits {limit : Nat} {ref : StatementRef}
    (exits : tree.alwaysExits true limit ref = true) (pass : tree.Pass (ref :: rest) reached exit) :
    exit ≠ .normal := by
  induction limit generalizing ref rest reached exit with
  | zero => cases exits
  | succ limit induction =>
      cases pass with
      | leave _ _ _ abrupt => exact abrupt
      | @next statement node way _ inside behind inner _ found isWay insidePass normal _ =>
          exfalso
          -- A child that always exits and is in the way is not left normally.
          have blocked : ∀ {ref}, ref ∈ way → tree.alwaysExits true limit ref = true →
              inner ≠ .normal := fun member exits =>
            leaves_of_member member (fun _ _ _ => induction exits) insidePass
          simp only [alwaysExits, found, Option.map_some] at exits
          cases content : node.content with
          | block members | switchSection labels members =>
              simp only [content, List.any_eq_true] at exits
              obtain ⟨member, isMember, exits⟩ := exits
              rw [content] at isWay normal
              obtain rfl := List.mem_singleton.mp isWay
              exact blocked isMember exits normal
          | branch condition thenBody elseBody =>
              cases elseBody with
              | none => simp [content] at exits
              | some elseBody =>
                  simp only [content, Bool.and_eq_true] at exits
                  rw [content] at isWay normal
                  simp only [StatementContent.ways, List.mem_cons, List.not_mem_nil, or_false]
                    at isWay
                  rcases isWay with rfl | rfl
                  · exact blocked List.mem_cons_self exits.1 normal
                  · exact blocked List.mem_cons_self exits.2 normal
          | labeled label body =>
              simp only [content] at exits
              rw [content] at isWay normal
              obtain rfl := List.mem_singleton.mp isWay
              exact blocked List.mem_cons_self exits normal
          | returning | throwing | breaking | continuing =>
              rw [content] at normal
              cases normal
          | _ => simp [content] at exits

end Pass

/-! ## What stands behind an exit -/

/-- Leaving the body of an alternative leads past a later statement: the body always exits, only
`if`s are between it and its conditional, the later statement starts behind the conditional, and
what catches a `break` around the conditional is around the later statement, too. -/
structure LeavesBehind (tree : StatementTree) (conditional body later : StatementId) : Prop where
  exits : ∃ limit, tree.alwaysExits true limit (some body) = true
  within : tree.IsWithin body conditional
  found : ∃ node, tree.statement? (some conditional) = some node
  between : ∀ {statement node}, tree.statement? (some statement) = some node →
    tree.IsWithin statement conditional → tree.IsBelow body statement → node.kind = .branch
  behind : (tree.span (some conditional)).stop ≤ (tree.span (some later)).start
  around : ∀ {statement node}, tree.statement? (some statement) = some node →
    tree.IsBelow conditional statement → node.kind.catchesBreak = true →
      tree.IsWithin later statement

namespace LeavesBehind

variable {conditional body later : StatementId}

private theorem apart (leaves : tree.LeavesBehind conditional body later) (proper : tree.Proper)
    (bracketed : tree.Bracketed) (within : tree.IsWithin id body) : ¬ tree.IsWithin id later := by
  obtain ⟨node, found⟩ := leaves.found
  exact bracketed.apart proper leaves.behind found (within.trans leaves.within)

/-- A pass that reaches the body leaves every statement around it abruptly, unless the later
statement is in it, too. -/
theorem abrupt (leaves : tree.LeavesBehind conditional body later) (proper : tree.Proper)
    (bracketed : tree.Bracketed) (pass : tree.Pass refs reached exit)
    (ordered : tree.Ordered refs) (among : tree.IsAmong refs body)
    (notAmong : ¬ tree.IsAmong refs later)
    (member : id ∈ reached) (within : tree.IsWithin id body) : exit ≠ .normal := by
  induction pass with
  | done => cases member
  | leave _ _ _ abrupt _ => exact abrupt
  | @next statement node way rest inside behind inner exit found isWay insidePass normal behindPass
      deeper further =>
      obtain ⟨limit, exits⟩ := leaves.exits
      rw [isAmong_cons] at notAmong
      rw [List.mem_append] at member
      rcases isAmong_cons.mp among with ⟨_, same, inStatement⟩ | inRest
      · obtain rfl := Option.some.inj same
        have notBehind : id ∉ behind := fun inBehind =>
          bracketed.apart_of_ordered proper ordered found (within.trans inStatement)
            (behindPass.among proper inBehind)
        by_cases same : body = statement
        · subst same
          exact absurd rfl (Pass.leaves_of_alwaysExits exits
            (.next found isWay insidePass normal .done))
        · obtain ⟨inInside, amongWay⟩ := Pass.among_of_below proper found isWay insidePass
            (member.resolve_right notBehind) within ⟨same, inStatement⟩
          have notWay : ¬ tree.IsAmong way later := fun inWay =>
            notAmong (.inl ⟨_, rfl, (proper.below_of_way found isWay inWay).2⟩)
          have abrupt := deeper (bracketed.ordered_way found isWay) amongWay notWay inInside
          -- The exit would have to be caught here, but nothing that catches is in between.
          rcases StatementContent.eq_normal_or_catches normal with same | catches
          · exact absurd same abrupt
          · have notBranch : ¬ tree.IsWithin statement conditional := by
              intro inConditional
              have isBranch : node.content.kind = .branch :=
                leaves.between found inConditional ⟨same, inStatement⟩
              rw [isBranch] at catches
              cases catches
            have above := (leaves.within.total inStatement).resolve_right notBranch
            refine absurd (.inl ⟨_, rfl, leaves.around found ⟨?_, above⟩ catches⟩) notAmong
            rintro rfl
            exact notBranch (.refl _)
      · refine further (List.Pairwise.of_cons ordered) inRest (fun inRest => notAmong (.inr inRest))
          (member.resolve_left fun inStatement => ?_)
        obtain ⟨other, isOther, inOther⟩ := inRest
        exact bracketed.apart_of_ordered proper ordered found
          (Pass.within_of_mem proper found isWay insidePass inStatement)
          ⟨other, isOther, within.trans inOther⟩

private theorem not_reached_inside (leaves : tree.LeavesBehind conditional body later)
    (proper : tree.Proper) (bracketed : tree.Bracketed)
    (found : tree.statement? (some statement) = some node) (isWay : way ∈ node.content.ways)
    (pass : tree.Pass way inside inner) (inStatement : tree.IsWithin body statement)
    (member : first ∈ statement :: inside) (within : tree.IsWithin first body)
    (inLater : tree.IsWithin second later)
    (deeper : tree.IsAmong way body → first ∈ inside → second ∉ inside) :
    second ∉ statement :: inside := by
  intro secondMember
  have notSame : second ≠ statement := by
    rintro rfl
    exact leaves.apart proper bracketed (.refl _) (inStatement.trans inLater)
  have different : body ≠ statement := by
    rintro rfl
    exact leaves.apart proper bracketed (Pass.within_of_mem proper found isWay pass secondMember)
      inLater
  obtain ⟨firstInside, amongWay⟩ :=
    Pass.among_of_below proper found isWay pass member within ⟨different, inStatement⟩
  exact deeper amongWay firstInside ((List.mem_cons.mp secondMember).resolve_left notSame)

/-- No pass that reaches the body reaches the later statement. -/
theorem not_reached (leaves : tree.LeavesBehind conditional body later) (proper : tree.Proper)
    (bracketed : tree.Bracketed) (pass : tree.Pass refs reached exit)
    (ordered : tree.Ordered refs) (among : tree.IsAmong refs body) (firstReached : first ∈ reached)
    (within : tree.IsWithin first body) (inLater : tree.IsWithin second later) :
    second ∉ reached := by
  induction pass with
  | done => cases firstReached
  | @next statement node way rest inside behind inner exit found isWay insidePass normal behindPass
      deeper further =>
      have separate : ∀ {id}, tree.IsWithin id statement → ¬ tree.IsAmong rest id :=
        bracketed.apart_of_ordered proper ordered found
      have orderedWay := bracketed.ordered_way found isWay
      rw [List.mem_append] at firstReached ⊢
      rcases isAmong_cons.mp among with ⟨_, same, inStatement⟩ | inRest
      · obtain rfl := Option.some.inj same
        have firstInside := firstReached.resolve_right fun inBehind =>
          separate (within.trans inStatement) (behindPass.among proper inBehind)
        rintro (secondInside | inBehind)
        · exact leaves.not_reached_inside proper bracketed found isWay insidePass inStatement
            firstInside within inLater (deeper orderedWay) secondInside
        · -- The later statement is not in this one, so this one is left abruptly.
          have notHere : ¬ tree.IsAmong [some statement] later := fun inHere =>
            separate (inLater.trans (isAmong_singleton.mp inHere))
              (behindPass.among proper inBehind)
          exact leaves.abrupt proper bracketed (.next found isWay insidePass normal .done)
            (List.pairwise_singleton _ _) (isAmong_singleton.mpr inStatement) notHere
            (List.mem_append_left _ firstInside) within rfl
      · obtain ⟨other, isOther, inOther⟩ := inRest
        have firstBehind := firstReached.resolve_left fun inHere =>
          separate (Pass.within_of_mem proper found isWay insidePass inHere)
            ⟨other, isOther, within.trans inOther⟩
        rintro (secondInside | inBehind)
        · -- The later statement would stand before the body.
          have inHere := Pass.within_of_mem proper found isWay insidePass secondInside
          have behindHere := List.rel_of_pairwise_cons ordered isOther
          have behindConditional := leaves.behind
          have := bracketed.span_within proper inOther
          have := bracketed.span_within proper leaves.within
          have := bracketed.start_le_stop (some body)
          have := bracketed.start_le_stop (some later)
          have := bracketed.start_le_stop (some statement)
          rcases inHere.total inLater with above | above
          · have := bracketed.span_within proper above
            omega
          · have := bracketed.span_within proper above
            omega
        · exact further (List.Pairwise.of_cons ordered) ⟨other, isOther, inOther⟩ firstBehind
            inBehind
  | @leave statement node way rest inside inner found isWay insidePass abrupt deeper =>
      rcases isAmong_cons.mp among with ⟨_, same, inStatement⟩ | ⟨other, isOther, inOther⟩
      · obtain rfl := Option.some.inj same
        exact leaves.not_reached_inside proper bracketed found isWay insidePass inStatement
          firstReached within inLater (deeper (bracketed.ordered_way found isWay))
      · exact absurd ⟨other, isOther, within.trans inOther⟩
          (bracketed.apart_of_ordered proper ordered found
            (Pass.within_of_mem proper found isWay insidePass firstReached))

end LeavesBehind

end LexicalScope.StatementTree
