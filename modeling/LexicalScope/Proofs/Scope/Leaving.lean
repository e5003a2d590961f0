import LexicalScope.Procedure.Build
import LexicalScope.Proofs.Pass.Route
import LexicalScope.Proofs.Scope.Tags

/-!
# What the exits of a tag rule out

A pass that goes through an alternative whose tag exits does not come to the point behind the
conditional. The one exception is a section of a switch: it also exits by its tag when a `break` out
of the section stands before what exits, and there the pass comes to the point behind the switch.
-/

namespace LexicalScope

namespace StatementTree

variable {tree : StatementTree} {ref : StatementRef} {refs : List StatementRef}
  {conditional body : StatementId} {number limit : Nat} {points : List Point} {exit : Exit}

private theorem content?_of_sections {sections : List StatementRef}
    (isSwitch : tree.kind? ref = some .switch)
    (children : tree.children ref = sections.map fun member => (member, Position.member)) :
    ∃ subject, tree.content? ref = some (.switch subject sections) := by
  obtain ⟨node, found, isKind⟩ := Option.map_eq_some_iff.mp isSwitch
  rw [content?_eq found]
  simp only [StatementTree.children, found, Option.map_some, Option.getD_some] at children
  obtain ⟨content, span, parent⟩ := node
  cases content with
  | switch subject others =>
      have same : others = sections :=
        List.map_injective_iff.mpr (fun _ _ => congrArg Prod.fst) children
      exact ⟨subject, by rw [same]⟩
  | _ => cases isKind

/-- What is taken to exit where a `break` is no exit is so where it is one. -/
theorem alwaysExits_of_alwaysExits {breakExits : Bool}
    (exits : tree.alwaysExits breakExits limit ref = true) :
    tree.alwaysExits true limit ref = true := by
  induction limit generalizing ref with
  | zero => cases exits
  | succ limit induction =>
      have oneOf : ∀ {members : List StatementRef},
          members.any (tree.alwaysExits breakExits limit) = true →
            members.any (tree.alwaysExits true limit) = true := fun some =>
        have ⟨member, isMember, exits⟩ := List.any_eq_true.mp some
        List.any_eq_true.mpr ⟨member, isMember, induction exits⟩
      cases known : tree.content? ref with
      | none =>
          have isNone : (tree.statement? ref).map StatementNode.content = none := known
          rw [alwaysExits, isNone] at exits
          cases exits
      | some content =>
          rw [alwaysExits_succ known] at exits ⊢
          cases content with
          | returning | throwing | continuing | breaking => rfl
          | block members | switchSection labels members => exact oneOf exits
          | branch condition thenBody elseBody =>
              cases elseBody with
              | none => cases exits
              | some elseBody =>
                  obtain ⟨thenExits, elseExits⟩ := Bool.and_eq_true_iff.mp exits
                  exact Bool.and_eq_true_iff.mpr ⟨induction thenExits, induction elseExits⟩
          | labeled label body => exact induction exits
          | _ => cases exits

namespace IsAlternative

private theorem branch_between (proper : tree.Proper)
    (isBranch : tree.kind? (some conditional) = some .branch)
    (isBody : tree.IsAlternative conditional number body) :
    tree.IsBelow body conditional ∧ ∀ around, tree.IsWithin around conditional →
      tree.IsBelow body around → tree.kind? (some around) = some .branch := by
  obtain ⟨_, link, isLink, isParent⟩ := isBody.exists_link proper isBranch
  refine ⟨⟨?_, (Under.ofParent isParent).trans (isLink.within_head proper)⟩, ?_⟩
  · rintro rfl
    exact Under.not_under_child proper.ranked isParent (isLink.within_head proper)
  · rintro around within ⟨different, inAround⟩
    obtain ⟨above, isAbove, higher⟩ := inAround.eq_or_parent.resolve_left different
    obtain rfl := Option.some.inj (isParent.symm.trans isAbove)
    exact isLink.kind_between proper higher within

/-- A pass that reaches the body of an alternative of an `if`, which no pass leaves normally, does
not leave the `if` normally. -/
theorem not_left_branch (proper : tree.Proper) (preordered : tree.Preordered)
    (isBranch : tree.kind? (some conditional) = some .branch)
    (isBody : tree.IsAlternative conditional number body)
    (leaves : ∀ rest reached exit, tree.Pass (some body :: rest) reached exit → exit ≠ .normal)
    (route : tree.Route refs points exit) (ordered : refs.Pairwise tree.Precedes)
    (reached : .before body ∈ points) : .behind conditional ∉ points := by
  intro left
  obtain ⟨below, between⟩ := isBody.branch_between proper isBranch
  obtain ⟨node, way, inside, inner, found, isWay, inRoute, normal, entered, _⟩ :=
    route.leavesPast proper preordered ordered below reached left
  have abrupt := inRoute.pass.abrupt_of_mem leaves proper (Point.mem_reached.mpr entered)
    fun {around other} known among bodyBelow => by
      have isKind := between around (proper.below_of_way found isWay among).2 bodyBelow
      rw [kind?_eq known] at isKind
      rw [Option.some.inj isKind]
      rfl
  have isKind : node.content.kind = .branch :=
    Option.some.inj ((kind?_eq found).symm.trans isBranch)
  obtain ⟨condition, thenBody, elseBody, isContent⟩ := exists_branch_of_kind isKind
  rw [isContent] at normal
  exact abrupt normal

/-- A pass that reaches a section, which no pass leaves normally, leaves the switch normally only by
a `break` out of the section. -/
theorem exists_break_of_left (proper : tree.Proper) (preordered : tree.Preordered)
    {subject : ExpressionRef} {sections : List StatementRef}
    (isContent : tree.content? (some conditional) = some (.switch subject sections))
    (isSection : some body ∈ sections)
    (leaves : ∀ rest reached exit, tree.Pass (some body :: rest) reached exit → exit ≠ .normal)
    (route : tree.Route refs points exit) (ordered : refs.Pairwise tree.Precedes)
    (reached : .before body ∈ points) (left : .behind conditional ∈ points) :
    ∃ jump, .before jump ∈ points ∧ tree.BreaksOut body jump := by
  obtain ⟨switch, switchFound, same⟩ := Option.map_eq_some_iff.mp isContent
  have listed : some body ∈ switch.content.children.map (·.1) := by
    rw [same]
    simpa [StatementContent.children, Function.comp_def] using isSection
  have below : tree.IsBelow body conditional :=
    (proper.below_iff switchFound).mpr ⟨body, listed, .refl _⟩
  obtain ⟨node, way, inside, inner, found, isWay, inRoute, normal, entered, subset⟩ :=
    route.leavesPast proper preordered ordered below reached left
  obtain rfl := Option.some.inj (switchFound.symm.trans found)
  obtain ⟨chosen, isChosen, inChosen⟩ := inRoute.among proper entered
  obtain rfl := proper.child_unique found
    ((StatementContent.sublist_of_mem_ways isWay).mem isChosen) listed inChosen (.refl _)
  rw [same] at isWay normal
  have isOnly : way = [some chosen] := by
    simp only [StatementContent.ways, List.mem_cons, List.mem_map] at isWay
    rcases isWay with rfl | ⟨other, _, rfl⟩
    · cases isChosen
    · rw [List.mem_singleton.mp isChosen]
  subst isOnly
  have breaks : inner = .breaking := by
    have abrupt := leaves _ _ _ inRoute.pass
    simp only [StatementContent.exit] at normal
    split at normal
    next isBreak => exact isBreak
    next => exact absurd normal abrupt
  subst breaks
  obtain ⟨first, jump, isFirst, jumped, out⟩ := inRoute.pass.exists_break proper
  obtain rfl := Option.some.inj (List.mem_singleton.mp isFirst)
  exact ⟨jump, subset (Point.mem_reached.mp jumped), out⟩

/-- A pass that reaches the body of an alternative, which no pass leaves normally, leaves the
conditional normally only if that is a switch, and by a `break` out of the body. -/
theorem breaksOut (proper : tree.Proper) (preordered : tree.Preordered)
    (isBody : tree.IsAlternative conditional number body)
    (leaves : ∀ rest reached exit, tree.Pass (some body :: rest) reached exit → exit ≠ .normal)
    (route : tree.Route refs points exit) (ordered : refs.Pairwise tree.Precedes)
    (reached : .before body ∈ points) (left : .behind conditional ∈ points) :
    tree.kind? (some conditional) = some .switch ∧
      ∃ jump, .before jump ∈ points ∧ tree.BreaksOut body jump := by
  have notBranch : tree.kind? (some conditional) ≠ some .branch := fun isBranch =>
    isBody.not_left_branch proper preordered isBranch leaves route ordered reached left
  cases isBody with
  | link isLink _ | last isLink _ _ => exact absurd isLink.head_kind notBranch
  | switchSection isContent isSection =>
      refine ⟨?_, exists_break_of_left proper preordered isContent (List.mem_of_getElem? isSection)
        leaves route ordered reached left⟩
      obtain ⟨node, found, same⟩ := Option.map_eq_some_iff.mp isContent
      rw [kind?_eq found, StatementNode.kind, same]
      rfl

end IsAlternative

end StatementTree

/-- A section that may break out of its switch before it returns. -/
def Procedure.breakingEarly : Procedure :=
  .plain "p" [] (.switch (.name "c")
    [.plain [.otherwise] [.ifThen (.name "a") .breaking, .returning none]])

namespace ScopeTree

variable {procedure : Procedure} {tree : StatementTree} {settings : ScopeSettings}
  {scopes : ScopeTree} {id : RegionId} {region : Region} {tag : BranchTag}

/-- A tag that exits names an alternative of a conditional. A pass that reaches the body of the
alternative comes to the point behind the conditional only if this is a switch, and by a `break` out
of the body. -/
theorem breaksOut_of_exits (laidOut : StatementTree.ofProcedure procedure = .ok tree)
    (bound : ofStatementTree settings tree = .ok scopes)
    (found : scopes.region? (some id) = some region) (isTag : region.branch = some tag)
    (exits : tag.exits = true) :
    ∃ conditional body, tag.conditional = some conditional ∧
      tree.IsAlternative conditional tag.index body ∧
      ∀ points exit, tree.Route [tree.root] points exit → .before body ∈ points →
        .behind conditional ∈ points → tree.kind? (some conditional) = some .switch ∧
          ∃ jump, .before jump ∈ points ∧ tree.BreaksOut body jump := by
  have proper := StatementTree.proper_of_ofProcedure laidOut
  have preordered : tree.Preordered := StatementTree.preordered_of_ofProcedure laidOut
  obtain ⟨conditional, body, isConditional, isBody, tells⟩ :=
    tells_of_ofStatementTree proper bound found isTag
  have leaves : ∀ rest reached exit, tree.Pass (some body :: rest) reached exit →
      exit ≠ .normal := fun _ _ _ pass =>
    pass.leaves_of_alwaysExits (StatementTree.alwaysExits_of_alwaysExits (tells.symm.trans exits))
  exact ⟨conditional, body, isConditional, isBody, fun points exit route =>
    isBody.breaksOut proper preordered leaves route (List.pairwise_singleton _ _)⟩

theorem exists_region_breakingEarly : ∃ tree scopes region span subject,
    StatementTree.ofProcedure .breakingEarly = .ok tree ∧
    ofStatementTree .default tree = .ok scopes ∧ scopes.region? (some ⟨2⟩) = some region ∧
    region.branch = some ⟨some ⟨0⟩, 0, true, span⟩ ∧
    tree.content? (some ⟨0⟩) = some (.switch subject [some ⟨1⟩]) ∧
    tree.Route [tree.root]
      [.before ⟨0⟩, .before ⟨1⟩, .before ⟨2⟩, .before ⟨3⟩, .behind ⟨0⟩] .normal := by
  have binds : Procedure.breakingEarly.binds .default (fun tree scopes =>
      decide ((scopes.region? (some ⟨2⟩)).bind Region.branch = some ⟨some ⟨0⟩, 0, true, ⟨0, 15⟩⟩ ∧
        tree.kind? (some ⟨0⟩) = some .switch ∧
        tree.children (some ⟨0⟩) = [(some ⟨1⟩, .member)] ∧
        ([.before ⟨0⟩, .before ⟨1⟩, .before ⟨2⟩, .before ⟨3⟩, .behind ⟨0⟩], Exit.normal) ∈
          tree.routes 9 [tree.root])) = true := by
    decide +kernel
  obtain ⟨tree, scopes, laidOut, bound, check⟩ := Procedure.exists_of_binds binds
  obtain ⟨isBranch, isSwitch, children, listed⟩ := of_decide_eq_true check
  obtain ⟨region, found, isTag⟩ := Option.bind_eq_some_iff.mp isBranch
  obtain ⟨subject, isContent⟩ : ∃ subject,
      tree.content? (some ⟨0⟩) = some (.switch subject [some ⟨1⟩]) :=
    StatementTree.content?_of_sections isSwitch children
  exact ⟨tree, scopes, region, _, subject, laidOut, bound, found, isTag, isContent,
    StatementTree.route_of_mem_routes listed⟩

/-- The section is left by its `break`. -/
theorem breaksOut_breakingEarly : ∃ tree scopes region tag,
    StatementTree.ofProcedure .breakingEarly = .ok tree ∧
    ofStatementTree .default tree = .ok scopes ∧ scopes.region? (some ⟨2⟩) = some region ∧
    region.branch = some tag ∧ tag.exits = true ∧
    ∃ conditional body, tag.conditional = some conditional ∧
      tree.IsAlternative conditional tag.index body ∧
      ∀ points exit, tree.Route [tree.root] points exit → .before body ∈ points →
        .behind conditional ∈ points → tree.kind? (some conditional) = some .switch ∧
          ∃ jump, .before jump ∈ points ∧ tree.BreaksOut body jump := by
  obtain ⟨tree, scopes, region, _, _, laidOut, bound, found, isTag, _⟩ :=
    exists_region_breakingEarly
  exact ⟨tree, scopes, region, _, laidOut, bound, found, isTag, rfl,
    breaksOut_of_exits laidOut bound found isTag rfl⟩

/-- The tag of the section exits, but a pass that reaches the section comes to the point behind the
switch. -/
theorem exists_left_breakingEarly : ∃ tree scopes region tag,
    StatementTree.ofProcedure .breakingEarly = .ok tree ∧
    ofStatementTree .default tree = .ok scopes ∧ scopes.region? (some ⟨2⟩) = some region ∧
    region.branch = some tag ∧ tag.exits = true ∧ tag.conditional = some ⟨0⟩ ∧
    tree.IsAlternative ⟨0⟩ tag.index ⟨1⟩ ∧
    ∃ points, tree.Route [tree.root] points .normal ∧ .before ⟨1⟩ ∈ points ∧
      .behind ⟨0⟩ ∈ points := by
  obtain ⟨tree, scopes, region, _, _, laidOut, bound, found, isTag, isContent, route⟩ :=
    exists_region_breakingEarly
  exact ⟨tree, scopes, region, _, laidOut, bound, found, isTag, rfl, rfl,
    .switchSection isContent rfl, _, route, by decide, by decide⟩

end ScopeTree

end LexicalScope
