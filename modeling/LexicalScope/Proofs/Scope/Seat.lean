import LexicalScope.Proofs.Scope.Steps

/-!
# Seats

Before a binder visits a statement there is room below the region that is open, and a tag handed to
the statement names an alternative that the statement belongs to. From such a seat the header of a
statement and its children together cover the statement.
-/

namespace LexicalScope

namespace StatementTree

variable {tree : StatementTree} {statement above : StatementId} {level other : Nat}

theorem IsLevel.unique (first : tree.IsLevel statement level)
    (second : tree.IsLevel statement other) : level = other := by
  induction first generalizing other with
  | root noParent =>
      cases second with
      | root => rfl
      | nested isParent _ => rw [noParent] at isParent; cases isParent
  | nested isParent _ induction =>
      cases second with
      | root noParent => rw [noParent] at isParent; cases isParent
      | nested isParentToo levelToo =>
          obtain rfl := Option.some.inj (isParent.symm.trans isParentToo)
          rw [induction levelToo]

theorem Proper.level_lt (proper : tree.Proper) (isLevel : tree.IsLevel statement level)
    {node : StatementNode} (found : tree.statement? (some statement) = some node) :
    level < 2 * Limit.statementNesting := by
  obtain ⟨known, bound, isKnown⟩ := proper.level found
  rw [isLevel.unique isKnown]
  exact bound

end StatementTree

namespace Binder

/-- A binder has room for regions below the one that is open. -/
structure Seated (binder : Binder) (tree : StatementTree) (depth : Nat) : Prop where
  current : ∃ id shape, binder.current = some id ∧ binder.shape? id.index = some shape ∧
    shape.depth ≤ depth
  record : binder.expressionRegions.size = tree.expressions.size

/-- The region that is open has been opened by the statement, if that is a loop or a section. -/
def Catches (binder : Binder) (tree : StatementTree) (statement : StatementId) : Prop :=
  ∀ kind, (tree.kind? (some statement)).bind StatementKind.headerRegion? = some kind →
    ∃ id shape, binder.current = some id ∧ binder.shape? id.index = some shape ∧
      shape.kind = kind ∧ shape.boundary = some statement

/-- The region that is open has been opened by a switch. -/
def InSwitch (binder : Binder) (conditional : StatementId) : Prop :=
  ∃ id shape, binder.current = some id ∧ binder.shape? id.index = some shape ∧
    shape.kind = .switch ∧ shape.boundary = some conditional

/-- A tag may be handed to a statement. -/
def MayTag (binder : Binder) (tree : StatementTree) (statement : StatementId) (tag : BranchTag) :
    Prop :=
  ∃ conditional body, tag.Fits tree conditional body ∧ tree.IsWithin statement body ∧
    (tree.kind? (some conditional) = some .switch → binder.InSwitch conditional)

variable {binder before after : Binder} {tree : StatementTree} {depth more : Nat}
  {statement : StatementId} {kind : RegionKind} {boundary : StatementRef} {span : Span}
  {branch : Option BranchTag}

namespace Seated

theorem grows (seated : before.Seated tree depth) (grows : before.Grows after) :
    after.Seated tree depth := by
  obtain ⟨id, shape, isCurrent, known, deep⟩ := seated.current
  exact ⟨⟨id, shape, grows.current.trans isCurrent, grows.known known, deep⟩,
    grows.record.trans seated.record⟩

theorem mono (seated : binder.Seated tree depth) (le : depth ≤ more) : binder.Seated tree more := by
  obtain ⟨id, shape, isCurrent, known, deep⟩ := seated.current
  exact ⟨⟨id, shape, isCurrent, known, Nat.le_trans deep le⟩, seated.record⟩

theorem valid (seated : binder.Seated tree depth) :
    ∃ id, binder.current = some id ∧ id.index < binder.regions.size := by
  obtain ⟨id, shape, isCurrent, known, _⟩ := seated.current
  exact ⟨id, isCurrent, lt_size_of_shape? known⟩

theorem depth_nextRegion (seated : binder.Seated tree depth) :
    (binder.nextRegion kind boundary span branch).depth ≤ depth + 1 := by
  obtain ⟨id, shape, isCurrent, known, deep⟩ := seated.current
  obtain ⟨region, found, rfl⟩ := Option.map_eq_some_iff.mp known
  simp only [nextRegion, isCurrent, Option.bind_some, found, Region.opened]
  exact Nat.succ_le_succ deep

theorem enter (seated : binder.Seated tree depth) :
    (binder.enter kind boundary span branch).Seated tree (depth + 1) :=
  ⟨⟨⟨binder.regions.size⟩, _, rfl, by rw [shape?_enter, if_pos rfl], seated.depth_nextRegion⟩,
    seated.record⟩

private theorem resembling (seated : before.Seated tree depth) (same : before.Resembles after) :
    after.Seated tree depth := by
  obtain ⟨id, shape, isCurrent, known, deep⟩ := seated.current
  refine ⟨⟨id, shape, same.current.trans isCurrent, ?_, deep⟩, ?_⟩
  · rw [shape?, same.regions]
    exact known
  · rw [same.expressionRegions]
    exact seated.record

end Seated

theorem InSwitch.grows {conditional : StatementId} (inSwitch : before.InSwitch conditional)
    (grows : before.Grows after) : after.InSwitch conditional := by
  obtain ⟨id, shape, isCurrent, known, isSwitch, isBoundary⟩ := inSwitch
  exact ⟨id, shape, grows.current.trans isCurrent, grows.known known, isSwitch, isBoundary⟩

private theorem InSwitch.resembling {conditional : StatementId}
    (inSwitch : before.InSwitch conditional) (same : before.Resembles after) :
    after.InSwitch conditional := by
  obtain ⟨id, shape, isCurrent, known, isSwitch, isBoundary⟩ := inSwitch
  refine ⟨id, shape, same.current.trans isCurrent, ?_, isSwitch, isBoundary⟩
  rw [shape?, same.regions]
  exact known

theorem Catches.grows (catches : before.Catches tree statement) (grows : before.Grows after) :
    after.Catches tree statement := by
  intro kind isKind
  obtain ⟨id, shape, isCurrent, known, shapeKind, isBoundary⟩ := catches kind isKind
  exact ⟨id, shape, grows.current.trans isCurrent, grows.known known, shapeKind, isBoundary⟩

theorem catches_of_none {node : StatementNode}
    (found : tree.statement? (some statement) = some node)
    (isNone : node.kind.headerRegion? = none) : binder.Catches tree statement := by
  intro kind isKind
  rw [StatementTree.kind?_eq found, Option.bind_some, isNone] at isKind
  cases isKind

/-- The region that a statement opens for its header catches what the header needs. -/
theorem catches_enter {node : StatementNode} (found : tree.statement? (some statement) = some node)
    (own : node.kind.headerRegion? = none ∨ node.kind.headerRegion? = some kind) :
    (binder.enter kind (some statement) span branch).Catches tree statement := by
  rcases own with isNone | isKind
  · exact catches_of_none found isNone
  · intro header isHeader
    rw [StatementTree.kind?_eq found, Option.bind_some, isKind] at isHeader
    obtain rfl := Option.some.inj isHeader
    exact ⟨⟨binder.regions.size⟩, _, rfl, by rw [shape?_enter, if_pos rfl], rfl, rfl⟩

/-- A statement may be visited: there is room, and a tag handed to it may be. -/
structure Ready (binder : Binder) (tree : StatementTree) (statement : StatementId)
    (branch : Option BranchTag) : Prop where
  seat : ∃ level, tree.IsLevel statement level ∧ binder.Seated tree (2 * level + 1)
  tag : ∀ tag, branch = some tag → binder.MayTag tree statement tag

/-- Below a statement there is room for its children. -/
theorem Seated.ready {above : StatementId} {level : Nat} (seated : binder.Seated tree depth)
    (isLevel : tree.IsLevel above level) (le : depth ≤ 2 * level + 3)
    (isParent : tree.parent (some statement) = some above)
    (tag : ∀ tag, branch = some tag → binder.MayTag tree statement tag) :
    binder.Ready tree statement branch :=
  ⟨⟨level + 1, .nested isParent isLevel, seated.mono le⟩, tag⟩

/-- A statement that takes no tag needs no more than a seat. -/
theorem Seated.untagged {above : StatementId} {level : Nat} (seated : binder.Seated tree depth)
    (isLevel : tree.IsLevel above level) (le : depth ≤ 2 * level + 3)
    (isParent : tree.parent (some statement) = some above) : binder.Ready tree statement none := by
  refine seated.ready isLevel le isParent fun tag isTag => ?_
  cases isTag

theorem Ready.untagged (ready : binder.Ready tree statement branch) :
    binder.Ready tree statement none := by
  refine ⟨ready.seat, fun tag isTag => ?_⟩
  cases isTag

theorem Ready.grows (ready : before.Ready tree statement branch) (grows : before.Grows after) :
    after.Ready tree statement branch := by
  obtain ⟨level, isLevel, seated⟩ := ready.seat
  refine ⟨⟨level, isLevel, seated.grows grows⟩, fun tag isTag => ?_⟩
  obtain ⟨conditional, body, fits, within, inSwitch⟩ := ready.tag tag isTag
  exact ⟨conditional, body, fits, within, fun isSwitch => (inSwitch isSwitch).grows grows⟩

theorem Ready.resembling (ready : before.Ready tree statement branch)
    (same : before.Resembles after) : after.Ready tree statement branch := by
  obtain ⟨level, isLevel, seated⟩ := ready.seat
  refine ⟨⟨level, isLevel, seated.resembling same⟩, fun tag isTag => ?_⟩
  obtain ⟨conditional, body, fits, within, inSwitch⟩ := ready.tag tag isTag
  exact ⟨conditional, body, fits, within, fun isSwitch => (inSwitch isSwitch).resembling same⟩

end Binder

/-! ## Covering whole statements -/

/-- A step of binding covers several statements with all that is below them. -/
def CoversAll (tree : StatementTree) (refs : List StatementRef) (before after : Binder) : Prop :=
  Covers tree (fun expression => ∃ statement, tree.owner expression = some statement ∧
    tree.IsAmong refs statement) (tree.IsAmong refs) (tree.IsAmong refs) before after

variable {tree : StatementTree} {before middle after : Binder} {statement : StatementId}
  {node : StatementNode} {refs others : List StatementRef} {depth : Nat}

/-- The header of a statement is covered by the steps that fill the open region with it. -/
theorem Covers.ofFills {slots : List ExpressionRef} (proper : tree.Proper)
    (fills : before.Fills after tree statement slots) (seated : before.Seated tree depth)
    (catches : before.Catches tree statement)
    (owned : ∀ whole, some whole ∈ slots → tree.owner whole = some statement) :
    Covers tree (fun part => ∃ whole, some whole ∈ slots ∧ tree.IsPart whole part)
      (fun sited => sited = statement) (fun _ => False) before after := by
  obtain ⟨current, isCurrent, bound⟩ := seated.valid
  refine ⟨fills.grows, ⟨current, isCurrent, bound⟩, fun scopes shows ranked => ?_⟩
  have opensNone : ∀ {id}, ¬ before.Opens after id := by
    rintro id ⟨lower, upper⟩
    rw [fills.still] at upper
    omega
  have home : before.IsHome after tree scopes current statement :=
    ⟨.inl isCurrent, fun _ opens => absurd opens opensNone⟩
  refine ⟨fun _ opens => absurd opens opensNone, fun _ _ opens => absurd opens opensNone,
    fun _ _ opens => absurd opens opensNone, ?_, fun part => ?_, ?_, fun i lower upper => ?_⟩
  · rintro sited rfl
    refine ⟨current, home, fun kind isKind => ?_⟩
    obtain ⟨id, shape, same, known, shapeKind, shapeBoundary⟩ := catches kind isKind
    obtain rfl := Option.some.inj (isCurrent.symm.trans same)
    obtain ⟨region, found, rfl⟩ := (shows.earlier fills.grows).region known
    exact ⟨region, found, shapeKind, shapeBoundary⟩
  · rcases fills.unchanged part with same | ⟨changed, isOwner⟩
    · exact .inl same
    · exact .inr ⟨current, statement, changed.trans isCurrent, isOwner, rfl, home⟩
  · rintro part ⟨whole, member, isPart⟩
    exact ⟨current, statement, (fills.recorded whole part member isPart).trans isCurrent,
      (proper.owner_of_part isPart).trans (owned whole member), rfl, home⟩
  · obtain ⟨declaration, found, isRegion, stands⟩ := fills.declaration i lower upper
    exact ⟨declaration, current, statement, (shows.declaration i upper).trans found,
      isRegion.trans isCurrent, stands, rfl, home⟩

/-- Binding the only expression of a header fills the open region with the header. -/
theorem Binder.Fills.ofSlot {binder : Binder} {value : ExpressionRef} (proper : tree.Proper)
    (found : tree.statement? (some statement) = some node)
    (slots : node.content.expressionSlots = [value])
    (record : binder.expressionRegions.size = tree.expressions.size) :
    binder.Fills (binder.bindExpression tree value) tree statement
      node.content.expressionSlots := by
  rw [slots]
  refine fills_bindExpression proper record fun whole same => proper.owner_of_slot found ?_
  rw [slots, same]
  exact List.mem_singleton_self _

namespace CoversAll

theorem grows (covers : CoversAll tree refs before after) : before.Grows after :=
  Covers.grows covers

theorem nothing (seated : before.Seated tree depth) : CoversAll tree [] before before := by
  refine ⟨.refl before, seated.valid, fun scopes shows ranked => ?_⟩
  have opensNone : ∀ {id}, ¬ before.Opens before id := fun opens =>
    absurd opens.2 (Nat.not_lt.mpr opens.1)
  exact ⟨fun _ opens => absurd opens opensNone, fun _ _ opens => absurd opens opensNone,
    fun _ _ opens => absurd opens opensNone, fun _ sited => absurd sited StatementTree.isAmong_nil,
    fun _ => .inl rfl, fun _ ⟨_, _, sited⟩ => absurd sited StatementTree.isAmong_nil,
    fun _ lower upper => absurd upper (Nat.not_lt.mpr lower)⟩

/-- Statements that share nothing are covered one after the other. -/
theorem append (first : CoversAll tree refs before middle)
    (second : CoversAll tree others middle after)
    (apart : ∀ inner, tree.IsAmong refs inner → ¬ tree.IsAmong others inner) :
    CoversAll tree (refs ++ others) before after := by
  have among : ∀ inner, tree.IsAmong (refs ++ others) inner ↔
      tree.IsAmong refs inner ∨ tree.IsAmong others inner := by
    intro inner
    simp only [StatementTree.IsAmong, List.mem_append, or_and_right, exists_or]
  refine (first.seq second apart fun inner inOthers inRefs => apart inner inRefs inOthers).weaken
    ?_ (fun inner => (among inner).symm) fun inner => (among inner).mpr
  rintro expression ⟨owner, isOwner, isAmong⟩
  exact ((among owner).mp isAmong).imp (⟨owner, isOwner, ·⟩) (⟨owner, isOwner, ·⟩)

/-- A statement is covered when its own expressions and its children are. -/
theorem ofParts {recorded : ExpressionId → Prop} {sited opened : StatementId → Prop}
    (proper : tree.Proper) (found : tree.statement? (some statement) = some node)
    (covers : Covers tree recorded sited opened before after)
    (own : ∀ expression, tree.owner expression = some statement → recorded expression)
    (below : ∀ expression owner, tree.owner expression = some owner →
      tree.IsAmong (node.content.children.map (·.1)) owner → recorded expression)
    (same : ∀ inner, sited inner ↔
      inner = statement ∨ tree.IsAmong (node.content.children.map (·.1)) inner)
    (less : ∀ inner, opened inner → sited inner) :
    CoversAll tree [some statement] before after := by
  have among : ∀ inner, sited inner ↔ tree.IsAmong [some statement] inner := by
    intro inner
    rw [same, ← proper.within_iff found]
    simp
  refine covers.weaken ?_ among fun inner isOpened => (among inner).mp (less inner isOpened)
  rintro expression ⟨owner, isOwner, isAmong⟩
  rcases (same owner).mp ((among owner).mpr isAmong) with rfl | isBelow
  · exact own expression isOwner
  · exact below expression owner isOwner isBelow

end CoversAll

end LexicalScope
