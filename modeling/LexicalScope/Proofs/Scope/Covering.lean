import LexicalScope.Proofs.Scope.Growth

/-!
# What a step of binding covers

A step of binding records expressions, adds declarations and opens regions. It covers a set of
statements when everything that it records or adds belongs to one of them and lands in a region
which, of all regions that the step opens, lies within exactly those that surround the statement.

Steps that cover different statements can follow each other, and a step inside a new region covers
what that region surrounds.
-/

namespace LexicalScope

/-- The kind of the region in which the header of a loop or of a section stands. -/
def StatementKind.headerRegion? : StatementKind → Option RegionKind
  | .whileLoop | .doLoop | .forLoop | .forEachLoop => some .loop
  | .switchSection => some .switchSection
  | _ => none

/-- A statement binds a name at a span: its own content does, or that of one of its expressions. -/
def StatementTree.Binds (tree : StatementTree) (statement : StatementId)
    (expression : ExpressionRef) (span : Span) : Prop :=
  (expression = none ∧ ∃ content binding, tree.content? (some statement) = some content ∧
    binding ∈ content.bindings ∧ span = binding.span) ∨
  ∃ id node binding, expression = some id ∧ tree.expression? (some id) = some node ∧
    node.statement = some statement ∧ binding ∈ node.content.bindings ∧ span = binding.span

/-- A declaration stands for a name that its statement binds. -/
def Declaration.StandsFor (tree : StatementTree) (declaration : Declaration)
    (statement : StatementId) : Prop :=
  declaration.statement = some statement ∧
    tree.Binds statement declaration.expression declaration.span

namespace Binder

/-- A region is opened between two binders. -/
def Opens (before after : Binder) (id : RegionId) : Prop :=
  before.regions.size ≤ id.index ∧ id.index < after.regions.size

/-- A region is the home of a statement as far as the regions opened between two binders go: those
around it are those that surround the statement. -/
structure IsHome (before after : Binder) (tree : StatementTree) (scopes : ScopeTree)
    (id : RegionId) (statement : StatementId) : Prop where
  place : before.current = some id ∨ before.Opens after id
  around : ∀ outer, before.Opens after outer →
    (scopes.IsWithin id outer ↔ scopes.Surrounds tree outer statement)

/-- An expression is recorded in the home of its owner, one of the `sited` statements. -/
def RecordsHome (before after : Binder) (tree : StatementTree) (scopes : ScopeTree)
    (sited : StatementId → Prop) (expression : ExpressionId) : Prop :=
  ∃ id statement, after.expressionRegions.lookup expression.index = some id ∧
    tree.owner expression = some statement ∧ sited statement ∧
    before.IsHome after tree scopes id statement

end Binder

/-- What is known of a region from the moment in which it opens: how it has come about, that it is
not deep inside, and that the alternatives of a switch lie directly in the region of the switch. -/
structure Region.Settled (tree : StatementTree) (scopes : ScopeTree) (region : Region) : Prop where
  origin : region.Origin tree
  depth : region.depth ≤ 4 * Limit.statementNesting
  inSwitch : ∀ tag conditional, region.branch = some tag → tag.conditional = some conditional →
    tree.kind? (some conditional) = some .switch → ∃ id outer, region.parent = some id ∧
      scopes.region? (some id) = some outer ∧ outer.kind = .switch ∧
      outer.boundary = some conditional

/-- What a scope tree shows of a step that records the `recorded` expressions, has homes for the
`sited` statements and opens regions around `opened` ones only. -/
structure Covering (tree : StatementTree) (scopes : ScopeTree) (recorded : ExpressionId → Prop)
    (sited opened : StatementId → Prop) (before after : Binder) : Prop where
  region : ∀ id, before.Opens after id → ∃ region parent, scopes.region? (some id) = some region ∧
    region.Settled tree scopes ∧ region.parent = some parent ∧
    (before.current = some parent ∨ before.Opens after parent)
  extent : ∀ id statement, before.Opens after id → scopes.Surrounds tree id statement →
    opened statement
  switch : ∀ id region, before.Opens after id → scopes.region? (some id) = some region →
    region.kind = .switch → ∃ parent statement, region.parent = some parent ∧
      region.boundary = some statement ∧ sited statement ∧
      before.IsHome after tree scopes parent statement
  home : ∀ statement, sited statement → ∃ id, before.IsHome after tree scopes id statement ∧
    ∀ kind, (tree.kind? (some statement)).bind StatementKind.headerRegion? = some kind →
      ∃ region, scopes.region? (some id) = some region ∧ region.kind = kind ∧
        region.boundary = some statement
  unchanged : ∀ expression : ExpressionId,
    after.expressionRegions.lookup expression.index =
      before.expressionRegions.lookup expression.index ∨
    before.RecordsHome after tree scopes sited expression
  recorded : ∀ expression, recorded expression →
    before.RecordsHome after tree scopes sited expression
  declaration : ∀ i, before.declarations.size ≤ i → i < after.declarations.size →
    ∃ declaration id statement, scopes.declarations[i]? = some declaration ∧
      declaration.region = some id ∧ declaration.StandsFor tree statement ∧ sited statement ∧
      before.IsHome after tree scopes id statement

/-- A step of binding covers the `sited` statements. -/
structure Covers (tree : StatementTree) (recorded : ExpressionId → Prop)
    (sited opened : StatementId → Prop) (before after : Binder) : Prop where
  grows : before.Grows after
  current : ∃ id, before.current = some id ∧ id.index < before.regions.size
  holds : ∀ scopes : ScopeTree, scopes.Shows after →
    Ranked (fun id => scopes.parent (some id)) RegionId.index →
      Covering tree scopes recorded sited opened before after

variable {tree : StatementTree} {scopes : ScopeTree} {recorded recordedToo : ExpressionId → Prop}
  {sited sitedToo opened openedToo : StatementId → Prop} {before middle after : Binder}

/-! ## One step after the other -/

namespace Covering

private theorem opens_or_before (covering : Covering tree scopes recorded sited opened before after)
    (ranked : Ranked (fun id => scopes.parent (some id)) RegionId.index) {id outer : RegionId}
    (place : before.current = some id ∨ before.Opens after id)
    (within : scopes.IsWithin id outer) :
    before.Opens after outer ∨
      ∃ current, before.current = some current ∧ outer.index ≤ current.index := by
  induction within using Relation.ReflTransGen.head_induction_on with
  | refl =>
      rcases place with isCurrent | opens
      · exact .inr ⟨_, isCurrent, Nat.le_refl _⟩
      · exact .inl opens
  | @head lower upper above rest induction =>
      rcases place with isCurrent | opens
      · have := ranked above
        have := Under.rank_le ranked rest
        exact .inr ⟨lower, isCurrent, by omega⟩
      · obtain ⟨region, parent, found, _, isParent, next⟩ := covering.region lower opens
        have same : scopes.parent (some lower) = some parent := by
          simp [ScopeTree.parent, found, isParent]
        obtain rfl := Option.some.inj (above.symm.trans same)
        exact induction next

/-- All that a step opens lies within the region in which it begins. -/
theorem within_current (covering : Covering tree scopes recorded sited opened before after)
    (ranked : Ranked (fun id => scopes.parent (some id)) RegionId.index) {current : RegionId}
    (isCurrent : before.current = some current) (id : RegionId)
    (place : before.current = some id ∨ before.Opens after id) : scopes.IsWithin id current := by
  rcases place with same | opens
  · obtain rfl := Option.some.inj (isCurrent.symm.trans same)
    exact .refl _
  · obtain ⟨region, parent, found, _, isParent, next⟩ := covering.region id opens
    have above : scopes.parent (some id) = some parent := by
      simp [ScopeTree.parent, found, isParent]
    have := ranked above
    exact (Under.ofParent above).trans (covering.within_current ranked isCurrent parent next)
termination_by id.index

end Covering

namespace Binder

theorem Opens.left {id : RegionId} (opens : before.Opens middle id)
    (grows : middle.Grows after) : before.Opens after id :=
  ⟨opens.1, Nat.lt_of_lt_of_le opens.2 grows.regions⟩

theorem Opens.right {id : RegionId} (opens : middle.Opens after id)
    (grows : before.Grows middle) : before.Opens after id :=
  ⟨Nat.le_trans grows.regions opens.1, opens.2⟩

theorem Opens.split {id : RegionId} (opens : before.Opens after id) (middle : Binder) :
    before.Opens middle id ∨ middle.Opens after id := by
  by_cases less : id.index < middle.regions.size
  · exact .inl ⟨opens.1, less⟩
  · exact .inr ⟨Nat.not_lt.mp less, opens.2⟩

end Binder

namespace Covers

theorem home_left (first : Covers tree recorded sited opened before middle)
    (second : Covers tree recordedToo sitedToo openedToo middle after)
    (shows : scopes.Shows after)
    (ranked : Ranked (fun id => scopes.parent (some id)) RegionId.index)
    {id : RegionId} {statement : StatementId} (apart : ¬ openedToo statement)
    (home : before.IsHome middle tree scopes id statement) :
    before.IsHome after tree scopes id statement := by
  refine ⟨home.place.imp_right (·.left second.grows), fun outer opens => ?_⟩
  rcases opens.split middle with opens | opens
  · exact home.around outer opens
  · constructor
    · intro within
      have upper := Under.rank_le ranked within
      have lower := opens.1
      have sizes := first.grows.regions
      obtain ⟨current, isCurrent, bound⟩ := first.current
      rcases home.place with known | known
      · obtain rfl := Option.some.inj (isCurrent.symm.trans known)
        omega
      · have := known.2
        omega
    · intro surrounds
      exact absurd ((second.holds scopes shows ranked).extent outer statement opens surrounds) apart

theorem home_right (first : Covers tree recorded sited opened before middle)
    (second : Covers tree recordedToo sitedToo openedToo middle after)
    (shows : scopes.Shows after)
    (ranked : Ranked (fun id => scopes.parent (some id)) RegionId.index)
    {id : RegionId} {statement : StatementId} (apart : ¬ opened statement)
    (home : middle.IsHome after tree scopes id statement) :
    before.IsHome after tree scopes id statement := by
  refine ⟨?_, fun outer opens => ?_⟩
  · rw [← first.grows.current]
    exact home.place.imp_right (·.right first.grows)
  · rcases opens.split middle with opens | opens
    · constructor
      · intro within
        -- The way up leaves what the second step opened at the region in which it began.
        have covering := second.holds scopes shows ranked
        obtain ⟨current, isCurrent, bound⟩ := first.current
        have lower := opens.1
        have upper := opens.2
        rcases covering.opens_or_before ranked home.place within with later | ⟨same, known, _⟩
        · have := later.1
          omega
        · rw [first.grows.current] at known
          obtain rfl := Option.some.inj (isCurrent.symm.trans known)
          omega
      · intro surrounds
        exact absurd ((first.holds scopes (shows.earlier second.grows) ranked).extent outer
          statement opens surrounds) apart
    · exact home.around outer opens

private theorem records_left (first : Covers tree recorded sited opened before middle)
    (second : Covers tree recordedToo sitedToo openedToo middle after)
    (shows : scopes.Shows after)
    (ranked : Ranked (fun id => scopes.parent (some id)) RegionId.index)
    (left : ∀ statement, sited statement → ¬ openedToo statement)
    (right : ∀ statement, sitedToo statement → ¬ opened statement) {expression : ExpressionId}
    (records : before.RecordsHome middle tree scopes sited expression) :
    before.RecordsHome after tree scopes (fun statement => sited statement ∨ sitedToo statement)
      expression := by
  rcases (second.holds scopes shows ranked).unchanged expression with same | later
  · obtain ⟨id, statement, known, owned, isSited, home⟩ := records
    exact ⟨id, statement, same.trans known, owned, .inl isSited,
      first.home_left second shows ranked (left statement isSited) home⟩
  · obtain ⟨id, statement, known, owned, isSited, home⟩ := later
    exact ⟨id, statement, known, owned, .inr isSited,
      first.home_right second shows ranked (right statement isSited) home⟩

private theorem records_right (first : Covers tree recorded sited opened before middle)
    (second : Covers tree recordedToo sitedToo openedToo middle after)
    (shows : scopes.Shows after)
    (ranked : Ranked (fun id => scopes.parent (some id)) RegionId.index)
    (right : ∀ statement, sitedToo statement → ¬ opened statement) {expression : ExpressionId}
    (records : middle.RecordsHome after tree scopes sitedToo expression) :
    before.RecordsHome after tree scopes (fun statement => sited statement ∨ sitedToo statement)
      expression := by
  obtain ⟨id, statement, known, owned, isSited, home⟩ := records
  exact ⟨id, statement, known, owned, .inr isSited,
    first.home_right second shows ranked (right statement isSited) home⟩

/-- Steps follow each other when neither opens a region around what the other covers. -/
theorem seq (first : Covers tree recorded sited opened before middle)
    (second : Covers tree recordedToo sitedToo openedToo middle after)
    (left : ∀ statement, sited statement → ¬ openedToo statement)
    (right : ∀ statement, sitedToo statement → ¬ opened statement) :
    Covers tree (fun expression => recorded expression ∨ recordedToo expression)
      (fun statement => sited statement ∨ sitedToo statement)
      (fun statement => opened statement ∨ openedToo statement) before after := by
  refine ⟨first.grows.trans second.grows, first.current, fun scopes shows ranked => ?_⟩
  have shown := first.holds scopes (shows.earlier second.grows) ranked
  have shownToo := second.holds scopes shows ranked
  refine ⟨fun id opens => ?_, fun id statement opens surrounds => ?_,
    fun id region opens found isSwitch => ?_, fun statement isSited => ?_, fun expression => ?_,
    fun expression isRecorded => ?_, fun i lower upper => ?_⟩
  · rcases opens.split middle with opens | opens
    · obtain ⟨region, parent, found, settled, isParent, next⟩ := shown.region id opens
      exact ⟨region, parent, found, settled, isParent, next.imp_right (·.left second.grows)⟩
    · obtain ⟨region, parent, found, settled, isParent, next⟩ := shownToo.region id opens
      rw [first.grows.current] at next
      exact ⟨region, parent, found, settled, isParent, next.imp_right (·.right first.grows)⟩
  · rcases opens.split middle with opens | opens
    · exact .inl (shown.extent id statement opens surrounds)
    · exact .inr (shownToo.extent id statement opens surrounds)
  · rcases opens.split middle with opens | opens
    · obtain ⟨parent, statement, isParent, boundary, isSited, home⟩ :=
        shown.switch id region opens found isSwitch
      exact ⟨parent, statement, isParent, boundary, .inl isSited,
        first.home_left second shows ranked (left statement isSited) home⟩
    · obtain ⟨parent, statement, isParent, boundary, isSited, home⟩ :=
        shownToo.switch id region opens found isSwitch
      exact ⟨parent, statement, isParent, boundary, .inr isSited,
        first.home_right second shows ranked (right statement isSited) home⟩
  · rcases isSited with isSited | isSited
    · obtain ⟨id, home, header⟩ := shown.home statement isSited
      exact ⟨id, first.home_left second shows ranked (left statement isSited) home, header⟩
    · obtain ⟨id, home, header⟩ := shownToo.home statement isSited
      exact ⟨id, first.home_right second shows ranked (right statement isSited) home, header⟩
  · rcases shownToo.unchanged expression with same | later
    · rcases shown.unchanged expression with sameToo | earlier
      · exact .inl (same.trans sameToo)
      · exact .inr (first.records_left second shows ranked left right earlier)
    · exact .inr (first.records_right second shows ranked right later)
  · rcases isRecorded with isRecorded | isRecorded
    · exact first.records_left second shows ranked left right (shown.recorded expression isRecorded)
    · exact first.records_right second shows ranked right (shownToo.recorded expression isRecorded)
  · by_cases less : i < middle.declarations.size
    · obtain ⟨declaration, id, statement, found, isRegion, stands, isSited, home⟩ :=
        shown.declaration i lower less
      exact ⟨declaration, id, statement, found, isRegion, stands, .inl isSited,
        first.home_left second shows ranked (left statement isSited) home⟩
    · obtain ⟨declaration, id, statement, found, isRegion, stands, isSited, home⟩ :=
        shownToo.declaration i (Nat.not_lt.mp less) upper
      exact ⟨declaration, id, statement, found, isRegion, stands, .inr isSited,
        first.home_right second shows ranked (right statement isSited) home⟩

/-- Less may be claimed of what is recorded, and more allowed to be surrounded. -/
theorem weaken (covers : Covers tree recorded sited opened before after)
    (less : ∀ expression, recordedToo expression → recorded expression)
    (same : ∀ statement, sited statement ↔ sitedToo statement)
    (more : ∀ statement, opened statement → openedToo statement) :
    Covers tree recordedToo sitedToo openedToo before after := by
  obtain rfl : sited = sitedToo := funext fun statement => propext (same statement)
  refine ⟨covers.grows, covers.current, fun scopes shows ranked => ?_⟩
  have shown := covers.holds scopes shows ranked
  exact { shown with
    extent := fun id statement opens surrounds =>
      more statement (shown.extent id statement opens surrounds)
    recorded := fun expression isRecorded =>
      shown.recorded expression (less expression isRecorded) }

/-! ## Inside a new region -/

section Inside

variable {kind : RegionKind} {boundary : StatementRef} {span : Span} {branch : Option BranchTag}

theorem exists_new (inside : Covers tree recorded sited opened
      (before.enter kind boundary span branch) after) (shows : scopes.Shows after) :
    ∃ region, scopes.region? (some ⟨before.regions.size⟩) = some region ∧
      region.shape = before.nextRegion kind boundary span branch := by
  refine shows.region ?_
  rw [inside.grows.shape _ (by simp), Binder.shape?_enter, if_pos rfl]

theorem opens_region (inside : Covers tree recorded sited opened
      (before.enter kind boundary span branch) after) {id : RegionId} :
    before.Opens after.leave id ↔
      id = ⟨before.regions.size⟩ ∨ (before.enter kind boundary span branch).Opens after id := by
  have grown := inside.grows.regions
  obtain ⟨index⟩ := id
  rw [Binder.Opens, Binder.Opens, Binder.regions_leave, Binder.size_enter, RegionId.mk.injEq]
  rw [Binder.size_enter] at grown
  dsimp only
  omega

private theorem home_region (inside : Covers tree recorded sited opened
      (before.enter kind boundary span branch) after) (shows : scopes.Shows after)
    (ranked : Ranked (fun id => scopes.parent (some id)) RegionId.index)
    {id : RegionId} {statement : StatementId}
    (surrounded : (before.nextRegion kind boundary span branch).Surrounds tree statement)
    (home : (before.enter kind boundary span branch).IsHome after tree scopes id statement) :
    before.IsHome after.leave tree scopes id statement := by
  refine ⟨.inr (inside.opens_region.mpr ?_), fun outer opens => ?_⟩
  · exact home.place.imp_left fun same => (Option.some.inj same).symm
  · rcases inside.opens_region.mp opens with rfl | opensInside
    · obtain ⟨region, found, shape⟩ := inside.exists_new shows
      refine ⟨fun _ => ⟨region, found, ?_⟩, fun _ => ?_⟩
      · rw [← shape] at surrounded
        exact surrounded
      · exact (inside.holds scopes shows ranked).within_current ranked rfl id home.place
    · exact home.around outer opensInside

/-- A statement that regions open around lies within the new region, or is sited inside it. -/
theorem sited_of_opens (inside : Covers tree recorded sited opened
      (before.enter kind boundary span branch) after) (shows : scopes.Shows after)
    (ranked : Ranked (fun id => scopes.parent (some id)) RegionId.index)
    (extent : ∀ statement,
      (before.nextRegion kind boundary span branch).Surrounds tree statement ↔ sited statement)
    (less : ∀ statement, opened statement → sited statement) {id : RegionId}
    {statement : StatementId} (opens : before.Opens after.leave id)
    (surrounds : scopes.Surrounds tree id statement) : sited statement := by
  rcases inside.opens_region.mp opens with rfl | opensInside
  · obtain ⟨new, newFound, newShape⟩ := inside.exists_new shows
    obtain ⟨region, found, surrounded⟩ := surrounds
    obtain rfl := Option.some.inj (newFound.symm.trans found)
    refine (extent statement).mp ?_
    rw [← newShape]
    exact surrounded
  · exact less statement
      ((inside.holds scopes shows ranked).extent id statement opensInside surrounds)

private theorem home_current (ranked : Ranked (fun id => scopes.parent (some id)) RegionId.index)
    {id : RegionId} {statement : StatementId} (isCurrent : before.current = some id)
    (bound : id.index < before.regions.size)
    (outside : ∀ outer, before.Opens after outer → ¬ scopes.Surrounds tree outer statement) :
    before.IsHome after tree scopes id statement := by
  refine ⟨.inl isCurrent, fun outer opens => ⟨fun within => ?_, fun surrounds => ?_⟩⟩
  · have := Under.rank_le ranked within
    have := opens.1
    omega
  · exact absurd surrounds (outside outer opens)

private theorem settled_new (grows : before.Grows after) (shows : scopes.Shows after) {new : Region}
    (shape : new.shape = before.nextRegion kind boundary span branch)
    (origin : (before.nextRegion kind boundary span branch).Origin tree)
    (depth : (before.nextRegion kind boundary span branch).depth ≤ 4 * Limit.statementNesting)
    (inSwitch : ∀ tag conditional, branch = some tag → tag.conditional = some conditional →
      tree.kind? (some conditional) = some .switch → ∃ id shape, before.current = some id ∧
        before.shape? id.index = some shape ∧ shape.kind = .switch ∧
        shape.boundary = some conditional) : new.Settled tree scopes := by
  have isParent : new.parent = before.current := congrArg Region.parent shape
  have isBranch : new.branch = branch := congrArg Region.branch shape
  have isDepth : new.depth = (before.nextRegion kind boundary span branch).depth := by
    rw [← shape]
    rfl
  refine ⟨?_, isDepth ▸ depth, fun tag conditional isTag named kinds => ?_⟩
  · rw [← shape] at origin
    exact ⟨origin.notRoot, origin.switch, origin.boundary, origin.span, origin.link, origin.tag⟩
  · obtain ⟨outer, shape, isOuter, known, shapeKind, shapeBoundary⟩ :=
      inSwitch tag conditional (isBranch.symm.trans isTag) named kinds
    obtain ⟨found, outerFound, rfl⟩ := (shows.earlier grows).region known
    exact ⟨outer, found, isParent.trans isOuter, outerFound, shapeKind, shapeBoundary⟩

/-- A step inside a new region covers what the region surrounds. The region of a switch stands at
the home of the switch. -/
theorem region (inside : Covers tree recorded sited opened
      (before.enter kind boundary span branch) after)
    (current : ∃ id, before.current = some id ∧ id.index < before.regions.size)
    (origin : (before.nextRegion kind boundary span branch).Origin tree)
    (depth : (before.nextRegion kind boundary span branch).depth ≤ 4 * Limit.statementNesting)
    (inSwitch : ∀ tag conditional, branch = some tag → tag.conditional = some conditional →
      tree.kind? (some conditional) = some .switch → ∃ id shape, before.current = some id ∧
        before.shape? id.index = some shape ∧ shape.kind = .switch ∧
        shape.boundary = some conditional)
    (extent : ∀ statement,
      (before.nextRegion kind boundary span branch).Surrounds tree statement ↔ sited statement)
    (less : ∀ statement, opened statement → sited statement)
    (switch : kind = .switch → ∃ statement, boundary = some statement ∧
      tree.kind? (some statement) = some .switch ∧ ¬ sited statement) :
    Covers tree recorded
      (fun statement => sited statement ∨ kind = .switch ∧ boundary = some statement) sited before
      after.leave := by
  have grows := Binder.grows_region inside.grows
  refine ⟨grows, current, fun scopes shows ranked => ?_⟩
  have showsInside := shows.of_leave
  have shown := inside.holds scopes showsInside ranked
  obtain ⟨new, newFound, newShape⟩ := inside.exists_new showsInside
  have isKind : new.kind = kind := congrArg Region.kind newShape
  have isBoundary : new.boundary = boundary := congrArg Region.boundary newShape
  have isParent : new.parent = before.current := congrArg Region.parent newShape
  have home : ∀ {id statement}, sited statement →
      (before.enter kind boundary span branch).IsHome after tree scopes id statement →
        before.IsHome after.leave tree scopes id statement := fun isSited isHome =>
    inside.home_region showsInside ranked ((extent _).mpr isSited) isHome
  have records : ∀ {expression},
      (before.enter kind boundary span branch).RecordsHome after tree scopes sited expression →
        before.RecordsHome after.leave tree scopes
          (fun statement => sited statement ∨ kind = .switch ∧ boundary = some statement)
          expression := by
    rintro expression ⟨id, statement, known, owned, isSited, isHome⟩
    exact ⟨id, statement, by rw [Binder.expressionRegions_leave]; exact known, owned, .inl isSited,
      home isSited isHome⟩
  have notOpened : ∀ {id statement}, before.Opens after.leave id →
      scopes.Surrounds tree id statement → sited statement := fun opens surrounds =>
    inside.sited_of_opens showsInside ranked extent less opens surrounds
  -- The region of a switch lies in the home of the switch.
  have switchHome : ∀ {statement}, kind = .switch → boundary = some statement →
      ∃ id, before.current = some id ∧ before.IsHome after.leave tree scopes id statement := by
    intro statement isSwitch same
    obtain ⟨known, isKnown, _, notSited⟩ := switch isSwitch
    obtain rfl := Option.some.inj (same.symm.trans isKnown)
    obtain ⟨id, isCurrent, bound⟩ := current
    exact ⟨id, isCurrent, home_current ranked isCurrent bound fun outer opens surrounds =>
      notSited (notOpened opens surrounds)⟩
  refine ⟨fun id opens => ?_, fun id statement opens surrounds => notOpened opens surrounds,
    fun id region opens found isSwitch => ?_, fun statement isSited => ?_, fun expression => ?_,
    fun expression isRecorded => ?_, fun i lower upper => ?_⟩
  · rcases inside.opens_region.mp opens with rfl | opensInside
    · obtain ⟨id, isCurrent, _⟩ := current
      exact ⟨new, id, newFound, settled_new grows shows newShape origin depth inSwitch,
        isParent.trans isCurrent, .inl isCurrent⟩
    · obtain ⟨region, parent, found, settled, isParent, next⟩ := shown.region id opensInside
      refine ⟨region, parent, found, settled, isParent, .inr (inside.opens_region.mpr ?_)⟩
      exact next.imp_left fun same => (Option.some.inj same).symm
  · rcases inside.opens_region.mp opens with rfl | opensInside
    · obtain rfl := Option.some.inj (newFound.symm.trans found)
      have isSwitch := isKind.symm.trans isSwitch
      obtain ⟨statement, same, _, _⟩ := switch isSwitch
      obtain ⟨parent, isCurrent, isHome⟩ := switchHome isSwitch same
      exact ⟨parent, statement, isParent.trans isCurrent, isBoundary.trans same,
        .inr ⟨isSwitch, same⟩, isHome⟩
    · obtain ⟨parent, statement, isParent, isBoundary, isSited, isHome⟩ :=
        shown.switch id region opensInside found isSwitch
      exact ⟨parent, statement, isParent, isBoundary, .inl isSited, home isSited isHome⟩
  · rcases isSited with isSited | ⟨isSwitch, same⟩
    · obtain ⟨id, isHome, header⟩ := shown.home statement isSited
      exact ⟨id, home isSited isHome, header⟩
    · obtain ⟨id, _, isHome⟩ := switchHome isSwitch same
      obtain ⟨known, isKnown, kinds, _⟩ := switch isSwitch
      obtain rfl := Option.some.inj (same.symm.trans isKnown)
      refine ⟨id, isHome, fun kind headerKind => ?_⟩
      rw [kinds] at headerKind
      cases headerKind
  · rw [Binder.expressionRegions_leave]
    exact (shown.unchanged expression).imp_right records
  · exact records (shown.recorded expression isRecorded)
  · rw [Binder.declarations_leave] at upper
    obtain ⟨declaration, id, statement, found, isRegion, stands, isSited, isHome⟩ :=
      shown.declaration i lower upper
    exact ⟨declaration, id, statement, found, isRegion, stands, .inl isSited, home isSited isHome⟩

end Inside

end Covers

end LexicalScope
