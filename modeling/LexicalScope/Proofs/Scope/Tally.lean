import LexicalScope.Proofs.Scope.Openings
import LexicalScope.Proofs.StatementTree.Unbraced

/-!
# Counting unbraced bodies

While a header is bound, the binder has counted the unbraced bodies from the statement up to the
boundary of the open region. A step that begins where the count is right keeps the depths of all
declarations right, and it ends with the count with which it began.
-/

namespace LexicalScope

namespace Binder

variable {tree : StatementTree} {before after binder other : Binder} {region : RegionRef}
  {statement boundary : StatementId} {kind : RegionKind} {ref : StatementRef} {span : Span}
  {branch : Option BranchTag} {condition implied : StatementId → Nat → Prop}

/-! ## Boundaries of regions -/

/-- The region at a reference exists and has a boundary. -/
def Bounds (binder : Binder) (region : RegionRef) (boundary : StatementId) : Prop :=
  ∃ id shape, region = some id ∧ binder.shape? id.index = some shape ∧
    shape.boundary = some boundary

namespace Bounds

theorem grows (bounds : before.Bounds region boundary) (grows : before.Grows after) :
    after.Bounds region boundary := by
  obtain ⟨id, shape, same, known, isBoundary⟩ := bounds
  exact ⟨id, shape, same, grows.known known, isBoundary⟩

theorem of_regions (bounds : binder.Bounds region boundary)
    (same : other.regions = binder.regions) : other.Bounds region boundary := by
  obtain ⟨id, shape, isId, known, isBoundary⟩ := bounds
  refine ⟨id, shape, isId, ?_, isBoundary⟩
  rw [shape?, same]
  exact known

private theorem enter (bounds : binder.Bounds region boundary) :
    (binder.enter kind ref span branch).Bounds region boundary := by
  obtain ⟨id, shape, same, known, isBoundary⟩ := bounds
  refine ⟨id, shape, same, ?_, isBoundary⟩
  rw [shape?_enter, if_neg (Nat.ne_of_lt (lt_size_of_shape? known))]
  exact known

end Bounds

/-- The boundary of the open region and the number of unbraced bodies counted in it meet a
condition. -/
def Meets (binder : Binder) (condition : StatementId → Nat → Prop) : Prop :=
  ∃ boundary, binder.Bounds binder.current boundary ∧ condition boundary binder.bleedDepth

namespace Meets

theorem imp (meets : binder.Meets condition)
    (implies : ∀ boundary depth, condition boundary depth → implied boundary depth) :
    binder.Meets implied := by
  obtain ⟨boundary, bounds, holds⟩ := meets
  exact ⟨boundary, bounds, implies _ _ holds⟩

theorem grows (meets : before.Meets condition) (grows : before.Grows after) :
    after.Meets condition := by
  obtain ⟨boundary, bounds, holds⟩ := meets
  refine ⟨boundary, ?_, ?_⟩
  · rw [grows.current]
    exact bounds.grows grows
  · rw [grows.bleedDepth]
    exact holds

theorem enter (holds : condition statement 0) :
    (binder.enter kind (some statement) span branch).Meets condition := by
  refine ⟨statement, ⟨⟨binder.regions.size⟩, binder.nextRegion kind (some statement) span branch,
    rfl, ?_, rfl⟩, holds⟩
  rw [shape?_enter, if_pos rfl]

end Meets

/-! ## Depths of declarations -/

/-- The depth of every declaration counts the unbraced bodies from its statement up to the boundary
of its region. -/
structure Tallied (tree : StatementTree) (binder : Binder) : Prop where
  record : binder.expressionRegions.size = tree.expressions.size
  declaration : ∀ {i : Nat} {declaration : Declaration},
    binder.declarations[i]? = some declaration → ∃ statement boundary,
      declaration.statement = some statement ∧ binder.Bounds declaration.region boundary ∧
      tree.Counts statement boundary declaration.bleedDepth

namespace Tallied

theorem resembling (tallied : binder.Tallied tree) (same : binder.Resembles other) :
    other.Tallied tree where
  record := by rw [same.expressionRegions, tallied.record]
  declaration found := by
    rw [same.declarations] at found
    obtain ⟨statement, boundary, isStatement, bounds, counts⟩ := tallied.declaration found
    exact ⟨statement, boundary, isStatement, bounds.of_regions same.regions, counts⟩

private theorem enter (tallied : binder.Tallied tree) :
    (binder.enter kind ref span branch).Tallied tree where
  record := tallied.record
  declaration found := by
    obtain ⟨statement, boundary, isStatement, bounds, counts⟩ := tallied.declaration found
    exact ⟨statement, boundary, isStatement, bounds.enter, counts⟩

theorem leave (tallied : binder.Tallied tree) : binder.leave.Tallied tree where
  record := by rw [expressionRegions_leave, tallied.record]
  declaration found := by
    rw [declarations_leave] at found
    obtain ⟨statement, boundary, isStatement, bounds, counts⟩ := tallied.declaration found
    exact ⟨statement, boundary, isStatement, bounds.of_regions regions_leave, counts⟩

theorem adds (tallied : before.Tallied tree) (meets : before.Meets (tree.Counts statement))
    (grows : before.Grows after)
    (added : ∀ i, before.declarations.size ≤ i → ∀ declaration,
      after.declarations[i]? = some declaration → declaration.statement = some statement ∧
        declaration.region = before.current ∧ declaration.bleedDepth = before.bleedDepth) :
    after.Tallied tree where
  record := grows.record.trans tallied.record
  declaration {i declaration} found := by
    by_cases old : i < before.declarations.size
    · rw [grows.declaration i old] at found
      obtain ⟨statement, boundary, isStatement, bounds, counts⟩ := tallied.declaration found
      exact ⟨statement, boundary, isStatement, bounds.grows grows, counts⟩
    · obtain ⟨isStatement, isRegion, isDepth⟩ := added i (Nat.not_lt.mp old) declaration found
      obtain ⟨boundary, bounds, counts⟩ := meets
      refine ⟨statement, boundary, isStatement, ?_, ?_⟩
      · rw [isRegion]
        exact bounds.grows grows
      · rw [isDepth]
        exact counts

theorem declare (tallied : binder.Tallied tree) (meets : binder.Meets (tree.Counts statement))
    (name : String) (kind : DeclarationKind) (span : Span) (expression : ExpressionRef) :
    (binder.declare name kind span (some statement) expression).Tallied tree := by
  refine tallied.adds meets (grows_declare ..) fun i behind declaration found => ?_
  obtain rfl : i = binder.declarations.size := by
    have bound := (Array.getElem?_eq_some_iff.mp found).1
    simp only [Binder.declare, Array.size_push] at bound
    omega
  obtain rfl := Option.some.inj (Array.getElem?_push_size.symm.trans found)
  exact ⟨rfl, rfl, rfl⟩

end Tallied

/-- Between two binders all declarations are added at the depth at which the first one is. -/
structure Deepens (before after : Binder) : Prop where
  depth : after.bleedDepth = before.bleedDepth
  declaration : ∀ i, before.declarations.size ≤ i → ∀ declaration,
    after.declarations[i]? = some declaration → declaration.bleedDepth = before.bleedDepth

private theorem preserved_deepens (before : Binder) (tree : StatementTree) :
    Bind.HeaderPreserved tree before.Deepens where
  declare {binder} name kind span statement expression deepens := by
    refine ⟨deepens.depth, fun i behind declaration found => ?_⟩
    simp only [declare, Array.getElem?_push] at found
    split at found
    · obtain rfl := Option.some.inj found
      exact deepens.depth
    · exact deepens.declaration i behind declaration found
  recordExpression expression deepens := by
    cases expression <;> exact ⟨deepens.depth, deepens.declaration⟩

private theorem Deepens.refl (binder : Binder) : binder.Deepens binder where
  depth := rfl
  declaration _ behind _ found :=
    absurd (Array.getElem?_eq_some_iff.mp found).1 (Nat.not_lt.mpr behind)

end Binder

/-! ## Steps -/

namespace Bind

variable {tree : StatementTree} {visit : Visit → Bind Unit} {step next : Bind Unit}
  {condition implied : StatementId → Nat → Prop} {statement body : StatementId}
  {node : StatementNode} {kind : RegionKind} {span : Span} {branch : Option BranchTag}

/-- A step that begins where a condition is met keeps the depths of declarations right. -/
def Tallies (tree : StatementTree) (condition : StatementId → Nat → Prop) (step : Bind Unit) :
    Prop :=
  ∀ before after : Binder, before.Tallied tree → before.Meets condition →
    step before = .ok () after → before.Grows after ∧ after.Tallied tree

/-- The region that a statement opens is the one that is open, and nothing is counted in it. -/
def Starts (statement boundary : StatementId) (depth : Nat) : Prop :=
  boundary = statement ∧ depth = 0

namespace Tallies

theorem pure : Tallies tree condition (Pure.pure ()) := by
  intro before after tallied _ succeeded
  obtain ⟨_, rfl⟩ := Step.pure_eq_ok.mp succeeded
  exact ⟨.refl before, tallied⟩

theorem mono (tallies : Tallies tree implied step)
    (implies : ∀ boundary depth, condition boundary depth → implied boundary depth) :
    Tallies tree condition step := fun before after tallied meets =>
  tallies before after tallied (meets.imp implies)

theorem seq (first : Tallies tree condition step) (second : Tallies tree condition next) :
    Tallies tree condition (do step; next) := by
  intro before after tallied meets succeeded
  obtain ⟨_, between, stepped, continued⟩ := Step.bind_eq_ok.mp succeeded
  obtain ⟨grows, tallied⟩ := first _ _ tallied meets stepped
  obtain ⟨growsOn, tallied⟩ := second _ _ tallied (meets.grows grows) continued
  exact ⟨grows.trans growsOn, tallied⟩

theorem find {ref : StatementRef} {next : StatementNode → Bind Unit}
    (tallies : ∀ node, tree.statement? ref = some node → Tallies tree condition (next node)) :
    Tallies tree condition (Bind.find tree ref >>= next) := by
  intro before after tallied meets succeeded
  obtain ⟨node, between, looked, continued⟩ := Step.bind_eq_ok.mp succeeded
  obtain ⟨found, rfl⟩ := find_eq_ok.mp looked
  exact tallies node found _ _ tallied meets continued

theorem branchTag {conditional bodyRef : StatementRef} {index : Nat} {breakExits : Bool}
    {next : BranchTag → Bind Unit} (tallies : ∀ tag, Tallies tree condition (next tag)) :
    Tallies tree condition
      (Bind.branchTag tree conditional index bodyRef span breakExits >>= next) := by
  intro before after tallied meets succeeded
  obtain ⟨tag, between, looked, continued⟩ := Step.bind_eq_ok.mp succeeded
  obtain ⟨_, rfl⟩ := branchTag_eq_ok.mp looked
  exact tallies tag _ _ tallied meets continued

theorem inRegion (tallies : Tallies tree (Starts statement) step) :
    Tallies tree condition (Bind.inRegion kind (some statement) span branch step) := by
  intro before after tallied _ succeeded
  obtain ⟨inside, stepped, rfl⟩ := inRegion_eq_ok.mp succeeded
  obtain ⟨grows, tallied⟩ := tallies _ _ tallied.enter (.enter ⟨rfl, rfl⟩) stepped
  exact ⟨Binder.grows_region grows, tallied.leave⟩

theorem withBleed {added : Bool}
    (implies : ∀ boundary depth, condition boundary depth →
      implied boundary (if added then depth + 1 else depth))
    (tallies : Tallies tree implied step) : Tallies tree condition (Bind.withBleed added step) := by
  intro before after tallied meets succeeded
  obtain ⟨depth, inside, stepped, isDepth, rfl⟩ := withBleed_eq_ok.mp succeeded
  obtain ⟨boundary, bounds, holds⟩ := meets
  have same := before.resembles_bleed depth
  obtain ⟨grows, tallied⟩ := tallies _ _ (tallied.resembling same)
    ⟨boundary, bounds.of_regions same.regions, isDepth ▸ implies _ _ holds⟩ stepped
  exact ⟨grows.resembling same.symm (inside.resembles_bleed _) rfl,
    tallied.resembling (inside.resembles_bleed _)⟩

theorem recordAround {ref : StatementRef} (tallies : Tallies tree condition step) :
    Tallies tree condition (Bind.recordAround ref step) := by
  intro before after tallied meets succeeded
  obtain ⟨inside, stepped, rfl⟩ := recordAround_eq_ok.mp succeeded
  obtain ⟨grows, tallied⟩ := tallies _ _ tallied meets stepped
  exact ⟨grows.trans (inside.stays_recordStatement ref _).grows,
    tallied.resembling (inside.resembles_recordStatement ref _)⟩

theorem recorded (ref : StatementRef) :
    Tallies tree condition
      (Bind.apply fun binder => binder.recordStatement ref binder.current) := by
  intro before after tallied _ succeeded
  obtain rfl := apply_eq_ok.mp succeeded
  exact ⟨(before.stays_recordStatement ref _).grows,
    tallied.resembling (before.resembles_recordStatement ref _)⟩

theorem header {change : Binder → Binder} {refs : List ExpressionRef}
    (keeps : ∀ {property : Binder → Prop}, HeaderPreserved tree property →
      ∀ {binder : Binder}, property binder → property (change binder))
    (fills : ∀ binder : Binder, binder.expressionRegions.size = tree.expressions.size →
      binder.Fills (change binder) tree statement refs) :
    Tallies tree (tree.Counts statement) (Bind.apply change) := by
  intro before after tallied meets succeeded
  obtain rfl := apply_eq_ok.mp succeeded
  have filled := fills before tallied.record
  have deepens : before.Deepens (change before) := keeps (before.preserved_deepens tree) (.refl _)
  refine ⟨filled.grows, tallied.adds meets filled.grows fun i behind declaration found => ?_⟩
  obtain ⟨known, isKnown, isRegion, isStatement, _⟩ :=
    filled.declaration i behind (Array.getElem?_eq_some_iff.mp found).1
  obtain rfl := Option.some.inj (isKnown.symm.trans found)
  exact ⟨isStatement, isRegion, deepens.declaration i behind _ found⟩

end Tallies

/-- A statement that the open region belongs to is counted right. -/
theorem Starts.counts {boundary : StatementId} {depth : Nat}
    (starts : Starts statement boundary depth) : tree.Counts statement boundary depth := by
  obtain ⟨rfl, rfl⟩ := starts
  exact StatementTree.counts_self

private theorem Starts.measures {boundary : StatementId} {depth : Nat}
    (starts : Starts statement boundary depth) : tree.Measures statement boundary depth := by
  obtain ⟨rfl, rfl⟩ := starts
  exact StatementTree.measures_self

namespace Tallies

variable {value : ExpressionRef} {values : List ExpressionRef}

theorem starting (tallies : Tallies tree (tree.Counts statement) step) :
    Tallies tree (Starts statement) step :=
  tallies.mono fun _ _ => Starts.counts

theorem startingBelow (tallies : Tallies tree (tree.Measures statement) step) :
    Tallies tree (Starts statement) step :=
  tallies.mono fun _ _ => Starts.measures

theorem binds_content (found : tree.statement? (some statement) = some node) {binding : Binding}
    (isBound : binding ∈ node.content.bindings) : tree.Binds statement none binding.span :=
  .inl ⟨rfl, node.content, binding, StatementTree.content?_eq found, isBound, rfl⟩

section Headers

variable (proper : tree.Proper) (found : tree.statement? (some statement) = some node)
include proper found

theorem expression (isSlot : value ∈ node.content.expressionSlots) :
    Tallies tree (tree.Counts statement) (Bind.apply (·.bindExpression tree value)) :=
  header (·.bindExpression value) fun _ record => Binder.fills_bindExpression proper record
    fun _ same => proper.owner_of_slot found (same ▸ isSlot)

theorem expressions (areSlots : ∀ value ∈ values, value ∈ node.content.expressionSlots) :
    Tallies tree (tree.Counts statement) (Bind.apply (·.bindExpressions tree values)) :=
  header (·.bindExpressions values) fun _ record => Binder.fills_bindExpressions proper record
    fun _ member => proper.owner_of_slot found (areSlots _ member)

theorem declarators {declarators : List DeclaratorNode}
    (areSlots : ∀ declarator ∈ declarators, declarator.initializer ∈ node.content.expressionSlots)
    (areBound : ∀ declarator ∈ declarators, declarator.binding ∈ node.content.bindings) :
    Tallies tree (tree.Counts statement)
      (Bind.apply (·.bindDeclarators tree (some statement) declarators)) := by
  refine header (·.bindDeclarators (some statement) declarators) fun _ record =>
    Binder.fills_bindDeclarators proper record (fun whole member => ?_) fun _ member =>
      binds_content found (areBound _ member)
  obtain ⟨declarator, isDeclarator, same⟩ := List.mem_map.mp member
  exact proper.owner_of_slot found (same ▸ areSlots declarator isDeclarator)

end Headers

end Tallies

end Bind

end LexicalScope
