import LexicalScope.Proofs.Scope.Invariant
import LexicalScope.Proofs.StatementTree.Positions

/-!
# Regions that a step opens

A step of binding opens regions for boundary statements only, and what the scope tree then shows of
these regions stays true. A fact about a step may name the region in which the step begins: every
step ends there too, so the facts of two steps that follow each other hold together.
-/

namespace LexicalScope

namespace Binder

variable {tree : StatementTree} {before middle after start stop : Binder} {kind : RegionKind}
  {statement : StatementId} {span : Span} {branch : Option BranchTag}
  {fact other : ScopeTree → RegionRef → Prop}

/-- A later binder has grown without opening a region. -/
structure Stays (before after : Binder) : Prop where
  grows : before.Grows after
  size : after.regions.size = before.regions.size

theorem preserved_stays (before : Binder) (tree : StatementTree) :
    Bind.HeaderPreserved tree before.Stays where
  declare name kind span statement expression stays :=
    ⟨stays.grows.trans (grows_declare ..), (size_declare ..).trans stays.size⟩
  recordExpression expression stays :=
    ⟨stays.grows.trans (grows_recordExpression tree expression), by
      cases expression <;> exact stays.size⟩

theorem Stays.refl (binder : Binder) : binder.Stays binder := ⟨.refl binder, rfl⟩

theorem stays_recordStatement (binder : Binder) (statement : StatementRef) (region : RegionRef) :
    binder.Stays (binder.recordStatement statement region) := by
  cases statement <;> exact ⟨(Grows.refl binder).resembling ⟨rfl, rfl, rfl, rfl, rfl, rfl⟩
    ⟨rfl, rfl, rfl, rfl, rfl, rfl⟩ rfl, rfl⟩

/-- Between two binders regions are opened for boundary statements only, and every scope tree that
shows the later binder has a fact about the region that is open. -/
structure Adds (tree : StatementTree) (before after : Binder)
    (fact : ScopeTree → RegionRef → Prop) : Prop where
  grows : before.Grows after
  boundary : ∀ i, before.regions.size ≤ i → i < after.regions.size →
    ∃ region statement, after.shape? i = some region ∧ region.boundary = some statement ∧
      tree.IsBoundary statement
  fact : ∀ scopes : ScopeTree, scopes.Shows after → fact scopes before.current

namespace Adds

theorem of_stays (stays : before.Stays after) : Adds tree before after fun _ _ => True where
  grows := stays.grows
  boundary _ lower upper := absurd (stays.size ▸ upper) (Nat.not_lt.mpr lower)
  fact _ _ := trivial

theorem imp (adds : Adds tree before after fact)
    (implies : ∀ scopes current, fact scopes current → other scopes current) :
    Adds tree before after other :=
  ⟨adds.grows, adds.boundary, fun scopes shows => implies scopes _ (adds.fact scopes shows)⟩

theorem seq (first : Adds tree before middle fact) (second : Adds tree middle after other) :
    Adds tree before after fun scopes current => fact scopes current ∧ other scopes current where
  grows := first.grows.trans second.grows
  boundary i lower upper := by
    by_cases less : i < middle.regions.size
    · obtain ⟨region, statement, isShape, isBoundary⟩ := first.boundary i lower less
      exact ⟨region, statement, (second.grows.shape i less).trans isShape, isBoundary⟩
    · exact second.boundary i (Nat.not_lt.mp less) upper
  fact scopes shows := by
    have later := second.fact scopes shows
    rw [first.grows.current] at later
    exact ⟨first.fact scopes (shows.earlier second.grows), later⟩

private theorem resembling (adds : Adds tree before after fact) (sameStart : before.Resembles start)
    (sameStop : after.Resembles stop) (bleed : stop.bleedDepth = start.bleedDepth) :
    Adds tree start stop fact where
  grows := adds.grows.resembling sameStart sameStop bleed
  boundary i lower upper := by
    rw [sameStop.shape?]
    exact adds.boundary i (sameStart.regions ▸ lower) (sameStop.regions ▸ upper)
  fact scopes shows := by
    rw [sameStart.current]
    exact adds.fact scopes (shows.resembling sameStop)

end Adds

end Binder

/-! ## Regions of a scope tree -/

namespace ScopeTree

/-- A scope tree has a region that a statement opens. -/
def HasBoundary (scopes : ScopeTree) (statement : StatementId) : Prop :=
  ∃ region ∈ scopes.regions, region.boundary = some statement

/-- A scope tree has a region of a kind that a statement opens, with a parent and a tag. -/
def HasRegion (scopes : ScopeTree) (kind : RegionKind) (statement : StatementId)
    (parent : RegionRef) (branch : Option BranchTag) : Prop :=
  ∃ id region, scopes.region? (some id) = some region ∧ region.kind = kind ∧
    region.boundary = some statement ∧ region.parent = parent ∧ region.branch = branch

theorem HasRegion.hasBoundary {scopes : ScopeTree} {kind : RegionKind} {statement : StatementId}
    {parent : RegionRef} {branch : Option BranchTag}
    (has : scopes.HasRegion kind statement parent branch) : scopes.HasBoundary statement := by
  obtain ⟨id, region, found, _, isBoundary, _⟩ := has
  exact ⟨region, Array.mem_of_getElem? found, isBoundary⟩

end ScopeTree

private theorem Binder.Adds.region {tree : StatementTree} {before after : Binder}
    {kind : RegionKind} {statement : StatementId} {span : Span} {branch : Option BranchTag}
    {fact : ScopeTree → RegionRef → Prop} (isBoundary : tree.IsBoundary statement)
    (inside : Adds tree (before.enter kind (some statement) span branch) after fact) :
    Adds tree before after.leave fun scopes current =>
      scopes.HasRegion kind statement current branch ∧ ∃ id, fact scopes (some id) := by
  have isNext : after.shape? before.regions.size =
      some (before.nextRegion kind (some statement) span branch) := by
    rw [inside.grows.shape _ (by rw [size_enter]; exact Nat.lt_succ_self _), shape?_enter,
      if_pos rfl]
  have leaving : ∀ i, after.leave.shape? i = after.shape? i := fun i => by
    rw [shape?, shape?, regions_leave]
  refine ⟨grows_region inside.grows, fun i lower upper => ?_, fun scopes shows => ?_⟩
  · rw [regions_leave] at upper
    rw [leaving]
    rcases Nat.eq_or_lt_of_le lower with rfl | behind
    · exact ⟨_, statement, isNext, rfl, isBoundary⟩
    · exact inside.boundary i (by rw [size_enter]; exact behind) upper
  · obtain ⟨region, found, shape⟩ := shows.of_leave.region isNext
    exact ⟨⟨⟨before.regions.size⟩, region, found, congrArg Region.kind shape,
      congrArg Region.boundary shape, congrArg Region.parent shape, congrArg Region.branch shape⟩,
      _, inside.fact scopes shows.of_leave⟩

/-! ## Steps -/

namespace Bind

/-- A step that succeeds adds regions with a fact about them. -/
structure Establishes (tree : StatementTree) (step : Bind Unit)
    (fact : ScopeTree → RegionRef → Prop) : Prop where
  adds : ∀ {before after : Binder}, step before = .ok () after → before.Adds tree after fact

namespace Establishes

variable {tree : StatementTree} {step next : Bind Unit} {statement : StatementId}
  {fact other : ScopeTree → RegionRef → Prop}

theorem pure : Establishes tree (Pure.pure ()) fun _ _ => True where
  adds succeeded := by
    obtain ⟨_, rfl⟩ := Step.pure_eq_ok.mp succeeded
    exact .of_stays (.refl _)

theorem apply {change : Binder → Binder} (stays : ∀ binder : Binder, binder.Stays (change binder)) :
    Establishes tree (Bind.apply change) fun _ _ => True where
  adds succeeded := by
    obtain rfl := apply_eq_ok.mp succeeded
    exact .of_stays (stays _)

theorem imp (establishes : Establishes tree step fact)
    (implies : ∀ scopes current, fact scopes current → other scopes current) :
    Establishes tree step other :=
  ⟨fun succeeded => (establishes.adds succeeded).imp implies⟩

theorem seq (establishes : Establishes tree step fact) (others : Establishes tree next other) :
    Establishes tree (do step; next) fun scopes current =>
      fact scopes current ∧ other scopes current where
  adds succeeded := by
    obtain ⟨_, between, stepped, continued⟩ := Step.bind_eq_ok.mp succeeded
    exact (establishes.adds stepped).seq (others.adds continued)

/-- Of two steps only the fact of the second one counts. -/
theorem behind (establishes : Establishes tree step fact) (others : Establishes tree next other) :
    Establishes tree (do step; next) other :=
  (establishes.seq others).imp fun _ _ both => both.2

theorem header {change : Binder → Binder}
    (keeps : ∀ {property : Binder → Prop}, HeaderPreserved tree property →
      ∀ {binder : Binder}, property binder → property (change binder)) :
    Establishes tree (Bind.apply change) fun _ _ => True :=
  apply fun binder => keeps (binder.preserved_stays tree) (.refl binder)

theorem find {ref : StatementRef} {next : StatementNode → Bind Unit}
    (establishes : ∀ {node}, tree.statement? ref = some node →
      Establishes tree (next node) fact) :
    Establishes tree (Bind.find tree ref >>= next) fact where
  adds succeeded := by
    obtain ⟨node, between, looked, continued⟩ := Step.bind_eq_ok.mp succeeded
    obtain ⟨found, rfl⟩ := find_eq_ok.mp looked
    exact (establishes found).adds continued

theorem branchTag {conditional body : StatementRef} {index : Nat} {span : Span} {breakExits : Bool}
    {next : BranchTag → Bind Unit}
    (establishes : ∀ tag : BranchTag, tag.conditional = conditional → tag.index = index →
      Establishes tree (next tag) fact) :
    Establishes tree (Bind.branchTag tree conditional index body span breakExits >>= next)
      fact where
  adds succeeded := by
    obtain ⟨tag, between, looked, continued⟩ := Step.bind_eq_ok.mp succeeded
    obtain ⟨rfl, rfl⟩ := branchTag_eq_ok.mp looked
    exact (establishes _ rfl rfl).adds continued

theorem inRegion {kind : RegionKind} {span : Span} {branch : Option BranchTag}
    (isBoundary : tree.IsBoundary statement) (establishes : Establishes tree step fact) :
    Establishes tree (Bind.inRegion kind (some statement) span branch step)
      fun scopes current => scopes.HasRegion kind statement current branch ∧
        ∃ id, fact scopes (some id) where
  adds succeeded := by
    obtain ⟨inside, stepped, rfl⟩ := inRegion_eq_ok.mp succeeded
    exact .region isBoundary (establishes.adds stepped)

theorem withBleed {added : Bool} (establishes : Establishes tree step fact) :
    Establishes tree (Bind.withBleed added step) fact where
  adds {before _} succeeded := by
    obtain ⟨depth, inside, stepped, _, rfl⟩ := withBleed_eq_ok.mp succeeded
    exact (establishes.adds stepped).resembling (before.resembles_bleed depth).symm
      (inside.resembles_bleed _) rfl

theorem recordAround {ref : StatementRef} (establishes : Establishes tree step fact) :
    Establishes tree (Bind.recordAround ref step) fact where
  adds succeeded := by
    obtain ⟨inside, stepped, rfl⟩ := recordAround_eq_ok.mp succeeded
    exact ((establishes.adds stepped).seq (.of_stays (inside.stays_recordStatement ref _))).imp
      fun _ _ both => both.1

end Establishes

end Bind

end LexicalScope
