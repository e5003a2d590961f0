import LexicalScope.Proofs.Layout.Nesting
import LexicalScope.Proofs.Scope.Consistency
import LexicalScope.Proofs.Scope.Content

/-!
# Sites

In the scope tree of a procedure every statement has a site: the regions around the site are those
that surround the statement. What a statement evaluates is recorded at its site, and what it
introduces is declared there.
-/

namespace LexicalScope

open Binder

/-- The regions, records and declarations of a scope tree follow the statements of a tree. -/
structure ScopeTree.Follows (scopes : ScopeTree) (tree : StatementTree) : Prop where
  agree : Consistent scopes.regions scopes.declarations
  root : ∃ region, scopes.region? (some ⟨0⟩) = some region ∧ region.kind = .root ∧
    region.parent = none ∧ region.boundary = some ⟨0⟩ ∧ region.branch = none ∧ region.depth = 0 ∧
    region.span = tree.span (some ⟨0⟩)
  region : ∀ {id : RegionId}, id.index < scopes.regions.size → id ≠ ⟨0⟩ →
    ∃ region parent, scopes.region? (some id) = some region ∧ region.Settled tree scopes ∧
      region.parent = some parent ∧ parent.index < scopes.regions.size
  switch : ∀ {id : RegionId} {region : Region}, scopes.region? (some id) = some region →
    region.kind = .switch → ∃ parent statement, region.parent = some parent ∧
      region.boundary = some statement ∧ scopes.IsSite tree parent statement
  site : ∀ {statement : StatementId} {node : StatementNode},
    tree.statement? (some statement) = some node → ∃ id, id.index < scopes.regions.size ∧
      scopes.IsSite tree id statement ∧ ∀ kind, node.kind.headerRegion? = some kind →
        ∃ region, scopes.region? (some id) = some region ∧ region.kind = kind ∧
          region.boundary = some statement
  expression : ∀ {expression : ExpressionId} {statement : StatementId},
    tree.owner expression = some statement →
      ∃ id, scopes.regionOfExpression (some expression) = some id ∧ id.index < scopes.regions.size ∧
        scopes.IsSite tree id statement
  declaration : ∀ {i : Nat} {declaration : Declaration},
    scopes.declarations[i]? = some declaration →
      (declaration.kind = .parameter ∧ declaration.region = some ⟨0⟩ ∧
        declaration.expression = none) ∨
      ∃ id statement, declaration.region = some id ∧ id.index < scopes.regions.size ∧
        declaration.StandsFor tree statement ∧ scopes.IsSite tree id statement

/-! ## The region of the procedure -/

/-- A step does nothing but declare parameters in the region that is open. -/
structure Binder.AddsParameters (before after : Binder) : Prop where
  grows : before.Grows after
  still : after.regions.size = before.regions.size
  record : after.expressionRegions = before.expressionRegions
  declaration : ∀ i, before.declarations.size ≤ i → i < after.declarations.size →
    ∃ declaration, after.declarations[i]? = some declaration ∧ declaration.kind = .parameter ∧
      declaration.region = before.current ∧ declaration.expression = none

private theorem Binder.addsParameters_foldl (root : StatementRef) (parameters : List Binding)
    (before : Binder) :
    before.AddsParameters (parameters.foldl (fun binder parameter =>
      binder.declare parameter.name .parameter parameter.span root none) before) := by
  induction parameters generalizing before with
  | nil =>
      exact ⟨.refl before, rfl, rfl, fun i lower upper => absurd upper (Nat.not_lt.mpr lower)⟩
  | cons first rest induction =>
      have one : before.Grows (before.declare first.name .parameter first.span root none) :=
        grows_declare ..
      have others := induction (before.declare first.name .parameter first.span root none)
      refine ⟨one.trans others.grows, others.still.trans (size_declare ..), others.record,
        fun i lower upper => ?_⟩
      rcases Nat.eq_or_lt_of_le lower with rfl | behind
      · have bound : before.declarations.size <
            (before.declare first.name .parameter first.span root none).declarations.size := by
          simp [declare]
        exact ⟨_, (others.grows.declaration _ bound).trans Array.getElem?_push_size, rfl, rfl, rfl⟩
      · exact others.declaration i (by simpa [declare, Nat.succ_le_iff] using behind) upper

theorem Bind.get_eq_ok {before after value : Binder} :
    (get : Bind Binder) before = .ok value after ↔ before = value ∧ before = after := by
  change EStateM.Result.ok before before = .ok value after ↔ _
  simp

variable {tree : StatementTree} {scopes : ScopeTree} {settings : ScopeSettings}

/-- The binder in which the body of a procedure is bound: the region of the procedure is open and
holds the parameters. -/
def Binder.opened (settings : ScopeSettings) (tree : StatementTree) (span : Span) : Binder :=
  tree.parameters.foldl
    (fun binder parameter =>
      binder.declare parameter.name .parameter parameter.span tree.root none)
    (((blank settings tree.statements.size tree.expressions.size).enter .root tree.root span
      none).recordStatement tree.root (some ⟨0⟩))

theorem Binder.addsParameters_opened (settings : ScopeSettings) (tree : StatementTree)
    (span : Span) :
    (((blank settings tree.statements.size tree.expressions.size).enter .root tree.root span
      none).recordStatement tree.root (some ⟨0⟩)).AddsParameters (opened settings tree span) :=
  addsParameters_foldl ..

theorem Binder.settings_opened (settings : ScopeSettings) (tree : StatementTree) (span : Span) :
    (opened settings tree span).settings = settings := by
  rw [(addsParameters_opened settings tree span).grows.settings]
  cases tree.root <;> rfl

theorem Binder.size_opened (settings : ScopeSettings) (tree : StatementTree) (span : Span) :
    (opened settings tree span).regions.size = 1 := by
  rw [(addsParameters_opened settings tree span).still]
  cases tree.root <;> rfl

theorem Binder.current_opened (settings : ScopeSettings) (tree : StatementTree) (span : Span) :
    (opened settings tree span).current = some ⟨0⟩ := by
  rw [(addsParameters_opened settings tree span).grows.current]
  cases tree.root <;> rfl

theorem Binder.shape?_opened (settings : ScopeSettings) (tree : StatementTree) (span : Span) :
    (opened settings tree span).shape? 0 = some (.opened ⟨0⟩ .root tree.root span none 0 none) := by
  rw [(addsParameters_opened settings tree span).grows.shape 0
    (by cases tree.root <;> exact Nat.zero_lt_one)]
  cases tree.root <;> rfl

theorem Binder.seated_opened (settings : ScopeSettings) (tree : StatementTree) (span : Span) :
    (opened settings tree span).Seated tree 1 where
  current := ⟨⟨0⟩, _, current_opened .., shape?_opened .., Nat.zero_le 1⟩
  record := by
    rw [(addsParameters_opened settings tree span).record]
    cases tree.root <;> exact Array.size_replicate

/-- A scope tree shows the binder that is left when the body of its procedure is bound. -/
theorem ScopeTree.shows_scopeTree (inside : Binder) (procedure : String) :
    (inside.leave.scopeTree procedure).Shows inside where
  shape i _ := by
    rw [shape?, ← regions_leave]
    rfl
  declaration i _ := by
    rw [← declarations_leave]
    rfl

/-- A scope tree is what is left when the body of the procedure is bound in its region. -/
theorem ScopeTree.exists_bindBody (proper : tree.Proper)
    (bound : ofStatementTree settings tree = .ok scopes) :
    ∃ node inside, tree.statement? (some ⟨0⟩) = some node ∧
      Bind.bindBody tree settings.nestingLimit node.content (opened settings tree node.span) =
        .ok () inside ∧ scopes = inside.leave.scopeTree tree.name := by
  obtain ⟨after, succeeded, rfl⟩ := of_ofStatementTree bound
  simp only [Bind.bindProcedure, Step.bind_eq_ok, Bind.find_eq_ok, Bind.inRegion_eq_ok,
    Bind.apply_eq_ok, Bind.bindParameters, Bind.get_eq_ok] at succeeded
  obtain ⟨node, _, ⟨found, rfl⟩, inside, ⟨_, _, rfl, _, _, rfl, _, _, ⟨rfl, rfl⟩, bodyBound⟩,
    rfl⟩ := succeeded
  rw [proper.root] at found
  change Bind.bindBody tree (opened settings tree node.span).settings.nestingLimit node.content
    (opened settings tree node.span) = _ at bodyBound
  rw [settings_opened] at bodyBound
  exact ⟨node, inside, found, bodyBound, rfl⟩

private theorem ScopeTree.coversAll_of_ofStatementTree (proper : tree.Proper)
    (bound : ofStatementTree settings tree = .ok scopes) :
    ∃ inside, CoversAll tree [some ⟨0⟩] (opened settings tree (tree.span (some ⟨0⟩))) inside ∧
      scopes = inside.leave.scopeTree tree.name := by
  obtain ⟨node, inside, found, bodyBound, rfl⟩ := exists_bindBody proper bound
  refine ⟨inside, ?_, rfl⟩
  rw [StatementTree.span_eq found]
  have seated := seated_opened settings tree node.span
  have isLevel := proper.isLevel_root
  cases content : node.content with
  | block members =>
      rw [content] at bodyBound
      refine coversAll_headerMembers proper (visits_visit proper _) found isLevel
        (seated.mono (Nat.le_succ 1))
        (catches_of_none found (by rw [StatementNode.kind, content]; rfl)) ?_
        (by simp [content, StatementContent.children, Function.comp_def]) bodyBound
      rw [content]
      exact .refl _
  | _ =>
      rw [content] at bodyBound
      change Bind.visit tree _ (.statement tree.root .root none) _ = _ at bodyBound
      rw [proper.root] at bodyBound
      exact (visits_visit proper _).statement bodyBound
        ⟨⟨0, isLevel, seated⟩, by simp⟩

section Whole

variable {inside : Binder} {span : Span} {id : RegionId}

theorem Binder.opens_opened (bounded : id.index < inside.regions.size) (notRoot : id ≠ ⟨0⟩) :
    (opened settings tree span).Opens inside id := by
  obtain ⟨index⟩ := id
  refine ⟨?_, bounded⟩
  rw [size_opened]
  exact Nat.one_le_iff_ne_zero.mpr fun isZero => notRoot (congrArg RegionId.mk isZero)

private theorem ScopeTree.exists_root (shows : scopes.Shows (opened settings tree span)) :
    ∃ root, scopes.region? (some ⟨0⟩) = some root ∧ root.kind = .root ∧ root.parent = none ∧
      root.boundary = tree.root ∧ root.branch = none ∧ root.depth = 0 ∧ root.span = span := by
  obtain ⟨root, found, shape⟩ := shows.region (shape?_opened settings tree span)
  exact ⟨root, found, congrArg Region.kind shape, congrArg Region.parent shape,
    congrArg Region.boundary shape, congrArg Region.branch shape, congrArg Region.depth shape,
    congrArg Region.span shape⟩

private theorem ScopeTree.isSite_of_isHome {recorded : ExpressionId → Prop}
    {sited isOpened : StatementId → Prop} {root : Region} {statement : StatementId}
    (agree : Consistent scopes.regions scopes.declarations)
    (regions : scopes.regions = inside.regions)
    (covering : Covering tree scopes recorded sited isOpened (opened settings tree span) inside)
    (rootFound : scopes.region? (some ⟨0⟩) = some root) (isRoot : root.kind = .root)
    (home : (opened settings tree span).IsHome inside tree scopes id statement) :
    id.index < scopes.regions.size ∧ scopes.IsSite tree id statement := by
  have isCurrent := current_opened settings tree span
  refine ⟨?_, fun outer bounded => ?_⟩
  · rcases home.place with same | isOpened
    · rw [isCurrent] at same
      obtain rfl := Option.some.inj same
      exact (Array.getElem?_eq_some_iff.mp rootFound).1
    · rw [regions]
      exact isOpened.2
  · by_cases same : outer = ⟨0⟩
    · subst same
      exact ⟨fun _ => ⟨root, rootFound, .inl isRoot⟩,
        fun _ => covering.within_current (ranked agree) isCurrent id home.place⟩
    · rw [regions] at bounded
      exact home.around outer (opens_opened bounded same)

private theorem ScopeTree.isParameter_of_opened {i : Nat} {declaration : Declaration}
    (shows : scopes.Shows (opened settings tree span))
    (found : scopes.declarations[i]? = some declaration)
    (isParameter : i < (opened settings tree span).declarations.size) :
    declaration.kind = .parameter ∧ declaration.region = some ⟨0⟩ ∧
      declaration.expression = none := by
  have parameters := addsParameters_opened settings tree span
  have noneBefore : (((blank settings tree.statements.size tree.expressions.size).enter .root
      tree.root span none).recordStatement tree.root (some ⟨0⟩)).declarations.size = 0 := by
    cases tree.root <;> rfl
  obtain ⟨parameter, parameterFound, kind, isRegion, noExpression⟩ := parameters.declaration i
    (Nat.le_trans (Nat.le_of_eq noneBefore) (Nat.zero_le i)) isParameter
  have same := shows.declaration i isParameter
  rw [found, parameterFound] at same
  obtain rfl := Option.some.inj same
  refine ⟨kind, isRegion.trans ?_, noExpression⟩
  rw [← parameters.grows.current, current_opened]

end Whole

/-- The scope tree of a proper tree follows its statements. -/
theorem ScopeTree.follows_of_ofStatementTree (proper : tree.Proper)
    (bound : ofStatementTree settings tree = .ok scopes) : scopes.Follows tree := by
  have agree := consistent_of_ofStatementTree bound
  obtain ⟨inside, covers, scopesEq⟩ := coversAll_of_ofStatementTree proper bound
  have regions : scopes.regions = inside.regions := by rw [scopesEq]; exact regions_leave
  have declarations : scopes.declarations = inside.declarations := by
    rw [scopesEq]
    exact declarations_leave
  have records : scopes.expressionRegions = inside.expressionRegions := by
    rw [scopesEq]
    exact expressionRegions_leave
  have shows : scopes.Shows inside := scopesEq ▸ shows_scopeTree inside tree.name
  have showsOpened := shows.earlier covers.grows
  have shown := Covers.holds covers scopes shows (ranked agree)
  obtain ⟨root, rootFound, isRoot, noParent, isBoundary, noBranch, isDepth, isSpan⟩ :=
    exists_root showsOpened
  have opens : ∀ {id : RegionId}, id.index < scopes.regions.size → id ≠ ⟨0⟩ →
      (opened settings tree (tree.span (some ⟨0⟩))).Opens inside id := fun bounded notRoot =>
    opens_opened (regions ▸ bounded) notRoot
  have site : ∀ {id statement},
      (opened settings tree (tree.span (some ⟨0⟩))).IsHome inside tree scopes id statement →
        id.index < scopes.regions.size ∧ scopes.IsSite tree id statement :=
    isSite_of_isHome agree regions shown rootFound isRoot
  have among : ∀ {statement : StatementId}, tree.IsWithin statement ⟨0⟩ →
      tree.IsAmong [some ⟨0⟩] statement := StatementTree.isAmong_singleton.mpr
  refine ⟨agree, ⟨root, rootFound, isRoot, noParent, isBoundary.trans proper.root, noBranch,
    isDepth, isSpan⟩, fun {id} bounded notRoot => ?_, fun {id region} found isSwitch => ?_,
    fun {statement node} found => ?_, fun {expression statement} owned => ?_,
    fun {i declaration} found => ?_⟩
  · obtain ⟨region, parent, found, settled, isParent, next⟩ :=
      shown.region id (opens bounded notRoot)
    have above : scopes.parent (some id) = some parent := (parent_eq found).trans isParent
    exact ⟨region, parent, found, settled, isParent, Nat.lt_trans (ranked agree above) bounded⟩
  · have bounded : id.index < scopes.regions.size := (Array.getElem?_eq_some_iff.mp found).1
    have notRoot : id ≠ ⟨0⟩ := by
      rintro rfl
      obtain rfl := Option.some.inj (Eq.trans rootFound.symm found)
      rw [isRoot] at isSwitch
      cases isSwitch
    obtain ⟨parent, statement, isParent, isBoundary, _, home⟩ :=
      shown.switch id region (opens bounded notRoot) found isSwitch
    exact ⟨parent, statement, isParent, isBoundary, (site home).2⟩
  · obtain ⟨id, home, header⟩ := shown.home statement (among (proper.within_root found))
    refine ⟨id, (site home).1, (site home).2, fun kind isHeader => header kind ?_⟩
    rw [StatementTree.kind?_eq found]
    exact isHeader
  · obtain ⟨node, found, isOwner⟩ := Option.bind_eq_some_iff.mp owned
    obtain ⟨owner, outer, same, ownerFound, _⟩ := proper.owned found
    obtain rfl := Option.some.inj (isOwner.symm.trans same)
    obtain ⟨id, known, recorded, isKnown, _, home⟩ :=
      shown.recorded expression ⟨statement, owned, among (proper.within_root ownerFound)⟩
    obtain rfl := Option.some.inj (owned.symm.trans isKnown)
    refine ⟨id, ?_, site home⟩
    rw [← recorded, ← records]
    rfl
  · by_cases isParameter : i < (opened settings tree (tree.span (some ⟨0⟩))).declarations.size
    · exact .inl (isParameter_of_opened showsOpened found isParameter)
    · have bounded : i < inside.declarations.size := by
        rw [← declarations]
        exact (Array.getElem?_eq_some_iff.mp found).1
      obtain ⟨known, id, statement, knownFound, isRegion, stands, _, home⟩ :=
        shown.declaration i (Nat.not_lt.mp isParameter) bounded
      obtain rfl := Option.some.inj (found.symm.trans knownFound)
      exact .inr ⟨id, statement, isRegion, (site home).1, stands, (site home).2⟩

/-- The scope tree of a procedure follows the statements of its statement tree. -/
theorem ScopeTree.follows_of_ofProcedure {procedure : Procedure}
    (laidOut : StatementTree.ofProcedure procedure = .ok tree)
    (bound : ofStatementTree settings tree = .ok scopes) : scopes.Follows tree :=
  follows_of_ofStatementTree (StatementTree.proper_of_ofProcedure laidOut) bound

/-! ## Regions around a site -/

namespace ScopeTree.Follows

variable {id outer : RegionId} {region : Region} {statement : StatementId} {node : StatementNode}

/-- A region that has a parent is not that of the procedure. -/
theorem settled (follows : scopes.Follows tree) (found : scopes.region? (some id) = some region)
    (above : scopes.parent (some id) = some outer) : region.Settled tree scopes := by
  have notRoot : id ≠ ⟨0⟩ := by
    rintro rfl
    obtain ⟨root, rootFound, _, noParent, _⟩ := follows.root
    rw [parent_eq rootFound, noParent] at above
    cases above
  obtain ⟨known, _, isKnown, settled, _⟩ :=
    follows.region (Array.getElem?_eq_some_iff.mp found).1 notRoot
  exact Option.some.inj (isKnown.symm.trans found) ▸ settled

/-- The regions around a site are those that surround its statement. -/
theorem within_iff (site : scopes.IsSite tree id statement)
    (found : scopes.region? (some outer) = some region) :
    scopes.IsWithin id outer ↔ region.Surrounds tree statement := by
  rw [site outer (Array.getElem?_eq_some_iff.mp found).1]
  constructor
  · rintro ⟨known, isKnown, surrounds⟩
    exact Option.some.inj (isKnown.symm.trans found) ▸ surrounds
  · exact fun surrounds => ⟨region, found, surrounds⟩

/-- The region in which the header of a loop or section stands is a site of the statement and
surrounds just what lies within it. -/
theorem headerRegion (follows : scopes.Follows tree) {kind : RegionKind}
    (found : tree.statement? (some statement) = some node)
    (isHeader : node.kind.headerRegion? = some kind) :
    ∃ id region, scopes.region? (some id) = some region ∧ scopes.IsSite tree id statement ∧
      region.boundary = some statement ∧
      ∀ inner, region.Surrounds tree inner ↔ tree.IsWithin inner statement := by
  obtain ⟨id, _, site, header⟩ := follows.site found
  obtain ⟨region, regionFound, isKind, isBoundary⟩ := header kind isHeader
  refine ⟨id, region, regionFound, site, isBoundary, fun inner => ?_⟩
  have plain : kind = .loop ∨ kind = .switchSection := by
    unfold StatementKind.headerRegion? at isHeader
    split at isHeader <;> simp_all
  unfold Region.Surrounds
  rcases plain with rfl | rfl <;> simp [isKind, isBoundary]

end ScopeTree.Follows

/-! ## Procedures that bind -/

/-- Whether a procedure can be laid out and bound to trees that pass a check. -/
def Procedure.binds (procedure : Procedure) (settings : ScopeSettings)
    (check : StatementTree → ScopeTree → Bool) : Bool :=
  match StatementTree.ofProcedure procedure with
  | .error _ => false
  | .ok tree =>
    match ScopeTree.ofStatementTree settings tree with
    | .error _ => false
    | .ok scopes => check tree scopes

theorem Procedure.exists_of_binds {procedure : Procedure} {settings : ScopeSettings}
    {check : StatementTree → ScopeTree → Bool} (binds : procedure.binds settings check = true) :
    ∃ tree scopes, StatementTree.ofProcedure procedure = .ok tree ∧
      ScopeTree.ofStatementTree settings tree = .ok scopes ∧ check tree scopes = true := by
  unfold Procedure.binds at binds
  cases laidOut : StatementTree.ofProcedure procedure with
  | error failure => simp [laidOut] at binds
  | ok tree =>
      rw [laidOut] at binds
      cases bound : ScopeTree.ofStatementTree settings tree with
      | error failure => simp [bound] at binds
      | ok scopes =>
          simp only [bound] at binds
          exact ⟨tree, scopes, rfl, bound, binds⟩

end LexicalScope
