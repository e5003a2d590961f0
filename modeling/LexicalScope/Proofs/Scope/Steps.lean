import LexicalScope.Proofs.Scope.Header
import LexicalScope.Proofs.Step

/-!
# Primitive steps of binding

What the primitive steps of binding do when they succeed. Where statements are recorded and how many
unbraced bodies are counted has no part in what a step covers.
-/

namespace LexicalScope

/-! ## Primitive steps -/

namespace Bind

variable {before after : Binder} {step : Bind Unit} {value : Unit}

theorem apply_eq_ok {change : Binder → Binder} :
    apply change before = .ok value after ↔ change before = after := by
  simp [apply]

theorem find_eq_ok {tree : StatementTree} {ref : StatementRef} {node : StatementNode} :
    find tree ref before = .ok node after ↔ tree.statement? ref = some node ∧ before = after := by
  unfold find
  cases tree.statement? ref with
  | none =>
      dsimp only
      split <;> simp
  | some found => simp

theorem branchTag_eq_ok {tree : StatementTree} {conditional body : StatementRef} {index : Nat}
    {span : Span} {breakExits : Bool} {tag : BranchTag} :
    branchTag tree conditional index body span breakExits before = .ok tag after ↔
      tag = ⟨conditional, index,
          tree.alwaysExits breakExits before.settings.nestingLimit body, span⟩ ∧
        before = after := by
  simp only [branchTag, EStateM.Result.ok.injEq]
  exact and_congr_left' eq_comm

theorem inRegion_eq_ok {kind : RegionKind} {boundary : StatementRef} {span : Span}
    {branch : Option BranchTag} :
    inRegion kind boundary span branch step before = .ok value after ↔
      ∃ inside, step (before.enter kind boundary span branch) = .ok () inside ∧
        after = inside.leave := by
  unfold inRegion
  cases step (before.enter kind boundary span branch) with
  | ok _ inside => simp [eq_comm]
  | error failure inside => simp

theorem withBleed_eq_ok {added : Bool} :
    withBleed added step before = .ok value after ↔
      ∃ depth inside, step { before with bleedDepth := depth } = .ok () inside ∧
        depth = (if added then before.bleedDepth + 1 else before.bleedDepth) ∧
        after = { inside with bleedDepth := before.bleedDepth } := by
  unfold withBleed
  dsimp only
  cases result : step { before with
      bleedDepth := if added then before.bleedDepth + 1 else before.bleedDepth } with
  | ok _ inside =>
      simp only [EStateM.Result.ok.injEq, true_and]
      constructor
      · rintro rfl
        exact ⟨_, inside, result, rfl, rfl⟩
      · rintro ⟨_, other, stepped, rfl, rfl⟩
        rw [result] at stepped
        cases stepped
        rfl
  | error failure inside =>
      simp only [reduceCtorEq, false_iff]
      rintro ⟨_, other, stepped, rfl, rfl⟩
      rw [result] at stepped
      cases stepped

theorem recordAround_eq_ok {statement : StatementRef} :
    recordAround statement step before = .ok value after ↔
      ∃ inside, step before = .ok () inside ∧
        after = inside.recordStatement statement before.current := by
  unfold recordAround
  cases step before with
  | ok _ inside => simp [eq_comm]
  | error failure inside => simp

end Bind

/-! ## Binders that differ in nothing that is covered -/

namespace Binder

/-- Two binders agree in the regions, the declarations and the records of expressions. -/
structure Resembles (binder other : Binder) : Prop where
  settings : other.settings = binder.settings
  current : other.current = binder.current
  enclosing : other.enclosing = binder.enclosing
  regions : other.regions = binder.regions
  declarations : other.declarations = binder.declarations
  expressionRegions : other.expressionRegions = binder.expressionRegions

theorem resembles_recordStatement (binder : Binder) (statement : StatementRef)
    (region : RegionRef) : binder.Resembles (binder.recordStatement statement region) := by
  cases statement <;> exact ⟨rfl, rfl, rfl, rfl, rfl, rfl⟩

theorem resembles_bleed (binder : Binder) (depth : Nat) :
    binder.Resembles { binder with bleedDepth := depth } :=
  ⟨rfl, rfl, rfl, rfl, rfl, rfl⟩

theorem Resembles.symm {binder other : Binder} (same : binder.Resembles other) :
    other.Resembles binder :=
  ⟨same.settings.symm, same.current.symm, same.enclosing.symm, same.regions.symm,
    same.declarations.symm, same.expressionRegions.symm⟩

variable {before after start stop : Binder} {tree : StatementTree} {scopes : ScopeTree}

theorem Resembles.shape? (same : before.Resembles start) (index : Nat) :
    start.shape? index = before.shape? index := by
  rw [Binder.shape?, Binder.shape?, same.regions]

/-- Growth does not depend on where statements are recorded, nor on how many unbraced bodies there
are. -/
theorem Grows.resembling (grows : before.Grows after) (sameStart : before.Resembles start)
    (sameStop : after.Resembles stop) (bleed : stop.bleedDepth = start.bleedDepth) :
    start.Grows stop where
  settings := by rw [sameStop.settings, grows.settings, sameStart.settings]
  current := by rw [sameStop.current, grows.current, sameStart.current]
  enclosing := by rw [sameStop.enclosing, grows.enclosing, sameStart.enclosing]
  bleedDepth := bleed
  regions := by
    rw [sameStart.regions, sameStop.regions]
    exact grows.regions
  shape i bound := by
    rw [sameStart.regions] at bound
    rw [sameStart.shape?, sameStop.shape?, grows.shape i bound]
  declarations := by
    rw [sameStart.declarations, sameStop.declarations]
    exact grows.declarations
  declaration i bound := by
    rw [sameStart.declarations] at bound ⊢
    rw [sameStop.declarations, grows.declaration i bound]
  record := by
    rw [sameStart.expressionRegions, sameStop.expressionRegions]
    exact grows.record

private theorem IsHome.resembling (sameStart : before.Resembles start)
    (sameStop : after.Resembles stop) {id : RegionId} {statement : StatementId}
    (home : before.IsHome after tree scopes id statement) :
    start.IsHome stop tree scopes id statement := by
  have opens : ∀ outer, start.Opens stop outer ↔ before.Opens after outer := by
    intro outer
    rw [Opens, Opens, sameStart.regions, sameStop.regions]
  refine ⟨?_, fun outer isOpen => home.around outer ((opens outer).mp isOpen)⟩
  rw [sameStart.current, opens]
  exact home.place

end Binder

theorem ScopeTree.Shows.resembling {scopes : ScopeTree} {after stop : Binder}
    (shows : scopes.Shows stop) (same : after.Resembles stop) : scopes.Shows after where
  shape i bound := by
    rw [← same.shape?]
    exact shows.shape i (by rw [same.regions]; exact bound)
  declaration i bound := by
    rw [← same.declarations]
    exact shows.declaration i (by rw [same.declarations]; exact bound)

namespace Covers

variable {before after start stop : Binder} {tree : StatementTree}
  {recorded : ExpressionId → Prop} {sited opened : StatementId → Prop}

/-- What a step covers does not depend on where statements are recorded, nor on how many unbraced
bodies there are. -/
theorem resembling (covers : Covers tree recorded sited opened before after)
    (sameStart : before.Resembles start) (sameStop : after.Resembles stop)
    (bleed : stop.bleedDepth = start.bleedDepth) :
    Covers tree recorded sited opened start stop := by
  refine ⟨covers.grows.resembling sameStart sameStop bleed, ?_, fun scopes shows ranked => ?_⟩
  · rw [sameStart.current, sameStart.regions]
    exact covers.current
  · have shown := covers.holds scopes (shows.resembling sameStop) ranked
    have opens : ∀ id, start.Opens stop id ↔ before.Opens after id := by
      intro id
      rw [Binder.Opens, Binder.Opens, sameStart.regions, sameStop.regions]
    have home : ∀ {id statement}, before.IsHome after tree scopes id statement →
        start.IsHome stop tree scopes id statement :=
      fun isHome => isHome.resembling sameStart sameStop
    have records : ∀ {expression}, before.RecordsHome after tree scopes sited expression →
        start.RecordsHome stop tree scopes sited expression := by
      rintro expression ⟨id, statement, known, owned, isSited, isHome⟩
      exact ⟨id, statement, by rw [sameStop.expressionRegions]; exact known, owned, isSited,
        home isHome⟩
    refine ⟨fun id isOpen => ?_, fun id statement isOpen surrounds =>
      shown.extent id statement ((opens id).mp isOpen) surrounds,
      fun id region isOpen found isSwitch => ?_,
      fun statement isSited => ?_, fun expression => ?_, fun expression isRecorded =>
      records (shown.recorded expression isRecorded), fun i lower upper => ?_⟩
    · obtain ⟨region, parent, found, settled, isParent, next⟩ :=
        shown.region id ((opens id).mp isOpen)
      rw [← sameStart.current, ← opens] at next
      exact ⟨region, parent, found, settled, isParent, next⟩
    · obtain ⟨parent, statement, isParent, isBoundary, isSited, isHome⟩ :=
        shown.switch id region ((opens id).mp isOpen) found isSwitch
      exact ⟨parent, statement, isParent, isBoundary, isSited, home isHome⟩
    · obtain ⟨id, isHome, header⟩ := shown.home statement isSited
      exact ⟨id, home isHome, header⟩
    · rw [sameStart.expressionRegions, sameStop.expressionRegions]
      exact (shown.unchanged expression).imp_right records
    · rw [sameStart.declarations] at lower
      rw [sameStop.declarations] at upper
      obtain ⟨declaration, id, statement, found, isRegion, stands, isSited, isHome⟩ :=
        shown.declaration i lower upper
      exact ⟨declaration, id, statement, found, isRegion, stands, isSited, home isHome⟩

end Covers

end LexicalScope
