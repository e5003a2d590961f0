import LexicalScope.Procedure.Build
import LexicalScope.Proofs.Scope.Ancestry
import LexicalScope.Proofs.Scope.Boundaries
import LexicalScope.Proofs.Scope.Numbering
import LexicalScope.Proofs.Scope.Traversal

/-!
# The region around a statement

The region recorded for a statement is the one that is open where the statement begins: the parent
of the first region that the statement opens, and a region around those recorded inside. A branch
with a region around it is recorded twice, first inside and then outside.
-/

namespace LexicalScope

namespace Binder

/-- The region recorded for a statement. -/
def regionOf (binder : Binder) (id : StatementId) : RegionRef :=
  binder.statementRegions.lookup id.index

/-- The first region that a statement has opened. -/
def firstOf (binder : Binder) (id : StatementId) : RegionRef :=
  binder.boundaryRegions.lookup id.index

variable {tree : StatementTree} {before middle after binder : Binder} {kind : RegionKind}
  {boundary : StatementRef} {span : Span} {branch : Option BranchTag} {id : StatementId}
  {listed among others behind : StatementId → Prop}

@[simp] theorem regionOf_enter :
    (binder.enter kind boundary span branch).regionOf id = binder.regionOf id := rfl

@[simp] theorem statementRegions_leave :
    binder.leave.statementRegions = binder.statementRegions := by
  unfold leave
  split <;> rfl

@[simp] theorem boundaryRegions_leave : binder.leave.boundaryRegions = binder.boundaryRegions := by
  unfold leave
  split <;> rfl

@[simp] theorem regionOf_leave : binder.leave.regionOf id = binder.regionOf id := by
  rw [regionOf, statementRegions_leave, regionOf]

@[simp] theorem firstOf_leave : binder.leave.firstOf id = binder.firstOf id := by
  rw [firstOf, boundaryRegions_leave, firstOf]

@[simp] theorem parent_leave : binder.leave.parent = binder.parent :=
  funext fun region => by rw [parent, regions_leave, parent]

@[simp] theorem parent_recordStatement (statement : StatementRef) (region : RegionRef) :
    (binder.recordStatement statement region).parent = binder.parent := by
  cases statement <;> rfl

theorem size_boundaryRegions_enter :
    (binder.enter kind boundary span branch).boundaryRegions.size =
      binder.boundaryRegions.size := by
  cases boundary with
  | none => rfl
  | some opening => exact RegionRecord.size_putFirst ..

@[simp] theorem firstOf_recordStatement (statement : StatementRef) (region : RegionRef) :
    (binder.recordStatement statement region).firstOf id = binder.firstOf id := by
  cases statement <;> rfl

theorem regionOf_recordStatement (statement : StatementId) (region : RegionRef) :
    (binder.recordStatement (some statement) region).regionOf id =
      if statement.index = id.index ∧ statement.index < binder.statementRegions.size then region
      else binder.regionOf id :=
  lookup_put ..

theorem regionOf_recordStatement_of_ne {other : StatementId} {region : RegionRef}
    (different : other ≠ id) :
    (binder.recordStatement (some id) region).regionOf other = binder.regionOf other := by
  rw [regionOf_recordStatement]
  exact if_neg fun same => different (congrArg StatementId.mk same.1.symm)

theorem parent_eq_bind (region : RegionId) :
    binder.parent region = (binder.shape? region.index).bind Region.parent := by
  unfold parent shape?
  cases binder.regions[region.index]? <;> rfl

theorem Grows.parent_eq_some (grows : before.Grows after) {inner outer : RegionId}
    (above : before.parent inner = some outer) : after.parent inner = some outer := by
  rw [parent_eq_bind] at above ⊢
  obtain ⟨shape, known, isParent⟩ := Option.bind_eq_some_iff.mp above
  rw [grows.known known, Option.bind_some, isParent]

private theorem Grows.under (grows : before.Grows after) {inner outer : RegionId}
    (under : Under before.parent inner outer) : Under after.parent inner outer := by
  induction under with
  | refl => exact .refl _
  | tail _ above induction => exact induction.under_parent (grows.parent_eq_some above)

theorem parent_enter_next :
    (binder.enter kind boundary span branch).parent ⟨binder.regions.size⟩ = binder.current := by
  rw [parent_eq_bind, shape?_enter, if_pos rfl]
  rfl

/-- Statements can be recorded while a region is open. -/
structure Placeable (tree : StatementTree) (binder : Binder) : Prop where
  current : ∃ id, binder.current = some id
  statements : binder.statementRegions.size = tree.statements.size
  boundaries : binder.boundaryRegions.size = tree.statements.size

private theorem Placeable.enter (placeable : binder.Placeable tree) :
    (binder.enter kind boundary span branch).Placeable tree where
  current := ⟨_, rfl⟩
  statements := placeable.statements
  boundaries := size_boundaryRegions_enter.trans placeable.boundaries

theorem firstOf_enter_of_ne {other : StatementId} (different : other ≠ id) :
    (binder.enter kind (some id) span branch).firstOf other = binder.firstOf other := by
  rw [firstOf, lookup_enter, if_neg fun opens => different (Option.some.inj opens.1).symm, firstOf]

private theorem Placeable.firstOf_enter (placeable : binder.Placeable tree)
    (bound : id.index < tree.statements.size) (unknown : binder.firstOf id = none) :
    (binder.enter kind (some id) span branch).firstOf id = some ⟨binder.regions.size⟩ := by
  rw [firstOf, lookup_enter, if_pos ⟨rfl, placeable.boundaries ▸ bound, unknown⟩]

theorem firstOf_enter_of_some {other : StatementId} {region : RegionId}
    (known : binder.firstOf other = some region) :
    (binder.enter kind boundary span branch).firstOf other = some region := by
  rw [firstOf, lookup_enter, if_neg fun opens => ?_]
  · exact known
  · cases opens.2.2.symm.trans known

/-- Some statements are visited, in the open region those that are listed and in the regions of
their parents or inside them the others. -/
structure Places (tree : StatementTree) (listed among : StatementId → Prop)
    (before after : Binder) : Prop where
  grows : before.Grows after
  statements : after.statementRegions.size = before.statementRegions.size
  boundaries : after.boundaryRegions.size = before.boundaryRegions.size
  within : ∀ {id}, listed id → among id
  recorded : ∀ {id}, listed id → after.regionOf id = before.current
  edge : ∀ {lower}, among lower → listed lower ∨ ∃ upper inner outer,
    tree.parent (some lower) = some upper ∧ among upper ∧ after.regionOf lower = some inner ∧
      after.regionOf upper = some outer ∧ Under after.parent inner outer
  first : ∀ {id region}, among id → before.firstOf id = none → after.firstOf id = some region →
    ∃ outer, after.regionOf id = some outer ∧ after.parent region = some outer
  keeps : ∀ {id region}, before.firstOf id = some region → after.firstOf id = some region
  unchanged : ∀ {id}, ¬ among id →
    after.regionOf id = before.regionOf id ∧ after.firstOf id = before.firstOf id

namespace Places

private theorem placeable (places : Places tree listed among before after)
    (start : before.Placeable tree) : after.Placeable tree where
  current := places.grows.current ▸ start.current
  statements := places.statements.trans start.statements
  boundaries := places.boundaries.trans start.boundaries

theorem congr (places : Places tree listed among before after)
    (sameListed : ∀ id, listed id ↔ others id) (sameAmong : ∀ id, among id ↔ behind id) :
    Places tree others behind before after := by
  obtain rfl : listed = others := funext fun id => propext (sameListed id)
  obtain rfl : among = behind := funext fun id => propext (sameAmong id)
  exact places

private theorem of_idles (idles : before.Idles after) :
    Places tree (fun _ => False) (fun _ => False) before after where
  grows := idles.stays.grows
  statements := by rw [idles.statements]
  boundaries := by rw [idles.boundaries]
  within := False.elim
  recorded := False.elim
  edge := False.elim
  first := False.elim
  keeps known := by rwa [firstOf, idles.boundaries]
  unchanged _ := ⟨by rw [regionOf, idles.statements, regionOf], by
    rw [firstOf, idles.boundaries, firstOf]⟩

private theorem header (recorded : before.regionOf id = before.current) :
    Places tree (· = id) (· = id) before before where
  grows := .refl before
  statements := rfl
  boundaries := rfl
  within := fun same => same
  recorded := by
    rintro _ rfl
    exact recorded
  edge := .inl
  first _ unknown known := by cases unknown.symm.trans known
  keeps known := known
  unchanged _ := ⟨rfl, rfl⟩

private theorem append (first : Places tree listed among before middle)
    (second : Places tree others behind middle after) (apart : ∀ id, among id → ¬ behind id) :
    Places tree (fun id => listed id ∨ others id) (fun id => among id ∨ behind id)
      before after where
  grows := first.grows.trans second.grows
  statements := second.statements.trans first.statements
  boundaries := second.boundaries.trans first.boundaries
  within := Or.imp first.within second.within
  recorded := by
    rintro id (isListed | isListed)
    · rw [(second.unchanged (apart id (first.within isListed))).1, first.recorded isListed]
    · rw [second.recorded isListed, first.grows.current]
  edge := by
    rintro lower (isAmong | isBehind)
    · refine (first.edge isAmong).imp .inl ?_
      rintro ⟨upper, inner, outer, above, upperAmong, isInner, isOuter, under⟩
      refine ⟨upper, inner, outer, above, .inl upperAmong, ?_, ?_, second.grows.under under⟩
      · rw [(second.unchanged (apart lower isAmong)).1, isInner]
      · rw [(second.unchanged (apart upper upperAmong)).1, isOuter]
    · refine (second.edge isBehind).imp .inr ?_
      rintro ⟨upper, inner, outer, above, upperBehind, rest⟩
      exact ⟨upper, inner, outer, above, .inr upperBehind, rest⟩
  first := by
    rintro id region (isAmong | isBehind) unknown known
    · obtain ⟨sameRegion, sameFirst⟩ := second.unchanged (apart id isAmong)
      obtain ⟨outer, isOuter, isParent⟩ := first.first isAmong unknown (sameFirst ▸ known)
      exact ⟨outer, sameRegion.trans isOuter, second.grows.parent_eq_some isParent⟩
    · have notAmong : ¬ among id := fun isAmong => apart id isAmong isBehind
      exact second.first isBehind ((first.unchanged notAmong).2.trans unknown) known
  keeps known := second.keeps (first.keeps known)
  unchanged notAmong := by
    obtain ⟨notAmong, notBehind⟩ := not_or.mp notAmong
    obtain ⟨region, opened⟩ := first.unchanged notAmong
    obtain ⟨regionToo, openedToo⟩ := second.unchanged notBehind
    exact ⟨regionToo.trans region, openedToo.trans opened⟩

/-- Children that are visited in the region in which their parent is recorded need not be listed. -/
theorem adopt (places : Places tree (fun other => other = id ∨ listed other) among before after)
    (start : before.Placeable tree)
    (children : ∀ lower, listed lower → tree.parent (some lower) = some id) :
    Places tree (· = id) among before after where
  __ := places
  within same := places.within (.inl same)
  recorded same := places.recorded (.inl same)
  edge := by
    intro lower isAmong
    rcases places.edge isAmong with (same | isListed) | inside
    · exact .inl same
    · obtain ⟨current, isCurrent⟩ := start.current
      exact .inr ⟨id, current, current, children lower isListed, places.within (.inl rfl),
        (places.recorded (.inr isListed)).trans isCurrent,
        (places.recorded (.inl rfl)).trans isCurrent, .refl _⟩
    · exact .inr inside

section Region

variable (start : before.Placeable tree) (bound : id.index < tree.statements.size)
  (inside : Places tree listed among (before.enter kind (some id) span branch) after)
include start bound inside

theorem parent_first {region : RegionId} (unknown : before.firstOf id = none)
    (known : after.firstOf id = some region) : after.parent region = before.current := by
  have isNext := inside.keeps (start.firstOf_enter bound unknown)
  obtain rfl := Option.some.inj (isNext.symm.trans known)
  obtain ⟨current, isCurrent⟩ := start.current
  rw [isCurrent]
  exact inside.grows.parent_eq_some (parent_enter_next.trans isCurrent)

/-- A recorded statement opens a region, in which its listed children are visited. -/
theorem region (recorded : before.regionOf id = before.current)
    (children : ∀ lower, listed lower → tree.parent (some lower) = some id)
    (apart : ¬ among id) :
    Places tree (· = id) (fun other => other = id ∨ among other) before after.leave := by
  obtain ⟨current, isCurrent⟩ := start.current
  have recordedAfter : after.regionOf id = some current := by
    rw [(inside.unchanged apart).1, regionOf_enter, recorded, isCurrent]
  refine ⟨grows_region inside.grows, ?_, ?_, .inl, ?_, ?_, ?_, fun known => ?_, fun notAmong => ?_⟩
  · rw [statementRegions_leave, inside.statements]
    rfl
  · rw [boundaryRegions_leave, inside.boundaries, size_boundaryRegions_enter]
  · rintro _ rfl
    rw [regionOf_leave, recordedAfter, isCurrent]
  · rintro lower (same | isAmong)
    · exact .inl same
    · right
      rw [regionOf_leave, parent_leave]
      rcases inside.edge isAmong with isListed | ⟨upper, inner, outer, above, upperAmong, rest⟩
      · refine ⟨id, _, current, children lower isListed, .inl rfl, inside.recorded isListed, ?_, ?_⟩
        · rw [regionOf_leave, recordedAfter]
        · exact .ofParent (inside.grows.parent_eq_some (parent_enter_next.trans isCurrent))
      · exact ⟨upper, inner, outer, above, .inr upperAmong, by rwa [regionOf_leave]⟩
  · rintro other region (rfl | isAmong) unknown known
    · rw [firstOf_leave] at known
      refine ⟨current, by rw [regionOf_leave, recordedAfter], ?_⟩
      rw [parent_leave, inside.parent_first start bound unknown known, isCurrent]
    · have different : other ≠ id := fun same => apart (same ▸ isAmong)
      rw [regionOf_leave, parent_leave]
      rw [firstOf_leave] at known
      exact inside.first isAmong ((firstOf_enter_of_ne different).trans unknown) known
  · rw [firstOf_leave, inside.keeps (firstOf_enter_of_some known)]
  · obtain ⟨different, notAmong⟩ := not_or.mp notAmong
    obtain ⟨sameRegion, sameFirst⟩ := inside.unchanged notAmong
    rw [regionOf_leave, firstOf_leave, sameRegion, sameFirst, firstOf_enter_of_ne different]
    exact ⟨rfl, rfl⟩

private theorem around (own : ∀ other, listed other ↔ other = id) :
    Places tree listed among before (after.leave.recordStatement (some id) before.current) := by
  obtain ⟨current, isCurrent⟩ := start.current
  have size : id.index < after.leave.statementRegions.size := by
    rw [statementRegions_leave, inside.statements]
    exact start.statements ▸ bound
  have outside : (after.leave.recordStatement (some id) before.current).regionOf id =
      some current := by
    rw [regionOf_recordStatement, if_pos ⟨rfl, size⟩, isCurrent]
  have elsewhere : ∀ other, other ≠ id →
      (after.leave.recordStatement (some id) before.current).regionOf other =
        after.regionOf other := by
    intro other different
    rw [regionOf_recordStatement_of_ne different, regionOf_leave]
  have isSelf : among id := inside.within ((own id).mpr rfl)
  refine ⟨(grows_region inside.grows).trans (after.leave.stays_recordStatement _ _).grows, ?_, ?_,
    inside.within, fun isListed => ?_, fun {lower} isAmong => ?_,
    fun {other region} isAmong unknown known => ?_, fun known => ?_, fun {other} notAmong => ?_⟩
  · rw [recordStatement, RegionRecord.put, Array.size_setIfInBounds, statementRegions_leave,
      inside.statements]
    rfl
  · rw [recordStatement, boundaryRegions_leave, inside.boundaries, size_boundaryRegions_enter]
  · rw [(own _).mp isListed, outside, isCurrent]
  · by_cases same : lower = id
    · exact .inl ((own lower).mpr same)
    · obtain ⟨upper, inner, outer, above, upperAmong, isInner, isOuter, under⟩ :=
        (inside.edge isAmong).resolve_left fun isListed => same ((own lower).mp isListed)
      rw [parent_recordStatement, parent_leave]
      refine .inr ⟨upper, inner, ?_⟩
      by_cases upperSame : upper = id
      · -- what is recorded in the region of the branch lies inside the region around it
        subst upperSame
        have isNext := inside.recorded ((own upper).mpr rfl)
        obtain rfl := Option.some.inj (isNext.symm.trans isOuter)
        exact ⟨current, above, isSelf, (elsewhere lower same).trans isInner, outside,
          under.under_parent (inside.grows.parent_eq_some (parent_enter_next.trans isCurrent))⟩
      · exact ⟨outer, above, upperAmong, (elsewhere lower same).trans isInner,
          (elsewhere upper upperSame).trans isOuter, under⟩
  · rw [firstOf_recordStatement, firstOf_leave] at known
    rw [parent_recordStatement, parent_leave]
    by_cases same : other = id
    · subst same
      exact ⟨current, outside, (inside.parent_first start bound unknown known).trans isCurrent⟩
    · rw [elsewhere other same]
      exact inside.first isAmong ((firstOf_enter_of_ne same).trans unknown) known
  · rw [firstOf_recordStatement, firstOf_leave, inside.keeps (firstOf_enter_of_some known)]
  · have different : other ≠ id := fun same => notAmong (same ▸ isSelf)
    obtain ⟨sameRegion, sameFirst⟩ := inside.unchanged notAmong
    rw [elsewhere other different, firstOf_recordStatement, firstOf_leave, sameRegion, sameFirst,
      firstOf_enter_of_ne different]
    exact ⟨rfl, rfl⟩

end Region

private theorem record (places : Places tree (· = id) among
    (before.recordStatement (some id) before.current) after) :
    Places tree (· = id) among before after where
  __ := places
  grows := (before.stays_recordStatement _ _).grows.trans places.grows
  statements := places.statements.trans Array.size_setIfInBounds
  first isAmong unknown := places.first isAmong ((firstOf_recordStatement ..).trans unknown)
  keeps known := places.keeps ((firstOf_recordStatement ..).trans known)
  unchanged {other} notAmong := by
    have different : other ≠ id := fun same => notAmong (places.within same)
    obtain ⟨sameRegion, sameFirst⟩ := places.unchanged notAmong
    exact ⟨sameRegion.trans (regionOf_recordStatement_of_ne different),
      sameFirst.trans (firstOf_recordStatement ..)⟩

private theorem bleed (depth : Nat)
    (places : Places tree listed among { before with bleedDepth := depth } after) :
    Places tree listed among before { after with bleedDepth := before.bleedDepth } where
  __ := places
  grows := places.grows.resembling (before.resembles_bleed depth).symm (after.resembles_bleed _) rfl

end Places

/-! ## Visits -/

private theorem composes_places (proper : tree.Proper) :
    Bind.Composes tree
      (fun refs before after => before.Placeable tree →
        Places tree (fun id => some id ∈ refs) (tree.IsAmong refs) before after)
      (fun id before after => before.Placeable tree → before.regionOf id = before.current →
        Places tree (· = id) (tree.IsWithin · id) before after) where
  idle idles _ := (Places.of_idles idles).congr (by simp) (by simp)
  append siblings first second start := by
    have placed := first start
    refine (placed.append (second (placed.placeable start)) ?_).congr ?_ ?_
    · exact fun id => siblings.apart proper
    · simp
    · exact fun id => StatementTree.isAmong_append.symm
  record found filled start := by
    have bound := StatementTree.index_lt_of_statement found
    refine ((filled ⟨start.current, ?_, start.boundaries⟩ ?_).record).congr ?_ ?_
    · exact Array.size_setIfInBounds.trans start.statements
    · rw [regionOf_recordStatement, if_pos ⟨rfl, start.statements ▸ bound⟩]
      rfl
    · simp [eq_comm]
    · exact fun id => StatementTree.isAmong_singleton.symm
  bleed depth filled start recorded :=
    (filled ⟨start.current, start.statements, start.boundaries⟩ recorded).bleed depth
  children {id node _ _} found visited start recorded := by
    have self : ∀ other, other = id → ¬ tree.IsAmong (node.content.children.map (·.1)) other := by
      rintro _ rfl
      exact proper.not_among_self found
    have placed := (Places.header recorded).append (visited start) self
    exact (placed.adopt start fun lower => proper.parent_of_child found).congr
      (fun _ => Iff.rfl) fun inner => (proper.within_iff found).symm
  own {id node _ middle _} kind branch found header visited start recorded := by
    have bound := StatementTree.index_lt_of_statement found
    have idled := header start
    have startToo := idled.placeable start
    have recordedToo : middle.regionOf id = middle.current := by
      rw [(idled.unchanged StatementTree.isAmong_nil).1, recorded, idled.grows.current]
    have opened := (visited startToo.enter).region startToo bound recordedToo
      (fun lower => proper.parent_of_child found) (proper.not_among_self found)
    refine (idled.append opened fun _ isAmong => ?_).congr (by simp) fun inner => ?_
    · exact absurd isAmong StatementTree.isAmong_nil
    · simp [proper.within_iff found]
  link {id node thenBody others _ _ _} branch found children first behind start recorded := by
    have listed : node.content.children.map (·.1) = [some thenBody] ++ others := children
    have siblings := listed ▸ StatementTree.areSiblings_children found
    have isParent : ∀ lower, some lower ∈ [some thenBody] ++ others →
        tree.parent (some lower) = some id := fun lower member =>
      proper.parent_of_child found (listed ▸ member)
    have self := listed ▸ proper.not_among_self found
    rw [StatementTree.isAmong_append, not_or] at self
    have opened := (first start.enter).region start (StatementTree.index_lt_of_statement found)
      recorded (fun lower member => isParent lower (List.mem_append_left _ member)) self.1
    have placed := opened.append (behind (opened.placeable start)) (by
      rintro inner (rfl | inThen)
      · exact self.2
      · exact siblings.apart proper inThen)
    refine (placed.adopt start fun lower member =>
      isParent lower (List.mem_append_right _ member)).congr (fun _ => Iff.rfl) fun inner => ?_
    rw [proper.within_iff found, listed, StatementTree.isAmong_append, or_assoc]
  around branch found visited start :=
    (visited start.enter).around start (StatementTree.index_lt_of_statement found) fun _ => by
      simp [eq_comm]

/-! ## Whole procedures -/

section Opened

variable {settings : ScopeSettings}

theorem idles_opened :
    (((blank settings tree.statements.size tree.expressions.size).enter .root tree.root span
      none).recordStatement tree.root (some ⟨0⟩)).Idles (opened settings tree span) :=
  Bind.keeps_foldl _ (fun _ parameter => (preserved_idles _ tree).declare parameter.name .parameter
    parameter.span tree.root none) tree.parameters (.refl _)

variable (proper : tree.Proper)
include proper

theorem placeable_opened : (opened settings tree span).Placeable tree where
  current := ⟨_, current_opened settings tree span⟩
  statements := by
    rw [idles_opened.statements, proper.root]
    exact Array.size_setIfInBounds.trans Array.size_replicate
  boundaries := by
    rw [idles_opened.boundaries, proper.root]
    change (enter .root (some ⟨0⟩) span none (blank ..)).boundaryRegions.size = _
    rw [size_boundaryRegions_enter]
    exact Array.size_replicate

private theorem regionOf_opened (found : 0 < tree.statements.size) :
    (opened settings tree span).regionOf ⟨0⟩ = some ⟨0⟩ := by
  rw [regionOf, idles_opened.statements, proper.root]
  change (recordStatement (some ⟨0⟩) (some ⟨0⟩) (enter ..)).regionOf ⟨0⟩ = _
  rw [regionOf_recordStatement]
  refine if_pos ⟨rfl, ?_⟩
  change 0 < Array.size (Array.replicate _ _)
  rwa [Array.size_replicate]

private theorem firstOf_opened (other : id ≠ ⟨0⟩) :
    (opened settings tree span).firstOf id = none := by
  rw [firstOf, idles_opened.boundaries, proper.root]
  change (enter .root (some ⟨0⟩) span none (blank ..)).firstOf id = none
  rw [firstOf_enter_of_ne other]
  exact RegionRecord.lookup_blank ..

end Opened

/-- What is recorded for a statement lies inside what is recorded for a statement around it. -/
theorem Places.under {root inner outer : StatementId}
    (places : Places tree (· = root) (tree.IsWithin · root) before after)
    (start : before.Placeable tree) (parentless : tree.parent (some root) = none)
    (within : tree.IsWithin inner outer) (inRoot : tree.IsWithin outer root) :
    ∃ lower upper, after.regionOf inner = some lower ∧ after.regionOf outer = some upper ∧
      Under after.parent lower upper := by
  induction within using Relation.ReflTransGen.head_induction_on with
  | refl =>
      rcases places.edge inRoot with same | ⟨_, region, _, _, _, isRegion, _⟩
      · obtain ⟨current, isCurrent⟩ := start.current
        have isRegion := (places.recorded same).trans isCurrent
        exact ⟨current, current, isRegion, isRegion, .refl _⟩
      · exact ⟨region, region, isRegion, isRegion, .refl _⟩
  | head above within induction =>
      obtain ⟨middle, upper, isMiddle, isUpper, higher⟩ := induction
      have inRootToo := (Under.ofParent above).trans (Under.trans within inRoot)
      rcases places.edge inRootToo with rfl | ⟨_, lower, _, isKnown, _, isLower, isNext, under⟩
      · cases parentless.symm.trans above
      · obtain rfl := Option.some.inj (isKnown.symm.trans above)
        obtain rfl := Option.some.inj (isNext.symm.trans isMiddle)
        exact ⟨lower, upper, isLower, isUpper, under.trans higher⟩

end Binder

namespace ScopeTree

variable {procedure : Procedure} {settings : ScopeSettings} {tree : StatementTree}
  {scopes : ScopeTree}

private theorem exists_places (proper : tree.Proper)
    (bound : ofStatementTree settings tree = .ok scopes) :
    ∃ span inside, (Binder.opened settings tree span).Places tree (· = ⟨0⟩) (tree.IsWithin · ⟨0⟩)
      inside ∧ scopes = inside.leave.scopeTree tree.name := by
  obtain ⟨node, inside, found, bodyBound, rfl⟩ := exists_bindBody proper bound
  refine ⟨node.span, inside, ?_, rfl⟩
  have composes := Binder.composes_places proper
  have start : (Binder.opened settings tree node.span).Placeable tree :=
    Binder.placeable_opened proper
  rcases Bind.relates_bindBody composes proper _ found _ _ _ bodyBound with visited | visited
  · exact (visited start).congr (by simp) fun _ => StatementTree.isAmong_singleton
  · refine composes.children found visited start ?_
    rw [Binder.regionOf_opened proper (StatementTree.index_lt_of_statement found),
      Binder.current_opened]

/-- Statements are recorded around the first regions that they open, and around what is recorded for
the statements inside them. -/
structure Placed (scopes : ScopeTree) (tree : StatementTree) : Prop where
  root : scopes.regionOfStatement (some ⟨0⟩) = some ⟨0⟩
  under : ∀ {inner outer}, tree.IsWithin inner outer → tree.IsWithin outer ⟨0⟩ →
    ∃ lower upper, scopes.regionOfStatement (some inner) = some lower ∧
      scopes.regionOfStatement (some outer) = some upper ∧ scopes.IsWithin lower upper
  first : ∀ {id region}, id ≠ ⟨0⟩ → scopes.boundaryRegion (some id) = some region →
    scopes.regionOfStatement (some id) = scopes.parent (some region)

private theorem placed_of_ofStatementTree (proper : tree.Proper)
    (bound : ofStatementTree settings tree = .ok scopes) : scopes.Placed tree := by
  obtain ⟨span, inside, places, isScopes⟩ := exists_places proper bound
  have recorded : ∀ id, scopes.regionOfStatement (some id) = inside.regionOf id := fun id => by
    rw [isScopes]
    exact Binder.regionOf_leave
  have opened : ∀ id, scopes.boundaryRegion (some id) = inside.firstOf id := fun id => by
    rw [isScopes]
    exact Binder.firstOf_leave
  have isParent : (fun region => scopes.parent (some region)) = inside.parent := by
    rw [isScopes]
    exact Binder.parent_leave
  refine ⟨?_, fun {inner outer} within outerInRoot => ?_, fun {id region} other known => ?_⟩
  · exact (recorded _).trans ((places.recorded rfl).trans (Binder.current_opened ..))
  · simp only [recorded, IsWithin, isParent]
    exact places.under (Binder.placeable_opened proper) proper.parent_root within outerInRoot
  · have unknown : (Binder.opened settings tree span).firstOf id = none :=
      Binder.firstOf_opened proper other
    rw [opened] at known
    have inRoot : tree.IsWithin id ⟨0⟩ := by
      by_contra outside
      cases ((places.unchanged outside).2.trans unknown).symm.trans known
    obtain ⟨outer, isOuter, above⟩ := places.first inRoot unknown known
    rw [recorded, isOuter, ← above, ← isParent]

private theorem Placed.exists_region (placed : scopes.Placed tree) (proper : tree.Proper)
    (follows : scopes.Follows tree) {id : StatementId} (inTree : id.index < tree.statements.size) :
    ∃ region, scopes.regionOfStatement (some id) = some region ∧
      region.index < scopes.regions.size := by
  have inRoot := proper.within_root (Array.getElem?_eq_getElem inTree)
  obtain ⟨region, upper, isRegion, isUpper, within⟩ := placed.under inRoot (.refl _)
  obtain rfl := Option.some.inj (placed.root.symm.trans isUpper)
  refine ⟨region, isRegion, ?_⟩
  rcases within.eq_or_parent with rfl | ⟨_, above, _⟩
  · obtain ⟨_, rootFound, _⟩ := follows.root
    exact (Array.getElem?_eq_some_iff.mp rootFound).1
  · obtain ⟨_, found, _⟩ := Option.bind_eq_some_iff.mp above
    exact (Array.getElem?_eq_some_iff.mp found).1

/-- Every statement is recorded in a region: around the first region that it opens itself, and
around or in the regions recorded for the statements inside it. -/
theorem regionOfStatement_around (laidOut : StatementTree.ofProcedure procedure = .ok tree)
    (bound : ofStatementTree settings tree = .ok scopes) :
    (∀ id : StatementId, id.index < tree.statements.size →
      ∃ region, scopes.regionOfStatement (some id) = some region ∧
        region.index < scopes.regions.size) ∧
    (∀ (id : StatementId) (region : RegionId), tree.root ≠ some id →
      scopes.boundaryRegion (some id) = some region →
        scopes.regionOfStatement (some id) = scopes.parent (some region)) ∧
    ∀ inner outer : StatementId, inner.index < tree.statements.size →
      tree.IsWithin inner outer → scopes.isAncestorOrSelf (scopes.regionOfStatement (some outer))
        (scopes.regionOfStatement (some inner)) = true := by
  have proper := StatementTree.proper_of_ofProcedure laidOut
  have follows := follows_of_ofProcedure laidOut bound
  have placed := placed_of_ofStatementTree proper bound
  refine ⟨fun id inTree => placed.exists_region proper follows inTree,
    fun id region notRoot known => ?_, fun inner outer inTree within => ?_⟩
  · rw [proper.root] at notRoot
    exact placed.first (fun same => notRoot (congrArg some same.symm)) known
  · have innerInRoot := proper.within_root (Array.getElem?_eq_getElem inTree)
    have outerInRoot : tree.IsWithin outer ⟨0⟩ := by
      rcases within.total innerInRoot with inRoot | around
      · exact inRoot
      · rcases around.eq_or_parent with rfl | ⟨_, above, _⟩
        · exact .refl _
        · cases proper.parent_root.symm.trans above
    obtain ⟨lower, upper, isLower, isUpper, within⟩ := placed.under within outerInRoot
    obtain ⟨region, isRegion, bounded⟩ := placed.exists_region proper follows inTree
    obtain rfl := Option.some.inj (isLower.symm.trans isRegion)
    rw [isLower, isUpper]
    exact (follows.isAncestorOrSelf_iff bounded).mpr within

end ScopeTree

/-- An `if` whose branches have no braces: a chain, which opens a second region for its head, and a
loop around a switch. -/
def Procedure.unbraced : Procedure :=
  .plain "p" ["a"] (.block [.ifElse (.name "a")
    (.ifElse (.name "a") (.evaluation (.name "a")) (.ifThen (.name "a") (.block [])))
    (.whileLoop (.name "a") (.switch (.name "a") [.plain [.otherwise] [.breaking]]))])

theorem ScopeTree.regionOfStatement_around_unbraced :
    ∃ tree scopes, StatementTree.ofProcedure .unbraced = .ok tree ∧
      ofStatementTree .default tree = .ok scopes ∧
      scopes.boundaryRegion (some ⟨2⟩) = some ⟨1⟩ ∧
      scopes.regionOfStatement (some ⟨2⟩) = some ⟨0⟩ ∧
      (∀ id : StatementId, id.index < tree.statements.size →
        ∃ region, scopes.regionOfStatement (some id) = some region ∧
          region.index < scopes.regions.size) ∧
      (∀ (id : StatementId) (region : RegionId), tree.root ≠ some id →
        scopes.boundaryRegion (some id) = some region →
          scopes.regionOfStatement (some id) = scopes.parent (some region)) ∧
      ∀ inner outer : StatementId, inner.index < tree.statements.size →
        tree.IsWithin inner outer → scopes.isAncestorOrSelf (scopes.regionOfStatement (some outer))
          (scopes.regionOfStatement (some inner)) = true := by
  have binds : Procedure.unbraced.binds .default (fun _ scopes => decide (
      scopes.boundaryRegion (some ⟨2⟩) = some ⟨1⟩ ∧
      scopes.regionOfStatement (some ⟨2⟩) = some ⟨0⟩)) = true := by
    decide +kernel
  obtain ⟨tree, scopes, laidOut, bound, check⟩ := Procedure.exists_of_binds binds
  obtain ⟨opened, recorded⟩ := of_decide_eq_true check
  exact ⟨tree, scopes, laidOut, bound, opened, recorded, regionOfStatement_around laidOut bound⟩

end LexicalScope
