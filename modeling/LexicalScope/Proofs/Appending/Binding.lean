import LexicalScope.Proofs.Appending.Tree
import LexicalScope.Proofs.Layout.Links
import LexicalScope.Proofs.Scope.Invariant
import LexicalScope.Proofs.Scope.Parallel
import LexicalScope.Proofs.Scope.Sites

/-!
# Binding longer bodies

The members of a longer body are bound like those of the body until only the last one is left: then
both binders have met the same, apart from the text that the procedure covers. Binding the last
member adds to the region of the procedure, which is still open, and to no other one.
-/

namespace LexicalScope

/-! ## Regions with other spans -/

/-- A region that covers another text. -/
def Region.covering (span : Span) (region : Region) : Region := { region with span := span }

private theorem Region.addChild_covering (span : Span) (region : Region) (id : RegionId) :
    (region.covering span).addChild id = (region.addChild id).covering span := rfl

private theorem Region.addDeclaration_covering (span : Span) (region : Region) (name : String)
    (id : DeclarationId) :
    (region.covering span).addDeclaration name id =
      (region.addDeclaration name id).covering span := by
  unfold addDeclaration
  change (if (region.lookup name).isSome then _ else _) = _
  split <;> rfl

theorem modify_comm {Entry : Type} {change other : Entry → Entry}
    (same : ∀ entry, change (other entry) = other (change entry)) (entries : Array Entry)
    (i j : Nat) : (entries.modify i other).modify j change =
      (entries.modify j change).modify i other := by
  refine Array.ext_getElem? fun k => ?_
  simp only [Array.getElem?_modify]
  cases entries[k]? with
  | none => split <;> split <;> rfl
  | some entry => split <;> split <;> simp [same]

private theorem modify_zero_push {Entry : Type} {change : Entry → Entry} {entries : Array Entry}
    (nonempty : 0 < entries.size) (added : Entry) :
    (entries.modify 0 change).push added = (entries.push added).modify 0 change := by
  refine Array.ext_getElem? fun k => ?_
  simp only [Array.getElem?_modify, Array.getElem?_push, Array.size_modify]
  by_cases isFirst : 0 = k
  · subst isFirst
    simp [Nat.ne_of_lt nonempty]
  · simp [isFirst]

/-! ## Members that both bodies have -/

/-- Two binders have met the same, the second one in a tree with more expressions. The region of the
procedure covers the text `span` there. -/
structure Binder.Enlarged (tree longer : StatementTree) (span : Span) (before start : Binder) :
    Prop where
  settings : start.settings = before.settings
  nonempty : 0 < before.regions.size
  regions : start.regions = before.regions.modify 0 (·.covering span)
  declarations : start.declarations = before.declarations
  enclosing : start.enclosing = before.enclosing
  current : start.current = before.current
  bleedDepth : start.bleedDepth = before.bleedDepth
  size : before.expressionRegions.size = tree.expressions.size
  sizeToo : start.expressionRegions.size = longer.expressions.size
  record : ∀ i, i < tree.expressions.size →
    start.expressionRegions.lookup i = before.expressionRegions.lookup i

namespace Binder.Enlarged

variable {tree longer : StatementTree} {span : Span} {before start : Binder}
  (enlarged : Enlarged tree longer span before start)
include enlarged

private theorem enter (kind : RegionKind) (boundary : StatementRef) (covered : Span)
    (branch : Option BranchTag) :
    Enlarged tree longer span (before.enter kind boundary covered branch)
      (start.enter kind boundary covered branch) where
  settings := enlarged.settings
  nonempty := by
    rw [size_enter]
    exact Nat.succ_pos _
  regions := by
    have added : start.nextRegion kind boundary covered branch =
        before.nextRegion kind boundary covered branch := by
      unfold nextRegion
      rw [enlarged.current, enlarged.regions, Array.size_modify]
      cases before.current with
      | none => rfl
      | some parent =>
          rw [Option.bind_some, Option.bind_some, Array.getElem?_modify]
          by_cases isFirst : 0 = parent.index
          · rw [if_pos isFirst]
            cases before.regions[parent.index]? <;> rfl
          · rw [if_neg isFirst]
    cases isCurrent : before.current with
    | none =>
        rw [regions_enter_of_none isCurrent,
          regions_enter_of_none (enlarged.current.trans isCurrent), added,
          enlarged.regions, modify_zero_push enlarged.nonempty]
    | some parent =>
        rw [regions_enter_of_some isCurrent,
          regions_enter_of_some (enlarged.current.trans isCurrent), added,
          enlarged.regions, Array.size_modify, modify_zero_push enlarged.nonempty]
        exact modify_comm (fun region => region.addChild_covering span ⟨before.regions.size⟩) _ _ _
  declarations := enlarged.declarations
  enclosing := by
    simp only [Binder.enter, enlarged.current, enlarged.bleedDepth, enlarged.enclosing]
  current := by simp only [Binder.enter, enlarged.regions, Array.size_modify]
  bleedDepth := rfl
  size := enlarged.size
  sizeToo := enlarged.sizeToo
  record := enlarged.record

private theorem leave : Enlarged tree longer span before.leave start.leave := by
  obtain ⟨settings, nonempty, regions, declarations, enclosing, current, bleedDepth, size, sizeToo,
    record⟩ := enlarged
  unfold Binder.leave
  rw [enclosing]
  cases before.enclosing <;>
    exact ⟨settings, nonempty, regions, declarations, rfl, rfl, rfl, size, sizeToo, record⟩

private theorem declare (name : String) (kind : DeclarationKind) (declared : Span)
    (ref : StatementRef) (expression : ExpressionRef) :
    Enlarged tree longer span (before.declare name kind declared ref expression)
      (start.declare name kind declared ref expression) where
  settings := enlarged.settings
  nonempty := by
    rw [size_declare]
    exact enlarged.nonempty
  regions := by
    simp only [Binder.declare, enlarged.current, enlarged.declarations, enlarged.regions]
    cases before.current with
    | none => rfl
    | some region =>
        exact modify_comm (fun region => region.addDeclaration_covering span _ _) _ _ _
  declarations := by
    simp only [Binder.declare, enlarged.current, enlarged.declarations, enlarged.bleedDepth]
  enclosing := enlarged.enclosing
  current := enlarged.current
  bleedDepth := enlarged.bleedDepth
  size := enlarged.size
  sizeToo := enlarged.sizeToo
  record := enlarged.record

private theorem recordStatement (ref : StatementRef) (region : RegionRef) :
    Enlarged tree longer span (before.recordStatement ref region)
      (start.recordStatement ref region) := by
  obtain ⟨settings, nonempty, regions, declarations, enclosing, current, bleedDepth, size, sizeToo,
    record⟩ := enlarged
  cases ref <;>
    exact ⟨settings, nonempty, regions, declarations, enclosing, current, bleedDepth, size, sizeToo,
      record⟩

private theorem bleed (depth : Nat) :
    Enlarged tree longer span { before with bleedDepth := depth }
      { start with bleedDepth := depth } :=
  { enlarged with bleedDepth := rfl }

end Binder.Enlarged

namespace StatementTree.Appended

variable {tree longer : StatementTree} {members : List StatementRef} {added : StatementId}
  {span : Span} {before start : Binder} (appended : tree.Appended longer members added)
  (proper : tree.Proper)
include appended

private theorem expressionChildren {whole : ExpressionId}
    (inside : whole.index < tree.expressions.size) :
    longer.expressionChildren (some whole) = tree.expressionChildren (some whole) := by
  rw [StatementTree.expressionChildren, appended.expression inside,
    StatementTree.expressionChildren]

include proper

private theorem isPart_iff {whole part : ExpressionId}
    (inside : whole.index < tree.expressions.size) :
    longer.IsPart whole part ↔ tree.IsPart whole part := by
  have within : ∀ {inner}, tree.IsPart whole inner → inner.index < tree.expressions.size := by
    intro inner isPart
    induction isPart with
    | refl => exact inside
    | tail _ isChild _ =>
        obtain ⟨node, found, listed⟩ := exists_of_mem_expressionChildren isChild
        obtain ⟨_, _, innerFound, _⟩ := proper.part found listed
        exact (Array.getElem?_eq_some_iff.mp innerFound).1
  constructor
  · intro isPart
    induction isPart with
    | refl => exact .refl
    | tail _ isChild induction =>
        rw [appended.expressionChildren (within induction)] at isChild
        exact induction.tail isChild
  · intro isPart
    induction isPart with
    | refl => exact .refl
    | tail isPart isChild induction =>
        rw [← appended.expressionChildren (within isPart)] at isChild
        exact induction.tail isChild

private theorem recordExpression (properToo : longer.Proper)
    (enlarged : Binder.Enlarged tree longer span before start) {expression : ExpressionRef}
    (present : tree.HasExpression expression) :
    Binder.Enlarged tree longer span (before.recordExpression tree expression)
      (start.recordExpression longer expression) := by
  cases expression with
  | none => exact { enlarged with }
  | some whole =>
      have inside := present whole rfl
      refine { enlarged with size := ?_, sizeToo := ?_, record := fun i bounded => ?_ }
      · exact (Binder.size_recordBelow ..).trans enlarged.size
      · exact (Binder.size_recordBelow ..).trans enlarged.sizeToo
      · obtain ⟨kept, recorded⟩ := @Binder.lookup_recordBelow tree before.current proper
          tree.expressionSteps before.expressionRegions whole ⟨i⟩
        obtain ⟨keptToo, recordedToo⟩ := @Binder.lookup_recordBelow longer start.current
          properToo longer.expressionSteps start.expressionRegions whole ⟨i⟩
        have same : longer.IsPart whole ⟨i⟩ ↔ tree.IsPart whole ⟨i⟩ :=
          appended.isPart_iff proper inside
        change (Binder.recordBelow longer start.current longer.expressionSteps
          start.expressionRegions whole).lookup i = (Binder.recordBelow tree before.current
            tree.expressionSteps before.expressionRegions whole).lookup i
        by_cases isPart : tree.IsPart whole ⟨i⟩
        · rw [recorded isPart enlarged.size inside (Nat.le_add_left_of_le (Nat.le_succ _)),
            recordedToo (same.mpr isPart) enlarged.sizeToo (Nat.lt_of_lt_of_le inside appended.size)
              (Nat.le_add_left_of_le (Nat.le_succ _)), enlarged.current]
        · rw [kept.resolve_right fun both => isPart both.2,
            keptToo.resolve_right fun both => isPart (same.mp both.2), enlarged.record i bounded]

/-- The statements that both trees have are bound side by side. -/
theorem parallel (properToo : longer.Proper) (span : Span) :
    Bind.Parallel .id tree longer tree.IsInner tree.HasExpression False
      (Binder.Enlarged tree longer span) where
  node {ref} inner := by
    have repeats := appended.repeats proper
    obtain ⟨id, rfl, notRoot, bounded⟩ := inner
    have found : tree.statement? (some id) = some tree.statements[id.index] :=
      Array.getElem?_eq_getElem bounded
    refine ⟨_, found, ?_, fun child listed => ⟨proper.isInner_child found listed, ?_⟩,
      fun slot listed => proper.hasExpression_slot found listed⟩
    · rw [repeats.statement ⟨id, rfl, notRoot, bounded⟩, found, Option.map_some]
    · intro breakExits before start enlarged
      rw [enlarged.settings]
      exact repeats.alwaysExits _ _ (proper.isInner_child found listed)
  isTwoWay inner := by
    obtain ⟨id, rfl, _, bounded⟩ := inner
    exact appended.isTwoWay proper properToo bounded
  addsBleedLevel inner position := by rw [appended.classify proper properToo inner]
  introduced present := (appended.repeats proper).introduced Rewording.faithful_id present
  introducedByLabel present :=
    (appended.repeats proper).introducedByLabel Rewording.faithful_id present
  current enlarged := enlarged.current
  bleedDepth enlarged := enlarged.bleedDepth
  limit := False.elim
  enter enlarged kind boundary span branch := enlarged.enter kind boundary span branch
  leave enlarged := enlarged.leave
  bleed enlarged depth := enlarged.bleed depth
  recordStatement enlarged ref region := enlarged.recordStatement ref region
  declare enlarged name kind span ref expression := enlarged.declare name kind span ref expression
  recordExpression enlarged _ present :=
    appended.recordExpression proper properToo enlarged present

private theorem enlarged_opened (properToo : longer.Proper) (settings : ScopeSettings)
    (span spanToo : Span) :
    Binder.Enlarged tree longer spanToo (.opened settings tree span)
      (.opened settings longer spanToo) := by
  have parallel := appended.parallel proper properToo spanToo
  refine parallel.declareParameters ?_ (properToo.root.trans proper.root.symm) ?_
  · exact appended.parameters.trans (List.map_id tree.parameters).symm
  · rw [proper.root, properToo.root]
    exact
      { settings := rfl
        nonempty := Nat.zero_lt_one
        regions := rfl
        declarations := rfl
        enclosing := rfl
        current := rfl
        bleedDepth := rfl
        size := Array.size_replicate
        sizeToo := Array.size_replicate
        record := fun i _ =>
          (RegionRecord.lookup_blank _ i).trans (RegionRecord.lookup_blank _ i).symm }

end StatementTree.Appended

/-! ## The last member -/

/-- A later binder has grown, and of the regions that were there only the open one has changed. -/
structure Binder.Spares (before after : Binder) : Prop extends Binder.Grows before after where
  region : ∀ i, i < before.regions.size → before.current ≠ some ⟨i⟩ →
    after.regions[i]? = before.regions[i]?

namespace Binder

variable {before inside : Binder} {i : Nat}

private theorem region_enter_of_ne (notCurrent : before.current ≠ some ⟨i⟩)
    (bounded : i < before.regions.size) (kind : RegionKind) (boundary : StatementRef) (span : Span)
    (branch : Option BranchTag) :
    (before.enter kind boundary span branch).regions[i]? = before.regions[i]? := by
  unfold enter
  cases isCurrent : before.current with
  | none => simp [Array.getElem?_push, Nat.ne_of_lt bounded]
  | some parent =>
      have other : parent.index ≠ i := fun same => notCurrent (isCurrent.trans (same ▸ rfl))
      simp [Array.getElem?_modify, Array.getElem?_push, other, Nat.ne_of_lt bounded]

private theorem region_declare_of_ne (notCurrent : before.current ≠ some ⟨i⟩) (name : String)
    (kind : DeclarationKind) (span : Span) (statement : StatementRef)
    (expression : ExpressionRef) :
    (before.declare name kind span statement expression).regions[i]? = before.regions[i]? := by
  rw [region_declare, Option.map_congr fun region _ => if_neg notCurrent, Option.map_id']

/-- Binding spares every region but the open one: regions opened meanwhile are left again. -/
theorem tracked_spares (tree : StatementTree) : Bind.Tracked tree Spares where
  refl binder := ⟨.refl binder, fun _ _ _ => rfl⟩
  trans {first second third} left right :=
    ⟨left.toGrows.trans right.toGrows, fun i bounded notCurrent =>
      (right.region i (Nat.lt_of_lt_of_le bounded left.regions) (left.current ▸ notCurrent)).trans
        (left.region i bounded notCurrent)⟩
  header before :=
    { declare := fun name kind span statement expression held =>
        ⟨held.toGrows.trans (grows_declare ..), fun i bounded notCurrent => by
          rw [region_declare_of_ne (held.current ▸ notCurrent), held.region i bounded notCurrent]⟩
      recordExpression := fun expression held => by
        refine ⟨held.toGrows.trans (grows_recordExpression tree expression),
          fun i bounded notCurrent => ?_⟩
        rw [← held.region i bounded notCurrent]
        cases expression <;> rfl }
  recordStatement binder statement region := by
    have same := binder.resembles_recordStatement statement region
    refine ⟨(Grows.refl binder).resembling ⟨rfl, rfl, rfl, rfl, rfl, rfl⟩ same ?_,
      fun i _ _ => by rw [same.regions]⟩
    cases statement <;> rfl
  region {before inside} kind boundary span branch held := by
    refine ⟨grows_region held.toGrows, fun i bounded notCurrent => ?_⟩
    have notNew : (before.enter kind boundary span branch).current ≠ some ⟨i⟩ := fun same =>
      Nat.ne_of_lt bounded (congrArg RegionId.index (Option.some.inj same)).symm
    rw [regions_leave, held.region i (by rw [size_enter]; exact Nat.lt_succ_of_lt bounded) notNew,
      region_enter_of_ne notCurrent bounded]
  bleed {before inside} depth held :=
    ⟨held.toGrows.resembling (before.resembles_bleed depth).symm (inside.resembles_bleed _) rfl,
      held.region⟩

end Binder

private theorem Bind.exists_of_bindMembers_append {visit : Visit → Bind Unit}
    {members others : List StatementRef} {before after : Binder}
    (bound : bindMembers visit (members ++ others) before = .ok () after) :
    ∃ middle, bindMembers visit members before = .ok () middle ∧
      bindMembers visit others middle = .ok () after := by
  induction members generalizing before with
  | nil => exact ⟨before, rfl, bound⟩
  | cons first rest induction =>
      obtain ⟨between, firstBound, restBound⟩ := Step.forM_cons_eq_ok.mp bound
      obtain ⟨middle, others, last⟩ := induction restBound
      exact ⟨middle, Step.forM_cons_eq_ok.mpr ⟨between, firstBound, others⟩, last⟩

namespace StatementTree.Appended

variable {tree longer : StatementTree} {members : List StatementRef} {added : StatementId}
  {settings : ScopeSettings} {scopes extended : ScopeTree}

/-- The binder of the longer body meets all that the binder of the body meets before it binds the
last member, and then adds to it. -/
theorem exists_binders (appended : tree.Appended longer members added) (proper : tree.Proper)
    (properToo : longer.Proper) (bound : ScopeTree.ofStatementTree settings tree = .ok scopes)
    (boundToo : ScopeTree.ofStatementTree settings longer = .ok extended) :
    ∃ span inside middle after, scopes = Binder.scopeTree (Binder.leave inside) tree.name ∧
      extended = Binder.scopeTree (Binder.leave after) longer.name ∧
      Binder.Enlarged tree longer span inside middle ∧ middle.Spares after ∧
      middle.current = some ⟨0⟩ ∧ CoversAll longer [some added] middle after := by
  obtain ⟨node, inside, found, bodyBound, rfl⟩ := ScopeTree.exists_bindBody proper bound
  obtain ⟨nodeToo, after, foundToo, bodyBoundToo, rfl⟩ :=
    ScopeTree.exists_bindBody properToo boundToo
  have content : node.content = .block members :=
    Option.some.inj ((content?_eq found).symm.trans appended.content)
  have contentToo : nodeToo.content = .block (members ++ [some added]) :=
    Option.some.inj ((content?_eq foundToo).symm.trans appended.contentToo)
  rw [content] at bodyBound
  rw [contentToo] at bodyBoundToo
  have visitable : ∀ member ∈ members, tree.IsInner member := by
    intro member among
    have listed : (member, Position.member) ∈ node.content.children := by
      rw [content]
      exact List.mem_map_of_mem among
    exact proper.isInner_child found listed
  -- Up to the last member both binders do the same.
  have mirrors := ((appended.parallel proper properToo nodeToo.span).mirrorsVisits 0 False.elim
    settings.nestingLimit).bindMembers visitable
  obtain ⟨middle, ranToo, enlarged⟩ := mirrors.exists_ok
    (appended.enlarged_opened proper properToo settings node.span nodeToo.span) bodyBound
  obtain ⟨_, firstBound, lastBound⟩ := Bind.exists_of_bindMembers_append bodyBoundToo
  cases firstBound.symm.trans ranToo
  have spared := Binder.tracked_spares longer
  have visits := spared.tracks_visit settings.nestingLimit
  have before := (spared.bindMembers visits members).relates _ _ _ firstBound
  have spares := (spared.bindMembers visits [some added]).relates _ _ _ lastBound
  -- The last member is bound where the others were.
  have isLevel := properToo.isLevel_root
  have seated := ((Binder.seated_opened settings longer nodeToo.span).grows before.toGrows).mono
    (Nat.le_add_left 1 2)
  refine ⟨nodeToo.span, inside, middle, after, rfl, rfl, enlarged, spares,
    before.current.trans (Binder.current_opened ..), ?_⟩
  refine coversAll_bindMembers properToo (visits_visit properToo _) foundToo isLevel ?_
    (List.nodup_singleton _) seated lastBound
  intro member among
  obtain rfl := List.mem_singleton.mp among
  rw [contentToo]
  simp [StatementContent.children]

end StatementTree.Appended

end LexicalScope
