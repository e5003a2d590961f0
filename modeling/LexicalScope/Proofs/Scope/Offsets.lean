import LexicalScope.Proofs.Scope.Sites
import LexicalScope.Proofs.StatementTree.Spans

/-!
# Regions at an offset

In a bracketed tree the regions that cover an offset in the header of a statement are those that
surround the statement, and besides the region of the statement itself if this is a switch. So the
innermost region at the offset is the site of the statement or lies directly inside it.
-/

namespace LexicalScope

variable {tree : StatementTree} {scopes : ScopeTree} {statement boundary : StatementId}
  {region : Region} {offset : Nat}

theorem Span.contains_iff {span : Span} :
    span.contains offset = true ↔ span.start ≤ offset ∧ offset < span.stop := by
  simp [Span.contains]

namespace StatementTree.Bracketed

theorem contains_span_iff (bracketed : tree.Bracketed) (proper : tree.Proper)
    {node : StatementNode} (found : tree.statement? (some boundary) = some node)
    (header : tree.IsHeaderOffset statement offset) :
    (tree.span (some boundary)).contains offset = true ↔ tree.IsWithin statement boundary := by
  rw [Span.contains_iff]
  constructor
  · rintro ⟨start_le, lt_stop⟩
    exact bracketed.within_of_headerOffset proper header found start_le lt_stop
  · intro within
    obtain ⟨inner, innerFound, start_lt, lt_stop, _⟩ := header
    rw [← span_eq innerFound] at start_lt lt_stop
    have := bracketed.span_within proper within
    omega

private theorem contains_linkSpan_iff (bracketed : tree.Bracketed) (proper : tree.Proper)
    {condition : ExpressionRef} {thenBody : StatementId} {elseBody : StatementRef}
    (content : tree.content? (some boundary) = some (.branch condition (some thenBody) elseBody))
    (header : tree.IsHeaderOffset statement offset) :
    Span.contains ⟨(tree.span (some boundary)).start,
        max (tree.span (some thenBody)).stop (tree.span (some boundary)).start⟩ offset = true ↔
      statement = boundary ∨ tree.IsWithin statement thenBody := by
  obtain ⟨node, found, isContent⟩ := Option.map_eq_some_iff.mp content
  have thenListed : some thenBody ∈ node.content.children.map (·.1) := by
    rw [isContent]
    cases elseBody <;> exact List.mem_cons_self
  have thenAbove := proper.parent_of_child found thenListed
  have thenInside := bracketed.span_parent proper thenAbove
  have thenSpan := bracketed.start_le_stop (some thenBody)
  have isHeader := header
  obtain ⟨inner, innerFound, start_lt, lt_stop, outside⟩ := header
  rw [← span_eq innerFound] at start_lt lt_stop
  rw [Span.contains_iff]
  dsimp only
  constructor
  · rintro ⟨start_le, lt_max⟩
    have within := bracketed.within_of_headerOffset proper isHeader found start_le (by omega)
    rcases (proper.within_iff found).mp within with same | ⟨child, listed, inChild⟩
    · exact .inl same
    · refine .inr ?_
      by_cases same : child = thenBody
      · exact same ▸ inChild
      · -- The other child stands behind the first branch.
        exfalso
        have childSpan := bracketed.span_within proper inChild
        have childStart := bracketed.start_le_stop (some child)
        have ordered := bracketed.ordered found
        rw [isContent] at listed ordered
        cases elseBody with
        | none =>
            simp only [StatementContent.children, List.map_cons, List.map_nil, List.mem_singleton,
              Option.some.injEq] at listed
            exact same listed
        | some elseBody =>
            simp only [StatementContent.children, List.map_cons, List.map_nil, List.mem_cons,
              Option.some.injEq, List.not_mem_nil, or_false] at listed ordered
            obtain rfl := listed.resolve_left same
            have behind := List.rel_of_pairwise_cons ordered List.mem_cons_self
            omega
  · rintro (rfl | within)
    · -- The header of an `if` stands before its branches.
      obtain rfl := Option.some.inj (found.symm.trans innerFound)
      obtain ⟨entry, isEntry, same⟩ := List.mem_map.mp thenListed
      have before := (outside entry isEntry).2 (by rw [StatementNode.kind, isContent]; rfl)
      rw [same] at before
      omega
    · have := bracketed.span_within proper within
      omega

end StatementTree.Bracketed

/-- A region inside that of the procedure covers the offsets in the headers of the statements that
it surrounds, and for a switch those in the header of the switch. -/
theorem Region.Origin.contains_iff (origin : region.Origin tree) (proper : tree.Proper)
    (bracketed : tree.Bracketed) (header : tree.IsHeaderOffset statement offset) :
    region.span.contains offset = true ↔ region.Surrounds tree statement ∨
      region.kind = .switch ∧ region.boundary = some statement := by
  obtain ⟨boundary, node, isBoundary, found⟩ := origin.boundary
  by_cases opensLink : region.OpensLink tree boundary
  · obtain ⟨condition, thenBody, elseBody, content, isSpan⟩ :=
      origin.link boundary isBoundary opensLink
    rw [isSpan, bracketed.contains_linkSpan_iff proper content header]
    unfold Region.Surrounds
    simp only [opensLink.1, isBoundary, opensLink, reduceCtorEq, false_or, Option.some.injEq,
      exists_eq_left', true_and, not_true, false_and, or_false]
    refine or_congr_right ⟨fun within => ⟨condition, thenBody, elseBody, content, within⟩, ?_⟩
    rintro ⟨_, _, _, same, within⟩
    obtain ⟨_, sameThen, _⟩ :=
      StatementContent.branch.inj (Option.some.inj (content.symm.trans same))
    exact Option.some.inj sameThen ▸ within
  · rw [origin.span boundary isBoundary opensLink, bracketed.contains_span_iff proper found header]
    unfold Region.Surrounds
    cases kind : region.kind with
    | root => exact absurd kind origin.notRoot
    | switch =>
        simp only [isBoundary, reduceCtorEq, false_or, Option.some.injEq, exists_eq_left',
          true_and, StatementTree.IsBelow]
        by_cases same : statement = boundary
        · subst same
          simp only [or_true, iff_true]
          exact .refl _
        · simp [same, Ne.symm same]
    | _ => simp [isBoundary, opensLink]

/-! ## The innermost region at an offset -/

namespace ScopeTree

variable {id child site other : RegionId} {inner : Region}

theorem childAt_eq_some (agree : Consistent scopes.regions scopes.declarations)
    (found : scopes.region? (some id) = some region)
    (chosen : scopes.childAt offset region = some inner) :
    scopes.parent (some inner.id) = some id ∧ scopes.region? (some inner.id) = some inner ∧
      inner.span.contains offset = true := by
  unfold childAt at chosen
  obtain ⟨child, isChild, childFound⟩ :=
    List.mem_filterMap.mp (List.mem_of_find?_eq_some chosen)
  obtain ⟨known, isKnown, isParent⟩ := (agree.child found).mp (Array.mem_toList_iff.mp isChild)
  obtain rfl := Option.some.inj (isKnown.symm.trans childFound)
  have isNumber : known.id = child := agree.number isKnown
  have contains := List.find?_some chosen
  rw [isNumber]
  exact ⟨(parent_eq childFound).trans isParent, childFound, contains⟩

theorem childAt_eq_none (agree : Consistent scopes.regions scopes.declarations)
    (found : scopes.region? (some id) = some region)
    (nothing : scopes.childAt offset region = none) (above : scopes.parent (some child) = some id)
    (childFound : scopes.region? (some child) = some inner) :
    ¬ inner.span.contains offset = true := by
  refine List.find?_eq_none.mp nothing inner (List.mem_filterMap.mpr ⟨child, ?_, childFound⟩)
  rw [parent_eq childFound] at above
  exact Array.mem_toList_iff.mpr ((agree.child found).mpr ⟨inner, childFound, above⟩)

theorem depth_le_of_within (agree : Consistent scopes.regions scopes.declarations)
    (within : scopes.IsWithin child id) (childFound : scopes.region? (some child) = some inner)
    (found : scopes.region? (some id) = some region) : region.depth ≤ inner.depth := by
  induction within generalizing region with
  | refl =>
      obtain rfl := Option.some.inj (found.symm.trans childFound)
      exact Nat.le_refl _
  | tail _ above induction =>
      obtain ⟨middle, middleFound, isParent⟩ := Option.bind_eq_some_iff.mp above
      obtain ⟨_, outer, outerFound, deeper⟩ := agree.parent middleFound isParent
      obtain rfl := Option.some.inj (found.symm.trans outerFound)
      exact Nat.le_trans (by omega) (induction middleFound)

theorem IsSite.unique (agree : Consistent scopes.regions scopes.declarations)
    (isSite : scopes.IsSite tree site statement) (isOther : scopes.IsSite tree other statement)
    (siteBound : site.index < scopes.regions.size)
    (otherBound : other.index < scopes.regions.size) :
    site = other :=
  Under.antisymm (ranked agree)
    ((isSite other otherBound).mpr ((isOther other otherBound).mp (.refl _)))
    ((isOther site siteBound).mpr ((isSite site siteBound).mp (.refl _)))

/-- A region is the site of a statement, or that of the statement itself, a switch, directly inside
the site. -/
def IsLanding (scopes : ScopeTree) (site id : RegionId) (statement : StatementId) : Prop :=
  id = site ∨ ∃ region, scopes.region? (some id) = some region ∧
    region.parent = some site ∧ region.kind = .switch ∧ region.boundary = some statement

namespace Follows

theorem parent_of_switch (follows : scopes.Follows tree)
    (isSite : scopes.IsSite tree site statement) (siteBound : site.index < scopes.regions.size)
    (found : scopes.region? (some id) = some region) (isSwitch : region.kind = .switch)
    (isBoundary : region.boundary = some statement) : region.parent = some site := by
  obtain ⟨parent, known, isParent, isKnown, parentSite⟩ := follows.switch found isSwitch
  obtain rfl := Option.some.inj (isBoundary.symm.trans isKnown)
  have above : scopes.parent (some id) = some parent := (parent_eq found).trans isParent
  have bound : id.index < scopes.regions.size := (Array.getElem?_eq_some_iff.mp found).1
  have parentBound := Nat.lt_trans (ranked follows.agree above) bound
  rw [isParent, parentSite.unique follows.agree isSite parentBound siteBound]

/-- A region inside another covers an offset in the header of a statement if it is around the site,
or if it is that of the statement. -/
theorem contains_iff (follows : scopes.Follows tree) (proper : tree.Proper)
    (bracketed : tree.Bracketed) (header : tree.IsHeaderOffset statement offset)
    (isSite : scopes.IsSite tree site statement) (above : scopes.parent (some child) = some id)
    (found : scopes.region? (some child) = some inner) :
    inner.span.contains offset = true ↔ scopes.IsWithin site child ∨
      inner.kind = .switch ∧ inner.boundary = some statement := by
  rw [(follows.settled found above).origin.contains_iff proper bracketed header,
    within_iff isSite found]

private theorem descend_switch (follows : scopes.Follows tree) (proper : tree.Proper)
    (bracketed : tree.Bracketed) (header : tree.IsHeaderOffset statement offset)
    (isSite : scopes.IsSite tree site statement) {siteRegion : Region}
    (siteFound : scopes.region? (some site) = some siteRegion) {steps : Nat}
    (found : scopes.region? (some id) = some region) (isParent : region.parent = some site) :
    scopes.descend offset steps region = region := by
  have agree := follows.agree
  have isInside : scopes.parent (some id) = some site := (parent_eq found).trans isParent
  cases steps with
  | zero => rfl
  | succ steps =>
      unfold descend
      cases chosen : scopes.childAt offset region with
      | none => rfl
      | some inner =>
          exfalso
          obtain ⟨above, innerFound, contains⟩ := childAt_eq_some agree found chosen
          rcases (follows.contains_iff proper bracketed header isSite above innerFound).mp contains
            with inChild | ⟨isSwitch, isBoundary⟩
          · exact Under.not_under_child (ranked agree) isInside (inChild.under_parent above)
          · have siteBound := (Array.getElem?_eq_some_iff.mp siteFound).1
            have outside :=
              follows.parent_of_switch isSite siteBound innerFound isSwitch isBoundary
            rw [parent_eq innerFound, outside] at above
            obtain rfl := Option.some.inj above
            exact Under.not_under_child (ranked agree) isInside (.refl _)

/-- Going down from a region around the site of a statement by an offset in the header of the
statement ends at the site or in the region of the statement. -/
theorem descend_landing (follows : scopes.Follows tree) (proper : tree.Proper)
    (bracketed : tree.Bracketed) (header : tree.IsHeaderOffset statement offset)
    (isSite : scopes.IsSite tree site statement) {siteRegion : Region}
    (siteFound : scopes.region? (some site) = some siteRegion) {steps : Nat}
    (found : scopes.region? (some id) = some region) (within : scopes.IsWithin site id)
    (enough : siteRegion.depth < region.depth + steps) :
    scopes.IsLanding site (scopes.descend offset steps region).id statement := by
  have agree := follows.agree
  have siteBound := (Array.getElem?_eq_some_iff.mp siteFound).1
  induction steps generalizing id region with
  | zero =>
      have := depth_le_of_within agree within siteFound found
      omega
  | succ steps induction =>
      unfold descend
      cases chosen : scopes.childAt offset region with
      | none =>
          refine .inl ((agree.number found).trans ?_)
          rcases within.eq_or_child with same | ⟨child, above, inChild⟩
          · exact same.symm
          · obtain ⟨inner, childFound, _⟩ := Option.bind_eq_some_iff.mp above
            exact absurd ((follows.contains_iff proper bracketed header isSite above childFound).mpr
              (.inl inChild)) (childAt_eq_none agree found chosen above childFound)
      | some inner =>
          obtain ⟨above, innerFound, contains⟩ := childAt_eq_some agree found chosen
          rcases (follows.contains_iff proper bracketed header isSite above innerFound).mp contains
            with inChild | ⟨isSwitch, isBoundary⟩
          · obtain ⟨_, outer, outerFound, deeper⟩ :=
              agree.parent innerFound ((parent_eq innerFound).symm.trans above)
            obtain rfl := Option.some.inj (found.symm.trans outerFound)
            exact induction innerFound inChild (by omega)
          · have isParent :=
              follows.parent_of_switch isSite siteBound innerFound isSwitch isBoundary
            dsimp only
            rw [follows.descend_switch proper bracketed header isSite siteFound innerFound isParent]
            exact .inr ⟨inner, innerFound, isParent, isSwitch, isBoundary⟩

/-- The innermost region at an offset in the header of a statement is the site of the statement or
the region of the statement, a switch. -/
theorem regionAt_landing (follows : scopes.Follows tree) (proper : tree.Proper)
    (bracketed : tree.Bracketed) (header : tree.IsHeaderOffset statement offset)
    (isSite : scopes.IsSite tree site statement) (siteBound : site.index < scopes.regions.size) :
    ∃ id, scopes.regionAt offset = some id ∧ scopes.IsLanding site id statement := by
  obtain ⟨root, rootFound, isRoot, _, _, _, isDepth, isSpan⟩ := follows.root
  obtain ⟨body, bodyFound, _⟩ := proper.body
  have siteFound : scopes.region? (some site) = some scopes.regions[site.index] :=
    Array.getElem?_eq_getElem siteBound
  have notEmpty : scopes.root = some ⟨0⟩ := by
    have : scopes.regions ≠ #[] := by
      rintro isEmpty
      simp [isEmpty] at siteBound
    simp [ScopeTree.root, this]
  have inRoot : tree.IsWithin statement ⟨0⟩ := by
    obtain ⟨node, found, _⟩ := header
    exact proper.within_root found
  have contains : root.span.contains offset = true := by
    rw [isSpan]
    exact (bracketed.contains_span_iff proper bodyFound header).mpr inRoot
  have within : scopes.IsWithin site ⟨0⟩ := (within_iff isSite rootFound).mpr (.inl isRoot)
  have shallow : scopes.regions[site.index].depth < root.depth + (Limit.regionWalk + 1) := by
    rcases within.eq_or_parent with rfl | ⟨above, isParent, _⟩
    · obtain rfl := Option.some.inj (rootFound.symm.trans siteFound)
      exact Nat.lt_add_of_pos_right (Nat.succ_pos _)
    · have depth := (follows.settled siteFound isParent).depth
      simp only [Limit.statementNesting, Limit.regionWalk] at depth ⊢
      omega
  refine ⟨_, ?_, follows.descend_landing proper bracketed header isSite siteFound rootFound within
    shallow⟩
  simp [regionAt, notEmpty, rootFound, contains]

end Follows

end ScopeTree

end LexicalScope
