import LexicalScope.Procedure.Build
import LexicalScope.Proofs.Scope.Ancestry
import LexicalScope.Proofs.Scope.Offsets
import LexicalScope.Proofs.Scope.Traversal

/-!
# The deepest region at an offset

In the text of a procedure without given spans every region covers the regions inside it, and
regions with one parent stand one behind the other. So the first child that covers an offset is the
only one, and going down through such children ends at the deepest of all regions that cover it.
-/

namespace LexicalScope

theorem Span.includes_iff {outer inner : Span} :
    outer.includes inner = true ↔ outer.start ≤ inner.start ∧ inner.stop ≤ outer.stop := by
  simp [Span.includes]

theorem Span.includes_refl (span : Span) : span.includes span = true :=
  includes_iff.mpr ⟨Nat.le_refl _, Nat.le_refl _⟩

theorem Span.includes_trans {outer middle inner : Span} (upper : outer.includes middle = true)
    (lower : middle.includes inner = true) : outer.includes inner = true := by
  rw [includes_iff] at upper lower ⊢
  omega

/-! ## Regions that a step opens -/

namespace Binder

variable {tree : StatementTree} {before middle after start stop : Binder} {kind : RegionKind}
  {boundary : StatementRef} {span : Span} {branch : Option BranchTag} {spans others : List Span}

/-- A region is open. -/
def HasOpen (binder : Binder) : Prop :=
  ∃ id, binder.current = some id ∧ id.index < binder.regions.size

private theorem HasOpen.grows (isOpen : before.HasOpen) (grows : before.Grows after) :
    after.HasOpen := by
  obtain ⟨id, isCurrent, bound⟩ := isOpen
  exact ⟨id, grows.current.trans isCurrent, Nat.lt_of_lt_of_le bound grows.regions⟩

private theorem hasOpen_enter : (before.enter kind boundary span branch).HasOpen :=
  ⟨⟨before.regions.size⟩, rfl, by rw [size_enter]; exact Nat.lt_succ_self _⟩

@[simp] theorem shape?_leave (index : Nat) : after.leave.shape? index = after.shape? index := by
  rw [shape?, regions_leave, shape?]

/-- Regions are opened inside some spans of the open region or inside other new regions, one behind
the other wherever they have one parent. -/
structure Lays (spans : List Span) (before after : Binder) : Prop where
  grows : before.Grows after
  region : ∀ {i shape}, before.regions.size ≤ i → after.shape? i = some shape →
    ∃ parent, shape.parent = some parent ∧ parent.index < i ∧
      ((before.current = some parent ∧ ∃ span ∈ spans, span.includes shape.span = true) ∨
        before.regions.size ≤ parent.index ∧
          ∃ outer, after.shape? parent.index = some outer ∧ outer.span.includes shape.span = true)
  apart : ∀ {i j first second}, before.regions.size ≤ i → i < j → after.shape? i = some first →
    after.shape? j = some second → first.parent = second.parent →
      first.span.stop ≤ second.span.start

namespace Lays

private theorem of_stays (stays : before.Stays after) : Lays [] before after where
  grows := stays.grows
  region lower known := absurd (stays.size ▸ lt_size_of_shape? known) (Nat.not_lt.mpr lower)
  apart lower _ known := absurd (stays.size ▸ lt_size_of_shape? known) (Nat.not_lt.mpr lower)

private theorem resembling (lays : Lays spans before after) (sameStart : before.Resembles start)
    (sameStop : after.Resembles stop) (bleed : stop.bleedDepth = start.bleedDepth) :
    Lays spans start stop where
  grows := lays.grows.resembling sameStart sameStop bleed
  region lower known := by
    rw [sameStart.regions] at lower ⊢
    simp only [sameStop.shape?, sameStart.current] at known ⊢
    exact lays.region lower known
  apart lower less firstKnown secondKnown := by
    rw [sameStart.regions] at lower
    rw [sameStop.shape?] at firstKnown secondKnown
    exact lays.apart lower less firstKnown secondKnown

private theorem widen (lays : Lays spans before after)
    (wider : ∀ span ∈ spans, ∃ other ∈ others, other.includes span = true) :
    Lays others before after where
  grows := lays.grows
  region lower known := by
    obtain ⟨parent, isParent, less, place⟩ := lays.region lower known
    refine ⟨parent, isParent, less, place.imp_left fun ⟨isCurrent, span, member, inside⟩ => ?_⟩
    obtain ⟨other, isOther, around⟩ := wider span member
    exact ⟨isCurrent, other, isOther, Span.includes_trans around inside⟩
  apart := lays.apart

private theorem append (isOpen : before.HasOpen) (first : Lays spans before middle)
    (second : Lays others middle after)
    (ordered : ∀ left ∈ spans, ∀ right ∈ others, left.stop ≤ right.start) :
    Lays (spans ++ others) before after where
  grows := first.grows.trans second.grows
  region {i shape} lower known := by
    by_cases less : i < middle.regions.size
    · obtain ⟨parent, isParent, before, place⟩ :=
        first.region lower ((second.grows.shape i less).symm.trans known)
      refine ⟨parent, isParent, before, place.imp ?_ ?_⟩
      · exact fun ⟨isCurrent, span, member, inside⟩ =>
          ⟨isCurrent, span, List.mem_append_left _ member, inside⟩
      · exact fun ⟨isNew, outer, isOuter, inside⟩ =>
          ⟨isNew, outer, second.grows.known isOuter, inside⟩
    · obtain ⟨parent, isParent, before, place⟩ := second.region (Nat.not_lt.mp less) known
      refine ⟨parent, isParent, before, place.imp ?_ ?_⟩
      · exact fun ⟨isCurrent, span, member, inside⟩ =>
          ⟨first.grows.current ▸ isCurrent, span, List.mem_append_right _ member, inside⟩
      · exact fun ⟨isNew, rest⟩ => ⟨Nat.le_trans first.grows.regions isNew, rest⟩
  apart {i j left right} lower less leftKnown rightKnown sameParent := by
    by_cases iFirst : i < middle.regions.size
    · rw [second.grows.shape i iFirst] at leftKnown
      by_cases jFirst : j < middle.regions.size
      · rw [second.grows.shape j jFirst] at rightKnown
        exact first.apart lower less leftKnown rightKnown sameParent
      · -- The parent of both is the region that was open before.
        obtain ⟨parent, isParent, isBefore, place⟩ := first.region lower leftKnown
        obtain ⟨known, isKnown, _, placeToo⟩ := second.region (Nat.not_lt.mp jFirst) rightKnown
        obtain rfl := Option.some.inj (isKnown.symm.trans (sameParent.symm.trans isParent))
        obtain ⟨current, isCurrent, bound⟩ := isOpen
        rcases placeToo with ⟨isCurrentToo, y, yMember, inY⟩ | ⟨isNew, _⟩
        · rw [first.grows.current, isCurrent] at isCurrentToo
          obtain rfl := Option.some.inj isCurrentToo
          rcases place with ⟨_, x, xMember, inX⟩ | ⟨isNew, _⟩
          · have := ordered x xMember y yMember
            rw [Span.includes_iff] at inX inY
            omega
          · omega
        · omega
    · exact second.apart (Nat.not_lt.mp iFirst) less leftKnown rightKnown sameParent

private theorem region_enter (isOpen : before.HasOpen)
    (inside : Lays spans (before.enter kind boundary span branch) after)
    (covers : ∀ inner ∈ spans, span.includes inner = true) :
    Lays [span] before after.leave := by
  obtain ⟨current, isCurrent, bound⟩ := isOpen
  have isNext : after.shape? before.regions.size =
      some (before.nextRegion kind boundary span branch) :=
    inside.grows.known (by rw [shape?_enter, if_pos rfl])
  have nextParent : (before.nextRegion kind boundary span branch).parent = some current := isCurrent
  have behind : ∀ {i}, before.regions.size ≤ i → i ≠ before.regions.size →
      (before.enter kind boundary span branch).regions.size ≤ i := by
    intro i lower different
    rw [size_enter]
    omega
  refine ⟨grows_region inside.grows, fun {i shape} lower known => ?_,
    fun {i j first second} lower less firstKnown secondKnown sameParent => ?_⟩
  · rw [shape?_leave] at known
    by_cases same : i = before.regions.size
    · subst same
      obtain rfl := Option.some.inj (isNext.symm.trans known)
      exact ⟨current, nextParent, bound,
        .inl ⟨isCurrent, span, List.mem_singleton_self _, Span.includes_refl _⟩⟩
    · obtain ⟨parent, isParent, less, place⟩ := inside.region (behind lower same) known
      refine ⟨parent, isParent, less, .inr ?_⟩
      simp only [shape?_leave]
      rcases place with ⟨isNew, inner, member, inInner⟩ | ⟨isNew, outer⟩
      · obtain rfl := Option.some.inj isNew
        exact ⟨Nat.le_refl _, _, isNext, Span.includes_trans (covers inner member) inInner⟩
      · rw [size_enter] at isNew
        exact ⟨Nat.le_of_succ_le isNew, outer⟩
  · rw [shape?_leave] at firstKnown secondKnown
    by_cases same : i = before.regions.size
    · -- Only the new region has the open one as its parent.
      subst same
      obtain rfl := Option.some.inj (isNext.symm.trans firstKnown)
      obtain ⟨parent, isParent, _, place⟩ :=
        inside.region (behind (Nat.le_of_lt less) (Nat.ne_of_gt less)) secondKnown
      obtain rfl := Option.some.inj (nextParent.symm.trans (sameParent.trans isParent))
      rcases place with ⟨isNew, _⟩ | ⟨isNew, _⟩
      · obtain rfl := Option.some.inj isNew
        exact absurd bound (Nat.lt_irrefl _)
      · rw [size_enter] at isNew
        omega
    · exact inside.apart (behind lower same) less firstKnown secondKnown sameParent

end Lays

/-! ## Visits -/

private theorem ordered_of_siblings (bracketed : tree.Bracketed) {refs rest : List StatementRef}
    (siblings : tree.AreSiblings (refs ++ rest)) :
    ∀ left ∈ refs.map tree.span, ∀ right ∈ rest.map tree.span, left.stop ≤ right.start := by
  obtain ⟨id, node, found, listed⟩ := siblings
  intro left leftMember right rightMember
  obtain ⟨first, inRefs, rfl⟩ := List.mem_map.mp leftMember
  obtain ⟨second, inRest, rfl⟩ := List.mem_map.mp rightMember
  have ordered := List.pairwise_append.mp ((bracketed.ordered found).sublist listed)
  exact Nat.le_of_lt (ordered.2.2 first inRefs second inRest)

private theorem includes_of_child (bracketed : tree.Bracketed) {id : StatementId}
    {node : StatementNode} (found : tree.statement? (some id) = some node) {inner : Span}
    (member : inner ∈ (node.content.children.map (·.1)).map tree.span) :
    node.span.includes inner = true := by
  rw [List.map_map] at member
  obtain ⟨child, isChild, rfl⟩ := List.mem_map.mp member
  have inside := bracketed.inside found isChild
  exact Span.includes_iff.mpr ⟨Nat.le_of_lt inside.1, Nat.le_of_lt inside.2⟩

/-- Visits open regions inside the spans of their statements. -/
theorem composes_lays (bracketed : tree.Bracketed) :
    Bind.Composes tree
      (fun refs before after => before.HasOpen → Lays (refs.map tree.span) before after)
      (fun id before after => before.HasOpen → Lays [tree.span (some id)] before after) where
  idle idles _ := .of_stays idles.stays
  append siblings first second isOpen := by
    have lays := first isOpen
    rw [List.map_append]
    exact lays.append isOpen (second (isOpen.grows lays.grows))
      (ordered_of_siblings bracketed siblings)
  record {id _ before _} _ filled isOpen := by
    have recorded : Lays [] before (before.recordStatement (some id) before.current) :=
      .of_stays (before.stays_recordStatement _ _)
    exact recorded.append isOpen (filled (isOpen.grows recorded.grows)) (by simp)
  bleed {id before after} depth filled isOpen :=
    (filled isOpen).resembling (before.resembles_bleed depth).symm (after.resembles_bleed _) rfl
  children found visited isOpen := by
    refine (visited isOpen).widen fun inner member => ⟨_, List.mem_singleton_self _, ?_⟩
    rw [StatementTree.span_eq found]
    exact includes_of_child bracketed found member
  own kind branch found header visited isOpen := by
    have idled := header isOpen
    have opened := (visited hasOpen_enter).region_enter (isOpen.grows idled.grows)
      fun inner member => includes_of_child bracketed found member
    rw [StatementTree.span_eq found]
    exact idled.append isOpen opened (by simp)
  link {id node thenBody others _ _ _} branch found children first behind isOpen := by
    have siblings : tree.AreSiblings ([some thenBody] ++ others) :=
      ⟨id, node, found, by rw [children]; exact .refl _⟩
    have covered : ∀ inner ∈ (some thenBody :: others).map tree.span,
        node.span.includes inner = true := fun inner member =>
      includes_of_child bracketed found (children ▸ member)
    have inThen := Span.includes_iff.mp (covered _ (List.mem_map_of_mem List.mem_cons_self))
    have nonempty := bracketed.nonempty found
    have inLink : (tree.linkSpan node.span.start (some thenBody)).includes
        (tree.span (some thenBody)) = true :=
      Span.includes_iff.mpr ⟨inThen.1, Nat.le_max_left _ _⟩
    have opened := (first hasOpen_enter).region_enter isOpen (by simpa using inLink)
    have lays := opened.append isOpen (behind (isOpen.grows opened.grows)) (by
      intro left leftMember right rightMember
      obtain rfl := List.mem_singleton.mp leftMember
      have ordered := ordered_of_siblings bracketed siblings _ List.mem_cons_self right rightMember
      have inside := Span.includes_iff.mp (covered right (List.mem_cons_of_mem _ rightMember))
      exact Nat.max_le.mpr ⟨ordered, inside.1⟩)
    refine lays.widen fun inner member => ⟨_, List.mem_singleton_self _, ?_⟩
    rw [StatementTree.span_eq found]
    rcases List.mem_cons.mp member with rfl | member
    · exact Span.includes_iff.mpr
        ⟨Nat.le_refl _, Nat.max_le.mpr ⟨inThen.2, Nat.le_of_lt nonempty⟩⟩
    · exact covered inner (List.mem_cons_of_mem _ member)
  around {id node before after} branch found visited isOpen := by
    have opened := (visited hasOpen_enter).region_enter isOpen (by
      simp [StatementTree.span_eq found, Span.includes_refl])
    have recorded : Lays [] after.leave (after.leave.recordStatement (some id) before.current) :=
      .of_stays (after.leave.stays_recordStatement _ _)
    have lays := opened.append isOpen recorded (by simp)
    simpa [StatementTree.span_eq found] using lays

end Binder

/-! ## Regions of a scope tree -/

namespace ScopeTree

/-- Regions cover those inside them, and those with one parent stand one behind the other. -/
structure Laminar (scopes : ScopeTree) : Prop where
  nested : ∀ {inner outer : RegionId} {region : Region},
    scopes.region? (some inner) = some region → region.parent = some outer →
      ∃ around, scopes.region? (some outer) = some around ∧
        around.span.includes region.span = true
  apart : ∀ {i j : RegionId} {parent : RegionId} {first second : Region}, i.index < j.index →
    scopes.region? (some i) = some first → scopes.region? (some j) = some second →
      first.parent = some parent → second.parent = some parent →
        first.span.stop ≤ second.span.start

variable {procedure : Procedure} {settings : ScopeSettings} {tree : StatementTree}
  {scopes : ScopeTree} {id inner outer : RegionId} {region : Region} {position : Nat}

private theorem exists_lays (unstated : procedure.stated = [])
    (laidOut : StatementTree.ofProcedure procedure = .ok tree)
    (bound : ofStatementTree settings tree = .ok scopes) :
    ∃ span inside, (Binder.opened settings tree span).Lays [span] inside ∧
      scopes = inside.leave.scopeTree tree.name := by
  have proper := StatementTree.proper_of_ofProcedure laidOut
  have bracketed := StatementTree.bracketed_of_ofProcedure laidOut unstated
  obtain ⟨node, inside, found, bodyBound, rfl⟩ := exists_bindBody proper bound
  refine ⟨node.span, inside, ?_, rfl⟩
  have isOpen : (Binder.opened settings tree node.span).HasOpen :=
    ⟨⟨0⟩, Binder.current_opened .., by rw [Binder.size_opened]; exact Nat.zero_lt_one⟩
  have composes := Binder.composes_lays bracketed
  have lays : (Binder.opened settings tree node.span).Lays [tree.span (some ⟨0⟩)] inside := by
    rcases Bind.relates_bindBody composes proper _ found _ _ _ bodyBound with visited | visited
    · exact visited isOpen
    · exact composes.children found visited isOpen
  rwa [StatementTree.span_eq found] at lays

private theorem shape?_of_region {inside : Binder} {name : String}
    (found : (inside.leave.scopeTree name).region? (some id) = some region) :
    inside.shape? id.index = some region.shape := by
  rw [← Binder.shape?_leave]
  exact congrArg (Option.map Region.shape) found

/-- The regions of a procedure without given spans are laid out like its statements. -/
theorem laminar_of_ofProcedure (unstated : procedure.stated = [])
    (laidOut : StatementTree.ofProcedure procedure = .ok tree)
    (bound : ofStatementTree settings tree = .ok scopes) : scopes.Laminar := by
  obtain ⟨span, inside, lays, rfl⟩ := exists_lays unstated laidOut bound
  have rootShape : inside.shape? 0 = some (.opened ⟨0⟩ .root tree.root span none 0 none) :=
    lays.grows.known (Binder.shape?_opened ..)
  have isInner : ∀ {id region parent}, (inside.leave.scopeTree tree.name).region? (some id) =
      some region → region.parent = some parent →
        (Binder.opened settings tree span).regions.size ≤ id.index := by
    intro id region parent regionFound isParent
    rw [Binder.size_opened]
    refine Nat.one_le_iff_ne_zero.mpr fun isZero => ?_
    have same := shape?_of_region regionFound
    rw [isZero, rootShape] at same
    have noParent : region.parent = none := congrArg Region.parent (Option.some.inj same).symm
    cases noParent.symm.trans isParent
  constructor
  · intro inner outer region regionFound isParent
    obtain ⟨parent, same, _, place⟩ := lays.region (isInner regionFound isParent)
      (shape?_of_region regionFound)
    obtain rfl := Option.some.inj (same.symm.trans isParent)
    have covered : ∃ shape, inside.shape? parent.index = some shape ∧
        shape.span.includes region.span = true := by
      rcases place with ⟨isCurrent, _, member, covers⟩ | ⟨_, covered⟩
      · rw [Binder.current_opened] at isCurrent
        obtain rfl := Option.some.inj isCurrent
        obtain rfl := List.mem_singleton.mp member
        exact ⟨_, rootShape, covers⟩
      · exact covered
    obtain ⟨shape, known, covers⟩ := covered
    obtain ⟨around, aroundFound, rfl⟩ := (shows_scopeTree inside tree.name).region known
    exact ⟨around, aroundFound, covers⟩
  · intro i j parent first second less firstFound secondFound isParent isParentToo
    have sameParent : first.shape.parent = second.shape.parent := isParent.trans isParentToo.symm
    have behind := lays.apart (isInner firstFound isParent) less (shape?_of_region firstFound)
      (shape?_of_region secondFound) sameParent
    exact behind

/-! ## The innermost region -/

namespace Laminar

variable (laminar : scopes.Laminar)
include laminar

private theorem contains_of_within (within : scopes.IsWithin inner outer)
    (found : scopes.region? (some inner) = some region)
    (contains : region.span.contains position = true) :
    ∃ around, scopes.region? (some outer) = some around ∧
      around.span.contains position = true := by
  induction within with
  | refl => exact ⟨region, found, contains⟩
  | tail _ above induction =>
      obtain ⟨middle, middleFound, covers⟩ := induction
      obtain ⟨around, aroundFound, includes⟩ :=
        laminar.nested middleFound ((parent_eq middleFound).symm.trans above)
      refine ⟨around, aroundFound, ?_⟩
      rw [Span.contains_iff] at covers ⊢
      rw [Span.includes_iff] at includes
      omega

private theorem child_unique {left right parent : RegionId} {first second : Region}
    (leftFound : scopes.region? (some left) = some first)
    (rightFound : scopes.region? (some right) = some second)
    (leftParent : first.parent = some parent) (rightParent : second.parent = some parent)
    (inLeft : first.span.contains position = true)
    (inRight : second.span.contains position = true) : left = right := by
  rw [Span.contains_iff] at inLeft inRight
  rcases Nat.lt_trichotomy left.index right.index with less | same | less
  · have := laminar.apart less leftFound rightFound leftParent rightParent
    omega
  · exact congrArg RegionId.mk same
  · have := laminar.apart less rightFound leftFound rightParent leftParent
    omega

end Laminar

namespace Follows

variable (follows : scopes.Follows tree)
include follows

private theorem within_root {id : RegionId} {region : Region}
    (found : scopes.region? (some id) = some region) : scopes.IsWithin id ⟨0⟩ := by
  by_cases isRoot : id = ⟨0⟩
  · exact isRoot ▸ .refl _
  · obtain ⟨parent, outer, above, outerFound, _⟩ := follows.exists_parent found isRoot
    have less := ranked follows.agree above
    exact (Under.ofParent above).trans (within_root outerFound)
termination_by id.index

private theorem depth_lt_of_within (within : scopes.IsWithin inner outer)
    (different : inner ≠ outer) {around : Region}
    (found : scopes.region? (some inner) = some region)
    (aroundFound : scopes.region? (some outer) = some around) : around.depth < region.depth := by
  rcases within.eq_or_parent with same | ⟨parent, above, higher⟩
  · exact absurd same different
  · obtain ⟨_, next, nextFound, deeper⟩ :=
      follows.agree.parent found ((parent_eq found).symm.trans above)
    have := depth_le_of_within follows.agree higher nextFound aroundFound
    omega

private theorem exists_descend (steps : Nat) (found : scopes.region? (some id) = some region)
    (contains : region.span.contains position = true)
    (enough : Limit.regionWalk ≤ region.depth + steps) :
    ∃ last, scopes.region? (some last) = some (scopes.descend position steps region) ∧
      (scopes.descend position steps region).span.contains position = true ∧
      scopes.childAt position (scopes.descend position steps region) = none := by
  induction steps generalizing id region with
  | zero => exact absurd (follows.depth_lt_regionWalk found) (Nat.not_lt.mpr enough)
  | succ steps induction =>
      unfold descend
      cases chosen : scopes.childAt position region with
      | none => exact ⟨id, found, contains, chosen⟩
      | some inner =>
          obtain ⟨above, innerFound, inInner⟩ := childAt_eq_some follows.agree found chosen
          obtain ⟨_, outer, outerFound, deeper⟩ :=
            follows.agree.parent innerFound ((parent_eq innerFound).symm.trans above)
          obtain rfl := Option.some.inj (found.symm.trans outerFound)
          exact induction innerFound inInner (by omega)

/-- A region that covers an offset and none of whose children does lies in all that cover it. -/
theorem within_of_contains (laminar : scopes.Laminar)
    (found : scopes.region? (some id) = some region)
    (contains : region.span.contains position = true)
    (last : scopes.childAt position region = none) {outer : RegionId} {other : Region}
    (otherFound : scopes.region? (some outer) = some other)
    (inOther : other.span.contains position = true) : scopes.IsWithin id outer := by
  by_cases isRoot : outer = ⟨0⟩
  · exact isRoot ▸ follows.within_root found
  · obtain ⟨parent, around, above, aroundFound, _⟩ := follows.exists_parent otherFound isRoot
    have less := ranked follows.agree above
    obtain ⟨_, isAround, inAround⟩ :=
      laminar.contains_of_within (Under.ofParent above) otherFound inOther
    obtain rfl := Option.some.inj (aroundFound.symm.trans isAround)
    have inParent := within_of_contains laminar found contains last aroundFound inAround
    rcases inParent.eq_or_child with rfl | ⟨child, childAbove, inChild⟩
    · obtain rfl := Option.some.inj (found.symm.trans aroundFound)
      exact absurd inOther (childAt_eq_none follows.agree found last above otherFound)
    · obtain ⟨childRegion, childFound, inChildToo⟩ :=
        laminar.contains_of_within inChild found contains
      obtain rfl := laminar.child_unique childFound otherFound
        ((parent_eq childFound).symm.trans childAbove)
        ((parent_eq otherFound).symm.trans above) inChildToo inOther
      exact inChild
termination_by outer.index

end Follows

/-- In a procedure without given spans there is a region at an offset just if that of the procedure
covers it, and of all the regions that cover it this one is deeper than every other. -/
theorem regionAt_deepest (unstated : procedure.stated = [])
    (laidOut : StatementTree.ofProcedure procedure = .ok tree)
    (bound : ofStatementTree settings tree = .ok scopes) (position : Nat) :
    ∃ root, scopes.region? scopes.root = some root ∧
      (scopes.regionAt position = none ↔ ¬ root.span.contains position = true) ∧
      (root.span.contains position = true → ∃ id region,
        scopes.regionAt position = some id ∧ scopes.region? (some id) = some region ∧
          region.span.contains position = true ∧
          ∀ (other : RegionId) (otherRegion : Region),
            scopes.region? (some other) = some otherRegion →
              otherRegion.span.contains position = true → other ≠ id →
                otherRegion.depth < region.depth) := by
  have proper := StatementTree.proper_of_ofProcedure laidOut
  have follows := follows_of_ofStatementTree proper bound
  have laminar := laminar_of_ofProcedure unstated laidOut bound
  obtain ⟨root, rootFound, _, _, _, _, _, _⟩ := follows.root
  have isRoot : scopes.root = some ⟨0⟩ := by
    have notEmpty : scopes.regions ≠ #[] := by
      rintro isEmpty
      simp [region?, isEmpty] at rootFound
    simp [ScopeTree.root, notEmpty]
  refine ⟨root, isRoot ▸ rootFound, ?_, fun contains => ?_⟩
  · by_cases contains : root.span.contains position = true <;>
      simp [regionAt, isRoot, rootFound, contains]
  · obtain ⟨id, found, inRegion, last⟩ :=
      follows.exists_descend (Limit.regionWalk + 1) rootFound contains (by omega)
    generalize isLast : scopes.descend position (Limit.regionWalk + 1) root = region
      at found inRegion last
    have lands : scopes.regionAt position = some id := by
      simp [regionAt, isRoot, rootFound, contains, isLast, follows.agree.number found]
    refine ⟨id, region, lands, found, inRegion,
      fun other otherRegion otherFound inOther different => ?_⟩
    have within := follows.within_of_contains laminar found inRegion last otherFound inOther
    exact follows.depth_lt_of_within within different.symm found otherFound

end ScopeTree

/-- A chain of two conditionals, the second of which has a loop around a switch without braces as
its branch. -/
def Procedure.chained : Procedure :=
  .plain "p" ["a"] (.block [.ifElse (.name "a") (.block [])
    (.ifElse (.name "a") (.whileLoop (.name "a")
      (.switch (.name "a") [.plain [.otherwise] [.breaking]])) (.block []))])

theorem ScopeTree.regionAt_deepest_chained :
    ∃ tree scopes, Procedure.chained.stated = [] ∧
      StatementTree.ofProcedure .chained = .ok tree ∧
      ScopeTree.ofStatementTree .default tree = .ok scopes ∧
      scopes.regionAt 17 = some ⟨6⟩ ∧
      ∃ root, scopes.region? scopes.root = some root ∧
        (scopes.regionAt 17 = none ↔ ¬ root.span.contains 17 = true) ∧
        (root.span.contains 17 = true → ∃ id region,
          scopes.regionAt 17 = some id ∧ scopes.region? (some id) = some region ∧
            region.span.contains 17 = true ∧
            ∀ (other : RegionId) (otherRegion : Region),
              scopes.region? (some other) = some otherRegion →
                otherRegion.span.contains 17 = true → other ≠ id →
                  otherRegion.depth < region.depth) := by
  have unstated : Procedure.chained.stated = [] := by decide
  have binds : Procedure.chained.binds .default (fun _ scopes =>
    scopes.regionAt 17 == some ⟨6⟩) = true := by decide +kernel
  obtain ⟨tree, scopes, laidOut, bound, check⟩ := Procedure.exists_of_binds binds
  exact ⟨tree, scopes, unstated, laidOut, bound, beq_iff_eq.mp check,
    regionAt_deepest unstated laidOut bound 17⟩

end LexicalScope
