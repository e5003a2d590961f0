import LexicalScope.Proofs.Scope.Pairs
import LexicalScope.Proofs.Scope.Symmetry
import LexicalScope.Proofs.Trace.Forks

/-!
# Sketches decide conflicts

Whether regions exclude each other is decided by spans: an exit counts where the conditional ends
before the other region starts. In a tree whose spans nest, these are the regions in whose sketch
the conditional is over. So scope trees with one sketch have the same conflicts.
-/

namespace LexicalScope

/-! ## Regions that exclude each other -/

/-- A tree whose statements are numbered in the order in which their spans begin. -/
structure StatementTree.Spaced (tree : StatementTree) : Prop where
  proper : tree.Proper
  bracketed : tree.Bracketed
  preordered : tree.Preordered

theorem StatementTree.spaced_of_ofProcedure {procedure : Procedure} {tree : StatementTree}
    (laidOut : ofProcedure procedure = .ok tree) (unstated : procedure.stated = []) :
    tree.Spaced :=
  ⟨proper_of_ofProcedure laidOut, bracketed_of_ofProcedure laidOut unstated,
    preordered_of_ofProcedure laidOut⟩

namespace RegionSketch

/-- Whether both regions are alternatives of one fork, and different ones. -/
def isOtherAlternative (a b : RegionSketch) : Bool :=
  match a.branch, b.branch with
  | some first, some second => first.fork == second.fork && first.index != second.index
  | _, _ => false

/-- Whether the region is an alternative that always exits a fork that is over where another region
opens. -/
def exitsBefore (region other : RegionSketch) : Bool :=
  match region.branch with
  | some alternative => alternative.exits && decide (alternative.fork ∈ other.past)
  | none => false

end RegionSketch

section Regions

variable {tree : StatementTree} {region other : Region} {tag otherTag : BranchTag}

private theorem StatementTree.IsAlternative.exists_fork {conditional body : StatementId}
    {number : Nat} (isBody : tree.IsAlternative conditional number body) :
    ∃ node, tree.statement? (some conditional) = some node ∧ node.kind.isFork = true := by
  have ofKind : ∀ {kind}, tree.kind? (some conditional) = some kind → kind.isFork = true →
      ∃ node, tree.statement? (some conditional) = some node ∧ node.kind.isFork = true := by
    intro kind isKind fork
    obtain ⟨node, found, rfl⟩ := Option.map_eq_some_iff.mp isKind
    exact ⟨node, found, fork⟩
  cases isBody with
  | link isLink _ => exact ofKind isLink.head_kind rfl
  | last isLink _ _ => exact ofKind isLink.head_kind rfl
  | switchSection content _ =>
      obtain ⟨node, found, isContent⟩ := Option.map_eq_some_iff.mp content
      exact ⟨node, found, by rw [StatementNode.kind, isContent]; rfl⟩

/-- A tag names a fork, whose span it carries. -/
theorem Region.Origin.exists_fork (origin : region.Origin tree) (isTag : region.branch = some tag) :
    ∃ fork node, tree.statement? (some fork) = some node ∧ tree.isFork fork = true ∧
      tag.conditional = some fork ∧ tag.conditionalSpan = tree.span (some fork) ∧
      tag.alternative tree = ⟨tree.forksBefore fork.index, tag.index, tag.exits⟩ := by
  obtain ⟨fork, body, fits, _⟩ := origin.tag tag isTag
  obtain ⟨node, found, isFork⟩ := fits.alternative.exists_fork
  refine ⟨fork, node, found, (StatementTree.isFork_eq found).trans isFork, fits.conditional_eq,
    fits.span_eq, ?_⟩
  rw [BranchTag.alternative, fits.conditional_eq, Option.elim_some]

private theorem Region.isOtherAlternative_sketch (origin : region.Origin tree)
    (otherOrigin : other.Origin tree) :
    (region.sketch tree).isOtherAlternative (other.sketch tree) =
      region.isOtherAlternative other := by
  unfold RegionSketch.isOtherAlternative isOtherAlternative sketch
  cases isTag : region.branch with
  | none => rfl
  | some tag =>
      cases isOther : other.branch with
      | none => rfl
      | some otherTag =>
          obtain ⟨fork, _, _, isFork, conditional, _, alternative⟩ := origin.exists_fork isTag
          obtain ⟨otherFork, _, _, otherIsFork, otherConditional, _, otherAlternative⟩ :=
            otherOrigin.exists_fork isOther
          have same : tree.forksBefore fork.index = tree.forksBefore otherFork.index ↔
              fork = otherFork :=
            ⟨StatementTree.forksBefore_inj isFork otherIsFork, fun same => same ▸ rfl⟩
          simp only [Option.map_some, alternative, otherAlternative, BranchTag.isOtherAlternative,
            conditional, otherConditional]
          rw [Bool.eq_iff_iff]
          simp [same]

/-- An exit counts where its fork is over. -/
theorem Region.exitsBefore_sketch (spaced : tree.Spaced) (origin : region.Origin tree)
    (otherOrigin : other.Origin tree) :
    (region.sketch tree).exitsBefore (other.sketch tree) =
      region.exitsBefore other.span.start := by
  obtain ⟨boundary, node, isBoundary, found⟩ := otherOrigin.boundary
  unfold RegionSketch.exitsBefore exitsBefore sketch
  cases isTag : region.branch with
  | none => rfl
  | some tag =>
      obtain ⟨fork, forkNode, forkFound, isFork, _, isSpan, alternative⟩ :=
        origin.exists_fork isTag
      simp only [Option.map_some, alternative, isBoundary, Option.elim_some, BranchTag.exitsBefore,
        isSpan, otherOrigin.span_start isBoundary,
        spaced.bracketed.mem_past_iff spaced.proper spaced.preordered forkFound isFork found]

end Regions

/-! ## Scope trees with one sketch -/

/-- The two declarations of a conflict and its reason. -/
def Finding.clash? : Finding → Option (DeclarationId × DeclarationId × ConflictReason)
  | conflict _ first duplicate _ _ reason => some (first, duplicate, reason)
  | _ => none

namespace ScopeTree

private theorem Follows.origin_of_parent {tree : StatementTree} {scopes : ScopeTree}
    {inner outer : RegionId} {region : Region} (follows : scopes.Follows tree)
    (found : scopes.region? (some inner) = some region)
    (isParent : scopes.parent (some inner) = some outer) : region.Origin tree := by
  have notRoot : inner ≠ ⟨0⟩ := by
    rintro rfl
    obtain ⟨root, rootFound, _, noParent, _⟩ := follows.root
    rw [parent_eq rootFound, noParent] at isParent
    cases isParent
  obtain ⟨known, _, knownFound, settled, _⟩ :=
    follows.region (Array.getElem?_eq_some_iff.mp found).1 notRoot
  obtain rfl := Option.some.inj (found.symm.trans knownFound)
  exact settled.origin

/-- Two scope trees, of two statement trees, have the same sketch. -/
structure SameSketch (tree other : StatementTree) (scopes others : ScopeTree) : Prop where
  regions : scopes.regions.map (Region.sketch tree) = others.regions.map (Region.sketch other)
  declarations : scopes.declarations.map Declaration.sketch =
    others.declarations.map Declaration.sketch

variable {tree other : StatementTree} {scopes others : ScopeTree} {a b outer left right : RegionId}
  {first second firstOther secondOther : Declaration}

namespace SameSketch

private theorem symm (same : SameSketch tree other scopes others) :
    SameSketch other tree others scopes :=
  ⟨same.regions.symm, same.declarations.symm⟩

theorem region? (same : SameSketch tree other scopes others) (ref : RegionRef) :
    (scopes.region? ref).map (Region.sketch tree) =
      (others.region? ref).map (Region.sketch other) := by
  cases ref with
  | none => rfl
  | some id =>
      change scopes.regions[id.index]?.map _ = others.regions[id.index]?.map _
      rw [← Array.getElem?_map, ← Array.getElem?_map, same.regions]

theorem parent (same : SameSketch tree other scopes others) (ref : RegionRef) :
    scopes.parent ref = others.parent ref := by
  have sketches := congrArg (·.bind RegionSketch.parent) (same.region? ref)
  simp only [Option.bind_map] at sketches
  exact sketches

theorem isWithin (same : SameSketch tree other scopes others) :
    scopes.IsWithin a b ↔ others.IsWithin a b := by
  unfold IsWithin
  simp only [same.parent]

private theorem isAround (same : SameSketch tree other scopes others) {a b : RegionRef} :
    scopes.IsAround a b ↔ others.IsAround a b := by
  unfold IsAround
  simp only [same.isWithin]

private theorem part (same : SameSketch tree other scopes others)
    (parts : scopes.Part a b outer left right) : others.Part a b outer left right where
  different := parts.different
  leftParent := same.parent _ ▸ parts.leftParent
  rightParent := same.parent _ ▸ parts.rightParent
  inLeft := same.isWithin.mp parts.inLeft
  inRight := same.isWithin.mp parts.inRight

theorem exists_region (same : SameSketch tree other scopes others) {region : Region}
    (found : scopes.region? (some a) = some region) :
    ∃ known, others.region? (some a) = some known ∧ known.sketch other = region.sketch tree := by
  have sketches := same.region? (some a)
  rw [found, Option.map_some] at sketches
  exact Option.map_eq_some_iff.mp sketches.symm

private theorem declaration? (same : SameSketch tree other scopes others) (id : DeclarationId) :
    (scopes.declaration? id).map Declaration.sketch =
      (others.declaration? id).map Declaration.sketch := by
  unfold ScopeTree.declaration?
  rw [← Array.getElem?_map, ← Array.getElem?_map, same.declarations]

section Conflicts

variable (same : SameSketch tree other scopes others) (spaced : tree.Spaced)
  (follows : scopes.Follows tree) (otherSpaced : other.Spaced) (otherFollows : others.Follows other)
include same spaced follows otherSpaced otherFollows

private theorem areExclusive_of_areExclusive {a b : RegionRef}
    (exclusive : scopes.areExclusive a b = true) : others.areExclusive a b = true := by
  obtain ⟨x, y, rfl, rfl, xBound, yBound, outer, left, right, leftRegion, rightRegion, parts,
    leftFound, rightFound, excluded⟩ := exists_part_of_refs follows.agree exclusive
  obtain ⟨leftOther, leftKnown, leftSame⟩ := same.exists_region leftFound
  obtain ⟨rightOther, rightKnown, rightSame⟩ := same.exists_region rightFound
  have leftOrigin := follows.origin_of_parent leftFound parts.leftParent
  have rightOrigin := follows.origin_of_parent rightFound parts.rightParent
  have otherParts := same.part parts
  have leftOtherOrigin := otherFollows.origin_of_parent leftKnown otherParts.leftParent
  have rightOtherOrigin := otherFollows.origin_of_parent rightKnown otherParts.rightParent
  have size : scopes.regions.size = others.regions.size := by
    simpa using congrArg Array.size same.regions
  refine otherFollows.areExclusive_of_part otherParts (size ▸ xBound) (size ▸ yBound) leftKnown
    rightKnown ?_
  rw [← Region.isOtherAlternative_sketch leftOrigin rightOrigin,
    ← Region.exitsBefore_sketch spaced leftOrigin rightOrigin,
    ← Region.exitsBefore_sketch spaced rightOrigin leftOrigin, ← leftSame, ← rightSame] at excluded
  rwa [Region.isOtherAlternative_sketch leftOtherOrigin rightOtherOrigin,
    Region.exitsBefore_sketch otherSpaced leftOtherOrigin rightOtherOrigin,
    Region.exitsBefore_sketch otherSpaced rightOtherOrigin leftOtherOrigin] at excluded

private theorem areExclusive_eq (a b : RegionRef) :
    scopes.areExclusive a b = others.areExclusive a b :=
  Bool.eq_iff_iff.mpr
    ⟨same.areExclusive_of_areExclusive spaced follows otherSpaced otherFollows,
      same.symm.areExclusive_of_areExclusive otherSpaced otherFollows spaced follows⟩

/-- Declarations with the same sketches conflict for the same reason. -/
theorem conflict?_eq (firstSame : first.sketch = firstOther.sketch)
    (secondSame : second.sketch = secondOther.sketch) :
    scopes.conflict? first second = others.conflict? firstOther secondOther := by
  have around (a b : RegionRef) :
      scopes.isAncestorOrSelf a b = others.isAncestorOrSelf a b :=
    Bool.eq_iff_iff.mpr <| calc
      scopes.isAncestorOrSelf a b = true
        ↔ scopes.IsAround a b := follows.isAncestorOrSelf_iff_isAround
      _ ↔ others.IsAround a b := same.isAround
      _ ↔ others.isAncestorOrSelf a b = true := otherFollows.isAncestorOrSelf_iff_isAround.symm
  have names : first.name = firstOther.name := congrArg DeclarationSketch.name firstSame
  have regions : first.region = firstOther.region := congrArg DeclarationSketch.region firstSame
  have otherNames : second.name = secondOther.name := congrArg DeclarationSketch.name secondSame
  have otherRegions : second.region = secondOther.region :=
    congrArg DeclarationSketch.region secondSame
  unfold conflict?
  rw [names, regions, otherNames, otherRegions, around, around,
    same.areExclusive_eq spaced follows otherSpaced otherFollows]

private theorem map_clash?_conflictAt? (i j : Nat) : (scopes.conflictAt? i j).map Finding.clash? =
    (others.conflictAt? i j).map Finding.clash? := by
  unfold conflictAt?
  have firstSame := same.declaration? ⟨i⟩
  have secondSame := same.declaration? ⟨j⟩
  cases firstFound : scopes.declaration? ⟨i⟩ with
  | none =>
      rw [firstFound] at firstSame
      rw [Option.map_eq_none_iff.mp firstSame.symm]
      rfl
  | some first =>
      rw [firstFound] at firstSame
      obtain ⟨firstOther, isFirst, firstSame⟩ := Option.map_eq_some_iff.mp firstSame.symm
      rw [isFirst]
      cases secondFound : scopes.declaration? ⟨j⟩ with
      | none =>
          rw [secondFound] at secondSame
          rw [Option.map_eq_none_iff.mp secondSame.symm]
          rfl
      | some second =>
          rw [secondFound] at secondSame
          obtain ⟨secondOther, isSecond, secondSame⟩ := Option.map_eq_some_iff.mp secondSame.symm
          rw [isSecond]
          simp only [Option.bind_eq_bind, Option.bind_some, Option.map_map, Function.comp_def,
            Finding.clash?, same.conflict?_eq spaced follows otherSpaced otherFollows
              firstSame.symm secondSame.symm]

theorem map_clash?_firstConflicts : scopes.firstConflicts.map Finding.clash? =
    others.firstConflicts.map Finding.clash? := by
  have size : scopes.declarations.size = others.declarations.size := by
    simpa using congrArg Array.size same.declarations
  unfold firstConflicts
  simp only [List.map_filterMap, List.map_findSome?, Function.comp_def, size,
    same.map_clash?_conflictAt? spaced follows otherSpaced otherFollows]

end Conflicts

end SameSketch

end ScopeTree

end LexicalScope
