import LexicalScope.Proofs.Scope.Consistency
import Mathlib.Data.List.Nodup
import Mathlib.Data.Nat.Find

/-!
# Numbering of regions and declarations

Regions are numbered in the order in which they are opened and declarations in the order in which
they are met. So the regions inside a region have consecutive numbers, and a region lists its
children, its declarations and the names in its table in ascending order.
-/

namespace LexicalScope

/-- What is under a node does not depend on the parents of nodes that rank behind it. -/
theorem Under.of_agree {Node : Type} {first second : Node → Option Node} {rank : Node → Nat}
    (ranked : Ranked first rank) {inner outer : Node} (under : Under first inner outer)
    (agree : ∀ node, rank node ≤ rank inner → first node = second node) :
    Under second inner outer := by
  induction under using Relation.ReflTransGen.head_induction_on with
  | refl => exact .refl _
  | head above _ induction =>
      have higher := Nat.le_of_lt (ranked above)
      refine .head (agree _ (Nat.le_refl _) ▸ above) (induction fun node bound => ?_)
      exact agree node (Nat.le_trans bound higher)

/-- The declarations that a region owns, in order. -/
def ownedBy (declarations : Array Declaration) (region : RegionId) : List Declaration :=
  declarations.toList.filter fun declaration => declaration.region == some region

private theorem ownedBy_push (declarations : Array Declaration) (declaration : Declaration)
    (region : RegionId) :
    ownedBy (declarations.push declaration) region = ownedBy declarations region ++
      if declaration.region = some region then [declaration] else [] := by
  by_cases owned : declaration.region = some region <;> simp [ownedBy, owned]

namespace Region

/-- The names in the table of a region. -/
def names (region : Region) : List String := region.table.toList.map (·.1)

theorem isSome_lookup_iff (region : Region) (name : String) :
    (region.lookup name).isSome = true ↔ name ∈ region.names := by
  simp [lookup, names]

/-- A region lists the declarations that it owns, and its table has the names of these, each once
and in the order in which they come up first. -/
structure Lists (region : Region) (owned : List Declaration) : Prop where
  declarations : region.declarations.toList = owned.map (·.id)
  names : region.names = (owned.map (·.name)).eraseDups
  distinct : region.names.Nodup

private theorem Lists.lookup_of_mem {region : Region} {owned : List Declaration}
    (lists : region.Lists owned) {name : String} {id : DeclarationId}
    (member : (name, id) ∈ region.table) : region.lookup name = some id := by
  have isListed : (region.lookup name).isSome = true := by
    rw [isSome_lookup_iff]
    exact List.mem_map.mpr ⟨_, Array.mem_toList_iff.mpr member, rfl⟩
  obtain ⟨entry, entryFound⟩ := Option.isSome_iff_exists.mp
    ((Option.isSome_map ..).symm.trans isListed)
  have isName : entry.1 = name := by simpa using Array.find?_some entryFound
  have same := List.inj_on_of_nodup_map lists.distinct
    (Array.mem_toList_iff.mpr (Array.mem_of_find?_eq_some entryFound))
    (Array.mem_toList_iff.mpr member) isName
  rw [lookup, entryFound, same]
  rfl

private theorem Lists.addDeclaration {region : Region} {owned : List Declaration}
    (lists : region.Lists owned) {declaration : Declaration} {name : String} {id : DeclarationId}
    (isName : declaration.name = name) (isId : declaration.id = id) :
    (region.addDeclaration name id).Lists (owned ++ [declaration]) := by
  subst isName isId
  have known := region.isSome_lookup_iff declaration.name
  have met : declaration.name ∈ region.names ↔ declaration.name ∈ owned.map (·.name) := by
    rw [lists.names, List.mem_eraseDups]
  unfold Region.addDeclaration
  split
  next isKnown =>
    have old := known.mp isKnown
    refine ⟨by simp [lists.declarations], ?_, lists.distinct⟩
    have nothing : [declaration.name].removeAll (owned.map (·.name)) = [] := by
      simpa [List.removeAll] using met.mp old
    simpa [List.eraseDups_append, nothing, Region.names] using lists.names
  next isNew =>
    have fresh : declaration.name ∉ region.names := fun member => isNew (known.mpr member)
    have all : [declaration.name].removeAll (owned.map (·.name)) = [declaration.name] := by
      have notMet := fun member => fresh (met.mpr member)
      simpa [List.removeAll] using notMet
    refine ⟨by simp [lists.declarations], ?_, ?_⟩
    · simpa [List.eraseDups_append, all, Region.names, List.eraseDups_cons] using lists.names
    · have distinct : (region.names ++ [declaration.name]).Nodup := by
        refine List.nodup_append.mpr ⟨lists.distinct, by simp, ?_⟩
        rintro name member _ isNew rfl
        exact fresh (List.mem_singleton.mp isNew ▸ member)
      simpa [Region.names] using distinct

end Region

namespace Binder

variable {binder : Binder} {kind : RegionKind} {boundary : StatementRef} {span : Span}
  {branch : Option BranchTag}

/-- The region around a region. -/
def parent (binder : Binder) (id : RegionId) : RegionRef :=
  (binder.regions[id.index]?).bind Region.parent

private theorem ranked_parent (consistent : binder.IsConsistent) :
    Ranked binder.parent RegionId.index := by
  intro lower upper above
  obtain ⟨region, found, isParent⟩ := Option.bind_eq_some_iff.mp above
  exact (consistent.agree.parent found isParent).1

theorem parent_of_enter (consistent : binder.IsConsistent) (id : RegionId) :
    (binder.enter kind boundary span branch).parent id =
      if id.index = binder.regions.size then binder.current else binder.parent id := by
  rw [parent, region_enter consistent]
  split
  · rfl
  · rw [parent]
    cases binder.regions[id.index]? with
    | none => rfl
    | some region =>
        rw [Option.map_some, Option.bind_some, Option.bind_some]
        split <;> rfl

private theorem under_enter_iff (consistent : binder.IsConsistent) {inner outer : RegionId}
    (bound : inner.index < binder.regions.size) :
    Under (binder.enter kind boundary span branch).parent inner outer ↔
      Under binder.parent inner outer := by
  have same : ∀ id : RegionId, id.index ≤ inner.index →
      binder.parent id = (binder.enter kind boundary span branch).parent id := by
    intro id before
    rw [parent_of_enter consistent, if_neg (by omega)]
  exact ⟨fun under => under.of_agree (ranked_parent consistent.enter) fun id before =>
    (same id before).symm, fun under => under.of_agree (ranked_parent consistent) same⟩

/-- The regions of a binder with an open region are numbered in the order of their opening, each
behind the regions opened inside the one before it, and the last one lies in the open one. -/
structure IsNumbered (binder : Binder) : Prop where
  consistent : binder.IsConsistent
  root : ∃ region, binder.regions[0]? = some region ∧ region.parent = none ∧ region.depth = 0
  inner : ∀ {i : Nat} {region : Region}, binder.regions[i]? = some region → i ≠ 0 →
    region.parent ≠ none
  ascending : ∀ {i : Nat} {region : Region}, binder.regions[i]? = some region →
    region.children.toList.Pairwise fun first second => first.index < second.index
  last : ∃ id, binder.current = some id ∧ Under binder.parent ⟨binder.regions.size - 1⟩ id
  consecutive : ∀ {i j k : Nat}, i ≤ j → j ≤ k → k < binder.regions.size →
    Under binder.parent ⟨k⟩ ⟨i⟩ → Under binder.parent ⟨j⟩ ⟨i⟩
  sequence : ∀ {j : Nat} {declaration : Declaration}, binder.declarations[j]? = some declaration →
    declaration.sequence = j ∧ declaration.region ≠ none
  lists : ∀ {i : Nat} {region : Region}, binder.regions[i]? = some region →
    region.Lists (ownedBy binder.declarations ⟨i⟩)

private theorem IsNumbered.resembling {other : Binder} (numbered : binder.IsNumbered)
    (same : binder.Resembles other) : other.IsNumbered := by
  have consistent : other.IsConsistent := by
    obtain ⟨agree, current, enclosing⟩ := numbered.consistent
    refine ⟨?_, ?_, ?_⟩
    · rwa [same.regions, same.declarations]
    · rwa [same.regions, same.current]
    · rwa [same.regions, same.enclosing]
  have parent : other.parent = binder.parent := by
    funext id
    rw [Binder.parent, Binder.parent, same.regions]
  obtain ⟨_, root, inner, ascending, last, consecutive, sequence, lists⟩ := numbered
  refine ⟨consistent, ?_, ?_, ?_, ?_, ?_, ?_, ?_⟩
  · rwa [same.regions]
  · rwa [same.regions]
  · rwa [same.regions]
  · rwa [same.regions, same.current, parent]
  · rwa [same.regions, parent]
  · rwa [same.declarations]
  · rwa [same.regions, same.declarations]

/-! ## Entering a region -/

private theorem consecutive_enter (numbered : binder.IsNumbered) {i j k : Nat} (lower : i ≤ j)
    (upper : j ≤ k) (bound : k < (binder.enter kind boundary span branch).regions.size)
    (under : Under (binder.enter kind boundary span branch).parent ⟨k⟩ ⟨i⟩) :
    Under (binder.enter kind boundary span branch).parent ⟨j⟩ ⟨i⟩ := by
  have consistent := numbered.consistent
  rw [size_enter] at bound
  rcases Nat.lt_or_eq_of_le (Nat.le_of_lt_succ bound) with isOld | isNew
  · rw [under_enter_iff consistent isOld] at under
    rw [under_enter_iff consistent (Nat.lt_of_le_of_lt upper isOld)]
    exact numbered.consecutive lower upper isOld under
  · rcases Nat.lt_or_eq_of_le upper with before | rfl
    · -- The new region lies in the open one, as does the last region before it.
      obtain ⟨id, isCurrent, lastUnder⟩ := numbered.last
      rcases under.eq_or_parent with same | ⟨above, isAbove, higher⟩
      · obtain rfl : k = i := congrArg RegionId.index same
        omega
      · rw [parent_of_enter consistent, if_pos isNew, isCurrent] at isAbove
        obtain rfl := Option.some.inj isAbove
        rw [under_enter_iff consistent (consistent.current _ isCurrent)] at higher
        rw [under_enter_iff consistent (by omega : j < binder.regions.size)]
        exact numbered.consecutive lower (by omega) (by omega) (lastUnder.trans higher)
    · exact under

/-- The region that is entered is listed behind the other children of the region around it. -/
theorem ascending_enter (numbered : binder.IsNumbered) {i : Nat} {region : Region}
    (found : (binder.enter kind boundary span branch).regions[i]? = some region) :
    region.children.toList.Pairwise fun first second => first.index < second.index := by
  rcases region_of_enter numbered.consistent found with ⟨_, rfl⟩ | ⟨_, old, oldFound, rfl⟩
  · exact .nil
  · have ascending := numbered.ascending oldFound
    split
    · rw [Region.addChild, Array.toList_push]
      refine List.pairwise_append.mpr ⟨ascending, List.pairwise_singleton _ _, ?_⟩
      intro child member other isNew
      obtain rfl := List.mem_singleton.mp isNew
      obtain ⟨inner, innerFound, _⟩ :=
        (numbered.consistent.agree.child oldFound).mp (Array.mem_toList_iff.mp member)
      exact (Array.getElem?_eq_some_iff.mp innerFound).1
    · exact ascending

private theorem lists_enter (numbered : binder.IsNumbered) {i : Nat} {region : Region}
    (found : (binder.enter kind boundary span branch).regions[i]? = some region) :
    region.Lists (ownedBy binder.declarations ⟨i⟩) := by
  have consistent := numbered.consistent
  rcases region_of_enter consistent found with ⟨rfl, rfl⟩ | ⟨_, old, oldFound, rfl⟩
  · have nothing : ownedBy binder.declarations ⟨binder.regions.size⟩ = [] := by
      refine List.filter_eq_nil_iff.mpr fun declaration member owned => ?_
      exact Nat.lt_irrefl _ (consistent.agree.region (Array.mem_toList_iff.mp member)
        (eq_of_beq owned))
    rw [nothing]
    exact ⟨rfl, rfl, List.nodup_nil⟩
  · obtain ⟨declarations, names, distinct⟩ := numbered.lists oldFound
    split <;> exact ⟨declarations, names, distinct⟩

private theorem IsNumbered.enter (numbered : binder.IsNumbered) :
    (binder.enter kind boundary span branch).IsNumbered where
  consistent := numbered.consistent.enter
  root := by
    obtain ⟨root, found, parent, depth⟩ := numbered.root
    obtain ⟨region, regionFound, sameParent, sameDepth⟩ : ∃ region,
        (binder.enter kind boundary span branch).regions[0]? = some region ∧
          region.parent = root.parent ∧ region.depth = root.depth :=
      exists_region_enter numbered.consistent found
    exact ⟨region, regionFound, sameParent.trans parent, sameDepth.trans depth⟩
  inner found notFirst parent := by
    rcases region_of_enter numbered.consistent found with ⟨_, rfl⟩ | ⟨_, old, oldFound, rfl⟩
    · obtain ⟨id, isCurrent, _⟩ := numbered.last
      exact absurd (isCurrent.symm.trans parent) (by rintro ⟨⟩)
    · refine numbered.inner oldFound notFirst ?_
      split at parent <;> exact parent
  ascending := ascending_enter numbered
  last := by
    refine ⟨⟨binder.regions.size⟩, rfl, ?_⟩
    rw [size_enter]
    exact .refl _
  consecutive := consecutive_enter numbered
  sequence := numbered.sequence
  lists := lists_enter numbered

private theorem isNumbered_enter_blank (settings : ScopeSettings) (statements expressions : Nat) :
    ((blank settings statements expressions).enter kind boundary span branch).IsNumbered := by
  have consistent :
      ((blank settings statements expressions).enter kind boundary span branch).IsConsistent :=
    (isConsistent_blank settings statements expressions).enter
  have only : ∀ {i : Nat} {region : Region},
      ((blank settings statements expressions).enter kind boundary span branch).regions[i]? =
        some region →
      i = 0 ∧ region = .opened ⟨0⟩ kind boundary span none 0 branch := by
    intro i region found
    cases i with
    | zero => exact ⟨rfl, (Option.some.inj found).symm⟩
    | succ i => simp [Binder.enter, blank] at found
  refine ⟨consistent, ⟨_, rfl, rfl, rfl⟩, fun found notFirst => absurd (only found).1 notFirst,
    fun found => ?_, ⟨⟨0⟩, rfl, .refl _⟩, fun {i j k} lower upper bound _ => ?_,
    fun found => by simp [Binder.enter, blank] at found, fun found => ?_⟩
  · rw [(only found).2]
    exact .nil
  · have one : k < 1 := bound
    obtain rfl : i = j := by omega
    exact .refl _
  · rw [(only found).2]
    exact ⟨rfl, rfl, List.nodup_nil⟩

/-! ## Leaving a region -/

private theorem IsNumbered.leave {inside : Binder} (numbered : binder.IsNumbered)
    (grows : (binder.enter kind boundary span branch).Grows inside)
    (insideNumbered : inside.IsNumbered) : inside.leave.IsNumbered := by
  have current : inside.leave.current = binder.current := (grows_region grows).current
  have parent : inside.leave.parent = inside.parent := by
    funext id
    rw [Binder.parent, Binder.parent, regions_leave]
  have above : inside.parent ⟨binder.regions.size⟩ = binder.current := by
    have same := grows.shape binder.regions.size (by rw [size_enter]; exact Nat.lt_succ_self _)
    rw [shape?_enter, if_pos rfl] at same
    obtain ⟨region, found, isShape⟩ := Option.map_eq_some_iff.mp same
    have isParent : region.shape.parent = binder.current := by
      rw [isShape]
      rfl
    rw [Binder.parent, found]
    exact isParent
  obtain ⟨consistent, root, inner, ascending, last, consecutive, sequence, lists⟩ := insideNumbered
  refine ⟨consistent.leave, ?_, ?_, ?_, ?_, ?_, ?_, ?_⟩
  · rwa [regions_leave]
  · rwa [regions_leave]
  · rwa [regions_leave]
  · obtain ⟨id, isCurrent, _⟩ := numbered.last
    obtain ⟨innermost, isOpen, under⟩ := last
    have isNew : inside.current = some ⟨binder.regions.size⟩ := grows.current
    obtain rfl := Option.some.inj (isOpen.symm.trans isNew)
    refine ⟨id, current.trans isCurrent, ?_⟩
    rw [regions_leave, parent]
    exact under.under_parent (above.trans isCurrent)
  · rwa [regions_leave, parent]
  · rwa [declarations_leave]
  · rwa [regions_leave, declarations_leave]

/-! ## Declaring a name -/

private theorem parent_declare (name : String) (declared : DeclarationKind) (span : Span)
    (statement : StatementRef) (expression : ExpressionRef) :
    (binder.declare name declared span statement expression).parent = binder.parent := by
  funext id
  rw [parent, region_declare, parent]
  cases binder.regions[id.index]? with
  | none => rfl
  | some region =>
      rw [Option.map_some, Option.bind_some, Option.bind_some]
      exact (addsName_declare name id.index region).parent

private theorem IsNumbered.declare (numbered : binder.IsNumbered) (name : String)
    (declared : DeclarationKind) (span : Span) (statement : StatementRef)
    (expression : ExpressionRef) :
    (binder.declare name declared span statement expression).IsNumbered where
  consistent := numbered.consistent.declare name declared span statement expression
  root := by
    obtain ⟨root, found, parent, depth⟩ := numbered.root
    obtain ⟨region, regionFound, keeps⟩ : ∃ region,
        (binder.declare name declared span statement expression).regions[0]? = some region ∧
          binder.AddsName name 0 root region := exists_region_declare found
    exact ⟨region, regionFound, keeps.parent.trans parent, keeps.depth.trans depth⟩
  inner found notFirst parent := by
    obtain ⟨old, oldFound, keeps⟩ := region_of_declare found
    exact numbered.inner oldFound notFirst (keeps.parent.symm.trans parent)
  ascending found := by
    obtain ⟨old, oldFound, keeps⟩ := region_of_declare found
    rw [keeps.children]
    exact numbered.ascending oldFound
  last := by
    rw [parent_declare, size_declare]
    exact numbered.last
  consecutive := by
    rw [parent_declare, size_declare]
    exact numbered.consecutive
  sequence {j declaration} found := by
    simp only [Binder.declare, Array.getElem?_push] at found
    split at found
    next isNew =>
      obtain rfl := Option.some.inj found
      obtain ⟨id, isCurrent, _⟩ := numbered.last
      exact ⟨isNew.symm, by simp [isCurrent]⟩
    next => exact numbered.sequence found
  lists {i region} found := by
    rw [region_declare] at found
    obtain ⟨old, oldFound, rfl⟩ := Option.map_eq_some_iff.mp found
    have lists := numbered.lists oldFound
    simp only [Binder.declare, ownedBy_push]
    split
    · exact lists.addDeclaration rfl rfl
    · simpa using lists

/-! ## Binding -/

theorem tracked_isNumbered (tree : StatementTree) :
    Bind.Tracked tree fun before after =>
      before.Grows after ∧ (before.IsNumbered → after.IsNumbered) where
  refl binder := ⟨.refl binder, id⟩
  trans left right := ⟨left.1.trans right.1, fun numbered => right.2 (left.2 numbered)⟩
  header _ :=
    { declare := fun name kind span statement expression held =>
        ⟨held.1.trans (grows_declare ..), fun numbered =>
          (held.2 numbered).declare name kind span statement expression⟩
      recordExpression := fun expression held => by
        refine ⟨held.1.trans (grows_recordExpression tree expression), fun numbered => ?_⟩
        obtain ⟨consistent, root, inner, ascending, last, consecutive, sequence, lists⟩ :=
          held.2 numbered
        cases expression <;> exact ⟨⟨consistent.agree, consistent.current, consistent.enclosing⟩,
          root, inner, ascending, last, consecutive, sequence, lists⟩ }
  recordStatement binder statement region := by
    have same := binder.resembles_recordStatement statement region
    refine ⟨(Grows.refl binder).resembling ⟨rfl, rfl, rfl, rfl, rfl, rfl⟩ same ?_, fun numbered =>
      numbered.resembling same⟩
    cases statement <;> rfl
  region kind boundary span branch held :=
    ⟨grows_region held.1, fun numbered => numbered.leave held.1 (held.2 numbered.enter)⟩
  bleed {before inside} depth held := by
    refine ⟨held.1.resembling (before.resembles_bleed depth).symm (inside.resembles_bleed _) rfl,
      fun numbered => ?_⟩
    exact (held.2 (numbered.resembling (before.resembles_bleed depth))).resembling
      (inside.resembles_bleed _)

end Binder

/-! ## Scope trees -/

namespace ScopeTree

/-- A scope tree whose regions and declarations are numbered in order. -/
structure Numbered (scopes : ScopeTree) : Prop where
  number : ∀ {i : Nat} {region : Region}, scopes.regions[i]? = some region → region.id = ⟨i⟩
  /-- The first region lies in no other one. -/
  root : ∃ region, scopes.regions[0]? = some region ∧ region.parent = none ∧ region.depth = 0
  /-- Every other region lies in one before it, one level deeper. -/
  parent : ∀ {i : Nat} {region : Region}, scopes.regions[i]? = some region → i ≠ 0 →
    ∃ parent outer, region.parent = some parent ∧ parent.index < i ∧
      scopes.regions[parent.index]? = some outer ∧ region.depth = outer.depth + 1
  /-- A region lists in order just the regions that lie directly in it. -/
  children : ∀ {i : Nat} {region : Region}, scopes.regions[i]? = some region →
    (region.children.toList.Pairwise fun first second => first.index < second.index) ∧
      ∀ child, child ∈ region.children ↔ scopes.parent (some child) = some ⟨i⟩
  /-- The regions in a region have the numbers behind its own. -/
  below : ∀ {i : Nat}, i < scopes.regions.size → ∃ stop, i < stop ∧ stop ≤ scopes.regions.size ∧
    ∀ id : RegionId, Under (fun id => scopes.parent (some id)) id ⟨i⟩ ↔
      i ≤ id.index ∧ id.index < stop
  /-- Declarations have their places as numbers, and every one lies in a region. -/
  declaration : ∀ {j : Nat} {declaration : Declaration},
    scopes.declarations[j]? = some declaration →
      declaration.id = ⟨j⟩ ∧ declaration.sequence = j ∧
        ∃ region, declaration.region = some region ∧ region.index < scopes.regions.size
  /-- A region lists in order just the declarations that it owns. -/
  owned : ∀ {i : Nat} {region : Region}, scopes.regions[i]? = some region →
    (region.declarations.toList.Pairwise fun first second => first.index < second.index) ∧
      ∀ id, id ∈ region.declarations ↔
        ∃ declaration, scopes.declaration? id = some declaration ∧ declaration.region = some ⟨i⟩
  /-- The table of a region has the names of its declarations, in the order in which they come up
  first. -/
  names : ∀ {i : Nat} {region : Region}, scopes.regions[i]? = some region →
    region.table.toList.map (·.1) =
      ((scopes.declarationsIn (some ⟨i⟩)).map (·.name)).eraseDups
  /-- The table maps each name to the first of its declarations. -/
  first : ∀ {i : Nat} {region : Region}, scopes.regions[i]? = some region →
    ∀ name id, (name, id) ∈ region.table →
      ∃ declaration ∈ scopes.declarationsIn (some ⟨i⟩),
        declaration.id = id ∧ declaration.name = name ∧
          ∀ other ∈ scopes.declarationsIn (some ⟨i⟩), other.name = name →
            id.index ≤ other.id.index

private theorem exists_stop {size start : Nat} {within : Nat → Prop} (bound : start < size)
    (own : within start) (inSize : ∀ j, within j → start ≤ j ∧ j < size)
    (consecutive : ∀ j k, start ≤ j → j ≤ k → within k → within j) :
    ∃ stop, start < stop ∧ stop ≤ size ∧ ∀ j, within j ↔ start ≤ j ∧ j < stop := by
  classical
  let last := Nat.findGreatest within (size - 1)
  have isWithin : within last := Nat.findGreatest_spec (Nat.le_sub_one_of_lt bound) own
  refine ⟨last + 1, Nat.lt_succ_of_le (Nat.le_findGreatest (Nat.le_sub_one_of_lt bound) own),
    (inSize last isWithin).2, fun j => ⟨fun inside => ?_, fun ⟨lower, upper⟩ => ?_⟩⟩
  · have bounds := inSize j inside
    exact ⟨bounds.1, Nat.lt_succ_of_le (Nat.le_findGreatest (by omega) inside)⟩
  · exact consecutive j last lower (Nat.le_of_lt_succ upper) isWithin

variable {scopes : ScopeTree}

section Consistent

variable (agree : Consistent scopes.regions scopes.declarations)

include agree

theorem declaration?_iff {id : DeclarationId} {declaration : Declaration} :
    scopes.declaration? id = some declaration ↔
      declaration ∈ scopes.declarations.toList ∧ declaration.id = id := by
  constructor
  · intro found
    exact ⟨Array.mem_toList_iff.mpr (Array.mem_of_getElem? found), agree.declaration found⟩
  · rintro ⟨member, rfl⟩
    obtain ⟨j, found⟩ := Array.getElem?_of_mem (Array.mem_toList_iff.mp member)
    rw [declaration?, agree.declaration found]
    exact found

theorem pairwise_declarations :
    scopes.declarations.toList.Pairwise fun first second =>
      first.id.index < second.id.index := by
  refine List.pairwise_iff_getElem.mpr fun j k lower upper before => ?_
  have first := agree.declaration (i := j) (Array.getElem?_eq_getElem lower)
  have second := agree.declaration (i := k) (Array.getElem?_eq_getElem upper)
  simpa [first, second] using before

private theorem pairwise_ownedBy (region : RegionId) :
    (ownedBy scopes.declarations region).Pairwise fun first second =>
      first.id.index < second.id.index :=
  (pairwise_declarations agree).filter _

theorem mem_ownedBy {region : RegionId} {declaration : Declaration} :
    declaration ∈ ownedBy scopes.declarations region ↔
      scopes.declaration? declaration.id = some declaration ∧
        declaration.region = some region := by
  simp [ownedBy, declaration?_iff agree]

private theorem declarationsIn_eq {i : Nat} {region : Region}
    (found : scopes.regions[i]? = some region)
    (lists : region.Lists (ownedBy scopes.declarations ⟨i⟩)) :
    scopes.declarationsIn (some ⟨i⟩) = ownedBy scopes.declarations ⟨i⟩ := by
  have looked : scopes.region? (some ⟨i⟩) = some region := found
  simp only [declarationsIn, looked, lists.declarations, List.filterMap_map]
  refine (List.filterMap_congr (g := some) fun declaration member => ?_).trans List.filterMap_some
  exact ((mem_ownedBy agree).mp member).1

private theorem mem_declarations_iff {i : Nat} {region : Region}
    (lists : region.Lists (ownedBy scopes.declarations ⟨i⟩)) (id : DeclarationId) :
    id ∈ region.declarations ↔
      ∃ declaration, scopes.declaration? id = some declaration ∧
        declaration.region = some ⟨i⟩ := by
  rw [← Array.mem_toList_iff, lists.declarations, List.mem_map]
  constructor
  · rintro ⟨declaration, member, rfl⟩
    exact ⟨declaration, (mem_ownedBy agree).mp member⟩
  · rintro ⟨declaration, found, isOwned⟩
    have isId := ((declaration?_iff agree).mp found).2
    exact ⟨declaration, (mem_ownedBy agree).mpr ⟨isId ▸ found, isOwned⟩, isId⟩

private theorem first_of_mem_table {i : Nat} {region : Region}
    (found : scopes.regions[i]? = some region)
    (lists : region.Lists (ownedBy scopes.declarations ⟨i⟩)) {name : String} {id : DeclarationId}
    (member : (name, id) ∈ region.table) :
    ∃ declaration ∈ ownedBy scopes.declarations ⟨i⟩,
      declaration.id = id ∧ declaration.name = name ∧
        ∀ other ∈ ownedBy scopes.declarations ⟨i⟩, other.name = name →
          id.index ≤ other.id.index := by
  have looked := lists.lookup_of_mem member
  rw [agree.table name found] at looked
  obtain ⟨declaration, isFirst, isId⟩ := Option.map_eq_some_iff.mp looked
  obtain ⟨matched, before, behind, divided, noneBefore⟩ :=
    List.find?_eq_some_iff_append.mp isFirst
  simp only [Bool.and_eq_true, beq_iff_eq] at matched
  have listed : declaration ∈ scopes.declarations.toList := by
    rw [divided]
    exact List.mem_append_right _ List.mem_cons_self
  refine ⟨declaration, List.mem_filter.mpr ⟨listed, by simp [matched.2]⟩, isId, matched.1,
    fun other owned isNamed => ?_⟩
  obtain ⟨otherListed, otherOwned⟩ := List.mem_filter.mp owned
  have ordered := pairwise_declarations agree
  rw [divided] at otherListed ordered
  rw [← isId]
  rcases List.mem_append.mp otherListed with isBefore | atOrBehind
  · have differs := noneBefore other isBefore
    simp only [isNamed, eq_of_beq otherOwned, beq_self_eq_true, Bool.and_self, Bool.not_true,
      Bool.false_eq_true] at differs
  · rcases List.mem_cons.mp atOrBehind with rfl | isBehind
    · exact Nat.le_refl _
    · have tail := (List.pairwise_append.mp ordered).2.1
      exact Nat.le_of_lt ((List.pairwise_cons.mp tail).1 other isBehind)

/-- The regions in a region have the numbers behind its own if they are numbered without gaps. -/
theorem exists_below {i : Nat} (bound : i < scopes.regions.size)
    (consecutive : ∀ {i j k : Nat}, i ≤ j → j ≤ k → k < scopes.regions.size →
      Under (fun id => scopes.parent (some id)) ⟨k⟩ ⟨i⟩ →
        Under (fun id => scopes.parent (some id)) ⟨j⟩ ⟨i⟩) :
    ∃ stop, i < stop ∧ stop ≤ scopes.regions.size ∧
      ∀ id : RegionId, Under (fun id => scopes.parent (some id)) id ⟨i⟩ ↔
        i ≤ id.index ∧ id.index < stop := by
  have isRanked : Ranked (fun id => scopes.parent (some id)) RegionId.index := ranked agree
  have inSize : ∀ j, Under (fun id => scopes.parent (some id)) ⟨j⟩ ⟨i⟩ →
      i ≤ j ∧ j < scopes.regions.size := by
    intro j under
    refine ⟨under.rank_le isRanked, ?_⟩
    rcases under.eq_or_parent with same | ⟨above, isAbove, _⟩
    · obtain rfl : j = i := congrArg RegionId.index same
      exact bound
    · obtain ⟨region, found, _⟩ := Option.bind_eq_some_iff.mp isAbove
      exact (Array.getElem?_eq_some_iff.mp found).1
  obtain ⟨stop, before, inside, iff⟩ := exists_stop bound (.refl _) inSize
    fun j k lower upper under => consecutive lower upper (inSize k under).2 under
  exact ⟨stop, before, inside, fun id => iff id.index⟩

end Consistent

private theorem numbered_of_isNumbered {binder : Binder} (numbered : binder.IsNumbered)
    (regions : scopes.regions = binder.regions)
    (declarations : scopes.declarations = binder.declarations) : scopes.Numbered := by
  obtain ⟨⟨agree, current, _⟩, root, inner, ascending, _, consecutive, sequence, lists⟩ := numbered
  have parent : binder.parent = fun id => scopes.parent (some id) := by
    funext id
    rw [Binder.parent, ← regions]
    rfl
  rw [parent, ← regions] at consecutive
  rw [← regions] at root inner ascending
  rw [← declarations] at sequence
  rw [← regions, ← declarations] at agree lists
  refine ⟨agree.number, root, fun {i region} found notFirst => ?_, fun {i region} found => ?_,
    fun {i} bound => ?_, fun {j declaration} found => ?_, fun {i region} found => ?_,
    fun {i region} found => ?_, fun {i region} found name id member => ?_⟩
  · obtain ⟨parent, isParent⟩ := Option.ne_none_iff_exists'.mp (inner found notFirst)
    obtain ⟨before, outer, outerFound, depth⟩ := agree.parent found isParent
    exact ⟨parent, outer, isParent, before, outerFound, depth⟩
  · refine ⟨ascending found, fun child => (agree.child found).trans ?_⟩
    exact Option.bind_eq_some_iff.symm
  · exact exists_below agree bound consecutive
  · obtain ⟨isPlace, isOwned⟩ := sequence found
    obtain ⟨region, isRegion⟩ := Option.ne_none_iff_exists'.mp isOwned
    exact ⟨agree.declaration found, isPlace, region, isRegion,
      agree.region (Array.mem_of_getElem? found) isRegion⟩
  · refine ⟨?_, mem_declarations_iff agree (lists found)⟩
    rw [(lists found).declarations]
    exact List.pairwise_map.mpr (pairwise_ownedBy agree _)
  · rw [declarationsIn_eq agree found (lists found)]
    exact (lists found).names
  · rw [declarationsIn_eq agree found (lists found)]
    exact first_of_mem_table agree found (lists found) member

/-- The regions and declarations of a scope tree are numbered in order, whatever tree it was built
from and whatever the binder met before. -/
theorem numbered_of_bind {binder : Binder} {tree : StatementTree}
    (bound : (binder.bind tree).1 = .ok scopes) : scopes.Numbered := by
  obtain ⟨after, succeeded, rfl⟩ := of_bind bound
  obtain ⟨span, inside, ⟨_, numbered⟩, rfl⟩ :=
    (Binder.tracked_isNumbered tree).exists_of_bindProcedure succeeded
  exact numbered_of_isNumbered (numbered (Binder.isNumbered_enter_blank ..))
    Binder.regions_leave Binder.declarations_leave

end ScopeTree

/-- A tree put together by hand, whose root lists twice a block that declares a name. -/
def StatementTree.repeating : StatementTree where
  name := "p"
  statements := #[⟨.block [some ⟨1⟩, some ⟨1⟩], ⟨0, 9⟩, none⟩,
    ⟨.block [some ⟨2⟩], ⟨1, 8⟩, some ⟨0⟩⟩,
    ⟨.localDeclaration [⟨⟨"x", ⟨3, 4⟩⟩, none⟩], ⟨2, 7⟩, some ⟨1⟩⟩]
  expressions := #[]
  parameters := [⟨"a", ⟨0, 1⟩⟩]
  root := some ⟨0⟩

theorem ScopeTree.numbered_repeating :
    ∃ scopes, ((Binder.new .default).bind .repeating).1 = .ok scopes ∧ scopes.Numbered := by
  have accepted : ((Binder.new .default).bind .repeating).1.isOk = true := by decide +kernel
  obtain ⟨scopes, bound⟩ := Step.exists_of_isOk accepted
  exact ⟨scopes, bound, numbered_of_bind bound⟩

end LexicalScope
