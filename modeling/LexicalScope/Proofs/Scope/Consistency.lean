import LexicalScope.Proofs.Scope.Growth
import LexicalScope.Proofs.Scope.Invariant

/-!
# Consistency of scope trees

Regions and declarations are numbered by their places, a region lists as its children just the
regions that name it as their parent, one level deeper, and its table holds for each name the first
declaration of it there.
-/

namespace LexicalScope

namespace Region

private theorem lookup_addDeclaration (region : Region) (name other : String) (id : DeclarationId) :
    (region.addDeclaration name id).lookup other =
      (region.lookup other).or (if name == other then some id else none) := by
  unfold addDeclaration
  split
  next known =>
    change region.lookup other = _
    by_cases same : name = other
    · subst same
      obtain ⟨first, isFirst⟩ := Option.isSome_iff_exists.mp known
      rw [isFirst, Option.some_or]
    · simp [same]
  next unknown =>
    simp only [lookup, Array.find?_push]
    cases region.table.find? fun entry => entry.1 == other with
    | some entry => rfl
    | none =>
        simp only [Option.none_or, Option.map_none]
        split <;> rfl

end Region

/-- The regions and declarations of a scope tree under construction agree with each other. -/
structure Consistent (regions : Array Region) (declarations : Array Declaration) : Prop where
  number : ∀ {i : Nat} {region : Region}, regions[i]? = some region → region.id = ⟨i⟩
  parent : ∀ {i : Nat} {region : Region} {parent : RegionId}, regions[i]? = some region →
    region.parent = some parent → parent.index < i ∧
      ∃ outer, regions[parent.index]? = some outer ∧ region.depth = outer.depth + 1
  child : ∀ {i : Nat} {region : Region} {child : RegionId}, regions[i]? = some region →
    (child ∈ region.children ↔
      ∃ inner, regions[child.index]? = some inner ∧ inner.parent = some ⟨i⟩)
  table : ∀ {i : Nat} {region : Region} (name : String), regions[i]? = some region →
    region.lookup name = (declarations.toList.find? fun declaration =>
      declaration.name == name && declaration.region == some ⟨i⟩).map (·.id)
  declaration : ∀ {i : Nat} {declaration : Declaration}, declarations[i]? = some declaration →
    declaration.id = ⟨i⟩
  region : ∀ {declaration : Declaration} {id : RegionId}, declaration ∈ declarations →
    declaration.region = some id → id.index < regions.size

namespace Binder

/-- A binder is consistent, and the regions to which it can return exist. -/
structure IsConsistent (binder : Binder) : Prop where
  agree : Consistent binder.regions binder.declarations
  current : ∀ id, binder.current = some id → id.index < binder.regions.size
  enclosing : ∀ outer ∈ binder.enclosing, ∀ id, outer.region = some id →
    id.index < binder.regions.size

variable {binder : Binder} {kind : RegionKind} {boundary : StatementRef} {span : Span}
  {branch : Option BranchTag}

/-- Entering a region adds it and lists it in the region around it. -/
theorem region_enter (consistent : binder.IsConsistent) {i : Nat} :
    (binder.enter kind boundary span branch).regions[i]? =
      if i = binder.regions.size then some (binder.nextRegion kind boundary span branch)
      else (binder.regions[i]?).map fun region =>
        if binder.current = some ⟨i⟩ then region.addChild ⟨binder.regions.size⟩ else region := by
  have valid := consistent.current
  unfold enter nextRegion
  cases current : binder.current with
  | none =>
      simp only [Array.getElem?_push, Option.bind_none]
      split
      · rfl
      · simp
  | some parent =>
      have bound := valid parent current
      simp only [Array.getElem?_modify, Array.getElem?_push, Option.bind_some, Option.some.injEq]
      by_cases isNew : i = binder.regions.size
      · have notParent : parent.index ≠ i := by omega
        exact (if_neg notParent).trans ((if_pos isNew).trans (if_pos isNew).symm)
      · rw [if_neg isNew, if_neg isNew]
        by_cases same : parent.index = i
        · subst same
          simp
        · have different : parent ≠ ⟨i⟩ := fun equal => same (congrArg RegionId.index equal)
          simp [same, different]

/-- Declaring a name adds it to the region that is open. -/
theorem region_declare (name : String) (declared : DeclarationKind) (span : Span)
    (statement : StatementRef) (expression : ExpressionRef) {i : Nat} :
    (binder.declare name declared span statement expression).regions[i]? =
      (binder.regions[i]?).map fun region =>
        if binder.current = some ⟨i⟩ then
          region.addDeclaration name ⟨binder.declarations.size⟩
        else region := by
  unfold declare
  cases binder.current with
  | none => simp
  | some region =>
      simp only [Array.getElem?_modify, Option.some.injEq]
      by_cases same : region.index = i
      · subst same
        simp
      · have different : region ≠ ⟨i⟩ := fun equal => same (congrArg RegionId.index equal)
        simp [same, different]

/-! ### Entering a region -/

/-- A region is the new one, or an old one to whose children the new one may have been added. -/
theorem region_of_enter (consistent : binder.IsConsistent) {i : Nat} {region : Region}
    (found : (binder.enter kind boundary span branch).regions[i]? = some region) :
    (i = binder.regions.size ∧ region = binder.nextRegion kind boundary span branch) ∨
      i < binder.regions.size ∧ ∃ old, binder.regions[i]? = some old ∧ region =
        if binder.current = some ⟨i⟩ then old.addChild ⟨binder.regions.size⟩ else old := by
  rw [region_enter consistent] at found
  split at found
  next isNew => exact .inl ⟨isNew, (Option.some.inj found).symm⟩
  next isOld =>
    obtain ⟨old, oldFound, same⟩ := Option.map_eq_some_iff.mp found
    exact .inr ⟨(Array.getElem?_eq_some_iff.mp oldFound).1, old, oldFound, same.symm⟩

theorem exists_region_enter (consistent : binder.IsConsistent) {i : Nat} {old : Region}
    (found : binder.regions[i]? = some old) :
    ∃ region, (binder.enter kind boundary span branch).regions[i]? = some region ∧
      region.parent = old.parent ∧ region.depth = old.depth := by
  have bound := (Array.getElem?_eq_some_iff.mp found).1
  rw [region_enter consistent, if_neg (Nat.ne_of_lt bound), found, Option.map_some]
  split <;> exact ⟨_, rfl, rfl, rfl⟩

private theorem parent_enter (consistent : binder.IsConsistent) {i : Nat} {region : Region}
    {parent : RegionId}
    (found : (binder.enter kind boundary span branch).regions[i]? = some region)
    (isParent : region.parent = some parent) :
    parent.index < i ∧ ∃ outer,
      (binder.enter kind boundary span branch).regions[parent.index]? = some outer ∧
        region.depth = outer.depth + 1 := by
  rcases region_of_enter consistent found with ⟨rfl, rfl⟩ | ⟨_, old, oldFound, rfl⟩
  · have bound := consistent.current parent isParent
    obtain ⟨region, regionFound, _, depth⟩ :=
      exists_region_enter consistent (Array.getElem?_eq_getElem bound)
    refine ⟨bound, region, regionFound, ?_⟩
    have isCurrent : binder.current = some parent := isParent
    simp only [nextRegion, Region.opened, isCurrent, Option.bind_some,
      Array.getElem?_eq_getElem bound, depth]
  · have isParent : old.parent = some parent := by
      split at isParent <;> exact isParent
    obtain ⟨less, outer, outerFound, depth⟩ := consistent.agree.parent oldFound isParent
    obtain ⟨region, regionFound, _, sameDepth⟩ := exists_region_enter consistent outerFound
    refine ⟨less, region, regionFound, ?_⟩
    rw [sameDepth, ← depth]
    split <;> rfl

private theorem exists_child_enter (consistent : binder.IsConsistent) {i : Nat} {child : RegionId} :
    (∃ inner, (binder.enter kind boundary span branch).regions[child.index]? = some inner ∧
        inner.parent = some ⟨i⟩) ↔
      (∃ inner, binder.regions[child.index]? = some inner ∧ inner.parent = some ⟨i⟩) ∨
      child = ⟨binder.regions.size⟩ ∧ binder.current = some ⟨i⟩ := by
  constructor
  · rintro ⟨inner, innerFound, isParent⟩
    rcases region_of_enter consistent innerFound with ⟨isNew, rfl⟩ | ⟨_, old, oldFound, rfl⟩
    · exact .inr ⟨congrArg RegionId.mk isNew, isParent⟩
    · refine .inl ⟨old, oldFound, ?_⟩
      split at isParent <;> exact isParent
  · rintro (⟨old, oldFound, isParent⟩ | ⟨rfl, isCurrent⟩)
    · obtain ⟨region, regionFound, sameParent, _⟩ := exists_region_enter consistent oldFound
      exact ⟨region, regionFound, sameParent.trans isParent⟩
    · exact ⟨_, by rw [region_enter consistent, if_pos rfl], isCurrent⟩

private theorem child_enter (consistent : binder.IsConsistent) {i : Nat} {region : Region}
    {child : RegionId}
    (found : (binder.enter kind boundary span branch).regions[i]? = some region) :
    child ∈ region.children ↔
      ∃ inner, (binder.enter kind boundary span branch).regions[child.index]? = some inner ∧
        inner.parent = some ⟨i⟩ := by
  rw [exists_child_enter consistent]
  rcases region_of_enter consistent found with ⟨rfl, rfl⟩ | ⟨_, old, oldFound, rfl⟩
  · constructor
    · intro absurd
      simp [nextRegion, Region.opened] at absurd
    · rintro (⟨old, oldFound, isParent⟩ | ⟨_, isCurrent⟩)
      · have less := (consistent.agree.parent oldFound isParent).1
        have bound := (Array.getElem?_eq_some_iff.mp oldFound).1
        exact absurd bound (Nat.lt_asymm less)
      · exact absurd (consistent.current _ isCurrent) (Nat.lt_irrefl _)
  · rw [← consistent.agree.child oldFound]
    split
    next isCurrent => simp [Region.addChild, isCurrent]
    next notCurrent => simp [notCurrent]

private theorem table_enter (consistent : binder.IsConsistent) {i : Nat} {region : Region}
    (name : String) (found : (binder.enter kind boundary span branch).regions[i]? = some region) :
    region.lookup name = (binder.declarations.toList.find? fun declaration =>
      declaration.name == name && declaration.region == some ⟨i⟩).map (·.id) := by
  rcases region_of_enter consistent found with ⟨rfl, rfl⟩ | ⟨_, old, oldFound, rfl⟩
  · have noneThere : (binder.declarations.toList.find? fun declaration =>
        declaration.name == name && declaration.region == some ⟨binder.regions.size⟩) = none := by
      rw [List.find?_eq_none]
      intro declaration member matched
      simp only [Bool.and_eq_true, beq_iff_eq] at matched
      exact Nat.lt_irrefl _ (consistent.agree.region (Array.mem_toList_iff.mp member) matched.2)
    rw [noneThere]
    rfl
  · have same := consistent.agree.table name oldFound
    split <;> exact same

theorem IsConsistent.enter (consistent : binder.IsConsistent) :
    (binder.enter kind boundary span branch).IsConsistent where
  agree := by
    refine ⟨fun {i region} found => ?_, parent_enter consistent, child_enter consistent,
      table_enter consistent, consistent.agree.declaration,
      fun {declaration id} member isRegion => ?_⟩
    · rcases region_of_enter consistent found with ⟨rfl, rfl⟩ | ⟨_, old, oldFound, rfl⟩
      · rfl
      · have same := consistent.agree.number oldFound
        split <;> exact same
    · rw [size_enter]
      exact Nat.lt_succ_of_lt (consistent.agree.region member isRegion)
  current id isCurrent := by
    obtain rfl := Option.some.inj isCurrent
    rw [size_enter]
    exact Nat.lt_succ_self _
  enclosing outer member id isRegion := by
    rw [size_enter]
    rcases List.mem_cons.mp member with rfl | member
    · exact Nat.lt_succ_of_lt (consistent.current id isRegion)
    · exact Nat.lt_succ_of_lt (consistent.enclosing outer member id isRegion)

theorem IsConsistent.leave (consistent : binder.IsConsistent) : binder.leave.IsConsistent := by
  unfold Binder.leave
  cases enclosing : binder.enclosing with
  | nil =>
      exact ⟨consistent.agree, by simp, by simp⟩
  | cons outer rest =>
      have valid := consistent.enclosing
      rw [enclosing] at valid
      exact ⟨consistent.agree, valid outer List.mem_cons_self,
        fun other member => valid other (List.mem_cons_of_mem _ member)⟩

/-! ### Declaring a name -/

/-- What declaring a name keeps of the region under an index, and what it adds to the table. -/
structure AddsName (binder : Binder) (name : String) (index : Nat)
    (old region : Region) : Prop where
  id : region.id = old.id
  parent : region.parent = old.parent
  depth : region.depth = old.depth
  children : region.children = old.children
  lookup : ∀ other, region.lookup other = (old.lookup other).or
    (if name == other && binder.current == some ⟨index⟩ then some ⟨binder.declarations.size⟩
      else none)

theorem addsName_declare (name : String) (index : Nat) (old : Region) :
    binder.AddsName name index old (if binder.current = some ⟨index⟩ then
      old.addDeclaration name ⟨binder.declarations.size⟩ else old) := by
  by_cases isCurrent : binder.current = some ⟨index⟩
  · have lookup := old.lookup_addDeclaration name
    rw [if_pos isCurrent]
    refine ⟨?_, ?_, ?_, ?_, fun other => by simp [lookup, isCurrent]⟩ <;>
      · unfold Region.addDeclaration
        split <;> rfl
  · rw [if_neg isCurrent]
    exact ⟨rfl, rfl, rfl, rfl, fun other => by simp [isCurrent]⟩

variable {name : String} {declared : DeclarationKind} {statement : StatementRef}
  {expression : ExpressionRef}

theorem region_of_declare {i : Nat} {region : Region}
    (found : (binder.declare name declared span statement expression).regions[i]? = some region) :
    ∃ old, binder.regions[i]? = some old ∧ binder.AddsName name i old region := by
  rw [region_declare] at found
  obtain ⟨old, oldFound, rfl⟩ := Option.map_eq_some_iff.mp found
  exact ⟨old, oldFound, addsName_declare name i old⟩

theorem exists_region_declare {i : Nat} {old : Region} (found : binder.regions[i]? = some old) :
    ∃ region, (binder.declare name declared span statement expression).regions[i]? = some region ∧
      binder.AddsName name i old region := by
  rw [region_declare, found, Option.map_some]
  exact ⟨_, rfl, addsName_declare name i old⟩

private theorem child_declare (consistent : binder.IsConsistent) {i : Nat} {region : Region}
    {child : RegionId}
    (found : (binder.declare name declared span statement expression).regions[i]? = some region) :
    child ∈ region.children ↔ ∃ inner,
      (binder.declare name declared span statement expression).regions[child.index]? =
        some inner ∧ inner.parent = some ⟨i⟩ := by
  obtain ⟨old, oldFound, keeps⟩ := region_of_declare found
  rw [keeps.children, consistent.agree.child oldFound]
  constructor
  · rintro ⟨inner, innerFound, isParent⟩
    obtain ⟨region, regionFound, keepsInner⟩ := exists_region_declare innerFound
    exact ⟨region, regionFound, keepsInner.parent.trans isParent⟩
  · rintro ⟨inner, innerFound, isParent⟩
    obtain ⟨oldInner, oldInnerFound, keepsInner⟩ := region_of_declare innerFound
    exact ⟨oldInner, oldInnerFound, keepsInner.parent.symm.trans isParent⟩

private theorem table_declare (consistent : binder.IsConsistent) {i : Nat} {region : Region}
    (other : String)
    (found : (binder.declare name declared span statement expression).regions[i]? = some region) :
    region.lookup other =
      ((binder.declare name declared span statement expression).declarations.toList.find?
        fun declaration =>
          declaration.name == other && declaration.region == some ⟨i⟩).map (·.id) := by
  obtain ⟨old, oldFound, keeps⟩ := region_of_declare found
  rw [keeps.lookup, consistent.agree.table other oldFound]
  simp only [Binder.declare, Array.toList_push, List.find?_append, List.find?_singleton]
  cases binder.declarations.toList.find? _ with
  | some first => rfl
  | none =>
      simp only [Option.map_none, Option.none_or]
      split <;> rfl

theorem IsConsistent.declare (consistent : binder.IsConsistent) (name : String)
    (declared : DeclarationKind) (span : Span) (statement : StatementRef)
    (expression : ExpressionRef) :
    (binder.declare name declared span statement expression).IsConsistent where
  agree := by
    refine ⟨fun {i region} found => ?_, fun {i region parent} found isParent => ?_,
      child_declare consistent, table_declare consistent, fun {i declaration} found => ?_,
      fun {declaration id} member isRegion => ?_⟩
    · obtain ⟨old, oldFound, keeps⟩ := region_of_declare found
      rw [keeps.id, consistent.agree.number oldFound]
    · obtain ⟨old, oldFound, keeps⟩ := region_of_declare found
      obtain ⟨less, outer, outerFound, depth⟩ :=
        consistent.agree.parent oldFound (keeps.parent.symm.trans isParent)
      obtain ⟨region, regionFound, keepsOuter⟩ := exists_region_declare outerFound
      exact ⟨less, region, regionFound, by rw [keeps.depth, keepsOuter.depth, depth]⟩
    · simp only [Binder.declare, Array.getElem?_push] at found
      split at found
      next isNew =>
        obtain rfl := Option.some.inj found
        exact congrArg DeclarationId.mk isNew.symm
      next => exact consistent.agree.declaration found
    · rw [size_declare]
      rcases Array.mem_push.mp member with member | rfl
      · exact consistent.agree.region member isRegion
      · exact consistent.current id isRegion
  current id isCurrent := by
    rw [size_declare]
    exact consistent.current id isCurrent
  enclosing outer member id isRegion := by
    rw [size_declare]
    exact consistent.enclosing outer member id isRegion

private theorem preserved_isConsistent (tree : StatementTree) :
    Bind.Preserved tree IsConsistent where
  enter _ _ _ _ consistent := consistent.enter
  leave consistent := consistent.leave
  declare name kind span statement expression consistent :=
    consistent.declare name kind span statement expression
  recordStatement statement _ consistent := by
    cases statement <;> exact ⟨consistent.agree, consistent.current, consistent.enclosing⟩
  recordExpression expression consistent := by
    cases expression <;> exact ⟨consistent.agree, consistent.current, consistent.enclosing⟩
  bleed _ consistent := ⟨consistent.agree, consistent.current, consistent.enclosing⟩

theorem sized_reset (binder : Binder) (statements expressions : Nat) :
    binder.reset.sized statements expressions = blank binder.settings statements expressions :=
  rfl

theorem isConsistent_blank (settings : ScopeSettings) (statements expressions : Nat) :
    (blank settings statements expressions).IsConsistent where
  agree := by constructor <;> simp [blank]
  current := by simp [blank]
  enclosing := by simp [blank]

end Binder

/-- A successful binding is that of a tree whose references agree, from a blank binder on. -/
theorem ScopeTree.of_bind {binder : Binder} {tree : StatementTree} {scopes : ScopeTree}
    (bound : (binder.bind tree).1 = .ok scopes) :
    ∃ after, Bind.bindProcedure tree
        (.blank binder.settings tree.statements.size tree.expressions.size) = .ok () after ∧
      scopes = after.scopeTree tree.name := by
  unfold Binder.bind at bound
  split at bound
  · cases bound
  · cases bound
  · dsimp only at bound
    rw [Binder.sized_reset] at bound
    split at bound
    next after succeeded => exact ⟨after, succeeded, (Except.ok.inj bound).symm⟩
    next => cases bound

theorem ScopeTree.of_ofStatementTree {settings : ScopeSettings} {tree : StatementTree}
    {scopes : ScopeTree} (bound : ofStatementTree settings tree = .ok scopes) :
    ∃ after, Bind.bindProcedure tree
        (.blank settings tree.statements.size tree.expressions.size) = .ok () after ∧
      scopes = after.scopeTree tree.name :=
  of_bind bound

/-- The regions and declarations of a scope tree agree with each other. -/
theorem ScopeTree.consistent_of_ofStatementTree {settings : ScopeSettings} {tree : StatementTree}
    {scopes : ScopeTree} (bound : ofStatementTree settings tree = .ok scopes) :
    Consistent scopes.regions scopes.declarations := by
  obtain ⟨after, succeeded, rfl⟩ := of_ofStatementTree bound
  exact ((Binder.preserved_isConsistent tree).of_bindProcedure succeeded
    (Binder.isConsistent_blank ..)).agree

/-! ## Regions and their parents -/

namespace ScopeTree

variable {scopes : ScopeTree} {inner outer : RegionId}

theorem parent_eq {region : Region} (found : scopes.region? (some inner) = some region) :
    scopes.parent (some inner) = region.parent := by
  simp [parent, found]

/-- Every parent is opened before its children. -/
theorem ranked (agree : Consistent scopes.regions scopes.declarations) :
    Ranked (fun id => scopes.parent (some id)) RegionId.index := by
  intro lower upper above
  obtain ⟨region, found, isParent⟩ := Option.bind_eq_some_iff.mp above
  exact (agree.parent found isParent).1

theorem depth?_of_parent (agree : Consistent scopes.regions scopes.declarations)
    (above : scopes.parent (some inner) = some outer) :
    ∃ depth, scopes.depth? (some outer) = some depth ∧
      scopes.depth? (some inner) = some (depth + 1) := by
  obtain ⟨region, found, isParent⟩ := Option.bind_eq_some_iff.mp above
  obtain ⟨_, parent, parentFound, depth⟩ := agree.parent found isParent
  have outerFound : scopes.region? (some outer) = some parent := parentFound
  exact ⟨parent.depth, by simp [depth?, outerFound], by simp [depth?, found, depth]⟩

end ScopeTree

end LexicalScope
