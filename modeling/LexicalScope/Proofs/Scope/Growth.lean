import LexicalScope.Proofs.Scope.Extent

/-!
# How a binder grows

A binder adds regions and declarations behind those that are there. Of a region that is open already
only the lists of its children and of its declarations grow, and every step ends in the region in
which it began.
-/

namespace LexicalScope

namespace Region

@[simp] theorem shape_addChild (region : Region) (id : RegionId) :
    (region.addChild id).shape = region.shape := rfl

@[simp] theorem shape_addDeclaration (region : Region) (name : String) (id : DeclarationId) :
    (region.addDeclaration name id).shape = region.shape := by
  unfold addDeclaration
  split <;> rfl

end Region

theorem RegionRecord.lookup_blank (size index : Nat) : (blank size).lookup index = none := by
  rw [lookup, blank, Array.getElem?_replicate]
  split <;> rfl

namespace Binder

/-- What of the region under an index never changes. -/
def shape? (binder : Binder) (index : Nat) : Option Region :=
  (binder.regions[index]?).map Region.shape

theorem lt_size_of_shape? {binder : Binder} {index : Nat} {shape : Region}
    (known : binder.shape? index = some shape) : index < binder.regions.size := by
  obtain ⟨_, found, _⟩ := Option.map_eq_some_iff.mp known
  exact (Array.getElem?_eq_some_iff.mp found).1

/-- A later binder is in the same region as an earlier one and keeps all that it met. -/
structure Grows (before after : Binder) : Prop where
  settings : after.settings = before.settings
  current : after.current = before.current
  enclosing : after.enclosing = before.enclosing
  bleedDepth : after.bleedDepth = before.bleedDepth
  regions : before.regions.size ≤ after.regions.size
  shape : ∀ i, i < before.regions.size → after.shape? i = before.shape? i
  declarations : before.declarations.size ≤ after.declarations.size
  declaration : ∀ i, i < before.declarations.size →
    after.declarations[i]? = before.declarations[i]?
  record : after.expressionRegions.size = before.expressionRegions.size

namespace Grows

theorem refl (binder : Binder) : Grows binder binder :=
  ⟨rfl, rfl, rfl, rfl, Nat.le_refl _, fun _ _ => rfl, Nat.le_refl _, fun _ _ => rfl, rfl⟩

/-- What is known of a region stays known. -/
theorem known {before after : Binder} (grows : Grows before after) {index : Nat} {shape : Region}
    (known : before.shape? index = some shape) : after.shape? index = some shape :=
  (grows.shape index (lt_size_of_shape? known)).trans known

theorem trans {first second third : Binder} (left : Grows first second)
    (right : Grows second third) : Grows first third where
  settings := right.settings.trans left.settings
  current := right.current.trans left.current
  enclosing := right.enclosing.trans left.enclosing
  bleedDepth := right.bleedDepth.trans left.bleedDepth
  regions := Nat.le_trans left.regions right.regions
  shape i bound := by
    rw [right.shape i (Nat.lt_of_lt_of_le bound left.regions), left.shape i bound]
  declarations := Nat.le_trans left.declarations right.declarations
  declaration i bound := by
    rw [right.declaration i (Nat.lt_of_lt_of_le bound left.declarations), left.declaration i bound]
  record := right.record.trans left.record

end Grows

/-! ## Single steps -/

variable {binder after : Binder} {kind : RegionKind} {boundary : StatementRef} {span : Span}
  {branch : Option BranchTag}

/-- The region that entering one adds. -/
def nextRegion (binder : Binder) (kind : RegionKind) (boundary : StatementRef) (span : Span)
    (branch : Option BranchTag) : Region :=
  .opened ⟨binder.regions.size⟩ kind boundary span binder.current
    (match binder.current.bind fun parent => binder.regions[parent.index]? with
      | some parent => parent.depth + 1
      | none => 0) branch

@[simp] theorem regions_leave : binder.leave.regions = binder.regions := by
  unfold leave
  split <;> rfl

@[simp] theorem declarations_leave : binder.leave.declarations = binder.declarations := by
  unfold leave
  split <;> rfl

@[simp] theorem expressionRegions_leave :
    binder.leave.expressionRegions = binder.expressionRegions := by
  unfold leave
  split <;> rfl

theorem regions_enter_of_none (outermost : binder.current = none) :
    (binder.enter kind boundary span branch).regions =
      binder.regions.push (binder.nextRegion kind boundary span branch) := by
  cases binder
  cases outermost
  rfl

theorem regions_enter_of_some {around : RegionId} (isCurrent : binder.current = some around) :
    (binder.enter kind boundary span branch).regions =
      (binder.regions.push (binder.nextRegion kind boundary span branch)).modify around.index
        (·.addChild ⟨binder.regions.size⟩) := by
  cases binder
  cases isCurrent
  rfl

@[simp] theorem size_enter :
    (binder.enter kind boundary span branch).regions.size = binder.regions.size + 1 := by
  unfold enter
  cases binder.current <;> simp

/-- Entering a region adds it and changes no other one. -/
theorem shape?_enter (index : Nat) :
    (binder.enter kind boundary span branch).shape? index =
      if index = binder.regions.size then some (binder.nextRegion kind boundary span branch)
      else binder.shape? index := by
  unfold enter shape? nextRegion
  cases current : binder.current with
  | none =>
      simp only [Array.getElem?_push, Option.bind_none]
      split <;> rfl
  | some parent =>
      simp only [Array.getElem?_modify, Array.getElem?_push, Option.bind_some]
      split
      · split
        · rfl
        · simp [Function.comp_def]
      · split <;> rfl

theorem shape?_declare (name : String) (declared : DeclarationKind) (span : Span)
    (statement : StatementRef) (expression : ExpressionRef) (index : Nat) :
    (binder.declare name declared span statement expression).shape? index =
      binder.shape? index := by
  unfold declare shape?
  cases binder.current with
  | none => rfl
  | some region =>
      simp only [Array.getElem?_modify]
      split
      · simp [Function.comp_def]
      · rfl

theorem size_declare (name : String) (declared : DeclarationKind) (span : Span)
    (statement : StatementRef) (expression : ExpressionRef) :
    (binder.declare name declared span statement expression).regions.size =
      binder.regions.size := by
  unfold declare
  cases binder.current <;> simp

theorem size_recordBelow (tree : StatementTree) (region : RegionRef) (steps : Nat) :
    ∀ (record : RegionRecord) (expression : ExpressionId),
      (recordBelow tree region steps record expression).size = record.size := by
  induction steps with
  | zero => exact fun _ _ => rfl
  | succ steps induction =>
      intro record expression
      have all : ∀ (parts : List ExpressionId) (record : RegionRecord),
          (parts.foldl (recordBelow tree region steps) record).size = record.size := by
        intro parts
        induction parts with
        | nil => exact fun _ => rfl
        | cons first rest others =>
            intro record
            rw [List.foldl_cons, others, induction]
      rw [recordBelow, all, RegionRecord.put, Array.size_setIfInBounds]

theorem grows_declare (name : String) (declared : DeclarationKind) (span : Span)
    (statement : StatementRef) (expression : ExpressionRef) :
    binder.Grows (binder.declare name declared span statement expression) where
  settings := rfl
  current := rfl
  enclosing := rfl
  bleedDepth := rfl
  regions := Nat.le_of_eq (size_declare ..).symm
  shape i _ := shape?_declare ..
  declarations := by simp [declare]
  declaration i bound := by simp [declare, Array.getElem?_push, Nat.ne_of_lt bound]
  record := rfl

theorem grows_recordExpression (tree : StatementTree) (expression : ExpressionRef) :
    binder.Grows (binder.recordExpression tree expression) := by
  cases expression with
  | none =>
      exact ⟨rfl, rfl, rfl, rfl, Nat.le_refl _, fun _ _ => rfl, Nat.le_refl _, fun _ _ => rfl, rfl⟩
  | some id =>
      exact ⟨rfl, rfl, rfl, rfl, Nat.le_refl _, fun _ _ => rfl, Nat.le_refl _, fun _ _ => rfl,
        size_recordBelow ..⟩

/-- What happens inside a new region makes the binder around it grow. -/
theorem grows_region (inside : (binder.enter kind boundary span branch).Grows after) :
    binder.Grows after.leave := by
  have left : after.leave = { after with
      current := binder.current
      bleedDepth := binder.bleedDepth
      enclosing := binder.enclosing } := by
    unfold leave
    rw [inside.enclosing]
    rfl
  rw [left]
  have sizes := inside.regions
  rw [size_enter] at sizes
  refine ⟨inside.settings, rfl, rfl, rfl, Nat.le_of_succ_le sizes, fun i bound => ?_,
    inside.declarations, inside.declaration, inside.record⟩
  have same := inside.shape i (by rw [size_enter]; omega)
  rw [shape?_enter, if_neg (Nat.ne_of_lt bound)] at same
  exact same

end Binder

/-- A scope tree has the regions and declarations of a binder. -/
structure ScopeTree.Shows (scopes : ScopeTree) (binder : Binder) : Prop where
  shape : ∀ i, i < binder.regions.size →
    (scopes.regions[i]?).map Region.shape = binder.shape? i
  declaration : ∀ i, i < binder.declarations.size →
    scopes.declarations[i]? = binder.declarations[i]?

namespace ScopeTree.Shows

variable {scopes : ScopeTree} {before after : Binder}

/-- What a scope tree shows of a later binder it shows of the earlier one. -/
theorem earlier (shows : scopes.Shows after) (grows : before.Grows after) :
    scopes.Shows before where
  shape i bound := by
    rw [shows.shape i (Nat.lt_of_lt_of_le bound grows.regions), grows.shape i bound]
  declaration i bound := by
    rw [shows.declaration i (Nat.lt_of_lt_of_le bound grows.declarations),
      grows.declaration i bound]

theorem of_leave (shows : scopes.Shows after.leave) : scopes.Shows after where
  shape i bound := by
    have same := shows.shape i (by rw [Binder.regions_leave]; exact bound)
    rwa [Binder.shape?, Binder.regions_leave] at same
  declaration i bound := by
    have same := shows.declaration i (by rw [Binder.declarations_leave]; exact bound)
    rwa [Binder.declarations_leave] at same

/-- The region under an index, up to what changes while it is open. -/
theorem region (shows : scopes.Shows after) {index : Nat} {shape : Region}
    (known : after.shape? index = some shape) :
    ∃ region, scopes.regions[index]? = some region ∧ region.shape = shape := by
  have same := shows.shape index (Binder.lt_size_of_shape? known)
  rw [known] at same
  exact Option.map_eq_some_iff.mp same

end ScopeTree.Shows

end LexicalScope
