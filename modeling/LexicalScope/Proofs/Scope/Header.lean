import LexicalScope.Proofs.Scope.Covering

/-!
# Binding the header of a statement

The expressions of a header, their parts, and the names that a header binds all land in the region
that is open when the header is bound.
-/

namespace LexicalScope

/-! ## Names introduced by expressions -/

namespace PatternNode

theorem constantsOfAll_eq (patterns : List PatternNode) :
    constantsOfAll patterns = patterns.flatMap constants := by
  induction patterns with
  | nil => rfl
  | cons first rest induction => rw [constantsOfAll, induction, List.flatMap_cons]

private theorem bindingsOfAll_eq (patterns : List PatternNode) :
    bindingsOfAll patterns = patterns.flatMap bindings := by
  induction patterns with
  | nil => rfl
  | cons first rest induction => rw [bindingsOfAll, induction, List.flatMap_cons]

end PatternNode

theorem Binding.of_mem_introduction {binding : Binding} {kind : DeclarationKind}
    {expression : ExpressionRef} {statement : StatementRef} {introduction : Introduction}
    (member : introduction ∈ binding.introduction kind expression statement) :
    introduction.statement = statement ∧ introduction.expression = expression ∧
      introduction.span = binding.span := by
  unfold Binding.introduction at member
  split at member
  · cases member
  · obtain rfl := List.mem_singleton.mp member
    exact ⟨rfl, rfl, rfl⟩

/-- A name introduced inside an expression or pattern is one that a statement binds. -/
def Introduction.BoundBy (introduction : Introduction) (tree : StatementTree)
    (statement : StatementId) : Prop :=
  introduction.statement = some statement ∧
    tree.Binds statement introduction.expression introduction.span

namespace StatementTree

/-- The names introduced in the content of an expression, following fewer than `steps` parts within
parts. -/
def introducedIn (tree : StatementTree) (statement : StatementRef) (steps : Nat)
    (expression : ExpressionRef) : ExpressionContent → List Introduction
  | .test operand pattern =>
    tree.introducedBelow statement steps operand ++
      tree.introducedByPattern statement steps expression pattern
  | .outVariable _ binding => binding.introduction .outputArgument expression statement
  | content =>
    content.children.flatMap fun child => tree.introducedBelow statement steps (some child)

theorem introducedBelow_succ {tree : StatementTree} {statement : StatementRef} {steps : Nat}
    {expression : ExpressionRef} {node : ExpressionNode}
    (found : tree.expression? expression = some node) :
    tree.introducedBelow statement (steps + 1) expression =
      tree.introducedIn statement steps expression node.content := by
  unfold introducedBelow
  rw [found, Option.map_some]
  cases node.content <;> rfl

/-- A name that a pattern introduces is bound by the pattern itself or in a constant of it. -/
def PatternBinds (tree : StatementTree) (statement : StatementId) (owner : ExpressionRef)
    (pattern : PatternNode) (introduction : Introduction) : Prop :=
  (introduction.statement = some statement ∧ introduction.expression = owner ∧
    ∃ binding ∈ pattern.bindings, introduction.span = binding.span) ∨
  introduction.BoundBy tree statement

/-- The names collected in a number of steps are bound by the statement that owns the expressions
gone through. -/
structure CollectsBound (tree : StatementTree) (statement : StatementId) (steps : Nat) : Prop where
  below : ∀ {whole : ExpressionRef} {introduction : Introduction},
    (∀ id, whole = some id → tree.owner id = some statement) →
      introduction ∈ tree.introducedBelow (some statement) steps whole →
        introduction.BoundBy tree statement
  pattern : ∀ {owner : ExpressionRef} {pattern : PatternNode} {introduction : Introduction},
    (∀ id, some id ∈ pattern.constants → tree.owner id = some statement) →
      introduction ∈ tree.introducedByPattern (some statement) steps owner pattern →
        tree.PatternBinds statement owner pattern introduction

variable {tree : StatementTree} {statement : StatementId} {steps : Nat}
  {introduction : Introduction}

private theorem CollectsBound.inContent (collects : tree.CollectsBound statement steps)
    (proper : tree.Proper) {whole : ExpressionId} {node : ExpressionNode}
    (found : tree.expression? (some whole) = some node) (isOwner : node.statement = some statement)
    (member : introduction ∈
      tree.introducedIn (some statement) steps (some whole) node.content) :
    introduction.BoundBy tree statement := by
  have parts : ∀ id ∈ node.content.children, tree.owner id = some statement := by
    intro id isChild
    obtain ⟨_, inner, partFound, partOwner⟩ := proper.part found isChild
    rw [owner_eq partFound, partOwner, isOwner]
  have own : ∀ {binding : Binding}, binding ∈ node.content.bindings →
      introduction.expression = some whole → introduction.span = binding.span →
        tree.Binds statement introduction.expression introduction.span :=
    fun isBound same span => .inr ⟨whole, node, _, same, found, isOwner, isBound, span⟩
  unfold introducedIn at member
  split at member
  next operand pattern content =>
    rw [content] at parts own
    rcases List.mem_append.mp member with member | member
    · refine collects.below (fun id same => parts id ?_) member
      simp [ExpressionContent.children, ExpressionContent.slots, same]
    · have inPattern := collects.pattern (fun id isConstant => parts id (by
        simp [ExpressionContent.children, ExpressionContent.slots, isConstant])) member
      rcases inPattern with ⟨isStatement, same, binding, isBound, span⟩ | bound
      · exact ⟨isStatement, own isBound same span⟩
      · exact bound
  next type binding content =>
    obtain ⟨isStatement, same, span⟩ := Binding.of_mem_introduction member
    rw [content] at own
    exact ⟨isStatement, own (List.mem_singleton_self _) same span⟩
  next =>
    obtain ⟨part, isChild, member⟩ := List.mem_flatMap.mp member
    exact collects.below (fun id same => Option.some.inj same ▸ parts part isChild) member

private theorem CollectsBound.inPattern (collects : tree.CollectsBound statement steps)
    {owner : ExpressionRef} {pattern : PatternNode}
    (owned : ∀ id, some id ∈ pattern.constants → tree.owner id = some statement)
    (member : introduction ∈
      tree.introducedByPattern (some statement) (steps + 1) owner pattern) :
    tree.PatternBinds statement owner pattern introduction := by
  have own : ∀ {binding : Binding} {kind : DeclarationKind}, binding ∈ pattern.bindings →
      introduction ∈ binding.introduction kind owner (some statement) →
        tree.PatternBinds statement owner pattern introduction := by
    intro binding kind isBound introduced
    obtain ⟨isStatement, same, span⟩ := Binding.of_mem_introduction introduced
    exact .inl ⟨isStatement, same, binding, isBound, span⟩
  cases pattern with
  | type type => simp [introducedByPattern] at member
  | discard => simp [introducedByPattern] at member
  | declaration type binding =>
      simp only [introducedByPattern] at member
      exact own (List.mem_singleton_self _) member
  | anyValue binding =>
      simp only [introducedByPattern] at member
      exact own (List.mem_singleton_self _) member
  | constant value =>
      simp only [introducedByPattern] at member
      refine .inr (collects.below (fun id same => owned id ?_) member)
      exact same ▸ List.mem_singleton_self _
  | negated inner =>
      simp only [introducedByPattern] at member
      have inside : tree.PatternBinds statement owner inner introduction :=
        collects.pattern owned member
      exact inside
  | recursive type subpatterns binding =>
      simp only [introducedByPattern] at member
      rcases List.mem_append.mp member with member | member
      · obtain ⟨inner, isInner, member⟩ := List.mem_flatMap.mp member
        have inside := collects.pattern (fun id isConstant => owned id (by
          rw [PatternNode.constants, PatternNode.constantsOfAll_eq]
          exact List.mem_flatMap.mpr ⟨inner, isInner, isConstant⟩)) member
        rcases inside with ⟨isStatement, same, bound, isBound, span⟩ | bound
        · refine .inl ⟨isStatement, same, bound, ?_, span⟩
          rw [PatternNode.bindings, PatternNode.bindingsOfAll_eq]
          exact List.mem_append_left _ (List.mem_flatMap.mpr ⟨inner, isInner, isBound⟩)
        · exact .inr bound
      · cases binding with
        | none => cases member
        | some binding => exact own (List.mem_append_right _ List.mem_cons_self) member

theorem collectsBound (proper : tree.Proper) (steps : Nat) :
    tree.CollectsBound statement steps := by
  induction steps with
  | zero =>
      constructor
      · intro whole introduction _ member
        simp [introducedBelow] at member
      · intro owner pattern introduction _ member
        simp [introducedByPattern] at member
  | succ steps induction =>
      refine ⟨fun {whole introduction} owned member => ?_, induction.inPattern⟩
      cases whole with
      | none => cases member
      | some whole =>
          obtain ⟨node, found, isOwner⟩ := Option.bind_eq_some_iff.mp (owned whole rfl)
          rw [introducedBelow_succ found] at member
          exact induction.inContent proper found isOwner member

/-- The names that an expression introduces are bound by the statement that owns it. -/
theorem introduced_binds (proper : tree.Proper) {whole : ExpressionId}
    (owned : tree.owner whole = some statement)
    (member : introduction ∈ tree.introduced (some whole)) :
    introduction.BoundBy tree statement := by
  obtain ⟨node, found, isOwner⟩ := Option.bind_eq_some_iff.mp owned
  simp only [introduced, found, isOwner] at member
  exact (collectsBound proper _).below (fun id same => Option.some.inj same ▸ owned) member

private theorem introducedByLabel_binds (proper : tree.Proper) {pattern : PatternNode}
    (owned : ∀ id, some id ∈ pattern.constants → tree.owner id = some statement)
    (binds : ∀ binding ∈ pattern.bindings, tree.Binds statement none binding.span)
    (member : introduction ∈ tree.introducedByLabel (some statement) pattern) :
    introduction.BoundBy tree statement := by
  rcases (collectsBound proper _).pattern owned member with
    ⟨isStatement, same, binding, isBound, span⟩ | bound
  · exact ⟨isStatement, by rw [same, span]; exact binds binding isBound⟩
  · exact bound

end StatementTree

namespace Binder

/-- A step records the parts of some expressions in the region that is open, and declares names of a
statement there. -/
structure Fills (before after : Binder) (tree : StatementTree) (statement : StatementId)
    (refs : List ExpressionRef) : Prop where
  grows : before.Grows after
  still : after.regions.size = before.regions.size
  unchanged : ∀ part : ExpressionId,
    after.expressionRegions.lookup part.index = before.expressionRegions.lookup part.index ∨
    after.expressionRegions.lookup part.index = before.current ∧ tree.owner part = some statement
  recorded : ∀ whole part, some whole ∈ refs → tree.IsPart whole part →
    after.expressionRegions.lookup part.index = before.current
  declaration : ∀ i, before.declarations.size ≤ i → i < after.declarations.size →
    ∃ declaration, after.declarations[i]? = some declaration ∧
      declaration.region = before.current ∧ declaration.StandsFor tree statement

namespace Fills

variable {before middle after : Binder} {tree : StatementTree} {statement : StatementId}
  {refs others : List ExpressionRef}

theorem refl (binder : Binder) : binder.Fills binder tree statement [] where
  grows := .refl binder
  still := rfl
  unchanged _ := .inl rfl
  recorded := by simp
  declaration _ lower upper := absurd upper (Nat.not_lt.mpr lower)

theorem append (first : before.Fills middle tree statement refs)
    (second : middle.Fills after tree statement others) :
    before.Fills after tree statement (refs ++ others) where
  grows := first.grows.trans second.grows
  still := second.still.trans first.still
  unchanged part := by
    rcases second.unchanged part with same | changed
    · rw [same]
      exact first.unchanged part
    · rw [first.grows.current] at changed
      exact .inr changed
  recorded whole part member isPart := by
    rcases List.mem_append.mp member with member | member
    · rcases second.unchanged part with same | changed
      · rw [same]
        exact first.recorded whole part member isPart
      · rw [changed.1, first.grows.current]
    · rw [second.recorded whole part member isPart, first.grows.current]
  declaration i lower upper := by
    by_cases less : i < middle.declarations.size
    · obtain ⟨declaration, found, known⟩ := first.declaration i lower less
      exact ⟨declaration, (second.grows.declaration i less).trans found, known⟩
    · obtain ⟨declaration, found, isRegion, stands⟩ :=
        second.declaration i (Nat.not_lt.mp less) upper
      exact ⟨declaration, found, isRegion.trans first.grows.current, stands⟩

theorem declare {name : String} {kind : DeclarationKind} {span : Span}
    {expression : ExpressionRef} (binds : tree.Binds statement expression span) :
    before.Fills (before.declare name kind span (some statement) expression) tree statement [] where
  grows := grows_declare ..
  still := size_declare ..
  unchanged _ := .inl rfl
  recorded := by simp
  declaration i lower upper := by
    have same : i = before.declarations.size := by
      simp only [Binder.declare, Array.size_push] at upper
      omega
    subst same
    exact ⟨_, Array.getElem?_push_size, rfl, rfl, binds⟩

theorem declareAll {introductions : List Introduction}
    (binds : ∀ introduction ∈ introductions, introduction.BoundBy tree statement) :
    before.Fills (introductions.foldl declareIntroduction before) tree statement [] := by
  induction introductions generalizing before with
  | nil => exact .refl before
  | cons first rest induction =>
      obtain ⟨owned, bound⟩ := binds first List.mem_cons_self
      have one : before.Fills (before.declareIntroduction first) tree statement [] := by
        rw [declareIntroduction, owned]
        exact .declare bound
      exact one.append (induction fun introduction member =>
        binds introduction (List.mem_cons_of_mem _ member))

end Fills

/-! ## Records of expressions -/

section Record

variable {tree : StatementTree} {region : RegionRef}

theorem lookup_put (record : RegionRecord) (index other : Nat) :
    (record.put index region).lookup other =
      if index = other ∧ index < record.size then region else record.lookup other := by
  unfold RegionRecord.put RegionRecord.lookup
  rw [Array.getElem?_setIfInBounds]
  by_cases same : index = other
  · subst same
    by_cases bound : index < record.size
    · simp [bound]
    · simp [bound]
  · simp [same]

/-- Recording below an expression changes nothing else, and records every part if there are steps
enough. -/
theorem lookup_recordBelow (proper : tree.Proper) (steps : Nat) :
    ∀ (record : RegionRecord) (whole part : ExpressionId),
      ((recordBelow tree region steps record whole).lookup part.index = record.lookup part.index ∨
        (recordBelow tree region steps record whole).lookup part.index = region ∧
          tree.IsPart whole part) ∧
      (tree.IsPart whole part → record.size = tree.expressions.size →
        whole.index < tree.expressions.size → tree.expressions.size ≤ whole.index + steps →
          (recordBelow tree region steps record whole).lookup part.index = region) := by
  induction steps with
  | zero =>
      intro record whole part
      exact ⟨.inl rfl, fun _ _ bound enough => absurd enough (Nat.not_le.mpr bound)⟩
  | succ steps induction =>
      intro record whole part
      -- The parts of a list are recorded one after the other.
      have all : ∀ (parts : List ExpressionId) (record : RegionRecord),
          ((parts.foldl (recordBelow tree region steps) record).lookup part.index =
              record.lookup part.index ∨
            (parts.foldl (recordBelow tree region steps) record).lookup part.index = region ∧
              ∃ first ∈ parts, tree.IsPart first part) ∧
          ((∃ first ∈ parts, tree.IsPart first part) → record.size = tree.expressions.size →
            (∀ first ∈ parts, first.index < tree.expressions.size ∧
              tree.expressions.size ≤ first.index + steps) →
            (parts.foldl (recordBelow tree region steps) record).lookup part.index = region) := by
        intro parts
        induction parts with
        | nil => exact fun record => ⟨.inl rfl, by simp⟩
        | cons first rest others =>
            intro record
            obtain ⟨changed, complete⟩ := induction record first part
            obtain ⟨changedRest, completeRest⟩ :=
              others (recordBelow tree region steps record first)
            rw [List.foldl_cons]
            refine ⟨?_, fun ⟨found, member, isPart⟩ size bounds => ?_⟩
            · rcases changedRest with same | ⟨recorded, found, member, isPart⟩
              · rw [same]
                exact changed.imp_right fun ⟨recorded, isPart⟩ =>
                  ⟨recorded, first, List.mem_cons_self, isPart⟩
              · exact .inr ⟨recorded, found, List.mem_cons_of_mem _ member, isPart⟩
            · rcases List.mem_cons.mp member with rfl | member
              · rcases changedRest with same | ⟨recorded, _⟩
                · obtain ⟨bound, enough⟩ := bounds found List.mem_cons_self
                  rw [same]
                  exact complete isPart size bound enough
                · exact recorded
              · exact completeRest ⟨found, member, isPart⟩ (by rw [size_recordBelow, size])
                  fun other isOther => bounds other (List.mem_cons_of_mem _ isOther)
      obtain ⟨changed, complete⟩ := all (tree.expressionChildren (some whole))
        (record.put whole.index region)
      rw [recordBelow]
      refine ⟨?_, fun isPart size bound enough => ?_⟩
      · rcases changed with same | ⟨recorded, first, member, isPart⟩
        · rw [same, lookup_put]
          split
          next isWhole =>
            obtain rfl : whole = part := congrArg ExpressionId.mk isWhole.1
            exact .inr ⟨rfl, .refl⟩
          next => exact .inl rfl
        · exact .inr ⟨recorded, .head member isPart⟩
      · rcases Relation.ReflTransGen.cases_head isPart with rfl | ⟨first, member, isPart⟩
        · rcases changed with same | ⟨recorded, _⟩
          · rw [same, lookup_put, if_pos ⟨rfl, size ▸ bound⟩]
          · exact recorded
        · have putSize : (record.put whole.index region).size = tree.expressions.size := by
            rw [RegionRecord.put, Array.size_setIfInBounds, size]
          refine complete ⟨first, member, isPart⟩ putSize fun part isChild => ?_
          cases found : tree.expression? (some whole) with
          | none => simp [StatementTree.expressionChildren, found] at isChild
          | some node =>
              simp only [StatementTree.expressionChildren, found, Option.map_some,
                Option.getD_some] at isChild
              obtain ⟨behind, inner, partFound, _⟩ := proper.part found isChild
              exact ⟨(Array.getElem?_eq_some_iff.mp partFound).1, by omega⟩

end Record

/-! ## Parts of a header -/

section Parts

variable {tree : StatementTree} {binder : Binder} {statement : StatementId} {ref : ExpressionRef}
  {refs : List ExpressionRef}

theorem fills_recordExpression (proper : tree.Proper)
    (size : binder.expressionRegions.size = tree.expressions.size)
    (owned : ∀ whole, ref = some whole → tree.owner whole = some statement) :
    binder.Fills (binder.recordExpression tree ref) tree statement [ref] where
  grows := grows_recordExpression ..
  still := by cases ref <;> rfl
  unchanged part := by
    cases ref with
    | none => exact .inl rfl
    | some whole =>
        rcases (lookup_recordBelow proper tree.expressionSteps binder.expressionRegions whole
          part).1 with same | ⟨recorded, isPart⟩
        · exact .inl same
        · exact .inr ⟨recorded, (proper.owner_of_part isPart).trans (owned whole rfl)⟩
  recorded whole part member isPart := by
    obtain rfl := List.mem_singleton.mp member
    have bound : whole.index < tree.expressions.size := by
      have isOwned := owned whole rfl
      obtain ⟨node, found, _⟩ := Option.bind_eq_some_iff.mp isOwned
      exact (Array.getElem?_eq_some_iff.mp found).1
    exact (lookup_recordBelow proper tree.expressionSteps binder.expressionRegions whole part).2
      isPart size bound (Nat.le_trans (Nat.le_succ _) (Nat.le_add_left _ _))
  declaration i lower upper := by
    cases ref <;> exact absurd upper (Nat.not_lt.mpr lower)

theorem fills_bindExpression (proper : tree.Proper)
    (size : binder.expressionRegions.size = tree.expressions.size)
    (owned : ∀ whole, ref = some whole → tree.owner whole = some statement) :
    binder.Fills (binder.bindExpression tree ref) tree statement [ref] := by
  cases ref with
  | none =>
      exact { Fills.refl binder with
        recorded := fun whole part member => by simp at member }
  | some whole =>
      have recorded := fills_recordExpression proper size owned
      exact recorded.append (.declareAll fun introduction member =>
        StatementTree.introduced_binds proper (owned whole rfl) member)

theorem fills_bindExpressions (proper : tree.Proper)
    (size : binder.expressionRegions.size = tree.expressions.size)
    (owned : ∀ whole, some whole ∈ refs → tree.owner whole = some statement) :
    binder.Fills (binder.bindExpressions tree refs) tree statement refs := by
  induction refs generalizing binder with
  | nil => exact .refl binder
  | cons first rest induction =>
      have one : binder.Fills (binder.bindExpression tree first) tree statement [first] :=
        fills_bindExpression proper size fun whole same => owned whole (same ▸ List.mem_cons_self)
      exact one.append (induction (one.grows.record.trans size) fun whole member =>
        owned whole (List.mem_cons_of_mem _ member))

theorem fills_bindDeclarators (proper : tree.Proper) {declarators : List DeclaratorNode}
    (size : binder.expressionRegions.size = tree.expressions.size)
    (owned : ∀ whole, some whole ∈ declarators.map (·.initializer) →
      tree.owner whole = some statement)
    (binds : ∀ declarator ∈ declarators, tree.Binds statement none declarator.binding.span) :
    binder.Fills (binder.bindDeclarators tree (some statement) declarators) tree statement
      (declarators.map (·.initializer)) := by
  induction declarators generalizing binder with
  | nil => exact .refl binder
  | cons first rest induction =>
      have name : binder.Fills (binder.declare first.binding.name
          (.localVariable first.initializer.isSome) first.binding.span (some statement) none) tree
          statement [] := .declare (binds first List.mem_cons_self)
      have one : binder.Fills (bindDeclarator tree (some statement) binder first) tree statement
          [first.initializer] :=
        name.append (fills_bindExpression proper (name.grows.record.trans size)
          fun whole same => owned whole (same ▸ List.mem_cons_self))
      exact one.append (induction (one.grows.record.trans size)
        (fun whole member => owned whole (List.mem_cons_of_mem _ member))
        fun declarator member => binds declarator (List.mem_cons_of_mem _ member))

private theorem fills_recordAll (proper : tree.Proper)
    (size : binder.expressionRegions.size = tree.expressions.size)
    (owned : ∀ whole, some whole ∈ refs → tree.owner whole = some statement) :
    binder.Fills (refs.foldl (fun binder constant => binder.recordExpression tree constant) binder)
      tree statement refs := by
  induction refs generalizing binder with
  | nil => exact .refl binder
  | cons first rest induction =>
      have one : binder.Fills (binder.recordExpression tree first) tree statement [first] :=
        fills_recordExpression proper size fun whole same => owned whole (same ▸ List.mem_cons_self)
      exact one.append (induction (one.grows.record.trans size) fun whole member =>
        owned whole (List.mem_cons_of_mem _ member))

private theorem fills_bindLabel (proper : tree.Proper) {label : LabelNode}
    (size : binder.expressionRegions.size = tree.expressions.size)
    (owned : ∀ whole, some whole ∈ StatementContent.labelExpressions label →
      tree.owner whole = some statement)
    (binds : ∀ binding ∈ label.bindings, tree.Binds statement none binding.span) :
    binder.Fills (binder.bindLabel tree (some statement) label) tree statement
      (StatementContent.labelExpressions label) := by
  obtain ⟨pattern, guard, span⟩ := label
  cases pattern with
  | none =>
      exact fills_bindExpression proper size fun whole same =>
        owned whole (same ▸ List.mem_cons_self)
  | some pattern =>
      have names : binder.Fills _ tree statement [] :=
        .declareAll fun introduction member => StatementTree.introducedByLabel_binds proper
          (fun whole member => owned whole (List.mem_append_left _ member))
          (fun binding member => binds binding (by simpa [LabelNode.bindings] using member)) member
      have constants := names.append (fills_recordAll proper (names.grows.record.trans size)
        fun whole member => owned whole (List.mem_append_left _ member))
      exact constants.append (fills_bindExpression proper (constants.grows.record.trans size)
        fun whole same => owned whole (List.mem_append_right _ (same ▸ List.mem_cons_self)))

theorem fills_bindLabels (proper : tree.Proper) {labels : List LabelNode}
    (size : binder.expressionRegions.size = tree.expressions.size)
    (owned : ∀ whole, some whole ∈ labels.flatMap StatementContent.labelExpressions →
      tree.owner whole = some statement)
    (binds : ∀ binding ∈ labels.flatMap LabelNode.bindings,
      tree.Binds statement none binding.span) :
    binder.Fills (binder.bindLabels tree (some statement) labels) tree statement
      (labels.flatMap StatementContent.labelExpressions) := by
  induction labels generalizing binder with
  | nil => exact .refl binder
  | cons first rest induction =>
      simp only [List.flatMap_cons, List.mem_append] at owned binds
      have one : binder.Fills (binder.bindLabel tree (some statement) first) tree statement
          (StatementContent.labelExpressions first) :=
        fills_bindLabel proper size (fun whole member => owned whole (.inl member))
          fun binding member => binds binding (.inl member)
      exact one.append (induction (one.grows.record.trans size)
        (fun whole member => owned whole (.inr member))
        fun binding member => binds binding (.inr member))

theorem fills_forHeader (proper : tree.Proper) {declarators : List DeclaratorNode}
    {initializers incrementors : List ExpressionRef} {condition : ExpressionRef}
    (size : binder.expressionRegions.size = tree.expressions.size)
    (owned : ∀ whole, some whole ∈ declarators.map (·.initializer) ++ initializers ++ [condition] ++
      incrementors → tree.owner whole = some statement)
    (binds : ∀ declarator ∈ declarators, tree.Binds statement none declarator.binding.span) :
    binder.Fills ((((binder.bindDeclarators tree (some statement) declarators).bindExpressions tree
        initializers).bindExpression tree condition).bindExpressions tree incrementors)
      tree statement
      (declarators.map (·.initializer) ++ initializers ++ [condition] ++ incrementors) := by
  simp only [List.mem_append, List.mem_singleton, or_imp, forall_and] at owned
  obtain ⟨⟨⟨ofDeclarators, ofInitializers⟩, ofCondition⟩, ofIncrementors⟩ := owned
  have first := fills_bindDeclarators proper size ofDeclarators binds
  have second := first.append
    (fills_bindExpressions proper (first.grows.record.trans size) ofInitializers)
  have third := second.append (fills_bindExpression proper (second.grows.record.trans size)
    fun whole same => ofCondition whole same.symm)
  exact third.append (fills_bindExpressions proper (third.grows.record.trans size) ofIncrementors)

theorem fills_resourceHeader (proper : tree.Proper) {declarators : List DeclaratorNode}
    {held : ExpressionRef} (size : binder.expressionRegions.size = tree.expressions.size)
    (owned : ∀ whole, some whole ∈ declarators.map (·.initializer) ++ [held] →
      tree.owner whole = some statement)
    (binds : ∀ declarator ∈ declarators, tree.Binds statement none declarator.binding.span) :
    binder.Fills
      ((binder.bindDeclarators tree (some statement) declarators).bindExpression tree held)
      tree statement (declarators.map (·.initializer) ++ [held]) := by
  simp only [List.mem_append, List.mem_singleton, or_imp, forall_and] at owned
  obtain ⟨ofDeclarators, ofHeld⟩ := owned
  have first := fills_bindDeclarators proper size ofDeclarators binds
  exact first.append (fills_bindExpression proper (first.grows.record.trans size)
    fun whole same => ofHeld whole same.symm)

end Parts

end Binder

end LexicalScope
