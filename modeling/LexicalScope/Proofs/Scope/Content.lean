import LexicalScope.Proofs.Scope.Visit

/-!
# Every kind of statement is covered

What a statement consists of is bound in the order of its evaluation, inside the region that the
statement opens if it opens one.
-/

namespace LexicalScope

open Binder

variable {tree : StatementTree} {visit : Bind.Visit → Bind Unit} {before middle after : Binder}
  {statement : StatementId} {node : StatementNode} {branch : Option BranchTag} {level : Nat}

private theorem coversAll_headerBody (proper : tree.Proper) (visits : Visits tree visit)
    (found : tree.statement? (some statement) = some node)
    (isLevel : tree.IsLevel statement level) (seated : before.Seated tree (2 * level + 2))
    (catches : before.Catches tree statement)
    (fills : before.Fills middle tree statement node.content.expressionSlots)
    {body : StatementRef} {position : Position}
    (children : node.content.children.map (·.1) = [body])
    (bound : visit (.statement body position none) middle = .ok () after) :
    CoversAll tree [some statement] before after := by
  have listed : body ∈ node.content.children.map (·.1) := children ▸ List.mem_singleton_self body
  obtain ⟨id, inner, rfl, _⟩ := proper.exists_of_child found listed
  refine .headerFirst proper found fills seated catches ?_
  rw [children]
  exact visits.statement bound ((seated.grows fills.grows).untagged isLevel (Nat.le_succ _)
    (proper.parent_of_child found listed))

theorem coversAll_headerMembers (proper : tree.Proper) (visits : Visits tree visit)
    (found : tree.statement? (some statement) = some node)
    (isLevel : tree.IsLevel statement level) (seated : before.Seated tree (2 * level + 2))
    (catches : before.Catches tree statement)
    (fills : before.Fills middle tree statement node.content.expressionSlots)
    {members : List StatementRef} (children : node.content.children.map (·.1) = members)
    (bound : Bind.bindMembers visit members middle = .ok () after) :
    CoversAll tree [some statement] before after := by
  refine .headerFirst proper found fills seated catches ?_
  rw [children]
  exact coversAll_bindMembers proper visits found isLevel (fun _ member => children ▸ member)
    (children ▸ proper.distinct found) ((seated.grows fills.grows).mono (Nat.le_succ _)) bound

/-! ## Statements that open a region -/

private theorem coversAll_regionBody {kind : RegionKind} (proper : tree.Proper)
    (visits : Visits tree visit) (found : tree.statement? (some statement) = some node)
    (ready : before.Ready tree statement branch)
    (plain : kind ≠ .root ∧ kind ≠ .switch ∧ kind ≠ .branch)
    (own : node.kind.headerRegion? = none ∨ node.kind.headerRegion? = some kind)
    (fills : (before.enter kind (some statement) node.span branch).Fills middle tree statement
      node.content.expressionSlots)
    {body : StatementRef} {position : Position}
    (children : node.content.children.map (·.1) = [body])
    (bound : visit (.statement body position none) middle = .ok () after) :
    CoversAll tree [some statement] before after.leave := by
  obtain ⟨level, isLevel, seated⟩ := ready.seat
  have inside := coversAll_headerBody proper visits found isLevel seated.enter
    (catches_enter found own) fills children bound
  exact inside.inRegion proper found ready plain

private theorem coversAll_regionMembers {kind : RegionKind} (proper : tree.Proper)
    (visits : Visits tree visit) (found : tree.statement? (some statement) = some node)
    (ready : before.Ready tree statement branch)
    (plain : kind ≠ .root ∧ kind ≠ .switch ∧ kind ≠ .branch)
    (own : node.kind.headerRegion? = none ∨ node.kind.headerRegion? = some kind)
    (fills : (before.enter kind (some statement) node.span branch).Fills middle tree statement
      node.content.expressionSlots)
    {members : List StatementRef} (children : node.content.children.map (·.1) = members)
    (bound : Bind.bindMembers visit members middle = .ok () after) :
    CoversAll tree [some statement] before after.leave := by
  obtain ⟨level, isLevel, seated⟩ := ready.seat
  have inside := coversAll_headerMembers proper visits found isLevel seated.enter
    (catches_enter found own) fills children bound
  exact inside.inRegion proper found ready plain

private theorem coversAll_doLoop (proper : tree.Proper) (visits : Visits tree visit)
    (found : tree.statement? (some statement) = some node)
    (ready : before.Ready tree statement branch) {body : StatementRef} {condition : ExpressionRef}
    (content : node.content = .doLoop body condition)
    (bound : visit (.statement body (.nested .loopBody) none)
      (before.enter .loop (some statement) node.span branch) = .ok () middle) :
    CoversAll tree [some statement] before (bindExpression tree condition middle).leave := by
  obtain ⟨level, isLevel, seated⟩ := ready.seat
  have entered : (before.enter .loop (some statement) node.span branch).Seated tree
      (2 * level + 2) := seated.enter
  have catches : (before.enter .loop (some statement) node.span branch).Catches tree statement :=
    catches_enter found (.inr (by rw [StatementNode.kind, content]; rfl))
  have children : node.content.children.map (·.1) = [body] := by rw [content]; rfl
  have listed : body ∈ node.content.children.map (·.1) := children ▸ List.mem_singleton_self body
  obtain ⟨id, inner, rfl, _⟩ := proper.exists_of_child found listed
  have bodyCovers := visits.statement bound
    (entered.untagged isLevel (Nat.le_succ _) (proper.parent_of_child found listed))
  have bodySeated := entered.grows bodyCovers.grows
  have inside : CoversAll tree [some statement]
      (before.enter .loop (some statement) node.span branch)
      (bindExpression tree condition middle) := by
    refine .childrenFirst proper found (by rw [children]; exact bodyCovers) ?_ bodySeated
      (catches.grows bodyCovers.grows)
    exact .ofSlot proper found (by rw [content]; rfl) bodySeated.record
  exact inside.inRegion proper found ready (by decide)

private theorem surrounds_switchRegion (proper : tree.Proper)
    (found : tree.statement? (some statement) = some node) {span : Span} (inner : StatementId) :
    (before.nextRegion .switch (some statement) span branch).Surrounds tree inner ↔
      tree.IsAmong (node.content.children.map (·.1)) inner := by
  rw [← proper.below_iff found]
  simp [Region.Surrounds, nextRegion, Region.opened]

/-- The sections of a switch are covered inside a region of their own, the subject outside. -/
theorem coversAll_switch (proper : tree.Proper) (visits : Visits tree visit)
    (found : tree.statement? (some statement) = some node)
    (ready : before.Ready tree statement branch) {subject : ExpressionRef}
    {sections : List StatementRef} (content : node.content = .switch subject sections)
    (bound : Bind.bindSections tree visit (some statement) node.span 0 sections
      ((bindExpression tree subject before).enter .switch (some statement) node.span branch) =
        .ok () middle) : CoversAll tree [some statement] before middle.leave := by
  obtain ⟨level, isLevel, seated⟩ := ready.seat
  have children : node.content.children.map (·.1) = sections := by
    simp [content, StatementContent.children, Function.comp_def]
  have kinds : tree.kind? (some statement) = some .switch := by
    rw [StatementTree.kind?_eq found, StatementNode.kind, content]
    rfl
  have fills : before.Fills (bindExpression tree subject before) tree statement
      node.content.expressionSlots :=
    .ofSlot proper found (by rw [content]; rfl) seated.record
  have header := Covers.ofFills proper fills seated
    (catches_of_none found (by rw [StatementNode.kind, content]; rfl))
    fun _ => proper.owner_of_slot found
  have readyInside := ready.grows fills.grows
  have entered : ((bindExpression tree subject before).enter .switch (some statement) node.span
      branch).Seated tree (2 * level + 2) := (seated.grows fills.grows).enter
  have inSwitch : ((bindExpression tree subject before).enter .switch (some statement) node.span
      branch).InSwitch statement :=
    ⟨_, _, rfl, by rw [shape?_enter, if_pos rfl], rfl, rfl⟩
  have sectionsBound : Bind.bindSections tree visit (some statement) (tree.span (some statement)) 0
      sections ((bindExpression tree subject before).enter .switch (some statement) node.span
        branch) = .ok () middle := by
    rw [StatementTree.span_eq found]
    exact bound
  have sectionsCovered := coversAll_bindSections proper visits found isLevel content rfl
    (entered.mono (Nat.le_succ _)) inSwitch sectionsBound
  have surrounds : ∀ inner, ((bindExpression tree subject before).nextRegion .switch
      (some statement) node.span branch).Surrounds tree inner ↔ tree.IsAmong sections inner := by
    intro inner
    rw [← children]
    exact surrounds_switchRegion proper found inner
  have noLink : ¬ ((bindExpression tree subject before).nextRegion .switch (some statement)
      node.span branch).OpensLink tree statement := by
    rintro ⟨⟨⟩, _⟩
  have notAmong : ¬ tree.IsAmong sections statement := children ▸ proper.not_among_self found
  have region := Covers.region sectionsCovered (seated.grows fills.grows).valid
    (origin_nextRegion (by decide) (fun _ => kinds) found readyInside noLink fun inner surrounded =>
      (proper.within_iff found).mpr (.inr (children ▸ (surrounds inner).mp surrounded)))
    (depth_nextRegion proper found readyInside) (inSwitch_nextRegion readyInside) surrounds
    (fun _ => id) fun _ => ⟨statement, rfl, kinds, notAmong⟩
  refine .ofParts proper found (header.seq region (fun _ same => same ▸ notAmong)
      fun _ _ absurd => absurd)
    (fun _ owned => .inl (proper.slot_of_owner found owned))
    (fun _ owner owned below => .inr ⟨owner, owned, children ▸ below⟩) (fun inner => ?_)
    fun _ => ?_
  · rw [children]
    simp only [true_and, Option.some.injEq]
    constructor
    · rintro (same | among | same)
      · exact .inl same
      · exact .inr among
      · exact .inl same.symm
    · exact .imp id .inl
  · exact .imp False.elim .inl

/-! ## Statements that open no region -/

private theorem coversAll_header (proper : tree.Proper)
    (found : tree.statement? (some statement) = some node)
    (ready : before.Ready tree statement branch)
    (fills : before.Fills after tree statement node.content.expressionSlots)
    (noHeader : node.kind.headerRegion? = none) (childless : node.content.children = []) :
    CoversAll tree [some statement] before after := by
  obtain ⟨level, isLevel, seated⟩ := ready.seat
  exact .headerOnly proper found fills seated (catches_of_none found noHeader) childless

private theorem coversAll_labeled (proper : tree.Proper) (visits : Visits tree visit)
    (found : tree.statement? (some statement) = some node)
    (ready : before.Ready tree statement branch) {label : String} {body : StatementRef}
    {position : Position} (content : node.content = .labeled label body)
    (bound : visit (.statement body position branch) before = .ok () after) :
    CoversAll tree [some statement] before after := by
  obtain ⟨level, isLevel, seated⟩ := ready.seat
  have children : node.content.children.map (·.1) = [body] := by rw [content]; rfl
  have fills : before.Fills before tree statement node.content.expressionSlots := by
    rw [content]
    exact .refl before
  have listed : body ∈ node.content.children.map (·.1) := children ▸ List.mem_singleton_self body
  obtain ⟨id, inner, rfl, _⟩ := proper.exists_of_child found listed
  have isParent := proper.parent_of_child found listed
  refine .headerFirst proper found fills seated
    (catches_of_none found (by rw [StatementNode.kind, content]; rfl)) ?_
  rw [children]
  refine visits.statement bound (seated.ready isLevel (Nat.le_add_right _ 2) isParent
    fun tag isTag => ?_)
  obtain ⟨conditional, inBody, fits, within, inSwitch⟩ := ready.tag tag isTag
  exact ⟨conditional, inBody, fits, (Under.ofParent isParent).trans within, inSwitch⟩

/-! ## All kinds -/

private theorem coversAll_bindContent (proper : tree.Proper) (visits : Visits tree visit)
    (found : tree.statement? (some statement) = some node)
    (ready : before.Ready tree statement branch)
    (bound : Bind.bindContent tree visit (some statement) node.span branch node.content before =
      .ok () after) : CoversAll tree [some statement] before after := by
  have record : before.expressionRegions.size = tree.expressions.size := by
    obtain ⟨_, _, seated⟩ := ready.seat
    exact seated.record
  have owned : ∀ whole, some whole ∈ node.content.expressionSlots →
      tree.owner whole = some statement := fun whole => proper.owner_of_slot found
  have binds : ∀ binding ∈ node.content.bindings, tree.Binds statement none binding.span :=
    fun binding member =>
      .inl ⟨rfl, node.content, binding, StatementTree.content?_eq found, member, rfl⟩
  obtain ⟨content, span, parent⟩ := node
  have spanEq : tree.span (some statement) = span := StatementTree.span_eq found
  cases content with
  | block members =>
      simp only [Bind.bindContent, Bind.inRegion_eq_ok] at bound
      obtain ⟨inside, membersBound, rfl⟩ := bound
      exact coversAll_regionMembers proper visits found ready (by decide) (.inl rfl) (.refl _)
        (by simp [StatementContent.children, Function.comp_def]) membersBound
  | branch condition thenBody elseBody =>
      rw [Bind.bindContent, ← spanEq] at bound
      exact coversAll_bindConditional proper visits ready found rfl bound
  | whileLoop condition body =>
      simp only [Bind.bindContent, Bind.inRegion_eq_ok, Step.bind_eq_ok, Bind.apply_eq_ok] at bound
      obtain ⟨inside, ⟨_, _, rfl, bodyBound⟩, rfl⟩ := bound
      exact coversAll_regionBody proper visits found ready (by decide) (.inr rfl)
        (.ofSlot proper found rfl record) rfl bodyBound
  | doLoop body condition =>
      simp only [Bind.bindContent, Bind.inRegion_eq_ok, Step.bind_eq_ok, Bind.apply_eq_ok] at bound
      obtain ⟨inside, ⟨_, middle, bodyBound, rfl⟩, rfl⟩ := bound
      exact coversAll_doLoop proper visits found ready rfl bodyBound
  | forLoop declarators initializers condition incrementors body =>
      simp only [Bind.bindContent, Bind.inRegion_eq_ok, Step.bind_eq_ok, Bind.apply_eq_ok] at bound
      obtain ⟨inside, ⟨_, _, rfl, _, _, rfl, _, _, rfl, _, _, rfl, bodyBound⟩, rfl⟩ := bound
      exact coversAll_regionBody proper visits found ready (by decide) (.inr rfl)
        (fills_forHeader proper record owned fun _ member => binds _ (List.mem_map_of_mem member))
        rfl bodyBound
  | forEachLoop element collection body =>
      simp only [Bind.bindContent, Bind.inRegion_eq_ok, Step.bind_eq_ok, Bind.apply_eq_ok] at bound
      obtain ⟨inside, ⟨_, _, rfl, _, _, rfl, bodyBound⟩, rfl⟩ := bound
      exact coversAll_regionBody proper visits found ready (by decide) (.inr rfl)
        (.append (.declare (binds element (List.mem_singleton_self _)))
          (.ofSlot proper found rfl record)) rfl bodyBound
  | resource declarators held body =>
      simp only [Bind.bindContent, Bind.inRegion_eq_ok, Step.bind_eq_ok, Bind.apply_eq_ok] at bound
      obtain ⟨inside, ⟨_, _, rfl, _, _, rfl, bodyBound⟩, rfl⟩ := bound
      exact coversAll_regionBody proper visits found ready (by decide) (.inl rfl)
        (fills_resourceHeader proper record owned fun _ member =>
          binds _ (List.mem_map_of_mem member)) rfl bodyBound
  | switch subject sections =>
      simp only [Bind.bindContent, Bind.inRegion_eq_ok, Step.bind_eq_ok, Bind.apply_eq_ok] at bound
      obtain ⟨_, _, rfl, inside, sectionsBound, rfl⟩ := bound
      exact coversAll_switch proper visits found ready rfl sectionsBound
  | switchSection labels members =>
      simp only [Bind.bindContent, Bind.inRegion_eq_ok, Step.bind_eq_ok, Bind.apply_eq_ok] at bound
      obtain ⟨inside, ⟨_, _, rfl, membersBound⟩, rfl⟩ := bound
      exact coversAll_regionMembers proper visits found ready (by decide) (.inr rfl)
        (fills_bindLabels proper record owned binds)
        (by simp [StatementContent.children, Function.comp_def]) membersBound
  | localDeclaration declarators =>
      obtain rfl := Bind.apply_eq_ok.mp bound
      have fills := fills_bindDeclarators proper record owned
        fun declarator member => binds _ (List.mem_map_of_mem member)
      exact coversAll_header proper found ready fills rfl rfl
  | evaluation value | returning value | throwing value =>
      obtain rfl := Bind.apply_eq_ok.mp bound
      exact coversAll_header proper found ready (.ofSlot proper found rfl record) rfl rfl
  | labeled label body => exact coversAll_labeled proper visits found ready rfl bound
  | breaking | continuing | empty =>
      obtain ⟨_, rfl⟩ := Step.pure_eq_ok.mp bound
      exact coversAll_header proper found ready (.refl _) rfl rfl

/-- Every visit covers its statement, however many levels may still be nested. -/
theorem visits_visit (proper : tree.Proper) (levels : Nat) :
    Visits tree (Bind.visit tree levels) := by
  induction levels with
  | zero =>
      constructor
      · rintro statement position branch before after ⟨⟩
      · rintro head link number before after ⟨⟩
  | succ levels induction =>
      refine ⟨fun {statement position branch before after} bound ready => ?_,
        fun {head link number before after} bound isLink chained ready => ?_⟩
      · simp only [Bind.visit, Bind.bindStatement, Step.bind_eq_ok, Bind.find_eq_ok,
          Bind.apply_eq_ok, Bind.withBleed_eq_ok] at bound
        obtain ⟨node, _, ⟨found, rfl⟩, _, _, rfl, depth, inside, bound, _, rfl⟩ := bound
        have same : before.Resembles { before.recordStatement (some statement) before.current with
            bleedDepth := depth } := ⟨rfl, rfl, rfl, rfl, rfl, rfl⟩
        have covers := coversAll_bindContent proper induction found (ready.resembling same) bound
        exact covers.resembling same.symm (resembles_bleed inside _) rfl
      · simp only [Bind.visit, Step.bind_eq_ok, Bind.apply_eq_ok] at bound
        obtain ⟨_, _, rfl, bound⟩ := bound
        have same := resembles_recordStatement before (some link) before.current
        have covers :=
          coversAll_bindLink proper induction isLink chained (ready.resembling same) bound
        exact covers.resembling same.symm ⟨rfl, rfl, rfl, rfl, rfl, rfl⟩ covers.grows.bleedDepth

end LexicalScope
