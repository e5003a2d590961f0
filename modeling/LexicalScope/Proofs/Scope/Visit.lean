import LexicalScope.Proofs.Scope.Chains
import LexicalScope.Proofs.Scope.Seat

/-!
# Every visit covers its statement

A visit that succeeds covers the visited statement with all that is below it, by induction on the
levels that may still be nested. The cases are those of the kinds of statements; conditionals bind
their alternatives in one of three ways.
-/

namespace LexicalScope

open Binder

/-! ## Headers and children -/

namespace CoversAll

variable {tree : StatementTree} {before middle after : Binder} {statement : StatementId}
  {node : StatementNode} {depth : Nat}

/-- A statement is covered by its header and then its children. -/
theorem headerFirst (proper : tree.Proper) (found : tree.statement? (some statement) = some node)
    (fills : before.Fills middle tree statement node.content.expressionSlots)
    (seated : before.Seated tree depth) (catches : before.Catches tree statement)
    (children : CoversAll tree (node.content.children.map (·.1)) middle after) :
    CoversAll tree [some statement] before after := by
  have header := Covers.ofFills proper fills seated catches fun _ => proper.owner_of_slot found
  refine ofParts proper found (header.seq children ?_ fun _ _ absurd => absurd)
    (fun expression owned => .inl (proper.slot_of_owner found owned))
    (fun expression owner owned below => .inr ⟨owner, owned, below⟩) (fun _ => Iff.rfl) fun _ =>
    .imp False.elim id
  rintro _ rfl
  exact proper.not_among_self found

theorem childrenFirst (proper : tree.Proper) (found : tree.statement? (some statement) = some node)
    (children : CoversAll tree (node.content.children.map (·.1)) before middle)
    (fills : middle.Fills after tree statement node.content.expressionSlots)
    (seated : middle.Seated tree depth) (catches : middle.Catches tree statement) :
    CoversAll tree [some statement] before after := by
  have header := Covers.ofFills proper fills seated catches fun _ => proper.owner_of_slot found
  refine ofParts proper found (children.seq header (fun _ _ absurd => absurd) ?_)
    (fun expression owned => .inr (proper.slot_of_owner found owned))
    (fun expression owner owned below => .inl ⟨owner, owned, below⟩) (fun _ => or_comm) fun _ =>
    .imp id False.elim
  rintro _ rfl
  exact proper.not_among_self found

theorem headerOnly (proper : tree.Proper) (found : tree.statement? (some statement) = some node)
    (fills : before.Fills after tree statement node.content.expressionSlots)
    (seated : before.Seated tree depth) (catches : before.Catches tree statement)
    (childless : node.content.children = []) : CoversAll tree [some statement] before after := by
  refine headerFirst proper found fills seated catches ?_
  rw [childless]
  exact nothing (seated.grows fills.grows)

end CoversAll

/-! ## Regions that statements open -/

section Regions

variable {tree : StatementTree} {before after : Binder} {statement : StatementId}
  {node : StatementNode} {kind : RegionKind} {branch : Option BranchTag}

private theorem surrounds_nextRegion {span : Span}
    (plain : kind ≠ .root ∧ kind ≠ .switch ∧ kind ≠ .branch) (inner : StatementId) :
    (before.nextRegion kind (some statement) span branch).Surrounds tree inner ↔
      tree.IsWithin inner statement := by
  obtain ⟨noRoot, noSwitch, noBranch⟩ := plain
  simp only [Region.Surrounds, nextRegion, Region.opened, noRoot, false_or, Option.some.injEq,
    exists_eq_left']
  cases kind <;> simp_all

/-- The region that a tagged statement opens has its origin there. -/
theorem origin_nextRegion (notRoot : kind ≠ .root)
    (switch : kind = .switch → tree.kind? (some statement) = some .switch)
    (found : tree.statement? (some statement) = some node)
    (ready : before.Ready tree statement branch)
    (noLink : ¬ (before.nextRegion kind (some statement) node.span branch).OpensLink tree statement)
    (within : ∀ inner,
      (before.nextRegion kind (some statement) node.span branch).Surrounds tree inner →
        tree.IsWithin inner statement) :
    (before.nextRegion kind (some statement) node.span branch).Origin tree where
  notRoot := notRoot
  switch boundary same isSwitch := by
    obtain rfl := Option.some.inj same
    exact switch isSwitch
  boundary := ⟨statement, node, rfl, found⟩
  span boundary same _ := by
    obtain rfl := Option.some.inj same
    exact (StatementTree.span_eq found).symm
  link boundary same opens := by
    obtain rfl := Option.some.inj same
    exact absurd opens noLink
  tag tag isTag := by
    obtain ⟨conditional, body, fits, inBody, _⟩ := ready.tag tag isTag
    refine ⟨conditional, body, fits, fun inner surrounded => .inl ?_⟩
    rcases surrounded with surrounds | same
    · exact (within inner surrounds).trans inBody
    · obtain rfl := Option.some.inj same
      exact inBody

theorem inSwitch_nextRegion (ready : before.Ready tree statement branch) :
    ∀ tag conditional, branch = some tag → tag.conditional = some conditional →
      tree.kind? (some conditional) = some .switch → before.InSwitch conditional := by
  intro tag conditional isTag same isSwitch
  obtain ⟨known, body, fits, _, inSwitch⟩ := ready.tag tag isTag
  obtain rfl := Option.some.inj (fits.conditional_eq.symm.trans same)
  exact inSwitch isSwitch

theorem depth_nextRegion (proper : tree.Proper)
    (found : tree.statement? (some statement) = some node) {boundary : StatementRef} {span : Span}
    {tag : Option BranchTag} (ready : before.Ready tree statement branch) :
    (before.nextRegion kind boundary span tag).depth ≤ 4 * Limit.statementNesting := by
  obtain ⟨level, isLevel, seated⟩ := ready.seat
  have := proper.level_lt isLevel found
  have : (before.nextRegion kind boundary span tag).depth ≤ 2 * level + 1 + 1 :=
    seated.depth_nextRegion
  omega

/-- A statement is covered when it is covered inside the region that it opens. -/
theorem CoversAll.inRegion (proper : tree.Proper)
    (found : tree.statement? (some statement) = some node)
    (ready : before.Ready tree statement branch)
    (plain : kind ≠ .root ∧ kind ≠ .switch ∧ kind ≠ .branch)
    (inside : CoversAll tree [some statement]
      (before.enter kind (some statement) node.span branch) after) :
    CoversAll tree [some statement] before after.leave := by
  have among : ∀ inner, tree.IsAmong [some statement] inner ↔ tree.IsWithin inner statement := by
    simp
  obtain ⟨level, isLevel, seated⟩ := ready.seat
  have covers := Covers.region inside seated.valid
    (origin_nextRegion plain.1 (fun isSwitch => absurd isSwitch plain.2.1) found ready
      (fun opens => plain.2.2 opens.1) fun inner => (surrounds_nextRegion plain inner).mp)
    (depth_nextRegion proper found ready) (inSwitch_nextRegion ready)
    (fun inner => (surrounds_nextRegion plain inner).trans (among inner).symm)
    (fun _ => id) (fun isSwitch => absurd isSwitch plain.2.1)
  exact covers.weaken (fun _ => id) (fun inner => by simp [plain.2.1]) fun _ => id

end Regions

/-! ## Visits -/

/-- Every visit that succeeds covers its statement, if the binder is ready for it. -/
structure Visits (tree : StatementTree) (visit : Bind.Visit → Bind Unit) : Prop where
  statement : ∀ {statement : StatementId} {position : Position} {branch : Option BranchTag}
    {before after : Binder},
    visit (.statement (some statement) position branch) before = .ok () after →
      before.Ready tree statement branch → CoversAll tree [some statement] before after
  link : ∀ {head link : StatementId} {number : Nat} {before after : Binder},
    visit (.link (some head) (tree.span (some head)) number (some link)) before = .ok () after →
      tree.IsLink head number link → tree.IsChained link → before.Ready tree link none →
        CoversAll tree [some link] before after

section Visits

variable {tree : StatementTree} {visit : Bind.Visit → Bind Unit} {before middle after : Binder}
  {above : StatementId} {node : StatementNode} {level depth : Nat}

theorem branches_apart (proper : tree.Proper)
    (found : tree.statement? (some above) = some node) {condition : ExpressionRef}
    {thenBody elseBody : StatementId}
    (content : node.content = .branch condition (some thenBody) (some elseBody))
    (inner : StatementId) (inThen : tree.IsAmong [some thenBody] inner) :
    ¬ tree.IsAmong [some elseBody] inner := by
  have distinct := proper.distinct found
  have children : node.content.children.map (·.1) = [some thenBody, some elseBody] := by
    rw [content]
    rfl
  rw [children] at distinct
  exact proper.apart found (thenBody_listed content)
    (fun other member => List.mem_singleton.mp member ▸ elseBody_listed content)
    (List.nodup_cons.mp distinct).1 inner inThen

theorem coversAll_bindMembers (proper : tree.Proper) (visits : Visits tree visit)
    (found : tree.statement? (some above) = some node) (isLevel : tree.IsLevel above level) :
    ∀ {members : List StatementRef} {before : Binder},
      (∀ member ∈ members, member ∈ node.content.children.map (·.1)) → members.Nodup →
      before.Seated tree (2 * level + 3) → Bind.bindMembers visit members before = .ok () after →
        CoversAll tree members before after
  | [], before, _, _, seated, bound => by
    obtain ⟨_, rfl⟩ := Step.pure_eq_ok.mp bound
    exact .nothing seated
  | first :: rest, before, listed, distinct, seated, bound => by
    obtain ⟨middle, firstBound, restBound⟩ := Step.forM_cons_eq_ok.mp bound
    obtain ⟨different, restDistinct⟩ := List.nodup_cons.mp distinct
    have isListed := listed first List.mem_cons_self
    have restListed : ∀ member ∈ rest, member ∈ node.content.children.map (·.1) :=
      fun member isMember => listed member (List.mem_cons_of_mem _ isMember)
    obtain ⟨id, inner, rfl, _⟩ := proper.exists_of_child found isListed
    have ready : before.Ready tree id none :=
      seated.untagged isLevel (Nat.le_refl _) (proper.parent_of_child found isListed)
    have firstCovers := visits.statement firstBound ready
    have restCovers := coversAll_bindMembers proper visits found isLevel restListed
      restDistinct (seated.grows firstCovers.grows) restBound
    exact firstCovers.append restCovers (proper.apart found isListed restListed different)

theorem coversAll_bindSections (proper : tree.Proper) (visits : Visits tree visit)
    (found : tree.statement? (some above) = some node) (isLevel : tree.IsLevel above level)
    {subject : ExpressionRef} {sections : List StatementRef}
    (isSwitch : node.content = .switch subject sections) :
    ∀ {rest : List StatementRef} {index : Nat} {before : Binder}, sections.drop index = rest →
      before.Seated tree (2 * level + 3) → before.InSwitch above →
      Bind.bindSections tree visit (some above) (tree.span (some above)) index rest before =
        .ok () after → CoversAll tree rest before after
  | [], index, before, _, seated, _, bound => by
    obtain ⟨_, rfl⟩ := Step.pure_eq_ok.mp bound
    exact .nothing seated
  | first :: rest, index, before, isRest, seated, inSwitch, bound => by
    simp only [Bind.bindSections, Step.bind_eq_ok, Bind.branchTag_eq_ok] at bound
    obtain ⟨tag, _, ⟨tagEq, rfl⟩, _, middle, firstBound, restBound⟩ := bound
    have children : node.content.children.map (·.1) = sections := by
      simp [isSwitch, StatementContent.children, Function.comp_def]
    have distinct : sections.Nodup := children ▸ proper.distinct found
    have isFirst : sections[index]? = some first := by
      rw [← List.head?_drop, isRest]
      rfl
    have isRestToo : sections.drop (index + 1) = rest := by
      rw [← List.tail_drop, isRest]
      rfl
    have listed : ∀ member ∈ first :: rest, member ∈ node.content.children.map (·.1) := by
      intro member isMember
      rw [children]
      exact List.mem_of_mem_drop (isRest.symm ▸ isMember)
    have different : first ∉ rest := by
      have := (List.drop_sublist index sections).nodup distinct
      rw [isRest] at this
      exact (List.nodup_cons.mp this).1
    have isListed := listed first List.mem_cons_self
    have restListed : ∀ member ∈ rest, member ∈ node.content.children.map (·.1) :=
      fun member isMember => listed member (List.mem_cons_of_mem _ isMember)
    obtain ⟨id, inner, rfl, _⟩ := proper.exists_of_child found isListed
    have content : tree.content? (some above) = some (.switch subject sections) := by
      rw [StatementTree.content?_eq found, isSwitch]
    have ready : before.Ready tree id (some tag) := by
      refine seated.ready isLevel (Nat.le_refl _) (proper.parent_of_child found isListed) ?_
      intro same isSame
      obtain rfl := Option.some.inj isSame
      refine ⟨above, id, ⟨by rw [tagEq], ?_, by rw [tagEq], fun isBranch => ?_⟩, .refl _,
        fun _ => inSwitch⟩
      · rw [tagEq]
        exact .switchSection content isFirst
      · rw [StatementTree.kind?_eq found, StatementNode.kind, isSwitch] at isBranch
        cases isBranch
    have firstCovers := visits.statement firstBound ready
    have restCovers := coversAll_bindSections proper visits found isLevel isSwitch isRestToo
      (seated.grows firstCovers.grows) (inSwitch.grows firstCovers.grows) restBound
    exact firstCovers.append restCovers (proper.apart found isListed restListed different)

theorem fits_thenBody {head link thenBody : StatementId} {number limit : Nat}
    {condition : ExpressionRef} {elseBody : StatementRef} (isLink : tree.IsLink head number link)
    (content : tree.content? (some link) = some (.branch condition (some thenBody) elseBody)) :
    BranchTag.Fits tree ⟨some head, number, tree.alwaysExits true limit (some thenBody),
      tree.span (some head)⟩ head thenBody :=
  ⟨rfl, .link isLink content, rfl, fun _ exits => ⟨limit, exits⟩⟩

theorem fits_elseBody {head link elseBody : StatementId} {number limit : Nat}
    {condition : ExpressionRef} {thenBody : StatementRef} (isLink : tree.IsLink head number link)
    (content : tree.content? (some link) = some (.branch condition thenBody (some elseBody)))
    (notBranch : tree.kind? (some elseBody) ≠ some .branch) :
    BranchTag.Fits tree ⟨some head, number + 1, tree.alwaysExits true limit (some elseBody),
      tree.span (some head)⟩ head elseBody :=
  ⟨rfl, .last isLink content notBranch, rfl, fun _ exits => ⟨limit, exits⟩⟩

theorem coversAll_bindBranch (proper : tree.Proper) (visits : Visits tree visit)
    {body : StatementId} {slot : BodySlot} {tag : BranchTag} {conditional : StatementId}
    (isLevel : tree.IsLevel above level) (seated : before.Seated tree (2 * level + 1))
    (isParent : tree.parent (some body) = some above) (fits : tag.Fits tree conditional body)
    (noSwitch : tree.kind? (some conditional) ≠ some .switch)
    (noLink : ∀ number, ¬ tree.IsLink conditional number body)
    (bound : Bind.bindBranch tree visit (some body) slot tag before = .ok () after) :
    CoversAll tree [some body] before after := by
  simp only [Bind.bindBranch, Step.bind_eq_ok, Bind.find_eq_ok] at bound
  obtain ⟨node, _, ⟨found, rfl⟩, bound⟩ := bound
  have ready : before.Ready tree body (some tag) := by
    refine seated.ready isLevel (Nat.le_add_right _ 2) isParent ?_
    intro same isSame
    obtain rfl := Option.some.inj isSame
    exact ⟨conditional, body, fits, .refl _, fun isSwitch => absurd isSwitch noSwitch⟩
  split at bound
  · exact visits.statement bound ready
  · simp only [Bind.recordAround_eq_ok, Bind.inRegion_eq_ok] at bound
    obtain ⟨_, ⟨inside, insideBound, rfl⟩, rfl⟩ := bound
    have insideReady :
        (before.enter .branch (some body) node.span (some tag)).Ready tree body none :=
      seated.enter.untagged isLevel (Nat.le_succ _) isParent
    have insideCovers := visits.statement insideBound insideReady
    have noOpens : ¬ (before.nextRegion .branch (some body) node.span (some tag)).OpensLink tree
        body := by
      rintro ⟨_, _, head, number, same, isHead, isLink⟩
      obtain rfl := Option.some.inj same
      obtain rfl := Option.some.inj (fits.conditional_eq.symm.trans isHead)
      exact noLink number isLink
    have surrounds : ∀ inner, (before.nextRegion .branch (some body) node.span
        (some tag)).Surrounds tree inner ↔ tree.IsWithin inner body := by
      intro inner
      constructor
      · rintro (absurd | ⟨_, same, ⟨opens, _⟩ | ⟨_, within⟩⟩)
        · cases absurd
        · obtain rfl := Option.some.inj same
          exact absurd opens noOpens
        · obtain rfl := Option.some.inj same
          exact within
      · intro within
        exact .inr ⟨body, rfl, .inr ⟨noOpens, within⟩⟩
    have covers := Covers.region insideCovers seated.valid
      (origin_nextRegion (by decide) (by simp) found ready noOpens fun inner =>
        (surrounds inner).mp)
      (depth_nextRegion proper found ready) (inSwitch_nextRegion ready)
      (fun inner => (surrounds inner).trans (by simp)) (fun _ => id)
      (by simp)
    have whole : CoversAll tree [some body] before inside.leave :=
      covers.weaken (fun _ => id) (fun inner => by simp) fun _ => id
    exact whole.resembling ⟨rfl, rfl, rfl, rfl, rfl, rfl⟩ (resembles_recordStatement ..) (by
      rw [recordStatement, whole.grows.bleedDepth])

private theorem surrounds_link {link thenBody : StatementId} {span : Span} {tag : BranchTag}
    {condition : ExpressionRef} {elseBody : StatementRef}
    (content : tree.content? (some link) = some (.branch condition (some thenBody) elseBody))
    (opens : (before.nextRegion .branch (some link) span (some tag)).OpensLink tree link)
    (inner : StatementId) :
    (before.nextRegion .branch (some link) span (some tag)).Surrounds tree inner ↔
      inner = link ∨ tree.IsAmong [some thenBody] inner := by
  constructor
  · rintro (absurd | ⟨boundary, same, ⟨_, isLink | ⟨_, known, _, knownContent, within⟩⟩ | ⟨no, _⟩⟩)
    · cases absurd
    · exact .inl (isLink.trans (Option.some.inj same).symm)
    · obtain rfl := Option.some.inj same
      obtain ⟨_, sameThen, _⟩ := StatementContent.branch.inj
        (Option.some.inj (content.symm.trans knownContent))
      obtain rfl := Option.some.inj sameThen
      exact .inr (StatementTree.isAmong_singleton.mpr within)
    · obtain rfl := Option.some.inj same
      exact absurd opens no
  · rintro (rfl | inThen)
    · exact .inr ⟨inner, rfl, .inl ⟨opens, .inl rfl⟩⟩
    · exact .inr ⟨link, rfl, .inl ⟨opens, .inr ⟨_, _, _, content,
        StatementTree.isAmong_singleton.mp inThen⟩⟩⟩

private theorem covers_linkRegion (proper : tree.Proper) (visits : Visits tree visit)
    {head link thenBody : StatementId} {number : Nat} {condition : ExpressionRef}
    {elseBody : StatementRef} {tag : BranchTag} {span : Span} {inside : Binder}
    (isLink : tree.IsLink head number link) (chained : tree.IsChained link)
    (ready : before.Ready tree link none)
    (found : tree.statement? (some link) = some node)
    (content : node.content = .branch condition (some thenBody) elseBody)
    (fits : tag.Fits tree head thenBody) (index : tag.index = number)
    (isSpan : span = ⟨(tree.span (some link)).start,
      max (tree.span (some thenBody)).stop (tree.span (some link)).start⟩)
    (bound : visit (.statement (some thenBody) (.nested .thenBody) none)
      (bindExpression tree condition (before.enter .branch (some link) span (some tag))) =
        .ok () inside) :
    Covers tree (fun expression => tree.owner expression = some link ∨
        ∃ owner, tree.owner expression = some owner ∧ tree.IsAmong [some thenBody] owner)
      (fun inner => inner = link ∨ tree.IsAmong [some thenBody] inner)
      (fun inner => inner = link ∨ tree.IsAmong [some thenBody] inner) before inside.leave := by
  obtain ⟨level, isLevel, seated⟩ := ready.seat
  have isContent : tree.content? (some link) =
      some (.branch condition (some thenBody) elseBody) := by
    rw [StatementTree.content?_eq found, content]
  have thenListed := thenBody_listed content
  have entered : (before.enter .branch (some link) span (some tag)).Seated tree (2 * level + 2) :=
    seated.enter
  have fills : (before.enter .branch (some link) span (some tag)).Fills (bindExpression tree
      condition (before.enter .branch (some link) span (some tag))) tree link
        node.content.expressionSlots :=
    .ofSlot proper found (by rw [content]; rfl) entered.record
  have header := Covers.ofFills proper fills entered
    (catches_of_none found (by rw [StatementNode.kind, content]; rfl)) fun _ =>
      proper.owner_of_slot found
  have thenCovers := visits.statement bound ((entered.grows fills.grows).untagged isLevel
    (Nat.le_succ _) (proper.parent_of_child found thenListed))
  have notThen : ¬ tree.IsAmong [some thenBody] link := by
    intro inThen
    exact proper.not_among_self found
      ⟨_, thenListed, StatementTree.isAmong_singleton.mp inThen⟩
  have both := header.seq thenCovers (fun _ same => same ▸ notThen) fun _ _ absurd => absurd
  -- The region surrounds just the link and its first branch.
  have opens : (before.nextRegion .branch (some link) span (some tag)).OpensLink tree link :=
    ⟨rfl, tag, head, number, rfl, fits.conditional_eq, isLink⟩
  have surrounds := surrounds_link isContent opens
  have origin : (before.nextRegion .branch (some link) span (some tag)).Origin tree := by
    constructor
    case notRoot => simp [nextRegion, Region.opened]
    case switch => simp [nextRegion, Region.opened]
    case boundary => exact ⟨link, node, rfl, found⟩
    case span =>
      intro boundary same no
      obtain rfl := Option.some.inj same
      exact absurd opens no
    case link =>
      intro boundary same _
      obtain rfl := Option.some.inj same
      exact ⟨condition, thenBody, elseBody, isContent, isSpan⟩
    case tag =>
      intro known isTag
      obtain rfl := Option.some.inj isTag
      refine ⟨head, thenBody, fits, fun inner surrounded => ?_⟩
      have isLinkOr : inner = link ∨ tree.IsAmong [some thenBody] inner := by
        rcases surrounded with surrounded | same
        · exact (surrounds inner).mp surrounded
        · exact .inl (Option.some.inj same).symm
      rcases isLinkOr with rfl | inThen
      · exact .inr ⟨index ▸ isLink, chained⟩
      · exact .inl (StatementTree.isAmong_singleton.mp inThen)
  have region := both.region seated.valid origin (depth_nextRegion proper found ready)
    (fun known conditional isTag same isSwitch => by
      obtain rfl := Option.some.inj isTag
      obtain rfl := Option.some.inj (fits.conditional_eq.symm.trans same)
      exact absurd isSwitch isLink.noSwitch)
    surrounds (fun _ => .imp False.elim id) (by simp)
  refine region.weaken (fun expression => ?_) (fun inner => by simp) fun _ => id
  rintro (owned | owned)
  · exact .inl (proper.slot_of_owner found owned)
  · exact .inr owned

/-- What stands behind a link of a chain is covered: another link, or the last alternative. -/
theorem coversAll_behindLink (proper : tree.Proper) (visits : Visits tree visit)
    {head link elseBody : StatementId} {number : Nat} {condition : ExpressionRef}
    {thenBody : StatementRef} (isLink : tree.IsLink head number link)
    (content : tree.content? (some link) = some (.branch condition thenBody (some elseBody)))
    (isLevel : tree.IsLevel link level) (seated : before.Seated tree (2 * level + 1))
    (isParent : tree.parent (some elseBody) = some link)
    (bound : (do
      let alternative ← Bind.find tree (some elseBody)
      if alternative.kind = StatementKind.branch then
        visit (.link (some head) (tree.span (some head)) (number + 1) (some elseBody))
      else
        let tag ← Bind.branchTag tree (some head) (number + 1) (some elseBody)
          (tree.span (some head)) true
        Bind.bindBranch tree visit (some elseBody) .elseBody tag) before = .ok () after) :
    CoversAll tree [some elseBody] before after := by
  simp only [Step.bind_eq_ok, Bind.find_eq_ok] at bound
  obtain ⟨alternative, _, ⟨found, rfl⟩, bound⟩ := bound
  split at bound
  next isNext =>
    have kinds : tree.kind? (some elseBody) = some .branch := by
      rw [StatementTree.kind?_eq found, isNext]
    exact visits.link bound (.next isLink content kinds)
      ⟨link, elseBody, condition, thenBody, content, kinds, .inr rfl⟩
      (seated.untagged isLevel (Nat.le_add_right _ 2) isParent)
  next isLast =>
    have kinds : tree.kind? (some elseBody) ≠ some .branch := by
      rw [StatementTree.kind?_eq found]
      exact fun same => isLast (Option.some.inj same)
    simp only [Step.bind_eq_ok, Bind.branchTag_eq_ok] at bound
    obtain ⟨_, _, ⟨rfl, rfl⟩, bound⟩ := bound
    exact coversAll_bindBranch proper visits isLevel seated isParent
      (fits_elseBody isLink content kinds) isLink.noSwitch
      (fun number isLink => kinds isLink.kind) bound

/-- A link of a chain is covered, with the links behind it. -/
theorem coversAll_bindLink (proper : tree.Proper) (visits : Visits tree visit)
    {head link : StatementId} {number : Nat} (isLink : tree.IsLink head number link)
    (chained : tree.IsChained link) (ready : before.Ready tree link none)
    (bound : Bind.bindLink tree visit (some head) (tree.span (some head)) number (some link)
      before = .ok () after) : CoversAll tree [some link] before after := by
  simp only [Bind.bindLink, Step.bind_eq_ok, Bind.find_eq_ok] at bound
  obtain ⟨node, _, ⟨found, rfl⟩, bound⟩ := bound
  have isBranch : node.content.kind = .branch := by
    have kinds := isLink.kind
    rw [StatementTree.kind?_eq found] at kinds
    exact Option.some.inj kinds
  obtain ⟨condition, thenRef, elseBody, content⟩ := exists_branch_of_kind isBranch
  rw [content] at bound
  simp only [Step.bind_eq_ok, Bind.branchTag_eq_ok, Bind.inRegion_eq_ok, Bind.apply_eq_ok] at bound
  obtain ⟨tag, _, ⟨rfl, rfl⟩, _, _, ⟨inside, ⟨_, _, rfl, thenBound⟩, rfl⟩, bound⟩ := bound
  obtain ⟨level, isLevel, seated⟩ := ready.seat
  have thenListed := thenBody_listed content
  obtain ⟨thenBody, _, rfl, _⟩ := proper.exists_of_child found thenListed
  have isContent : tree.content? (some link) =
      some (.branch condition (some thenBody) elseBody) := by
    rw [StatementTree.content?_eq found, content]
  have region := covers_linkRegion proper visits isLink chained ready found content
    (fits_thenBody isLink isContent) rfl (by rw [StatementTree.span_eq found]) thenBound
  cases elseBody with
  | none =>
      obtain ⟨_, rfl⟩ := Step.pure_eq_ok.mp bound
      have children : node.content.children.map (·.1) = [some thenBody] := by rw [content]; rfl
      refine .ofParts proper found region (fun _ => .inl) (fun expression owner owned below => ?_)
        (fun inner => by rw [children]) fun _ => id
      rw [children] at below
      exact .inr ⟨owner, owned, below⟩
  | some elseBody =>
      have children : node.content.children.map (·.1) = [some thenBody, some elseBody] := by
        rw [content]
        rfl
      have elseListed : some elseBody ∈ node.content.children.map (·.1) := by simp [children]
      have elseCovers : CoversAll tree [some elseBody] inside.leave after :=
        coversAll_behindLink proper visits isLink isContent isLevel (seated.grows region.grows)
          (proper.parent_of_child found elseListed) bound
      -- What the region of the link holds and the alternative share nothing.
      have apart : ∀ inner, inner = link ∨ tree.IsAmong [some thenBody] inner →
          ¬ tree.IsAmong [some elseBody] inner := by
        rintro inner (rfl | inThen) inElse
        · exact proper.not_among_self found
            ⟨_, elseListed, StatementTree.isAmong_singleton.mp inElse⟩
        · exact branches_apart proper found content inner inThen inElse
      have both := region.seq elseCovers apart fun inner inElse inRegion =>
        apart inner inRegion inElse
      refine .ofParts proper found both (fun _ owned => .inl (.inl owned))
        (fun expression owner owned below => ?_) (fun inner => ?_) fun _ => id
      · rw [children, StatementTree.isAmong_cons] at below
        rcases below with inThen | inElse
        · exact .inl (.inr ⟨owner, owned, StatementTree.isAmong_cons.mpr (.inl inThen)⟩)
        · exact .inr ⟨owner, owned, inElse⟩
      · rw [children]
        simp only [StatementTree.isAmong_cons, StatementTree.isAmong_nil, or_false, or_assoc]

private theorem coversAll_twoWay (proper : tree.Proper) (visits : Visits tree visit)
    {statement thenBody elseBody : StatementId} {condition : ExpressionRef} {limit later : Nat}
    (isLevel : tree.IsLevel statement level) (seated : before.Seated tree (2 * level + 1))
    (found : tree.statement? (some statement) = some node)
    (content : node.content = .branch condition (some thenBody) (some elseBody))
    (notBranch : tree.kind? (some elseBody) ≠ some .branch)
    (thenBound : Bind.bindBranch tree visit (some thenBody) .thenBody
      ⟨some statement, 0, tree.alwaysExits true limit (some thenBody), tree.span (some statement)⟩
        before = .ok () middle)
    (elseBound : Bind.bindBranch tree visit (some elseBody) .elseBody
      ⟨some statement, 1, tree.alwaysExits true later (some elseBody), tree.span (some statement)⟩
        middle = .ok () after) :
    CoversAll tree [some thenBody, some elseBody] before after := by
  have isContent : tree.content? (some statement) =
      some (.branch condition (some thenBody) (some elseBody)) := by
    rw [StatementTree.content?_eq found, content]
  have isBranch : tree.kind? (some statement) = some .branch := by
    rw [StatementTree.kind?_eq found, StatementNode.kind, content]
    rfl
  have isHead : tree.IsLink statement 0 statement := .head isBranch
  have thenParent := proper.parent_of_child found (thenBody_listed content)
  have elseParent := proper.parent_of_child found (elseBody_listed content)
  have thenCovers := coversAll_bindBranch proper visits isLevel seated thenParent
    (fits_thenBody isHead isContent) isHead.noSwitch
    (StatementTree.not_isLink_thenBody proper isContent notBranch) thenBound
  have elseCovers := coversAll_bindBranch proper visits isLevel (seated.grows thenCovers.grows)
    elseParent (fits_elseBody isHead isContent notBranch) isHead.noSwitch
    (fun number isLink => notBranch isLink.kind) elseBound
  exact thenCovers.append elseCovers (branches_apart proper found content)

/-- A conditional is covered in each of the three ways in which it is bound. -/
theorem coversAll_bindConditional (proper : tree.Proper) (visits : Visits tree visit)
    {statement : StatementId} {branch : Option BranchTag} {condition : ExpressionRef}
    {thenRef elseBody : StatementRef} (ready : before.Ready tree statement branch)
    (found : tree.statement? (some statement) = some node)
    (content : node.content = .branch condition thenRef elseBody)
    (bound : Bind.bindConditional tree visit (some statement) (tree.span (some statement)) condition
      thenRef elseBody before = .ok () after) : CoversAll tree [some statement] before after := by
  obtain ⟨level, isLevel, seated⟩ := ready.seat
  have thenListed := thenBody_listed content
  obtain ⟨thenBody, _, rfl, _⟩ := proper.exists_of_child found thenListed
  have isBranch : tree.kind? (some statement) = some .branch := by
    rw [StatementTree.kind?_eq found, StatementNode.kind, content]
    rfl
  have isHead : tree.IsLink statement 0 statement := .head isBranch
  have fills : before.Fills (bindExpression tree condition before) tree statement
      node.content.expressionSlots :=
    .ofSlot proper found (by rw [content]; rfl) seated.record
  have catches : before.Catches tree statement :=
    catches_of_none found (by rw [StatementNode.kind, content]; rfl)
  have branchSeated := seated.grows fills.grows
  cases elseBody with
  | none =>
      simp only [Bind.bindConditional, Option.isNone_none, if_true, Step.bind_eq_ok,
        Bind.apply_eq_ok, Bind.branchTag_eq_ok] at bound
      obtain ⟨_, _, rfl, _, _, ⟨rfl, rfl⟩, bound⟩ := bound
      have isContent : tree.content? (some statement) =
          some (.branch condition (some thenBody) none) := by
        rw [StatementTree.content?_eq found, content]
      have children : node.content.children.map (·.1) = [some thenBody] := by rw [content]; rfl
      refine .headerFirst proper found fills seated catches ?_
      rw [children]
      refine visits.statement bound (branchSeated.ready isLevel (Nat.le_add_right _ 2)
        (proper.parent_of_child found thenListed) ?_)
      intro known isTag
      obtain rfl := Option.some.inj isTag
      exact ⟨statement, thenBody, fits_thenBody isHead isContent, .refl _,
        fun isSwitch => absurd isSwitch isHead.noSwitch⟩
  | some elseRef =>
      obtain ⟨elseBody, _, same, _⟩ := proper.exists_of_child found (elseBody_listed content)
      obtain rfl := Option.some.inj same
      have children : node.content.children.map (·.1) = [some thenBody, some elseRef] := by
        rw [content]
        rfl
      simp only [Bind.bindConditional, Option.isNone_some, Bool.false_eq_true, if_false] at bound
      split at bound
      next twoWay =>
        simp only [Step.bind_eq_ok, Bind.apply_eq_ok, Bind.branchTag_eq_ok] at bound
        obtain ⟨_, _, rfl, _, _, ⟨rfl, rfl⟩, _, middle, thenBound, _, _, ⟨rfl, rfl⟩, elseBound⟩ :=
          bound
        refine .headerFirst proper found fills seated catches ?_
        rw [children]
        exact coversAll_twoWay proper visits isLevel branchSeated found content
          ((proper.isTwoWay_iff found content).mp twoWay).1 thenBound elseBound
      next notTwoWay =>
        exact coversAll_bindLink proper visits isHead
          (StatementTree.chained_of_not_isTwoWay proper found content notTwoWay) ready.untagged
          bound

end Visits

end LexicalScope
