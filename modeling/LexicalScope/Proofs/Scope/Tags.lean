import LexicalScope.Proofs.Scope.Openings
import LexicalScope.Proofs.Scope.Success

/-!
# What the tags of regions tell

A tag names an alternative of a conditional, and tells of its body whether every path leaves the
conditional early, as far as the nesting limit lets that be seen. Every tag that binding hands to a
region does so, in each of the ways in which a conditional is bound.
-/

namespace LexicalScope

/-- A tag names an alternative and tells whether its body exits. In a section of a switch a `break`
is no exit. -/
def BranchTag.Tells (tree : StatementTree) (limit : Nat) (tag : BranchTag) : Prop :=
  ∃ conditional body, tag.conditional = some conditional ∧
    tree.IsAlternative conditional tag.index body ∧
    tag.exits = tree.alwaysExits (tree.kind? (some conditional) != some .switch) limit (some body)

/-- The tags of a binder's regions tell of their alternatives. -/
structure Binder.TagsTell (tree : StatementTree) (limit : Nat) (binder : Binder) : Prop where
  settings : binder.settings.nestingLimit = limit
  tag : ∀ {i : Nat} {region : Region} {tag : BranchTag}, binder.shape? i = some region →
    region.branch = some tag → tag.Tells tree limit

namespace Bind

variable {tree : StatementTree} {limit : Nat} {visit : Visit → Bind Unit} {step next : Bind Unit}
  {branch : Option BranchTag} {statement : StatementId} {node : StatementNode} {span : Span}

/-- A step that succeeds keeps what the tags tell. -/
def KeepsTags (tree : StatementTree) (limit : Nat) (step : Bind Unit) : Prop :=
  ∀ before after : Binder, before.TagsTell tree limit → step before = .ok () after →
    after.TagsTell tree limit

namespace KeepsTags

theorem pure : KeepsTags tree limit (Pure.pure ()) := by
  intro before after tags succeeded
  obtain ⟨_, rfl⟩ := Step.pure_eq_ok.mp succeeded
  exact tags

theorem apply {change : Binder → Binder} (stays : ∀ binder : Binder, binder.Stays (change binder)) :
    KeepsTags tree limit (Bind.apply change) := by
  intro before after tags succeeded
  obtain rfl := apply_eq_ok.mp succeeded
  obtain ⟨grows, size⟩ := stays before
  refine ⟨by rw [grows.settings, tags.settings], fun {i region tag} known isTag => ?_⟩
  have bound : i < before.regions.size := size ▸ Binder.lt_size_of_shape? known
  rw [grows.shape i bound] at known
  exact tags.tag known isTag

theorem header {change : Binder → Binder}
    (keeps : ∀ {property : Binder → Prop}, HeaderPreserved tree property →
      ∀ {binder : Binder}, property binder → property (change binder)) :
    KeepsTags tree limit (Bind.apply change) :=
  apply fun binder => keeps (binder.preserved_stays tree) (.refl binder)

theorem seq (first : KeepsTags tree limit step) (second : KeepsTags tree limit next) :
    KeepsTags tree limit (do step; next) := by
  intro before after tags succeeded
  obtain ⟨_, between, stepped, continued⟩ := Step.bind_eq_ok.mp succeeded
  exact second _ _ (first _ _ tags stepped) continued

theorem find {ref : StatementRef} {next : StatementNode → Bind Unit}
    (keeps : ∀ node, tree.statement? ref = some node → KeepsTags tree limit (next node)) :
    KeepsTags tree limit (Bind.find tree ref >>= next) := by
  intro before after tags succeeded
  obtain ⟨node, between, looked, continued⟩ := Step.bind_eq_ok.mp succeeded
  obtain ⟨found, rfl⟩ := find_eq_ok.mp looked
  exact keeps node found _ _ tags continued

theorem branchTag {conditional body : StatementId} {index : Nat} {breakExits : Bool}
    {next : BranchTag → Bind Unit} (isBody : tree.IsAlternative conditional index body)
    (counts : (tree.kind? (some conditional) != some .switch) = breakExits)
    (keeps : ∀ tag : BranchTag, tag.Tells tree limit → KeepsTags tree limit (next tag)) :
    KeepsTags tree limit
      (Bind.branchTag tree (some conditional) index (some body) span breakExits >>= next) := by
  intro before after tags succeeded
  obtain ⟨tag, between, looked, continued⟩ := Step.bind_eq_ok.mp succeeded
  obtain ⟨rfl, rfl⟩ := branchTag_eq_ok.mp looked
  refine keeps _ ⟨conditional, body, rfl, isBody, ?_⟩ _ _ tags continued
  rw [counts, tags.settings]

theorem inRegion {kind : RegionKind} {boundary : StatementRef}
    (tells : ∀ tag, branch = some tag → tag.Tells tree limit) (keeps : KeepsTags tree limit step) :
    KeepsTags tree limit (Bind.inRegion kind boundary span branch step) := by
  intro before after tags succeeded
  obtain ⟨inside, stepped, rfl⟩ := inRegion_eq_ok.mp succeeded
  have entered : (before.enter kind boundary span branch).TagsTell tree limit := by
    refine ⟨tags.settings, fun {i region tag} known isTag => ?_⟩
    rw [Binder.shape?_enter] at known
    split at known
    · obtain rfl := Option.some.inj known
      exact tells tag isTag
    · exact tags.tag known isTag
  have left := keeps _ _ entered stepped
  refine ⟨?_, fun {i region tag} known isTag => ?_⟩
  · unfold Binder.leave
    split <;> exact left.settings
  · rw [Binder.shape?, Binder.regions_leave] at known
    exact left.tag known isTag

private theorem withBleed {added : Bool} (keeps : KeepsTags tree limit step) :
    KeepsTags tree limit (Bind.withBleed added step) := by
  intro before after tags succeeded
  obtain ⟨depth, inside, stepped, _, rfl⟩ := withBleed_eq_ok.mp succeeded
  have left := keeps { before with bleedDepth := depth } _ ⟨tags.settings, tags.tag⟩ stepped
  exact ⟨left.settings, left.tag⟩

private theorem recordAround {ref : StatementRef} (keeps : KeepsTags tree limit step) :
    KeepsTags tree limit (Bind.recordAround ref step) := by
  intro before after tags succeeded
  obtain ⟨inside, stepped, rfl⟩ := recordAround_eq_ok.mp succeeded
  exact apply (fun binder => binder.stays_recordStatement ref before.current) _ _
    (keeps _ _ tags stepped) (apply_eq_ok.mpr rfl)

end KeepsTags

/-! ## Visits -/

/-- Visits keep what the tags tell, if the tag handed on tells of its alternative and a link is one
of its chain. -/
structure VisitsTelling (tree : StatementTree) (limit : Nat) (visit : Visit → Bind Unit) :
    Prop where
  statement : ∀ (ref : StatementRef) (position : Position) (branch : Option BranchTag),
    (∀ tag, branch = some tag → tag.Tells tree limit) →
      KeepsTags tree limit (visit (.statement ref position branch))
  link : ∀ {head link : StatementId} {number : Nat} (span : Span),
    tree.IsLink head number link →
      KeepsTags tree limit (visit (.link (some head) span number (some link)))

namespace VisitsTelling

variable (visits : VisitsTelling tree limit visit)
include visits

theorem plain (ref : StatementRef) (position : Position) :
    KeepsTags tree limit (visit (.statement ref position none)) :=
  visits.statement ref position none nofun

theorem tagged (ref : StatementRef) (position : Position) {tag : BranchTag}
    (tells : tag.Tells tree limit) :
    KeepsTags tree limit (visit (.statement ref position (some tag))) :=
  visits.statement ref position (some tag) fun _ isTag => Option.some.inj isTag ▸ tells

theorem bindMembers (members : List StatementRef) :
    KeepsTags tree limit (Bind.bindMembers visit members) := by
  induction members with
  | nil => exact .pure
  | cons first rest induction => exact .seq (visits.plain first .member) induction

private theorem bindSections {subject : ExpressionRef} {sections : List StatementRef}
    (content : tree.content? (some statement) = some (.switch subject sections))
    (exist : ∀ ref ∈ sections, ∃ body, ref = some body) :
    ∀ (index : Nat) (rest : List StatementRef), sections.drop index = rest →
      KeepsTags tree limit (Bind.bindSections tree visit (some statement) span index rest)
  | _, [], _ => .pure
  | index, first :: rest, isRest => by
    have isFirst : sections[index]? = some first := by
      rw [← List.head?_drop, isRest]
      rfl
    have isRestToo : sections.drop (index + 1) = rest := by
      rw [← List.tail_drop, isRest]
      rfl
    obtain ⟨body, rfl⟩ := exist first (List.mem_of_getElem? isFirst)
    have counts : (tree.kind? (some statement) != some .switch) = false := by
      obtain ⟨node, found, isContent⟩ := Option.map_eq_some_iff.mp content
      rw [StatementTree.kind?_eq found, StatementNode.kind, isContent]
      rfl
    exact .branchTag (.switchSection content isFirst) counts fun tag tells =>
      .seq (visits.tagged _ _ tells) (bindSections content exist (index + 1) rest isRestToo)

theorem bindBranch (body : StatementRef) (slot : BodySlot) {tag : BranchTag}
    (tells : tag.Tells tree limit) :
    KeepsTags tree limit (Bind.bindBranch tree visit body slot tag) := by
  refine .find fun node _ => ?_
  split
  · exact visits.tagged body _ tells
  · exact .recordAround (.inRegion (fun _ isTag => Option.some.inj isTag ▸ tells)
      (visits.plain body _))

/-- The tags of a chain name its links, and the last one what comes behind them. -/
theorem bindLink (proper : tree.Proper) {head link : StatementId} {number : Nat}
    (isLink : tree.IsLink head number link) :
    KeepsTags tree limit (Bind.bindLink tree visit (some head) span number (some link)) := by
  have counts : (tree.kind? (some head) != some .switch) = true := by
    rw [isLink.head_kind]
    rfl
  refine .find fun node found => ?_
  have isBranch : node.content.kind = .branch :=
    Option.some.inj ((StatementTree.kind?_eq found).symm.trans isLink.kind)
  obtain ⟨condition, thenRef, elseRef, content⟩ := exists_branch_of_kind isBranch
  rw [content]
  obtain ⟨thenBody, _, rfl, _⟩ := proper.exists_of_child found (thenBody_listed content)
  have isContent : tree.content? (some link) =
      some (.branch condition (some thenBody) elseRef) := by
    rw [StatementTree.content?_eq found, content]
  refine .branchTag (.link isLink isContent) counts fun tag tells => ?_
  refine .seq (.inRegion (fun _ isTag => Option.some.inj isTag ▸ tells)
    (.seq (.header (·.bindExpression condition)) (visits.plain (some thenBody) _))) ?_
  cases elseRef with
  | none => exact .pure
  | some elseBody =>
      refine .find fun alternative elseFound => ?_
      have elseKind := StatementTree.kind?_eq elseFound
      split
      next isIf => exact visits.link span (.next isLink isContent (elseKind.trans (by rw [isIf])))
      next isLast =>
        have notBranch : tree.kind? (some elseBody) ≠ some .branch := by
          rw [elseKind]
          exact fun same => isLast (Option.some.inj same)
        exact .branchTag (.last isLink isContent notBranch) counts fun tag tells =>
          visits.bindBranch _ _ tells

private theorem bindConditional (proper : tree.Proper) {condition : ExpressionRef}
    {thenRef elseRef : StatementRef} (found : tree.statement? (some statement) = some node)
    (content : node.content = .branch condition thenRef elseRef) :
    KeepsTags tree limit
      (Bind.bindConditional tree visit (some statement) span condition thenRef elseRef) := by
  have isKind : tree.kind? (some statement) = some .branch := by
    rw [StatementTree.kind?_eq found, StatementNode.kind, content]
    rfl
  have isHead : tree.IsLink statement 0 statement := .head isKind
  have counts : (tree.kind? (some statement) != some .switch) = true := by
    rw [isKind]
    rfl
  obtain ⟨thenBody, _, rfl, _⟩ := proper.exists_of_child found (thenBody_listed content)
  have isContent : tree.content? (some statement) =
      some (.branch condition (some thenBody) elseRef) := by
    rw [StatementTree.content?_eq found, content]
  cases elseRef with
  | none =>
      exact .seq (.header (·.bindExpression condition))
        (.branchTag (.link isHead isContent) counts fun tag tells => visits.tagged _ _ tells)
  | some elseBody =>
      unfold Bind.bindConditional
      rw [if_neg (by simp)]
      split
      next twoWay =>
        have notBranch := ((proper.isTwoWay_iff found content).mp twoWay).1
        exact .seq (.header (·.bindExpression condition))
          (.branchTag (.link isHead isContent) counts fun tag tells =>
            .seq (visits.bindBranch _ _ tells)
              (.branchTag (.last isHead isContent notBranch) counts fun tag tells =>
                visits.bindBranch _ _ tells))
      next => exact visits.bindLink proper isHead

private theorem bindContent (proper : tree.Proper)
    (found : tree.statement? (some statement) = some node)
    (tells : ∀ tag, branch = some tag → tag.Tells tree limit) {content : StatementContent}
    (isContent : node.content = content) :
    KeepsTags tree limit (Bind.bindContent tree visit (some statement) span branch content) := by
  cases content with
  | block members => exact .inRegion tells (visits.bindMembers members)
  | branch condition thenBody elseBody => exact visits.bindConditional proper found isContent
  | whileLoop condition body =>
      exact .inRegion tells (.seq (.header (·.bindExpression condition)) (visits.plain body _))
  | doLoop body condition =>
      exact .inRegion tells (.seq (visits.plain body _) (.header (·.bindExpression condition)))
  | forLoop declarators initializers condition incrementors body =>
      exact .inRegion tells (.seq (.header (·.bindDeclarators _ declarators))
        (.seq (.header (·.bindExpressions initializers))
          (.seq (.header (·.bindExpression condition))
            (.seq (.header (·.bindExpressions incrementors)) (visits.plain body _)))))
  | forEachLoop element collection body =>
      exact .inRegion tells (.seq (.header (·.declare _ _ _ _ _))
        (.seq (.header (·.bindExpression collection)) (visits.plain body _)))
  | resource declarators held body =>
      exact .inRegion tells (.seq (.header (·.bindDeclarators _ declarators))
        (.seq (.header (·.bindExpression held)) (visits.plain body _)))
  | switch subject sections =>
      have isSwitch : tree.content? (some statement) = some (.switch subject sections) := by
        rw [StatementTree.content?_eq found, isContent]
      refine .seq (.header (·.bindExpression subject)) (.inRegion tells
        (visits.bindSections isSwitch (fun ref isSection => ?_) 0 sections rfl))
      have listed : ref ∈ node.content.children.map (·.1) := by
        simpa [isContent, StatementContent.children, Function.comp_def] using isSection
      obtain ⟨body, _, isBody, _⟩ := proper.exists_of_child found listed
      exact ⟨body, isBody⟩
  | switchSection labels members =>
      exact .inRegion tells (.seq (.header (·.bindLabels _ labels)) (visits.bindMembers members))
  | labeled label body => exact visits.statement body _ branch tells
  | localDeclaration declarators => exact .header (·.bindDeclarators _ declarators)
  | evaluation value | returning value | throwing value =>
      exact .header (·.bindExpression value)
  | breaking | continuing | empty => exact .pure

end VisitsTelling

private theorem visitsTelling_visit (proper : tree.Proper) (limit levels : Nat) :
    VisitsTelling tree limit (Bind.visit tree levels) := by
  induction levels with
  | zero =>
      -- without a level left no visit succeeds
      constructor
      · intro ref position branch _ before after _ succeeded
        cases succeeded
      · intro head link number span _ before after _ succeeded
        cases succeeded
  | succ levels induction =>
      constructor
      · rintro (_ | statement) position branch tells
        · exact .find fun node absurd => by cases absurd
        · exact .find fun node found => .seq
            (.apply fun binder => binder.stays_recordStatement _ _)
            (.withBleed (induction.bindContent proper found tells rfl))
      · intro head link number span isLink
        exact .seq (.apply fun binder => binder.stays_recordStatement _ _)
          (induction.bindLink proper isLink)

end Bind

/-- Every tag of a scope tree names an alternative and tells whether its body exits. -/
theorem ScopeTree.tells_of_ofStatementTree {tree : StatementTree} {scopes : ScopeTree}
    {settings : ScopeSettings} {id : RegionId} {region : Region} {tag : BranchTag}
    (proper : tree.Proper) (bound : ofStatementTree settings tree = .ok scopes)
    (found : scopes.region? (some id) = some region) (isTag : region.branch = some tag) :
    tag.Tells tree settings.nestingLimit := by
  obtain ⟨node, inside, _, bodyBound, rfl⟩ := exists_bindBody proper bound
  have visits := Bind.visitsTelling_visit proper settings.nestingLimit
  -- before the body is bound there is only the region of the procedure, which has no tag
  have opened : (Binder.opened settings tree node.span).TagsTell tree settings.nestingLimit := by
    refine ⟨by rw [Binder.settings_opened], fun {i region tag} known isTag => ?_⟩
    have first : i = 0 := by
      have bounded := Binder.lt_size_of_shape? known
      rw [Binder.size_opened] at bounded
      exact Nat.lt_one_iff.mp bounded
    rw [first, Binder.shape?_opened] at known
    obtain rfl := Option.some.inj known
    cases isTag
  have keeps : Bind.KeepsTags tree settings.nestingLimit
      (Bind.bindBody tree settings.nestingLimit node.content) := by
    cases node.content with
    | block members => exact (visits _).bindMembers members
    | _ => exact (visits _).plain tree.root .root
  have known : inside.shape? id.index = some region.shape := by
    rw [Binder.shape?, ← Binder.regions_leave]
    exact congrArg (Option.map Region.shape) found
  exact (keeps _ _ opened bodyBound).tag known isTag

end LexicalScope
