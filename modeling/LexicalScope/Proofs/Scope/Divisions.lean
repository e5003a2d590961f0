import LexicalScope.Proofs.Scope.Arms
import LexicalScope.Proofs.Scope.Sites

/-!
# Every visit divides its statement

A visit that succeeds opens a region for each boundary statement that it meets, and for each
conditional the regions of its arms, by induction on the levels that may still be nested. The cases
are those of the kinds of statements. Links of a chain are divided from behind: what the chain shows
from a link on is the region of the link and what it shows behind the link.
-/

namespace LexicalScope

/-- The kind of the region that a statement of a kind opens wherever it stands. -/
def StatementKind.ownRegion? : StatementKind → Option RegionKind
  | .block => some .block
  | .whileLoop | .doLoop | .forLoop | .forEachLoop => some .loop
  | .resource => some .resource
  | .switch => some .switch
  | .switchSection => some .switchSection
  | _ => none

theorem StatementKind.isSome_ownRegion? (kind : StatementKind) :
    kind.ownRegion?.isSome = true ↔ kind.scopeRule = .boundary := by
  cases kind <;> simp [ownRegion?, scopeRule]

namespace ScopeTree

variable {scopes : ScopeTree} {tree : StatementTree} {statement : StatementId}
  {node : StatementNode} {current : RegionRef} {branch : Option BranchTag} {kind : RegionKind}

/-- A scope tree divides a statement: it has a region for each boundary statement among the children
and, if the statement is a conditional, a region beside each other for each arm. -/
structure Divides (scopes : ScopeTree) (tree : StatementTree) (statement : StatementId) :
    Prop where
  child : ∀ {node child}, tree.statement? (some statement) = some node →
    some child ∈ node.content.children.map (·.1) → tree.IsBoundary child →
      scopes.HasBoundary child
  arms : tree.IsConditional statement → ∃ parent, scopes.HasArms tree parent statement 0

/-- A scope tree divides a statement with all that is below it, and has a region for the statement
if that opens one wherever it stands. -/
structure DividesAll (scopes : ScopeTree) (tree : StatementTree) (statement : StatementId) :
    Prop where
  own : tree.OpensAnywhere statement → scopes.HasBoundary statement
  within : ∀ {inner}, tree.IsWithin inner statement → scopes.Divides tree inner

/-- What a scope tree shows of a visited statement: its divisions, and inside the region that was
open its own region with the tag of the visit. -/
structure ShowsVisit (scopes : ScopeTree) (tree : StatementTree) (statement : StatementId)
    (branch : Option BranchTag) (current : RegionRef) : Prop where
  divides : scopes.DividesAll tree statement
  region : ∀ {node kind}, tree.statement? (some statement) = some node →
    node.kind.ownRegion? = some kind → scopes.HasRegion kind statement current branch

/-- What a scope tree shows of a branch of a conditional: its region, its arm and its divisions. -/
structure ShowsBranch (scopes : ScopeTree) (tree : StatementTree) (conditional : StatementId)
    (number : Nat) (body : StatementId) (current : RegionRef) : Prop where
  boundary : scopes.HasBoundary body
  arm : ∀ {inner}, tree.IsWithin inner body → scopes.HasArm tree current conditional number inner
  divides : scopes.DividesAll tree body

/-- What a scope tree shows of a chain from a link on: the region of the link, those of all arms
from there on, and divisions, as soon as the arms of the link itself, if it is the head, are
shown. -/
structure ShowsChain (scopes : ScopeTree) (tree : StatementTree) (head : StatementId)
    (number : Nat) (link : StatementId) (current : RegionRef) : Prop where
  boundary : scopes.HasBoundary link
  arms : scopes.HasArms tree current head number
  divides : (tree.IsConditional link → ∃ parent, scopes.HasArms tree parent link 0) →
    scopes.DividesAll tree link

/-! ## Divisions of a statement from those of its children -/

theorem Divides.of_single (proper : tree.Proper)
    (found : tree.statement? (some statement) = some node)
    (single : ∀ condition thenBody elseBody,
      node.content ≠ .branch condition thenBody (some elseBody))
    (children : ∀ child, some child ∈ node.content.children.map (·.1) →
      scopes.DividesAll tree child)
    (arms : tree.IsConditional statement → ∃ parent, scopes.HasArms tree parent statement 0) :
    scopes.Divides tree statement where
  child known listed isBoundary := by
    obtain rfl := Option.some.inj (found.symm.trans known)
    exact (children _ listed).own (proper.opensAnywhere_of_single found single listed isBoundary)
  arms := arms

theorem DividesAll.of_children (proper : tree.Proper)
    (found : tree.statement? (some statement) = some node)
    (own : tree.OpensAnywhere statement → scopes.HasBoundary statement)
    (divides : scopes.Divides tree statement)
    (children : ∀ child, some child ∈ node.content.children.map (·.1) →
      scopes.DividesAll tree child) : scopes.DividesAll tree statement where
  own := own
  within within := by
    rcases (proper.within_iff found).mp within with rfl | ⟨child, listed, below⟩
    · exact divides
    · exact (children _ listed).within below

namespace ShowsVisit

/-- A statement without a region of its own is shown by its divisions. -/
theorem of_divides (found : tree.statement? (some statement) = some node)
    (noRegion : node.kind.ownRegion? = none) (divides : scopes.DividesAll tree statement) :
    scopes.ShowsVisit tree statement branch current where
  divides := divides
  region known isKind := by
    obtain rfl := Option.some.inj (found.symm.trans known)
    rw [noRegion] at isKind
    cases isKind

theorem of_region (proper : tree.Proper) (found : tree.statement? (some statement) = some node)
    (isKind : node.kind.ownRegion? = some kind)
    (has : scopes.HasRegion kind statement current branch)
    (children : ∀ child, some child ∈ node.content.children.map (·.1) →
      scopes.DividesAll tree child)
    (arms : tree.IsConditional statement → ∃ parent, scopes.HasArms tree parent statement 0) :
    scopes.ShowsVisit tree statement branch current where
  divides := by
    refine .of_children proper found (fun _ => has.hasBoundary)
      (.of_single proper found ?_ children arms) children
    intro condition thenBody elseBody content
    rw [StatementNode.kind, content] at isKind
    cases isKind
  region known isOther := by
    obtain rfl := Option.some.inj (found.symm.trans known)
    obtain rfl := Option.some.inj (isKind.symm.trans isOther)
    exact has

theorem of_single (proper : tree.Proper) (found : tree.statement? (some statement) = some node)
    (noBoundary : node.kind.scopeRule ≠ .boundary)
    (single : ∀ condition thenBody elseBody,
      node.content ≠ .branch condition thenBody (some elseBody))
    (children : ∀ child, some child ∈ node.content.children.map (·.1) →
      scopes.DividesAll tree child) : scopes.ShowsVisit tree statement branch current := by
  refine .of_divides found ?_ (.of_children proper found (fun opens => ?_)
    (.of_single proper found single children fun isConditional => ?_) children)
  · exact Option.not_isSome_iff_eq_none.mp (mt node.kind.isSome_ownRegion?.mp noBoundary)
  · rcases (StatementTree.opensAnywhere_iff found).mp opens with rule | ⟨⟨_, _, _, content⟩, _⟩
    · exact absurd rule noBoundary
    · exact absurd content (single _ _ _)
  · rcases isConditional.content found with isSwitch | ⟨_, _, _, content⟩
    · exact absurd (by rw [isSwitch]; rfl) noBoundary
    · exact absurd content (single _ _ _)

private theorem of_transparent (proper : tree.Proper)
    (found : tree.statement? (some statement) = some node)
    (transparent : node.kind.scopeRule = .transparent)
    (children : ∀ child, some child ∈ node.content.children.map (·.1) →
      scopes.DividesAll tree child) : scopes.ShowsVisit tree statement branch current := by
  refine of_single proper found ?_ ?_ children
  · rw [transparent]
    rintro ⟨⟩
  · intro condition thenBody elseBody content
    rw [StatementNode.kind, content] at transparent
    cases transparent

end ShowsVisit

/-! ### The branches of an `if` -/

section Branches

variable {condition : ExpressionRef} {thenBody : StatementId} {elseBody : StatementRef}

/-- An `if` is divided by its branches: one that is a boundary statement has a region. -/
theorem DividesAll.of_branches (proper : tree.Proper)
    (found : tree.statement? (some statement) = some node)
    (content : node.content = .branch condition (some thenBody) elseBody)
    (own : tree.OpensAnywhere statement → scopes.HasBoundary statement)
    (arms : tree.IsConditional statement → ∃ parent, scopes.HasArms tree parent statement 0)
    (firstBoundary : tree.IsBoundary thenBody → scopes.HasBoundary thenBody)
    (first : scopes.DividesAll tree thenBody)
    (second : ∀ alternative, elseBody = some alternative →
      scopes.HasBoundary alternative ∧ scopes.DividesAll tree alternative) :
    scopes.DividesAll tree statement := by
  refine .of_children proper found own ⟨fun {known child} knownFound listed isBoundary => ?_, arms⟩
    fun child listed => ?_
  · obtain rfl := Option.some.inj (found.symm.trans knownFound)
    rcases eq_of_listed content listed with rfl | same
    · exact firstBoundary isBoundary
    · exact (second child same).1
  · rcases eq_of_listed content listed with rfl | same
    · exact first
    · exact (second child same).2

private theorem ShowsVisit.of_twoWay (proper : tree.Proper) {elseBody : StatementId}
    (found : tree.statement? (some statement) = some node)
    (content : node.content = .branch condition (some thenBody) (some elseBody))
    (twoWay : tree.isTwoWay (some statement) = true)
    (first : scopes.ShowsBranch tree statement 0 thenBody current)
    (second : scopes.ShowsBranch tree statement 1 elseBody current) :
    scopes.ShowsVisit tree statement branch current := by
  have isContent : tree.content? (some statement) =
      some (.branch condition (some thenBody) (some elseBody)) := by
    rw [StatementTree.content?_eq found, content]
  have isBranch : node.kind = .branch := by rw [StatementNode.kind, content]; rfl
  have isHead : tree.IsLink statement 0 statement :=
    .head (by rw [StatementTree.kind?_eq found, isBranch])
  have arms : scopes.HasArms tree current statement 0 := by
    intro further inner _ inArm
    obtain ⟨rfl, ⟨_, chained⟩ | within⟩ | ⟨_, same, _, last⟩ :=
      inArm.cases_of_link proper isHead isContent (Nat.zero_le further)
    · exact absurd chained (proper.not_isChained found content twoWay)
    · exact first.arm within
    · obtain rfl := Option.some.inj same
      obtain ⟨rfl, within⟩ := last ((proper.isTwoWay_iff found content).mp twoWay).1
      exact second.arm within
  refine .of_divides found (by rw [isBranch]; rfl) (.of_branches proper found content
    (fun opens => ?_) (fun _ => ⟨current, arms⟩) (fun _ => first.boundary) first.divides ?_)
  · rcases (StatementTree.opensAnywhere_iff found).mp opens with rule | ⟨_, notTwoWay⟩
    · rw [isBranch] at rule
      cases rule
    · exact absurd twoWay notTwoWay
  · rintro _ ⟨⟩
    exact ⟨second.boundary, second.divides⟩

/-- From a link on a chain is shown by the region of the link and what is shown behind it. -/
theorem ShowsChain.of_link (proper : tree.Proper) {head link : StatementId} {number : Nat}
    {tag : BranchTag} (isLink : tree.IsLink head number link)
    (notTwoWay : ¬ tree.isTwoWay (some link) = true)
    (found : tree.statement? (some link) = some node)
    (content : node.content = .branch condition (some thenBody) elseBody)
    (has : scopes.HasRegion .branch link current (some tag))
    (isConditional : tag.conditional = some head) (isNumber : tag.index = number)
    (first : scopes.DividesAll tree thenBody)
    (behind : ∀ alternative, elseBody = some alternative →
      (scopes.HasBoundary alternative ∧ scopes.DividesAll tree alternative) ∧
        scopes.HasArms tree current head (number + 1)) :
    scopes.ShowsChain tree head number link current where
  boundary := has.hasBoundary
  arms {further inner} further_le inArm := by
    have isContent : tree.content? (some link) =
        some (.branch condition (some thenBody) elseBody) := by
      rw [StatementTree.content?_eq found, content]
    obtain ⟨rfl, inLink⟩ | ⟨alternative, same, less, _⟩ :=
      inArm.cases_of_link proper isLink isContent further_le
    · exact isNumber ▸ has.hasArm_link isConditional isLink isContent (inLink.imp_left And.left)
    · exact (behind alternative same).2 less inArm
  divides arms := .of_branches proper found content (fun _ => has.hasBoundary) arms
    (fun isBoundary => first.own (proper.opensAnywhere_thenBody found content notTwoWay isBoundary))
    first fun alternative same => (behind alternative same).1

end Branches

end ScopeTree

/-! ## Visits -/

namespace Bind

/-- Every visit that succeeds shows its statement, or its chain from a link on. -/
structure ShowsVisits (tree : StatementTree) (visit : Visit → Bind Unit) : Prop where
  statement : ∀ (statement : StatementId) (position : Position) (branch : Option BranchTag),
    Establishes tree (visit (.statement (some statement) position branch)) fun scopes =>
      scopes.ShowsVisit tree statement branch
  link : ∀ {head link : StatementId} {number : Nat} (span : Span),
    tree.IsLink head (number + 1) link →
      Establishes tree (visit (.link (some head) span (number + 1) (some link))) fun scopes =>
        scopes.ShowsChain tree head (number + 1) link

variable {tree : StatementTree} {visit : Visit → Bind Unit} {statement above : StatementId}
  {node : StatementNode} {span : Span} {branch : Option BranchTag} {kind : RegionKind}

private theorem Establishes.ownRegion (proper : tree.Proper) {step : Bind Unit}
    (found : tree.statement? (some statement) = some node)
    (isKind : node.kind.ownRegion? = some kind) (noSwitch : kind ≠ .switch)
    (children : Establishes tree step fun scopes _ =>
      ∀ child, some child ∈ node.content.children.map (·.1) → scopes.DividesAll tree child) :
    Establishes tree (Bind.inRegion kind (some statement) span branch step) fun scopes =>
      scopes.ShowsVisit tree statement branch := by
  have rule : node.kind.scopeRule = .boundary :=
    node.kind.isSome_ownRegion?.mp (by rw [isKind]; rfl)
  have isBoundary := proper.isBoundary_of_opensAnywhere found
    ((StatementTree.opensAnywhere_iff found).mpr (.inl rule))
  refine (Establishes.inRegion isBoundary children).imp ?_
  rintro scopes current ⟨has, _, divides⟩
  refine .of_region proper found isKind has divides fun isConditional => ?_
  rcases isConditional.content found with isSwitch | ⟨_, _, _, content⟩
  · rw [isSwitch] at isKind
    exact absurd (Option.some.inj isKind).symm noSwitch
  · rw [StatementNode.kind, content] at isKind
    cases isKind

/-! ### Children -/

namespace ShowsVisits

variable (visits : ShowsVisits tree visit)

include visits

private theorem bindMembers {members : List StatementRef}
    (exist : ∀ member ∈ members, ∃ id, member = some id) :
    Establishes tree (Bind.bindMembers visit members) fun scopes _ =>
      ∀ child, some child ∈ members → scopes.DividesAll tree child := by
  induction members with
  | nil => exact Establishes.pure.imp fun _ _ _ _ listed => absurd listed List.not_mem_nil
  | cons first rest induction =>
      obtain ⟨id, rfl⟩ := exist first List.mem_cons_self
      refine ((visits.statement id _ none).seq
        (induction fun member isMember => exist member (List.mem_cons_of_mem _ isMember))).imp ?_
      rintro scopes current ⟨shown, others⟩ child listed
      rcases List.mem_cons.mp listed with same | listed
      · obtain rfl := Option.some.inj same
        exact shown.divides
      · exact others child listed

theorem members (proper : tree.Proper) (found : tree.statement? (some statement) = some node)
    {members : List StatementRef} (children : node.content.children.map (·.1) = members) :
    Establishes tree (Bind.bindMembers visit members) fun scopes _ =>
      ∀ child, some child ∈ node.content.children.map (·.1) → scopes.DividesAll tree child := by
  rw [children]
  refine visits.bindMembers fun member isMember => ?_
  obtain ⟨id, _, same, _⟩ := proper.exists_of_child found (children ▸ isMember)
  exact ⟨id, same⟩

theorem onlyChild (proper : tree.Proper) (found : tree.statement? (some statement) = some node)
    {body : StatementRef} (only : node.content.children.map (·.1) = [body])
    (position : Position) (branch : Option BranchTag) :
    Establishes tree (visit (.statement body position branch)) fun scopes _ =>
      ∀ child, some child ∈ node.content.children.map (·.1) → scopes.DividesAll tree child := by
  rw [only]
  obtain ⟨id, _, rfl, _⟩ := proper.exists_of_child found (only ▸ List.mem_singleton_self body)
  refine (visits.statement id position branch).imp fun scopes current shown child listed => ?_
  obtain rfl := Option.some.inj (List.mem_singleton.mp listed)
  exact shown.divides

private theorem bindSections {switch : StatementId} {sections : List StatementRef}
    (exist : ∀ ref ∈ sections, ∃ body inner, ref = some body ∧
      tree.statement? (some body) = some inner ∧ inner.kind = .switchSection) (index : Nat) :
    Establishes tree (Bind.bindSections tree visit (some switch) span index sections)
      fun scopes current => ∀ k body, sections[k]? = some (some body) →
        scopes.DividesAll tree body ∧ ∀ inner, tree.IsWithin inner body →
          scopes.HasArm tree current switch (index + k) inner := by
  induction sections generalizing index with
  | nil => exact Establishes.pure.imp fun _ _ _ k body isSection => by simp at isSection
  | cons first rest induction =>
      obtain ⟨id, node, rfl, found, isKind⟩ := exist first List.mem_cons_self
      refine .branchTag fun tag isConditional isNumber => ?_
      refine ((visits.statement id _ (some tag)).seq
        (induction (fun ref isRef => exist ref (List.mem_cons_of_mem _ isRef)) (index + 1))).imp ?_
      rintro scopes current ⟨shown, others⟩ k body isSection
      cases k with
      | zero =>
          obtain rfl := Option.some.inj (Option.some.inj isSection)
          have has := shown.region found (by rw [isKind]; rfl)
          exact ⟨shown.divides, fun inner within =>
            isNumber ▸ has.hasArm (.inr rfl) isConditional within⟩
      | succ k =>
          rw [Nat.add_comm k 1, ← Nat.add_assoc]
          exact others k body isSection

/-! ### Conditionals -/

theorem bindBranch {conditional body : StatementId} {slot : BodySlot} {tag : BranchTag}
    {number : Nat} (isBoundary : tree.IsBoundary body)
    (noLink : ∀ number, ¬ tree.IsLink conditional number body)
    (isConditional : tag.conditional = some conditional) (isNumber : tag.index = number) :
    Establishes tree (Bind.bindBranch tree visit (some body) slot tag) fun scopes =>
      scopes.ShowsBranch tree conditional number body := by
  subst isNumber
  refine .find fun {node} found => ?_
  split
  next isBlock =>
    refine (visits.statement body _ (some tag)).imp fun scopes current shown => ?_
    have has := shown.region found (by rw [isBlock]; rfl)
    exact ⟨has.hasBoundary, has.hasArm (.inl rfl) isConditional, shown.divides⟩
  next =>
    refine (Establishes.inRegion isBoundary (visits.statement body _ none)).recordAround.imp ?_
    rintro scopes current ⟨has, id, shown⟩
    exact ⟨has.hasBoundary, has.hasArm_around isConditional noLink, shown.divides⟩

/-- What stands behind a link of a chain is shown with its arms: another link, or the last
alternative. -/
theorem behindLink (proper : tree.Proper) {head link elseBody : StatementId} {number : Nat}
    {condition : ExpressionRef} {thenBody : StatementId} (isLink : tree.IsLink head number link)
    (content : tree.content? (some link) =
      some (.branch condition (some thenBody) (some elseBody))) :
    Establishes tree (do
      let alternative ← Bind.find tree (some elseBody)
      if alternative.kind = StatementKind.branch then
        visit (.link (some head) span (number + 1) (some elseBody))
      else
        let tag ← Bind.branchTag tree (some head) (number + 1) (some elseBody) span true
        Bind.bindBranch tree visit (some elseBody) .elseBody tag) fun scopes current =>
      (scopes.HasBoundary elseBody ∧ scopes.DividesAll tree elseBody) ∧
        scopes.HasArms tree current head (number + 1) := by
  have isElse : tree.IsElseBody elseBody := ⟨link, condition, some thenBody, content⟩
  refine .find fun {alternative} found => ?_
  split
  next isBranch =>
    have isNext : tree.IsLink head (number + 1) elseBody :=
      .next isLink content (by rw [StatementTree.kind?_eq found, isBranch])
    refine (visits.link span isNext).imp fun scopes current shown => ?_
    have noArms := isNext.not_isConditional
    exact ⟨⟨shown.boundary, shown.divides fun isConditional => absurd isConditional noArms⟩,
      shown.arms⟩
  next isLast =>
    have notBranch : tree.kind? (some elseBody) ≠ some .branch := by
      rw [StatementTree.kind?_eq found]
      exact fun same => isLast (Option.some.inj same)
    refine .branchTag fun tag isConditional isNumber => ?_
    refine (visits.bindBranch (isElse.isBoundary proper) (fun number isLink =>
      notBranch isLink.kind) isConditional isNumber).imp fun scopes current shown => ?_
    refine ⟨⟨shown.boundary, shown.divides⟩, fun {further inner} behind inArm => ?_⟩
    obtain ⟨same, _⟩ | ⟨_, same, _, last⟩ :=
      inArm.cases_of_link proper isLink content (Nat.le_of_succ_le behind)
    · omega
    · obtain rfl := Option.some.inj same
      obtain ⟨rfl, within⟩ := last notBranch
      exact shown.arm within

theorem bindLink (proper : tree.Proper) {head link : StatementId} {number : Nat}
    (isLink : tree.IsLink head number link) (isBoundary : tree.IsBoundary link)
    (notTwoWay : ¬ tree.isTwoWay (some link) = true) :
    Establishes tree (Bind.bindLink tree visit (some head) span number (some link)) fun scopes =>
      scopes.ShowsChain tree head number link := by
  refine .find fun {node} found => ?_
  have isBranch : node.content.kind = .branch := by
    have kinds := isLink.kind
    rw [StatementTree.kind?_eq found] at kinds
    exact Option.some.inj kinds
  obtain ⟨condition, thenRef, elseRef, content⟩ := exists_branch_of_kind isBranch
  rw [content]
  obtain ⟨thenBody, _, rfl, _⟩ := proper.exists_of_child found (thenBody_listed content)
  have isContent : tree.content? (some link) =
      some (.branch condition (some thenBody) elseRef) := by
    rw [StatementTree.content?_eq found, content]
  refine .branchTag fun tag isConditional isNumber => ?_
  have thenStep : Establishes tree (do
      Bind.apply (·.bindExpression tree condition)
      visit (.statement (some thenBody) (.nested .thenBody) none)) _ :=
    .behind (.header (·.bindExpression condition)) (visits.statement thenBody _ none)
  cases elseRef with
  | none =>
      refine ((Establishes.inRegion isBoundary thenStep).seq .pure).imp ?_
      rintro scopes current ⟨⟨has, id, first⟩, _⟩
      exact .of_link proper isLink notTwoWay found content has isConditional isNumber first.divides
        nofun
  | some elseBody =>
      refine ((Establishes.inRegion isBoundary thenStep).seq
        (visits.behindLink proper isLink isContent)).imp ?_
      rintro scopes current ⟨⟨has, id, first⟩, behind⟩
      refine .of_link proper isLink notTwoWay found content has isConditional isNumber first.divides
        fun alternative same => ?_
      obtain rfl := Option.some.inj same
      exact behind

private theorem bindConditional (proper : tree.Proper) {condition : ExpressionRef}
    {thenRef elseRef : StatementRef} (found : tree.statement? (some statement) = some node)
    (content : node.content = .branch condition thenRef elseRef) :
    Establishes tree (Bind.bindConditional tree visit (some statement) span condition thenRef
      elseRef) fun scopes => scopes.ShowsVisit tree statement branch := by
  have isBranch : node.kind = .branch := by rw [StatementNode.kind, content]; rfl
  obtain ⟨thenBody, _, rfl, _⟩ := proper.exists_of_child found (thenBody_listed content)
  cases elseRef with
  | none =>
      have only : node.content.children.map (·.1) = [some thenBody] := by rw [content]; rfl
      refine (Establishes.behind (.header (·.bindExpression condition)) (.branchTag fun tag _ _ =>
        visits.onlyChild proper found only _ (some tag))).imp fun scopes current children => ?_
      refine .of_single proper found ?_ ?_ children
      · rw [isBranch]
        rintro ⟨⟩
      · rw [content]
        rintro _ _ _ ⟨⟩
  | some elseBody =>
      have isContent : tree.content? (some statement) =
          some (.branch condition (some thenBody) (some elseBody)) := by
        rw [StatementTree.content?_eq found, content]
      have isElse : tree.IsElseBody elseBody := ⟨statement, _, _, isContent⟩
      unfold Bind.bindConditional
      rw [if_neg (by simp)]
      split
      next twoWay =>
        have notBranch := ((proper.isTwoWay_iff found content).mp twoWay).1
        have thenBoundary := proper.isBoundary_thenBody found content twoWay
        have first : ∀ tag : BranchTag, tag.conditional = some statement → tag.index = 0 →
            Establishes tree (Bind.bindBranch tree visit (some thenBody) .thenBody tag)
              fun scopes => scopes.ShowsBranch tree statement 0 thenBody := fun tag =>
          visits.bindBranch thenBoundary
            (StatementTree.not_isLink_thenBody proper isContent notBranch)
        have second : ∀ tag : BranchTag, tag.conditional = some statement → tag.index = 1 →
            Establishes tree (Bind.bindBranch tree visit (some elseBody) .elseBody tag)
              fun scopes => scopes.ShowsBranch tree statement 1 elseBody := fun tag =>
          visits.bindBranch (isElse.isBoundary proper) fun number isLink => notBranch isLink.kind
        refine (Establishes.behind (.header (·.bindExpression condition))
          (.branchTag fun tag isConditional isNumber =>
            (first tag isConditional isNumber).seq (.branchTag second))).imp ?_
        rintro scopes current ⟨firstShown, secondShown⟩
        exact .of_twoWay proper found content twoWay firstShown secondShown
      next notTwoWay =>
        have isHead : tree.IsLink statement 0 statement :=
          .head (by rw [StatementTree.kind?_eq found, isBranch])
        have opens : tree.OpensAnywhere statement :=
          (StatementTree.opensAnywhere_iff found).mpr (.inr ⟨⟨_, _, _, content⟩, notTwoWay⟩)
        refine (visits.bindLink proper isHead (proper.isBoundary_of_opensAnywhere found opens)
          notTwoWay).imp fun scopes current shown => ?_
        exact .of_divides found (by rw [isBranch]; rfl)
          (shown.divides fun _ => ⟨current, shown.arms⟩)

/-! ### Statements -/

private theorem bindSwitch (proper : tree.Proper) {subject : ExpressionRef}
    {sections : List StatementRef} (found : tree.statement? (some statement) = some node)
    (content : node.content = .switch subject sections) :
    Establishes tree (Bind.bindContent tree visit (some statement) span branch node.content)
      fun scopes => scopes.ShowsVisit tree statement branch := by
  have children : node.content.children.map (·.1) = sections := by
    simp [content, StatementContent.children, Function.comp_def]
  have isSwitch : node.kind = .switch := by rw [StatementNode.kind, content]; rfl
  have exist : ∀ ref ∈ sections, ∃ body inner, ref = some body ∧
      tree.statement? (some body) = some inner ∧ inner.kind = .switchSection := by
    intro ref isSection
    obtain ⟨body, inner, rfl, bodyFound, kinds⟩ :=
      proper.exists_of_child found (children ▸ isSection)
    exact ⟨body, inner, rfl, bodyFound, kinds.mpr isSwitch⟩
  have isBoundary := proper.isBoundary_of_opensAnywhere found
    ((StatementTree.opensAnywhere_iff found).mpr (.inl (by rw [isSwitch]; rfl)))
  have isContent : tree.content? (some statement) = some (.switch subject sections) := by
    rw [StatementTree.content?_eq found, content]
  rw [content]
  refine (Establishes.behind (.header (·.bindExpression subject))
    (.inRegion isBoundary (visits.bindSections exist 0))).imp ?_
  rintro scopes current ⟨has, id, shown⟩
  refine .of_region proper found (by rw [isSwitch]; rfl) has (fun child listed => ?_) fun _ =>
    ⟨some id, fun {further inner} _ inArm => ?_⟩
  · obtain ⟨k, isSection⟩ := List.getElem?_of_mem (children ▸ listed)
    exact (shown k child isSection).1
  · obtain ⟨body, isSection, within⟩ := inArm.exists_section isContent
    exact Nat.zero_add further ▸ (shown further body isSection).2 inner within

private theorem bindContent (proper : tree.Proper)
    (found : tree.statement? (some statement) = some node) :
    Establishes tree (Bind.bindContent tree visit (some statement) span branch node.content)
      fun scopes => scopes.ShowsVisit tree statement branch := by
  have kind : node.kind = node.content.kind := rfl
  have leaf : node.kind.scopeRule = .transparent → node.content.children = [] →
      ∀ (scopes : ScopeTree) (current : RegionRef), True →
        scopes.ShowsVisit tree statement branch current := by
    intro transparent childless scopes current _
    refine .of_transparent proper found transparent fun child listed => ?_
    rw [childless] at listed
    exact absurd listed List.not_mem_nil
  cases content : node.content with
  | block members =>
      exact .ownRegion proper found (by rw [kind, content]; rfl) (by rintro ⟨⟩)
        (visits.members proper found
          (by simp [content, StatementContent.children, Function.comp_def]))
  | branch condition thenBody elseBody => exact visits.bindConditional proper found content
  | whileLoop condition body =>
      exact .ownRegion proper found (by rw [kind, content]; rfl) (by rintro ⟨⟩)
        (.behind (.header (·.bindExpression condition))
          (visits.onlyChild proper found (by rw [content]; rfl) _ none))
  | doLoop body condition =>
      exact .ownRegion proper found (by rw [kind, content]; rfl) (by rintro ⟨⟩)
        (((visits.onlyChild proper found (by rw [content]; rfl) _ none).seq
          (.header (·.bindExpression condition))).imp fun _ _ both => both.1)
  | forLoop declarators initializers condition incrementors body =>
      exact .ownRegion proper found (by rw [kind, content]; rfl) (by rintro ⟨⟩)
        (.behind (.header (·.bindDeclarators _ declarators))
          (.behind (.header (·.bindExpressions initializers))
            (.behind (.header (·.bindExpression condition))
              (.behind (.header (·.bindExpressions incrementors))
                (visits.onlyChild proper found (by rw [content]; rfl) _ none)))))
  | forEachLoop element collection body =>
      exact .ownRegion proper found (by rw [kind, content]; rfl) (by rintro ⟨⟩)
        (.behind (.header (·.declare _ _ _ _ _)) (.behind (.header (·.bindExpression collection))
          (visits.onlyChild proper found (by rw [content]; rfl) _ none)))
  | resource declarators held body =>
      exact .ownRegion proper found (by rw [kind, content]; rfl) (by rintro ⟨⟩)
        (.behind (.header (·.bindDeclarators _ declarators))
          (.behind (.header (·.bindExpression held))
            (visits.onlyChild proper found (by rw [content]; rfl) _ none)))
  | switch subject sections => exact content ▸ visits.bindSwitch proper found content
  | switchSection labels members =>
      exact .ownRegion proper found (by rw [kind, content]; rfl) (by rintro ⟨⟩)
        (.behind (.header (·.bindLabels _ labels)) (visits.members proper found
          (by simp [content, StatementContent.children, Function.comp_def])))
  | labeled label body =>
      refine (visits.onlyChild proper found (by rw [content]; rfl) _ branch).imp ?_
      exact fun scopes current => .of_transparent proper found (by rw [kind, content]; rfl)
  | localDeclaration declarators =>
      exact (Establishes.header (·.bindDeclarators _ declarators)).imp
        (leaf (by rw [kind, content]; rfl) (by rw [content]; rfl))
  | evaluation expression | returning expression | throwing expression =>
      exact (Establishes.header (·.bindExpression expression)).imp
        (leaf (by rw [kind, content]; rfl) (by rw [content]; rfl))
  | breaking | continuing | empty =>
      exact Establishes.pure.imp (leaf (by rw [kind, content]; rfl) (by rw [content]; rfl))

end ShowsVisits

private theorem showsVisits_visit (proper : tree.Proper) (levels : Nat) :
    ShowsVisits tree (Bind.visit tree levels) := by
  induction levels with
  | zero =>
      constructor
      · intro statement position branch
        exact ⟨fun absurd => by cases absurd⟩
      · intro head link number span _
        exact ⟨fun absurd => by cases absurd⟩
  | succ levels induction =>
      constructor
      · intro statement position branch
        refine .find fun found => ?_
        exact .behind (.apply fun binder => binder.stays_recordStatement _ _)
          (.withBleed (induction.bindContent proper found))
      · intro head link number span isLink
        refine .behind (.apply fun binder => binder.stays_recordStatement _ _) ?_
        obtain ⟨node, found⟩ : ∃ node, tree.statement? (some link) = some node := by
          obtain ⟨node, found, _⟩ := Option.map_eq_some_iff.mp isLink.kind
          exact ⟨node, found⟩
        exact induction.bindLink proper isLink (isLink.isElseBody.isBoundary proper)
          (isLink.isElseBody.not_isTwoWay proper found)

private theorem establishes_bindBody (proper : tree.Proper) (limit : Nat)
    (found : tree.statement? (some ⟨0⟩) = some node) :
    Establishes tree (Bind.bindBody tree limit node.content) fun scopes _ =>
      ∀ inner, tree.IsWithin inner ⟨0⟩ → scopes.Divides tree inner := by
  have visits := showsVisits_visit proper
  cases content : node.content with
  | block members =>
      have single : ∀ condition thenBody elseBody,
          node.content ≠ .branch condition thenBody (some elseBody) := by
        rw [content]
        rintro _ _ _ ⟨⟩
      have noArms : ¬ tree.IsConditional ⟨0⟩ := fun isConditional => by
        rcases isConditional.content found with isSwitch | ⟨_, _, _, isBranch⟩
        · rw [StatementNode.kind, content] at isSwitch
          cases isSwitch
        · exact single _ _ _ isBranch
      refine ((visits limit).members proper found
        (by simp [content, StatementContent.children, Function.comp_def])).imp
          fun scopes _ children inner within => ?_
      rcases (proper.within_iff found).mp within with rfl | ⟨child, listed, below⟩
      · exact .of_single proper found single children fun absurd => (noArms absurd).elim
      · exact (children child listed).within below
  | _ =>
      change Establishes tree (Bind.visit tree _ (.statement tree.root .root none)) _
      rw [proper.root]
      exact ((visits _).statement ⟨0⟩ .root none).imp fun scopes _ shown _ => shown.divides.within

end Bind

namespace ScopeTree

variable {tree : StatementTree} {scopes : ScopeTree} {settings : ScopeSettings}
  {statement : StatementId} {node : StatementNode} {id : RegionId} {region : Region}

theorem exists_adds (proper : tree.Proper) (bound : ofStatementTree settings tree = .ok scopes) :
    ∃ before after, before.regions.size = 1 ∧ scopes.regions = after.regions ∧
      scopes.Shows after ∧ Binder.Adds tree before after fun scopes _ =>
        ∀ inner, tree.IsWithin inner ⟨0⟩ → scopes.Divides tree inner := by
  obtain ⟨node, inside, found, bodyBound, rfl⟩ := exists_bindBody proper bound
  exact ⟨_, inside, Binder.size_opened settings tree node.span, Binder.regions_leave,
    shows_scopeTree inside tree.name,
    (Bind.establishes_bindBody proper settings.nestingLimit found).adds bodyBound⟩

/-- The scope tree of a procedure divides all its statements. -/
theorem divides_of_ofStatementTree (proper : tree.Proper)
    (bound : ofStatementTree settings tree = .ok scopes)
    (found : tree.statement? (some statement) = some node) : scopes.Divides tree statement := by
  obtain ⟨before, after, _, _, shows, adds⟩ := exists_adds proper bound
  exact adds.fact scopes shows statement (proper.within_root found)

/-- Every region but that of the procedure is opened by a boundary statement. -/
theorem exists_isBoundary_of_region (proper : tree.Proper)
    (bound : ofStatementTree settings tree = .ok scopes)
    (found : scopes.region? (some id) = some region) (notRoot : id ≠ ⟨0⟩) :
    ∃ statement, region.boundary = some statement ∧ tree.IsBoundary statement := by
  obtain ⟨before, after, size, regions, _, adds⟩ := exists_adds proper bound
  have bounded : id.index < after.regions.size :=
    regions ▸ (Array.getElem?_eq_some_iff.mp found).1
  have behind : before.regions.size ≤ id.index := by
    rw [size]
    exact Nat.one_le_iff_ne_zero.mpr fun isZero => notRoot (congrArg RegionId.mk isZero)
  obtain ⟨shape, statement, isShape, isBoundary, classified⟩ :=
    adds.boundary id.index behind bounded
  refine ⟨statement, ?_, classified⟩
  have known : after.regions[id.index]? = some region := regions ▸ found
  rw [Binder.shape?, known] at isShape
  obtain rfl := Option.some.inj isShape
  exact isBoundary

end ScopeTree

end LexicalScope
