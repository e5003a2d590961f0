import LexicalScope.Proofs.Scope.Fitting
import LexicalScope.Proofs.Scope.Sites

/-!
# When binding succeeds

A step of binding succeeds from every binder or from none: regions, declarations and records have no
part in it. A statement is bound just if it fits into the levels that are left, so a procedure is
bound just if its body fits below the nesting limit.
-/

namespace LexicalScope

namespace Bind

variable {tree : StatementTree} {visit : Visit → Bind Unit} {step next : Bind Unit}
  {condition other : Prop} {levels : Nat} {ref : StatementRef} {node : StatementNode}

/-- A step succeeds just under a condition, whatever the binder has met. -/
def SucceedsIff (step : Bind Unit) (condition : Prop) : Prop :=
  ∀ before, (∃ after, step before = .ok () after) ↔ condition

namespace SucceedsIff

theorem pure : SucceedsIff (Pure.pure ()) True := fun before =>
  ⟨fun _ => trivial, fun _ => ⟨before, rfl⟩⟩

theorem apply {change : Binder → Binder} : SucceedsIff (Bind.apply change) True := fun before =>
  ⟨fun _ => trivial, fun _ => ⟨change before, rfl⟩⟩

theorem imp (succeeds : SucceedsIff step condition) (same : condition ↔ other) :
    SucceedsIff step other := fun before => (succeeds before).trans same

theorem seq (first : SucceedsIff step condition) (second : SucceedsIff next other) :
    SucceedsIff (do step; next) (condition ∧ other) := by
  intro before
  constructor
  · rintro ⟨after, succeeded⟩
    obtain ⟨_, between, stepped, continued⟩ := Step.bind_eq_ok.mp succeeded
    exact ⟨(first before).mp ⟨between, stepped⟩, (second between).mp ⟨after, continued⟩⟩
  · rintro ⟨holds, holdsToo⟩
    obtain ⟨between, stepped⟩ := (first before).mpr holds
    obtain ⟨after, continued⟩ := (second between).mpr holdsToo
    exact ⟨after, Step.bind_eq_ok.mpr ⟨(), between, stepped, continued⟩⟩

theorem behind {change : Binder → Binder} (succeeds : SucceedsIff next condition) :
    SucceedsIff (do Bind.apply change; next) condition :=
  (apply.seq succeeds).imp ⟨And.right, fun holds => ⟨trivial, holds⟩⟩

theorem find {next : StatementNode → Bind Unit} {condition : StatementNode → Prop}
    (succeeds : ∀ node, tree.statement? ref = some node →
      SucceedsIff (next node) (condition node)) :
    SucceedsIff (Bind.find tree ref >>= next)
      (∃ node, tree.statement? ref = some node ∧ condition node) := by
  intro before
  constructor
  · rintro ⟨after, succeeded⟩
    obtain ⟨node, between, looked, continued⟩ := Step.bind_eq_ok.mp succeeded
    obtain ⟨found, rfl⟩ := find_eq_ok.mp looked
    exact ⟨node, found, (succeeds node found before).mp ⟨after, continued⟩⟩
  · rintro ⟨node, found, holds⟩
    obtain ⟨after, continued⟩ := (succeeds node found before).mpr holds
    exact ⟨after, Step.bind_eq_ok.mpr ⟨node, before, find_eq_ok.mpr ⟨found, rfl⟩, continued⟩⟩

private theorem found {next : StatementNode → Bind Unit} (found : tree.statement? ref = some node)
    (succeeds : SucceedsIff (next node) condition) :
    SucceedsIff (Bind.find tree ref >>= next) condition := by
  have looked : SucceedsIff (Bind.find tree ref >>= next)
      (∃ known, tree.statement? ref = some known ∧ condition) := by
    refine .find fun known isKnown => ?_
    obtain rfl := Option.some.inj (found.symm.trans isKnown)
    exact succeeds
  exact looked.imp ⟨fun ⟨_, _, holds⟩ => holds, fun holds => ⟨node, found, holds⟩⟩

theorem branchTag {conditional body : StatementRef} {index : Nat} {span : Span} {breakExits : Bool}
    {next : BranchTag → Bind Unit} (succeeds : ∀ tag, SucceedsIff (next tag) condition) :
    SucceedsIff (Bind.branchTag tree conditional index body span breakExits >>= next)
      condition := by
  intro before
  constructor
  · rintro ⟨after, succeeded⟩
    obtain ⟨tag, between, _, continued⟩ := Step.bind_eq_ok.mp succeeded
    exact (succeeds tag between).mp ⟨after, continued⟩
  · intro holds
    obtain ⟨after, continued⟩ := (succeeds _ before).mpr holds
    exact ⟨after, Step.bind_eq_ok.mpr ⟨_, before, branchTag_eq_ok.mpr ⟨rfl, rfl⟩, continued⟩⟩

theorem inRegion {kind : RegionKind} {boundary : StatementRef} {span : Span}
    {branch : Option BranchTag} (succeeds : SucceedsIff step condition) :
    SucceedsIff (Bind.inRegion kind boundary span branch step) condition := by
  intro before
  rw [← succeeds (before.enter kind boundary span branch)]
  exact ⟨fun ⟨_, succeeded⟩ => (inRegion_eq_ok.mp succeeded).imp fun _ both => both.1,
    fun ⟨inside, stepped⟩ => ⟨_, inRegion_eq_ok.mpr ⟨inside, stepped, rfl⟩⟩⟩

private theorem withBleed {added : Bool} (succeeds : SucceedsIff step condition) :
    SucceedsIff (Bind.withBleed added step) condition := by
  intro before
  constructor
  · rintro ⟨after, succeeded⟩
    obtain ⟨depth, inside, stepped, _⟩ := withBleed_eq_ok.mp succeeded
    exact (succeeds _).mp ⟨inside, stepped⟩
  · intro holds
    obtain ⟨inside, stepped⟩ := (succeeds _).mpr holds
    exact ⟨_, withBleed_eq_ok.mpr ⟨_, inside, stepped, rfl, rfl⟩⟩

private theorem recordAround (succeeds : SucceedsIff step condition) :
    SucceedsIff (Bind.recordAround ref step) condition := by
  intro before
  rw [← succeeds before]
  exact ⟨fun ⟨_, succeeded⟩ => (recordAround_eq_ok.mp succeeded).imp fun _ both => both.1,
    fun ⟨inside, stepped⟩ => ⟨_, recordAround_eq_ok.mpr ⟨inside, stepped, rfl⟩⟩⟩

end SucceedsIff

/-! ## Visits -/

/-- Visits succeed just where statements fit into a number of levels. A link can be visited only
where there is an `if`. -/
structure VisitsFitting (tree : StatementTree) (levels : Nat) (visit : Visit → Bind Unit) :
    Prop where
  statement : ∀ (ref : StatementRef) (position : Position) (branch : Option BranchTag),
    SucceedsIff (visit (.statement ref position branch)) (tree.Fits levels ref)
  link : ∀ (head : StatementRef) (span : Span) (index : Nat) (ref : StatementRef),
    tree.kind? ref = some .branch →
      SucceedsIff (visit (.link head span index ref)) (tree.Fits levels ref)

namespace VisitsFitting

variable (visits : VisitsFitting tree levels visit)
include visits

theorem bindMembers (members : List StatementRef) :
    SucceedsIff (Bind.bindMembers visit members) (∀ member ∈ members, tree.Fits levels member) := by
  induction members with
  | nil => exact SucceedsIff.pure.imp (by simp)
  | cons first rest induction =>
      exact ((visits.statement first _ _).seq induction).imp List.forall_mem_cons.symm

private theorem bindSections (switch : StatementRef) (span : Span) (sections : List StatementRef)
    (index : Nat) :
    SucceedsIff (Bind.bindSections tree visit switch span index sections)
      (∀ member ∈ sections, tree.Fits levels member) := by
  induction sections generalizing index with
  | nil => exact SucceedsIff.pure.imp (by simp)
  | cons first rest induction =>
      exact .branchTag fun tag =>
        ((visits.statement first _ _).seq (induction _)).imp List.forall_mem_cons.symm

theorem bindBranch (body : StatementRef) (slot : BodySlot) (tag : BranchTag) :
    SucceedsIff (Bind.bindBranch tree visit body slot tag) (tree.Fits levels body) := by
  have found : SucceedsIff (Bind.bindBranch tree visit body slot tag)
      (∃ node, tree.statement? body = some node ∧ tree.Fits levels body) := by
    refine .find fun node _ => ?_
    split
    · exact visits.statement body _ _
    · exact .recordAround (.inRegion (visits.statement body _ _))
  exact found.imp ⟨fun ⟨_, _, fits⟩ => fits, fun fits =>
    fits.exists_node.imp fun _ isNode => ⟨isNode, fits⟩⟩

theorem bindLink (head : StatementRef) (span : Span) (index : Nat)
    {condition : ExpressionRef} {thenBody elseBody : StatementRef}
    (found : tree.statement? ref = some node)
    (content : node.content = .branch condition thenBody elseBody) :
    SucceedsIff (Bind.bindLink tree visit head span index ref)
      (∀ child ∈ (StatementContent.branch condition thenBody elseBody).children,
        tree.Fits levels child.1) := by
  have thenStep : ∀ tag covered, SucceedsIff (Bind.inRegion .branch ref covered (some tag) (do
      Bind.apply (·.bindExpression tree condition)
      visit (.statement thenBody (.nested .thenBody) none))) (tree.Fits levels thenBody) :=
    fun tag covered => .inRegion (.behind (visits.statement thenBody _ none))
  refine .found found ?_
  rw [content]
  refine .branchTag fun tag => ?_
  cases elseBody with
  | none =>
      exact ((thenStep tag _).seq .pure).imp (by simp [StatementContent.children])
  | some elseBody =>
      have elseStep : SucceedsIff (do
          let alternative ← Bind.find tree (some elseBody)
          if alternative.kind = .branch then
            visit (.link head span (index + 1) (some elseBody))
          else
            let tag ← Bind.branchTag tree head (index + 1) (some elseBody) span true
            Bind.bindBranch tree visit (some elseBody) .elseBody tag)
          (∃ node, tree.statement? (some elseBody) = some node ∧
            tree.Fits levels (some elseBody)) := by
        refine .find fun alternative elseFound => ?_
        split
        next isBranch =>
          exact visits.link head span _ _ (by rw [StatementTree.kind?_eq elseFound, isBranch])
        next => exact .branchTag fun tag => visits.bindBranch _ _ tag
      refine ((thenStep tag _).seq elseStep).imp ?_
      simp only [StatementContent.children, List.forall_mem_cons, List.not_mem_nil,
        false_implies, implies_true, and_true]
      exact and_congr_right' ⟨fun ⟨_, _, fits⟩ => fits, fun fits =>
        fits.exists_node.imp fun _ isNode => ⟨isNode, fits⟩⟩

private theorem bindConditional (span : Span) {condition : ExpressionRef}
    {thenBody elseBody : StatementRef} (found : tree.statement? ref = some node)
    (content : node.content = .branch condition thenBody elseBody) :
    SucceedsIff (Bind.bindConditional tree visit ref span condition thenBody elseBody)
      (∀ child ∈ (StatementContent.branch condition thenBody elseBody).children,
        tree.Fits levels child.1) := by
  cases elseBody with
  | none =>
      exact (SucceedsIff.behind (.branchTag fun tag => visits.statement thenBody _ _)).imp
        (by simp [StatementContent.children])
  | some elseBody =>
      unfold Bind.bindConditional
      rw [if_neg (by simp)]
      split
      next =>
        refine (SucceedsIff.behind (.branchTag fun tag =>
          (visits.bindBranch thenBody .thenBody tag).seq (.branchTag fun tag =>
            visits.bindBranch (some elseBody) .elseBody tag))).imp ?_
        simp [StatementContent.children]
      next => exact visits.bindLink ref span 0 found content

private theorem bindContent (span : Span) (branch : Option BranchTag)
    (found : tree.statement? ref = some node) {content : StatementContent}
    (isContent : node.content = content) :
    SucceedsIff (Bind.bindContent tree visit ref span branch content)
      (∀ child ∈ content.children, tree.Fits levels child.1) := by
  have only : ∀ {body : StatementRef} {position : Position} (tag : Option BranchTag),
      SucceedsIff (visit (.statement body position tag))
        (∀ child ∈ [(body, position)], tree.Fits levels child.1) :=
    fun tag => (visits.statement _ _ tag).imp (by simp)
  have members : ∀ members : List StatementRef, SucceedsIff (Bind.bindMembers visit members)
      (∀ child ∈ members.map (·, Position.member), tree.Fits levels child.1) :=
    fun statements => (visits.bindMembers statements).imp (by simp)
  have leaf : ∀ {step : Bind Unit}, SucceedsIff step True →
      SucceedsIff step (∀ child ∈ ([] : List (StatementRef × Position)),
        tree.Fits levels child.1) := fun succeeds => succeeds.imp (by simp)
  cases content with
  | block statements => exact .inRegion (members statements)
  | branch condition thenBody elseBody => exact visits.bindConditional span found isContent
  | whileLoop condition body => exact .inRegion (.behind (only none))
  | doLoop body condition =>
      exact .inRegion (((only none).seq .apply).imp (and_iff_left trivial))
  | forLoop declarators initializers condition incrementors body =>
      exact .inRegion (.behind (.behind (.behind (.behind (only none)))))
  | forEachLoop element collection body => exact .inRegion (.behind (.behind (only none)))
  | resource declarators held body => exact .inRegion (.behind (.behind (only none)))
  | switch subject sections =>
      exact .behind (.inRegion ((visits.bindSections ref span sections 0).imp
        (by simp [StatementContent.children])))
  | switchSection labels statements => exact .inRegion (.behind (members statements))
  | labeled label body => exact only branch
  | localDeclaration _ | evaluation _ | returning _ | throwing _ => exact leaf .apply
  | breaking | continuing | empty => exact leaf .pure

end VisitsFitting

/-- Visits succeed just where statements fit into the levels that are left. -/
theorem visitsFitting_visit (tree : StatementTree) (levels : Nat) :
    VisitsFitting tree levels (Bind.visit tree levels) := by
  induction levels with
  | zero =>
      have fails : ∀ todo, SucceedsIff (Bind.visit tree 0 todo) False :=
        fun todo before => ⟨fun ⟨_, absurd⟩ => (by cases absurd), False.elim⟩
      exact ⟨fun ref position branch => fails _, fun head span index ref _ => fails _⟩
  | succ levels induction =>
      constructor
      · intro ref position branch
        exact .find fun node found => .behind (.withBleed (induction.bindContent _ _ found rfl))
      · intro head span index ref isBranch
        obtain ⟨node, found, isKind⟩ := Option.map_eq_some_iff.mp isBranch
        obtain ⟨condition, thenBody, elseBody, content⟩ := exists_branch_of_kind isKind
        refine (SucceedsIff.behind (induction.bindLink head span index found content)).imp ?_
        rw [StatementTree.fits_succ_iff found, content]

private theorem succeedsIff_bindBody (found : tree.statement? tree.root = some node) (limit : Nat) :
    SucceedsIff (Bind.bindBody tree limit node.content) (tree.Fits (limit + 1) tree.root) := by
  have visits := visitsFitting_visit tree
  cases content : node.content with
  | block members =>
      intro before
      rw [StatementTree.fits_succ_iff found, content]
      exact ((visits limit).bindMembers members).imp (by simp [StatementContent.children]) before
  | _ => exact (visits (limit + 1)).statement tree.root .root none

end Bind

/-- A tree whose references agree is bound by binding its body in the region of the procedure. -/
theorem ScopeTree.ofStatementTree_eq {tree : StatementTree} {node : StatementNode}
    (settings : ScopeSettings) (linked : tree.checkLinks = .ok ())
    (found : tree.statement? tree.root = some node) :
    ofStatementTree settings tree =
      match Bind.bindBody tree settings.nestingLimit node.content
        (.opened settings tree node.span) with
      | .ok () inside => .ok (inside.leave.scopeTree tree.name)
      | .error failure _ => .error failure := by
  have looked : Bind.find tree tree.root
      (.blank settings tree.statements.size tree.expressions.size) =
        .ok node (.blank settings tree.statements.size tree.expressions.size) :=
    Bind.find_eq_ok.mpr ⟨found, rfl⟩
  have bound : Bind.bindProcedure tree
      (.blank settings tree.statements.size tree.expressions.size) =
        match Bind.bindBody tree settings.nestingLimit node.content
          (.opened settings tree node.span) with
        | .ok () inside => .ok () inside.leave
        | .error failure inside => .error failure inside.leave := by
    change EStateM.bind (Bind.find tree tree.root) _ _ = _
    rw [EStateM.bind, looked]
    change Bind.inRegion .root tree.root node.span none _ _ = _
    unfold Bind.inRegion
    change (match Bind.bindBody tree (Binder.opened settings tree node.span).settings.nestingLimit
      node.content (.opened settings tree node.span) with
        | .ok () inside => EStateM.Result.ok () inside.leave
        | .error failure inside => .error failure inside.leave) = _
    rw [Binder.settings_opened]
  have start : (Binder.new settings).reset.sized tree.statements.size tree.expressions.size =
      .blank settings tree.statements.size tree.expressions.size := Binder.sized_reset ..
  rw [ofStatementTree, Binder.bind, linked]
  dsimp only
  rw [start, bound]
  cases Bind.bindBody tree settings.nestingLimit node.content
      (.opened settings tree node.span) <;> rfl

/-- A tree whose references agree is bound just if its body fits below the nesting limit. -/
theorem ScopeTree.exists_ofStatementTree_iff {tree : StatementTree} {node : StatementNode}
    (settings : ScopeSettings) (linked : tree.checkLinks = .ok ())
    (found : tree.statement? tree.root = some node) :
    (∃ scopes, ofStatementTree settings tree = .ok scopes) ↔
      tree.Fits (settings.nestingLimit + 1) tree.root := by
  rw [ofStatementTree_eq settings linked found,
    ← Bind.succeedsIff_bindBody found settings.nestingLimit (.opened settings tree node.span)]
  cases Bind.bindBody tree settings.nestingLimit node.content
      (.opened settings tree node.span) with
  | ok _ inside => exact ⟨fun _ => ⟨inside, rfl⟩, fun _ => ⟨_, rfl⟩⟩
  | error failure inside =>
      exact ⟨fun ⟨_, absurd⟩ => (by cases absurd), fun ⟨_, absurd⟩ => (by cases absurd)⟩

end LexicalScope
