import LexicalScope.Procedure.Build
import LexicalScope.Proofs.Scope.Arms
import LexicalScope.Proofs.Scope.Sites
import LexicalScope.Proofs.Scope.Tally

/-!
# Unbraced bodies around a declaration

The depth of a declaration is the number of unbraced bodies from its statement up to the boundary of
its region. The subject of a switch is an exception: it belongs to the region around the switch, but
the switch opens a region itself, so that it is not counted even where it is an unbraced body.
-/

namespace LexicalScope

namespace Bind

variable {tree : StatementTree} {visit : Visit → Bind Unit}
  {condition : StatementId → Nat → Prop} {statement body : StatementId} {node : StatementNode}
  {span : Span} {branch : Option BranchTag}

/-! ## Visits -/

/-- Visits keep the depths of declarations right: of a child where the unbraced bodies of its parent
are counted, of any statement alone in a region, and of blocks and links, which open their regions,
from anywhere. -/
structure VisitsTallying (tree : StatementTree) (visit : Visit → Bind Unit) : Prop where
  child : ∀ {upper body : StatementId} {node : StatementNode} {position : Position}
    (branch : Option BranchTag), tree.statement? (some upper) = some node →
      (some body, position) ∈ node.content.children → position ≠ .nested .elseBody →
      (position = .nested .thenBody → ¬ tree.isTwoWay (some upper) = true) →
        Tallies tree (tree.Measures upper) (visit (.statement (some body) position branch))
  alone : ∀ {body : StatementId} {position : Position} (branch : Option BranchTag),
    (tree.classify (some body) position).addsBleedLevel = false →
      Tallies tree (Starts body) (visit (.statement (some body) position branch))
  block : ∀ {body : StatementId} (position : Position) (branch : Option BranchTag)
    (condition : StatementId → Nat → Prop), tree.kind? (some body) = some .block →
      Tallies tree condition (visit (.statement (some body) position branch))
  link : ∀ {link : StatementId} (head : StatementRef) (span : Span) (index : Nat)
    (condition : StatementId → Nat → Prop), tree.IsElseBody link →
      tree.kind? (some link) = some .branch →
        Tallies tree condition (visit (.link head span index (some link)))

namespace VisitsTallying

variable (visits : VisitsTallying tree visit)
include visits

theorem plain (proper : tree.Proper) (found : tree.statement? (some statement) = some node)
    (notBranch : node.kind ≠ .branch) {ref : StatementRef} {position : Position}
    (listed : (ref, position) ∈ node.content.children) (branch : Option BranchTag) :
    Tallies tree (tree.Measures statement) (visit (.statement ref position branch)) := by
  obtain ⟨body, _, rfl, _⟩ := proper.exists_of_child found (List.mem_map_of_mem listed)
  have single : ∀ condition thenBody elseBody,
      node.content ≠ .branch condition thenBody (some elseBody) := fun _ _ _ content =>
    notBranch (by rw [StatementNode.kind, content]; rfl)
  refine visits.child branch found listed ?_ fun _ => StatementTree.not_isTwoWay found single
  rintro rfl
  obtain ⟨_, _, content⟩ := StatementTree.branch_of_mem_children listed
  exact single _ _ _ content

theorem bindMembers (proper : tree.Proper)
    (found : tree.statement? (some statement) = some node) (notBranch : node.kind ≠ .branch)
    {members : List StatementRef}
    (listed : ∀ ref ∈ members, (ref, .member) ∈ node.content.children) :
    Tallies tree (tree.Measures statement) (Bind.bindMembers visit members) := by
  induction members with
  | nil => exact .pure
  | cons first rest induction =>
      exact .seq (visits.plain proper found notBranch (listed first List.mem_cons_self) none)
        (induction fun ref member => listed ref (List.mem_cons_of_mem _ member))

private theorem bindSections (proper : tree.Proper)
    (found : tree.statement? (some statement) = some node) (notBranch : node.kind ≠ .branch)
    {sections : List StatementRef}
    (listed : ∀ ref ∈ sections, (ref, .member) ∈ node.content.children) (switch : StatementRef)
    (index : Nat) :
    Tallies tree (tree.Measures statement)
      (Bind.bindSections tree visit switch span index sections) := by
  induction sections generalizing index with
  | nil => exact .pure
  | cons first rest induction =>
      exact .branchTag fun tag =>
        .seq (visits.plain proper found notBranch (listed first List.mem_cons_self) (some tag))
          (induction (fun ref member => listed ref (List.mem_cons_of_mem _ member)) (index + 1))

theorem bindBranch {slot : BodySlot} {tag : BranchTag}
    (isBoundary : (tree.classify (some body) (.nested slot)).isBoundary = true) :
    Tallies tree condition (Bind.bindBranch tree visit (some body) slot tag) := by
  refine .find fun node found => ?_
  split
  next isBlock => exact visits.block _ _ _ (by rw [StatementTree.kind?_eq found, isBlock])
  next =>
    exact .recordAround (.inRegion
      (visits.alone none (Classification.addsBleedLevel_eq_false isBoundary)))

theorem bindElse (proper : tree.Proper) {elseBody : StatementId} {value : ExpressionRef}
    {thenRef : StatementRef} (found : tree.statement? (some statement) = some node)
    (content : node.content = .branch value thenRef (some elseBody)) {tag : BranchTag} :
    Tallies tree condition (Bind.bindBranch tree visit (some elseBody) .elseBody tag) := by
  obtain ⟨_, _, same, elseFound, _⟩ := proper.exists_of_child found (elseBody_listed content)
  obtain rfl := Option.some.inj same
  exact visits.bindBranch ((StatementTree.isBoundary_classify elseFound).mpr (.inl rfl))

theorem bindLink (proper : tree.Proper) {link : StatementId}
    (isBranch : tree.kind? (some link) = some .branch)
    (notTwoWay : ¬ tree.isTwoWay (some link) = true) (head : StatementRef) (index : Nat) :
    Tallies tree condition (Bind.bindLink tree visit head span index (some link)) := by
  refine .find fun node found => ?_
  obtain ⟨value, thenRef, elseRef, content⟩ := exists_branch_of_kind
    (Option.some.inj ((StatementTree.kind?_eq found).symm.trans isBranch))
  have listed := StatementTree.thenBody_mem_children content
  obtain ⟨thenBody, _, rfl, _⟩ := proper.exists_of_child found (List.mem_map_of_mem listed)
  have inside : Tallies tree (Starts link) (do
      Bind.apply (·.bindExpression tree value)
      visit (.statement (some thenBody) (.nested .thenBody) none)) :=
    .seq (.starting (.expression proper found (by simp [content,
        StatementContent.expressionSlots])))
      (.startingBelow (visits.child none found listed (by decide) fun _ => notTwoWay))
  rw [content]
  refine .branchTag fun tag => .seq (.inRegion inside) ?_
  cases elseRef with
  | none => exact .pure
  | some elseBody =>
      refine .find fun alternative elseFound => ?_
      split
      next isIf =>
        exact visits.link _ _ _ _ ⟨_, _, _, by rw [StatementTree.content?_eq found, content]⟩
          (by rw [StatementTree.kind?_eq elseFound, isIf])
      next => exact .branchTag fun tag => visits.bindElse proper found content

private theorem bindConditional (proper : tree.Proper) {value : ExpressionRef}
    {thenRef elseRef : StatementRef} (found : tree.statement? (some statement) = some node)
    (content : node.content = .branch value thenRef elseRef) :
    Tallies tree (tree.CountsHeader statement)
      (Bind.bindConditional tree visit (some statement) span value thenRef elseRef) := by
  have isBranch : tree.kind? (some statement) = some .branch := by
    rw [StatementTree.kind?_eq found, StatementNode.kind, content]
    rfl
  have notSwitch : tree.kind? (some statement) ≠ some .switch := by
    rw [isBranch]
    decide
  have listed := StatementTree.thenBody_mem_children content
  obtain ⟨thenBody, _, rfl, thenFound, _⟩ :=
    proper.exists_of_child found (List.mem_map_of_mem listed)
  have header : Tallies tree (tree.Counts statement)
      (Bind.apply (·.bindExpression tree value)) :=
    .expression proper found (by simp [content, StatementContent.expressionSlots])
  cases elseRef with
  | none =>
      have around := StatementTree.bindsAround_of_branch found content (by rintro ⟨⟩)
      have notTwoWay : ¬ tree.isTwoWay (some statement) = true :=
        StatementTree.not_isTwoWay found (by rw [content]; rintro _ _ _ ⟨⟩)
      refine .mono ?_ fun _ _ counts => counts around
      exact .seq header (.branchTag fun tag =>
        (visits.child (some tag) found listed (by decide) fun _ => notTwoWay).mono
          fun _ _ counts => counts.measures notSwitch)
  | some elseBody =>
      unfold Bind.bindConditional
      rw [if_neg (by simp)]
      split
      next twoWay =>
        have around := StatementTree.bindsAround_of_branch found content fun _ => twoWay
        have isBoundary : (tree.classify (some thenBody) (.nested .thenBody)).isBoundary = true :=
          (StatementTree.isBoundary_classify thenFound).mpr (.inr (.inl ⟨rfl, by
            rw [← StatementTree.parent_eq thenFound,
              proper.parent_of_child found (List.mem_map_of_mem listed), twoWay]⟩))
        refine .mono ?_ fun _ _ counts => counts around
        exact .seq header (.branchTag fun tag => .seq (visits.bindBranch isBoundary)
          (.branchTag fun tag => visits.bindElse proper found content))
      next notTwoWay => exact visits.bindLink proper isBranch notTwoWay _ _

/-- What a statement consists of is bound where its header is counted right, unless the header
belongs to a region that the statement opens. -/
theorem bindContent (proper : tree.Proper)
    (found : tree.statement? (some statement) = some node) :
    Tallies tree (tree.CountsHeader statement)
      (Bind.bindContent tree visit (some statement) span branch node.content) := by
  have around : node.kind.scopeRule = .transparent →
      ∀ {step : Bind Unit}, Tallies tree (tree.Counts statement) step →
        Tallies tree (tree.CountsHeader statement) step :=
    fun transparent _ tallies => tallies.mono fun _ _ counts =>
      counts (StatementTree.bindsAround_of_transparent found transparent)
  obtain ⟨content, nodeSpan, parent⟩ := node
  cases content with
  | block members =>
      exact .inRegion (.startingBelow (visits.bindMembers proper found (by rintro ⟨⟩)
        fun _ member => List.mem_map_of_mem member))
  | branch value thenRef elseRef => exact visits.bindConditional proper found rfl
  | whileLoop value body =>
      exact .inRegion (.seq
        (.starting (.expression proper found List.mem_cons_self))
        (.startingBelow (visits.plain proper found (by rintro ⟨⟩) List.mem_cons_self none)))
  | doLoop body value =>
      exact .inRegion (.seq
        (.startingBelow (visits.plain proper found (by rintro ⟨⟩) List.mem_cons_self none))
        (.starting (.expression proper found List.mem_cons_self)))
  | forLoop declarators initializers value incrementors body =>
      exact .inRegion (.seq
        (.starting (.declarators proper found
          (fun _ member => by simp [StatementContent.expressionSlots, List.mem_map_of_mem member])
          fun _ member => List.mem_map_of_mem member)) (.seq
        (.starting (.expressions proper found fun _ member => by
          simp [StatementContent.expressionSlots, member])) (.seq
        (.starting (.expression proper found (by simp [StatementContent.expressionSlots]))) (.seq
        (.starting (.expressions proper found fun _ member => by
          simp [StatementContent.expressionSlots, member]))
        (.startingBelow (visits.plain proper found (by rintro ⟨⟩) List.mem_cons_self none))))))
  | forEachLoop element collection body =>
      exact .inRegion (.seq
        (.starting (.header (·.declare _ _ _ _ _) fun _ _ =>
          .declare (Tallies.binds_content found List.mem_cons_self))) (.seq
        (.starting (.expression proper found List.mem_cons_self))
        (.startingBelow (visits.plain proper found (by rintro ⟨⟩) List.mem_cons_self none))))
  | resource declarators held body =>
      exact .inRegion (.seq
        (.starting (.declarators proper found
          (fun _ member => by simp [StatementContent.expressionSlots, List.mem_map_of_mem member])
          fun _ member => List.mem_map_of_mem member)) (.seq
        (.starting (.expression proper found (by simp [StatementContent.expressionSlots])))
        (.startingBelow (visits.plain proper found (by rintro ⟨⟩) List.mem_cons_self none))))
  | switch subject sections =>
      -- the subject is bound before the region of the switch is entered
      have isSwitch : tree.kind? (some statement) = some .switch := StatementTree.kind?_eq found
      refine .mono ?_ fun _ _ counts => counts fun _ => isSwitch
      exact .seq (.expression proper found List.mem_cons_self) (.inRegion (.startingBelow
        (visits.bindSections proper found (by rintro ⟨⟩)
          (fun _ member => List.mem_map_of_mem member) _ _)))
  | switchSection labels members =>
      exact .inRegion (.seq
        (.starting (.header (·.bindLabels _ labels) fun _ record =>
          Binder.fills_bindLabels proper record (fun _ => proper.owner_of_slot found)
            fun _ => Tallies.binds_content found))
        (.startingBelow (visits.bindMembers proper found (by rintro ⟨⟩)
          fun _ member => List.mem_map_of_mem member)))
  | localDeclaration declarators =>
      exact around rfl (.declarators proper found (fun _ member => List.mem_map_of_mem member)
        fun _ member => List.mem_map_of_mem member)
  | evaluation value | returning value | throwing value =>
      exact around rfl (.expression proper found List.mem_cons_self)
  | labeled label body =>
      refine around rfl ((visits.plain proper found (by rintro ⟨⟩) List.mem_cons_self branch).mono
        fun _ _ counts => counts.measures ?_)
      rw [StatementTree.kind?_eq found]
      rintro ⟨⟩
  | breaking | continuing | empty => exact .pure

end VisitsTallying

private theorem visitsTallying_visit (proper : tree.Proper) (levels : Nat) :
    VisitsTallying tree (Bind.visit tree levels) := by
  induction levels with
  | zero =>
      -- without a level left no visit succeeds
      have fails : ∀ todo condition, Tallies tree condition (Bind.visit tree 0 todo) := by
        intro todo condition before after _ _ succeeded
        cases succeeded
      exact ⟨fun _ _ _ _ _ => fails _ _, fun _ _ => fails _ _, fun _ _ _ _ => fails _ _,
        fun _ _ _ _ _ _ => fails _ _⟩
  | succ levels induction =>
      refine ⟨?_, ?_, ?_, ?_⟩
      · intro upper body node position branch upperFound listed notElse notTwoWay
        exact .find fun node found => .seq (.recorded _) (.withBleed
          (fun _ _ => proper.countsHeader_child upperFound listed notElse notTwoWay)
          (induction.bindContent proper found))
      · intro body position branch addsNothing
        refine .find fun node found => .seq (.recorded _) (.withBleed (fun _ _ starts _ => ?_)
          (induction.bindContent proper found))
        rw [addsNothing]
        exact starts.counts
      · intro body position branch condition isBlock
        refine .find fun node found => .seq (.recorded _) (.withBleed (fun _ _ _ around => ?_)
          (induction.bindContent proper found))
        have opens : tree.OpensAnywhere body := StatementTree.opensAnywhere_of_rule isBlock rfl
        exact absurd (isBlock.symm.trans (around opens)) (by decide)
      · intro link head span index condition isElse isBranch
        obtain ⟨node, found, _⟩ := Option.map_eq_some_iff.mp isBranch
        exact .seq (.recorded _)
          (induction.bindLink proper isBranch (isElse.not_isTwoWay proper found) _ _)

private theorem tallies_bindBody (proper : tree.Proper) (limit : Nat)
    (found : tree.statement? (some ⟨0⟩) = some node) :
    Tallies tree (Starts ⟨0⟩) (Bind.bindBody tree limit node.content) := by
  have visits := visitsTallying_visit proper
  cases content : node.content with
  | block members =>
      refine .startingBelow ((visits limit).bindMembers proper found ?_ fun _ member => ?_)
      · rw [StatementNode.kind, content]
        rintro ⟨⟩
      · rw [content]
        exact List.mem_map_of_mem member
  | _ =>
      change Tallies tree _ (Bind.visit tree _ (.statement tree.root .root none))
      rw [proper.root]
      refine (visits _).alone none ?_
      rw [StatementTree.addsBleedLevel_classify found]
      exact Bool.and_false _

end Bind

namespace Binder

variable {tree : StatementTree} {settings : ScopeSettings} {span : Span}

/-- Before the body of a procedure is bound there are only the parameters, which are declared at the
boundary of the region of the procedure. -/
theorem tallied_opened (proper : tree.Proper) :
    (opened settings tree span).Tallied tree ∧
      (opened settings tree span).Meets (Bind.Starts ⟨0⟩) := by
  have declares : ∀ (binder : Binder) (parameter : Binding),
      binder.Tallied tree ∧ binder.Meets (Bind.Starts ⟨0⟩) →
      (binder.declare parameter.name .parameter parameter.span (some ⟨0⟩) none).Tallied tree ∧
        (binder.declare parameter.name .parameter parameter.span (some ⟨0⟩) none).Meets
          (Bind.Starts ⟨0⟩) := fun binder parameter ⟨tallied, meets⟩ =>
    ⟨tallied.declare (meets.imp fun _ _ => Bind.Starts.counts) _ _ _ _,
      meets.grows (grows_declare ..)⟩
  unfold opened
  rw [proper.root]
  refine Bind.keeps_foldl _ declares _ ⟨?_, ?_⟩
  · exact ⟨Array.size_replicate, fun found => by cases found⟩
  · exact (Meets.enter ⟨rfl, rfl⟩).grows (stays_recordStatement ..).grows

end Binder

/-! ## The depths of a scope tree -/

/-- An `if` and a switch, each an unbraced body of the `if` around it and with a name bound in its
header. -/
def Procedure.bindingBare : Procedure :=
  .plain "p" [] (.ifThen (.name "a") (.ifThen (.testAs (.name "x") "int" "i")
    (.switch (.testAs (.name "y") "int" "j") [])))

namespace ScopeTree

variable {procedure : Procedure} {tree : StatementTree} {settings : ScopeSettings}
  {scopes : ScopeTree} {declaration : Declaration}

/-- The depth of a declaration is the number of unbraced bodies from its statement up to the
boundary of its region, where the statement itself does not count if it is a switch. -/
theorem counts_of_ofStatementTree (laidOut : StatementTree.ofProcedure procedure = .ok tree)
    (bound : ofStatementTree settings tree = .ok scopes)
    (member : declaration ∈ scopes.declarations) :
    ∃ statement region boundary, declaration.statement = some statement ∧
      scopes.region? declaration.region = some region ∧ region.boundary = some boundary ∧
      tree.Counts statement boundary declaration.bleedDepth := by
  have proper := StatementTree.proper_of_ofProcedure laidOut
  obtain ⟨node, inside, found, bodyBound, rfl⟩ := exists_bindBody proper bound
  obtain ⟨tallied, meets⟩ := Binder.tallied_opened proper
  obtain ⟨_, tallied⟩ := Bind.tallies_bindBody proper _ found _ _ tallied meets bodyBound
  obtain ⟨i, isDeclaration⟩ := Array.mem_iff_getElem?.mp member
  obtain ⟨statement, boundary, isStatement, ⟨id, shape, isRegion, known, isBoundary⟩, counts⟩ :=
    tallied.leave.declaration isDeclaration
  obtain ⟨region, regionFound, rfl⟩ := Option.map_eq_some_iff.mp known
  refine ⟨statement, region, boundary, isStatement, ?_, isBoundary, counts⟩
  rw [isRegion]
  exact regionFound

theorem exists_declarations_bindingBare : ∃ tree scopes region condition subject,
    StatementTree.ofProcedure .bindingBare = .ok tree ∧
    ofStatementTree .default tree = .ok scopes ∧ scopes.region? (some ⟨0⟩) = some region ∧
    region.boundary = some ⟨0⟩ ∧
    (condition ∈ scopes.declarations ∧ condition.statement = some ⟨1⟩ ∧
      condition.region = some ⟨0⟩ ∧ condition.bleedDepth = 1 ∧ tree.unbracedBodies ⟨1⟩ ⟨0⟩ = 1) ∧
    (subject ∈ scopes.declarations ∧ subject.statement = some ⟨2⟩ ∧
      subject.region = some ⟨0⟩ ∧ subject.bleedDepth = 1 ∧ tree.unbracedBodies ⟨2⟩ ⟨0⟩ = 2) := by
  have binds : Procedure.bindingBare.binds .default (fun tree scopes => decide (
      (scopes.region? (some ⟨0⟩)).bind Region.boundary = some ⟨0⟩ ∧
      (∃ condition ∈ scopes.declarations, condition.statement = some ⟨1⟩ ∧
        condition.region = some ⟨0⟩ ∧ condition.bleedDepth = 1 ∧
        tree.unbracedBodies ⟨1⟩ ⟨0⟩ = 1) ∧
      ∃ subject ∈ scopes.declarations, subject.statement = some ⟨2⟩ ∧
        subject.region = some ⟨0⟩ ∧ subject.bleedDepth = 1 ∧
        tree.unbracedBodies ⟨2⟩ ⟨0⟩ = 2)) = true := by
    decide +kernel
  obtain ⟨tree, scopes, laidOut, bound, check⟩ := Procedure.exists_of_binds binds
  obtain ⟨isBoundary, ⟨condition, ofCondition⟩, subject, ofSubject⟩ := of_decide_eq_true check
  obtain ⟨region, found, isBoundary⟩ := Option.bind_eq_some_iff.mp isBoundary
  exact ⟨tree, scopes, region, condition, subject, laidOut, bound, found, isBoundary, ofCondition,
    ofSubject⟩

/-- The name in the condition. -/
theorem counts_bindingBare : ∃ tree scopes declaration,
    StatementTree.ofProcedure .bindingBare = .ok tree ∧
    ofStatementTree .default tree = .ok scopes ∧ declaration ∈ scopes.declarations ∧
    declaration.bleedDepth = 1 ∧
    ∃ statement region boundary, declaration.statement = some statement ∧
      scopes.region? declaration.region = some region ∧ region.boundary = some boundary ∧
      tree.Counts statement boundary declaration.bleedDepth := by
  obtain ⟨tree, scopes, _, condition, _, laidOut, bound, _, _, ⟨member, _, _, depth, _⟩, _⟩ :=
    exists_declarations_bindingBare
  exact ⟨tree, scopes, condition, laidOut, bound, member, depth,
    counts_of_ofStatementTree laidOut bound member⟩

/-- Around the name in the subject the switch is not counted, although it is an unbraced body. -/
theorem exists_uncounted_bindingBare : ∃ tree scopes declaration region,
    StatementTree.ofProcedure .bindingBare = .ok tree ∧
    ofStatementTree .default tree = .ok scopes ∧ declaration ∈ scopes.declarations ∧
    declaration.statement = some ⟨2⟩ ∧ scopes.region? declaration.region = some region ∧
    region.boundary = some ⟨0⟩ ∧ declaration.bleedDepth ≠ tree.unbracedBodies ⟨2⟩ ⟨0⟩ := by
  obtain ⟨tree, scopes, region, _, subject, laidOut, bound, found, isBoundary, _, member,
    isStatement, isRegion, depth, bodies⟩ := exists_declarations_bindingBare
  refine ⟨tree, scopes, subject, region, laidOut, bound, member, isStatement, isRegion ▸ found,
    isBoundary, ?_⟩
  rw [depth, bodies]
  decide

end ScopeTree

end LexicalScope
