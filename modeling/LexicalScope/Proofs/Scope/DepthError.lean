import LexicalScope.Proofs.Layout.Preorder
import LexicalScope.Proofs.Scope.Capacity
import LexicalScope.Proofs.Scope.LexicalExtent
import LexicalScope.Proofs.Scope.Openings

/-!
# Where binding stops

Binding visits statements in the order of their indexes. It fails in one way only: at the first
statement with more statements around it than the nesting limit.
-/

namespace LexicalScope

/-! ## The first statement that does not fit -/

namespace StatementTree

/-- The first statement, from `ref` on in the order of visits, that does not fit into the levels. -/
def firstBeyond (tree : StatementTree) : Nat → StatementRef → Option StatementRef
  | 0, ref => some ref
  | levels + 1, ref => (tree.children ref).findSome? fun child => tree.firstBeyond levels child.1

variable {tree : StatementTree} {levels level : Nat} {ref : StatementRef} {id : StatementId}
  {node : StatementNode}

private theorem children_eq (found : tree.statement? ref = some node) :
    tree.children ref = node.content.children := by
  simp [children, found]

theorem firstBeyond_succ (found : tree.statement? ref = some node) :
    tree.firstBeyond (levels + 1) ref =
      (node.content.children.map (·.1)).findSome? (tree.firstBeyond levels) := by
  rw [firstBeyond, children_eq found, List.findSome?_map]
  rfl

theorem Proper.children_exist (proper : tree.Proper) (found : tree.statement? ref = some node) :
    ∀ child ∈ node.content.children.map (·.1), ∃ inner, tree.statement? child = some inner := by
  intro child listed
  cases ref with
  | none => cases found
  | some id =>
      obtain ⟨_, inner, _, innerFound, _⟩ := proper.exists_of_child found listed
      exact ⟨inner, innerFound⟩

private theorem Proper.firstBeyond_eq_none_iff (proper : tree.Proper)
    (found : tree.statement? (some id) = some node) :
    tree.firstBeyond levels (some id) = none ↔ tree.Fits levels (some id) := by
  induction levels generalizing id node with
  | zero => exact ⟨nofun, False.elim⟩
  | succ levels induction =>
      rw [firstBeyond_succ found, List.findSome?_eq_none_iff, fits_succ_iff found,
        List.forall_mem_map]
      refine forall₂_congr fun child listed => ?_
      obtain ⟨below, inner, isChild, innerFound, _⟩ := proper.child found listed
      rw [isChild]
      exact induction innerFound

/-- The first statement beyond the levels is the first among those that lie as deep or deeper. -/
theorem Proper.firstBeyond_eq_some (proper : tree.Proper) (preordered : tree.Preordered)
    (found : tree.statement? (some id) = some node) (isLevel : tree.IsLevel id level)
    (isFirst : tree.firstBeyond levels (some id) = some ref) :
    ∃ deep, ref = some deep ∧ tree.IsWithin deep id ∧ tree.IsLevel deep (level + levels) ∧
      ∀ other depth, tree.IsWithin other id → tree.IsLevel other depth → level + levels ≤ depth →
        deep.index ≤ other.index := by
  induction levels generalizing id level node with
  | zero =>
      obtain rfl := Option.some.inj isFirst
      exact ⟨id, rfl, .refl id, isLevel, fun other depth within _ _ =>
        within.rank_le proper.ranked⟩
  | succ levels induction =>
      rw [firstBeyond_succ found, List.findSome?_eq_some_iff] at isFirst
      obtain ⟨earlier, child, later, isList, isBelow, fitting⟩ := isFirst
      have listed : child ∈ node.content.children.map (·.1) := by
        rw [isList]
        exact List.mem_append_right _ List.mem_cons_self
      obtain ⟨below, inner, rfl, innerFound, _⟩ := proper.exists_of_child found listed
      have above := proper.parent_of_child found listed
      obtain ⟨deep, rfl, inBelow, isDeep, least⟩ :=
        induction innerFound (.nested above isLevel) isBelow
      have further : level + 1 + levels = level + (levels + 1) := by omega
      rw [further] at isDeep least
      refine ⟨deep, rfl, inBelow.under_parent above, isDeep,
        fun other depth within isDepth far => ?_⟩
      rcases (proper.within_iff found).mp within with rfl | ⟨sibling, isSibling, inSibling⟩
      · obtain rfl := isDepth.unique isLevel
        omega
      · have siblingAbove := proper.parent_of_child found isSibling
        have siblingFound := proper.exists_of_child found isSibling
        have ordered := preordered found
        rw [isList] at isSibling ordered
        rcases List.mem_append.mp isSibling with isEarlier | isLater
        · -- what lies within an earlier child fits
          obtain ⟨_, siblingNode, _, siblingNodeFound, _⟩ := siblingFound
          have fits := (proper.firstBeyond_eq_none_iff siblingNodeFound).mp (fitting _ isEarlier)
          have := (proper.fits_iff siblingNodeFound (.nested siblingAbove isLevel)).mp fits other
            depth inSibling isDepth
          omega
        · rcases List.mem_cons.mp isLater with same | isLater
          · obtain rfl := Option.some.inj same
            exact least other depth inSibling isDepth far
          · have precedes := List.rel_of_pairwise_cons (List.pairwise_append.mp ordered).2.1 isLater
            exact Nat.le_of_lt (precedes deep other (isAmong_singleton.mpr inBelow)
              (isAmong_singleton.mpr inSibling))

end StatementTree

/-! ## Steps -/

namespace Bind

variable {tree : StatementTree} {visit : Visit → Bind Unit} {step next : Bind Unit}
  {limit levels : Nat} {beyond other : Option StatementRef} {ref : StatementRef}
  {node : StatementNode}

/-- Below a nesting limit a step fails with the statement that is `beyond` it, and succeeds if there
is none. -/
def StopsAt (limit : Nat) (step : Bind Unit) (beyond : Option StatementRef) : Prop :=
  ∀ before : Binder, before.settings.nestingLimit = limit →
    match beyond with
    | none => ∃ after, step before = .ok () after ∧ after.settings.nestingLimit = limit
    | some statement => ∃ after, step before = .error (.nestingTooDeep statement limit) after

namespace StopsAt

theorem pure : StopsAt limit (Pure.pure ()) none := fun before limited => ⟨before, rfl, limited⟩

theorem apply {change : Binder → Binder} (stays : ∀ binder : Binder, binder.Stays (change binder)) :
    StopsAt limit (Bind.apply change) none := fun before limited =>
  ⟨change before, rfl, by rw [(stays before).grows.settings, limited]⟩

theorem header {change : Binder → Binder}
    (keeps : ∀ {property : Binder → Prop}, HeaderPreserved tree property →
      ∀ {binder : Binder}, property binder → property (change binder)) :
    StopsAt limit (Bind.apply change) none :=
  apply fun binder => keeps (binder.preserved_stays tree) (.refl binder)

theorem seq (first : StopsAt limit step beyond) (second : StopsAt limit next other) :
    StopsAt limit (do step; next) (beyond.or other) := by
  intro before limited
  have stepped := first before limited
  cases beyond with
  | some statement =>
      obtain ⟨after, failed⟩ := stepped
      exact ⟨after, Step.bind_eq_error.mpr (.inl failed)⟩
  | none =>
      obtain ⟨between, succeeded, limitedToo⟩ := stepped
      have continued := second between limitedToo
      cases other with
      | none =>
          obtain ⟨after, succeededToo, kept⟩ := continued
          exact ⟨after, Step.bind_eq_ok.mpr ⟨(), between, succeeded, succeededToo⟩, kept⟩
      | some statement =>
          obtain ⟨after, failed⟩ := continued
          exact ⟨after, Step.bind_eq_error.mpr (.inr ⟨(), between, succeeded, failed⟩)⟩

theorem behind (first : StopsAt limit step none) (second : StopsAt limit next beyond) :
    StopsAt limit (do step; next) beyond :=
  first.seq second

theorem ahead (first : StopsAt limit step beyond) (second : StopsAt limit next none) :
    StopsAt limit (do step; next) beyond := by
  have both := first.seq second
  rwa [Option.or_none] at both

theorem cons {search : StatementRef → Option StatementRef} {rest : List StatementRef}
    (first : StopsAt limit step (search ref))
    (second : StopsAt limit next (rest.findSome? search)) :
    StopsAt limit (do step; next) ((ref :: rest).findSome? search) := by
  rw [← List.singleton_append, List.findSome?_append, List.findSome?_singleton]
  exact first.seq second

theorem single {search : StatementRef → Option StatementRef}
    (only : StopsAt limit step (search ref)) : StopsAt limit step ([ref].findSome? search) := by
  rwa [List.findSome?_singleton]

theorem found {next : StatementNode → Bind Unit} (found : tree.statement? ref = some node)
    (stops : StopsAt limit (next node) beyond) :
    StopsAt limit (Bind.find tree ref >>= next) beyond := by
  have looked : Bind.find tree ref >>= next = next node := by
    funext before
    change EStateM.bind (Bind.find tree ref) next before = next node before
    rw [EStateM.bind, find_eq_ok.mpr ⟨found, rfl⟩]
  rw [looked]
  exact stops

theorem branchTag {conditional body : StatementRef} {index : Nat} {span : Span} {breakExits : Bool}
    {next : BranchTag → Bind Unit} (stops : ∀ tag, StopsAt limit (next tag) beyond) :
    StopsAt limit (Bind.branchTag tree conditional index body span breakExits >>= next) beyond :=
  fun before limited => stops _ before limited

theorem inRegion {kind : RegionKind} {boundary : StatementRef} {span : Span}
    {branch : Option BranchTag} (stops : StopsAt limit step beyond) :
    StopsAt limit (Bind.inRegion kind boundary span branch step) beyond := by
  intro before limited
  have inside := stops (before.enter kind boundary span branch) limited
  cases beyond with
  | none =>
      obtain ⟨after, succeeded, kept⟩ := inside
      refine ⟨after.leave, inRegion_eq_ok.mpr ⟨after, succeeded, rfl⟩, ?_⟩
      unfold Binder.leave
      split <;> exact kept
  | some statement =>
      obtain ⟨after, failed⟩ := inside
      exact ⟨after.leave, by rw [Bind.inRegion, failed]⟩

private theorem withBleed {added : Bool} (stops : StopsAt limit step beyond) :
    StopsAt limit (Bind.withBleed added step) beyond := by
  intro before limited
  have inside := stops
    { before with bleedDepth := if added then before.bleedDepth + 1 else before.bleedDepth } limited
  cases beyond with
  | none =>
      obtain ⟨after, succeeded, kept⟩ := inside
      exact ⟨_, withBleed_eq_ok.mpr ⟨_, after, succeeded, rfl, rfl⟩, kept⟩
  | some statement =>
      obtain ⟨after, failed⟩ := inside
      exact ⟨{ after with bleedDepth := before.bleedDepth }, by
        simp only [Bind.withBleed, failed]⟩

private theorem recordAround (stops : StopsAt limit step beyond) :
    StopsAt limit (Bind.recordAround ref step) beyond := by
  intro before limited
  have inside := stops before limited
  cases beyond with
  | none =>
      obtain ⟨after, succeeded, kept⟩ := inside
      refine ⟨_, recordAround_eq_ok.mpr ⟨after, succeeded, rfl⟩, ?_⟩
      rw [(after.stays_recordStatement ref before.current).grows.settings, kept]
  | some statement =>
      obtain ⟨after, failed⟩ := inside
      exact ⟨after.recordStatement ref before.current, by rw [Bind.recordAround, failed]⟩

end StopsAt

/-! ## Visits -/

/-- Visits stop at the first statement beyond a number of levels. A link can be visited only where
there is an `if`. -/
structure VisitsStopping (tree : StatementTree) (limit levels : Nat) (visit : Visit → Bind Unit) :
    Prop where
  statement : ∀ {ref node} (position : Position) (branch : Option BranchTag),
    tree.statement? ref = some node →
      StopsAt limit (visit (.statement ref position branch)) (tree.firstBeyond levels ref)
  link : ∀ {ref node} (head : StatementRef) (span : Span) (index : Nat),
    tree.statement? ref = some node → node.kind = .branch →
      StopsAt limit (visit (.link head span index ref)) (tree.firstBeyond levels ref)

namespace VisitsStopping

variable {refs : List StatementRef} {body : StatementRef} {content : StatementContent}
  (visits : VisitsStopping tree limit levels visit)
include visits

theorem bindMembers (exist : ∀ member ∈ refs, ∃ node, tree.statement? member = some node) :
    StopsAt limit (Bind.bindMembers visit refs) (refs.findSome? (tree.firstBeyond levels)) := by
  induction refs with
  | nil => exact .pure
  | cons first rest induction =>
      obtain ⟨⟨node, found⟩, others⟩ := List.forall_mem_cons.mp exist
      exact .cons (visits.statement _ _ found) (induction others)

private theorem bindSections (switch : StatementRef) (span : Span) (index : Nat)
    (exist : ∀ member ∈ refs, ∃ node, tree.statement? member = some node) :
    StopsAt limit (Bind.bindSections tree visit switch span index refs)
      (refs.findSome? (tree.firstBeyond levels)) := by
  induction refs generalizing index with
  | nil => exact .pure
  | cons first rest induction =>
      obtain ⟨⟨node, found⟩, others⟩ := List.forall_mem_cons.mp exist
      exact .branchTag fun tag => .cons (visits.statement _ _ found) (induction _ others)

theorem bindBranch (slot : BodySlot) (tag : BranchTag) (found : tree.statement? body = some node) :
    StopsAt limit (Bind.bindBranch tree visit body slot tag) (tree.firstBeyond levels body) := by
  refine .found found ?_
  split
  · exact visits.statement _ _ found
  · exact .recordAround (.inRegion (visits.statement _ _ found))

theorem bindLink (head : StatementRef) (span : Span) (index : Nat)
    {condition : ExpressionRef} {thenBody elseBody : StatementRef}
    (found : tree.statement? ref = some node)
    (isContent : node.content = .branch condition thenBody elseBody)
    (exist : ∀ child ∈ node.content.children.map (·.1), ∃ node, tree.statement? child = some node) :
    StopsAt limit (Bind.bindLink tree visit head span index ref)
      ((node.content.children.map (·.1)).findSome? (tree.firstBeyond levels)) := by
  obtain ⟨thenNode, thenFound⟩ := exist thenBody (thenBody_listed isContent)
  have thenStep : ∀ tag covered, StopsAt limit (Bind.inRegion .branch ref covered (some tag) (do
      Bind.apply (·.bindExpression tree condition)
      visit (.statement thenBody (.nested .thenBody) none))) (tree.firstBeyond levels thenBody) :=
    fun tag covered => .inRegion (.behind (.header (·.bindExpression condition))
      (visits.statement _ _ thenFound))
  refine .found found ?_
  rw [isContent]
  refine .branchTag fun tag => ?_
  cases elseBody with
  | none => exact .single (.ahead (thenStep tag _) .pure)
  | some elseBody =>
      obtain ⟨elseNode, elseFound⟩ := exist (some elseBody) (elseBody_listed isContent)
      refine .cons (thenStep tag _) (.single (.found elseFound ?_))
      split
      next isBranch => exact visits.link _ _ _ elseFound isBranch
      next => exact .branchTag fun tag => visits.bindBranch _ tag elseFound

private theorem bindConditional (span : Span) {condition : ExpressionRef}
    {thenBody elseBody : StatementRef} (found : tree.statement? ref = some node)
    (isContent : node.content = .branch condition thenBody elseBody)
    (exist : ∀ child ∈ node.content.children.map (·.1), ∃ node, tree.statement? child = some node) :
    StopsAt limit (Bind.bindConditional tree visit ref span condition thenBody elseBody)
      ((node.content.children.map (·.1)).findSome? (tree.firstBeyond levels)) := by
  have header : StopsAt limit (Bind.apply (·.bindExpression tree condition)) none :=
    .header (·.bindExpression condition)
  obtain ⟨thenNode, thenFound⟩ := exist thenBody (thenBody_listed isContent)
  cases elseBody with
  | none =>
      rw [isContent]
      exact .single (.behind header (.branchTag fun tag => visits.statement _ _ thenFound))
  | some elseBody =>
      obtain ⟨elseNode, elseFound⟩ := exist (some elseBody) (elseBody_listed isContent)
      unfold Bind.bindConditional
      rw [if_neg (by simp)]
      split
      next =>
        rw [isContent]
        exact .behind header (.branchTag fun tag =>
          .cons (visits.bindBranch _ tag thenFound) (.single (.branchTag fun tag =>
            visits.bindBranch _ tag elseFound)))
      next => exact visits.bindLink _ _ _ found isContent exist

private theorem bindContent (span : Span) (branch : Option BranchTag)
    (found : tree.statement? ref = some node) {content : StatementContent}
    (isContent : node.content = content)
    (exist : ∀ child ∈ content.children.map (·.1), ∃ node, tree.statement? child = some node) :
    StopsAt limit (Bind.bindContent tree visit ref span branch content)
      ((content.children.map (·.1)).findSome? (tree.firstBeyond levels)) := by
  have only : ∀ {body : StatementRef} (position : Position) (tag : Option BranchTag),
      (∀ child ∈ [body], ∃ node, tree.statement? child = some node) →
        StopsAt limit (visit (.statement body position tag))
          ([body].findSome? (tree.firstBeyond levels)) := by
    intro body position tag exist
    obtain ⟨node, found⟩ := exist body List.mem_cons_self
    exact .single (visits.statement _ _ found)
  have listed : ∀ refs : List StatementRef, (refs.map (·, Position.member)).map (·.1) = refs :=
    fun refs => by simp [Function.comp_def]
  cases content with
  | block members =>
      simp only [StatementContent.children, listed] at exist ⊢
      exact .inRegion (visits.bindMembers exist)
  | branch condition thenBody elseBody =>
      have conditional := visits.bindConditional span found isContent (by rwa [isContent])
      rwa [isContent] at conditional
  | whileLoop condition body =>
      exact .inRegion (.behind (.header (·.bindExpression condition)) (only _ none exist))
  | doLoop body condition =>
      exact .inRegion (.ahead (only _ none exist) (.header (·.bindExpression condition)))
  | forLoop declarators initializers condition incrementors body =>
      exact .inRegion (.behind (.header (·.bindDeclarators _ declarators))
        (.behind (.header (·.bindExpressions initializers))
          (.behind (.header (·.bindExpression condition))
            (.behind (.header (·.bindExpressions incrementors)) (only _ none exist)))))
  | forEachLoop element collection body =>
      exact .inRegion (.behind
        (.apply fun binder => (binder.preserved_stays tree).declare _ _ _ _ _ (.refl binder))
        (.behind (.header (·.bindExpression collection)) (only _ none exist)))
  | resource declarators held body =>
      exact .inRegion (.behind (.header (·.bindDeclarators _ declarators))
        (.behind (.header (·.bindExpression held)) (only _ none exist)))
  | switch subject sections =>
      simp only [StatementContent.children, listed] at exist ⊢
      exact .behind (.header (·.bindExpression subject))
        (.inRegion (visits.bindSections _ _ 0 exist))
  | switchSection labels members =>
      simp only [StatementContent.children, listed] at exist ⊢
      exact .inRegion (.behind (.header (·.bindLabels _ labels)) (visits.bindMembers exist))
  | labeled label body => exact only _ branch exist
  | localDeclaration declarators => exact .header (·.bindDeclarators _ declarators)
  | evaluation value | returning value | throwing value =>
      exact .header (·.bindExpression value)
  | breaking | continuing | empty => exact .pure

end VisitsStopping

private theorem visitsStopping_visit (proper : tree.Proper) (limit levels : Nat) :
    VisitsStopping tree limit levels (Bind.visit tree levels) := by
  induction levels with
  | zero =>
      exact ⟨fun _ _ _ before limited => ⟨before, by rw [← limited]; rfl⟩,
        fun _ _ _ _ _ before limited => ⟨before, by rw [← limited]; rfl⟩⟩
  | succ levels induction =>
      constructor
      · intro ref node position branch found
        rw [StatementTree.firstBeyond_succ found]
        exact .found found (.behind (.apply fun binder => binder.stays_recordStatement _ _)
          (.withBleed (induction.bindContent _ _ found rfl (proper.children_exist found))))
      · intro ref node head span index found isBranch
        obtain ⟨condition, thenBody, elseBody, isContent⟩ := exists_branch_of_kind isBranch
        rw [StatementTree.firstBeyond_succ found]
        exact .behind (.apply fun binder => binder.stays_recordStatement _ _)
          (induction.bindLink head span index found isContent (proper.children_exist found))

private theorem stopsAt_bindBody (proper : tree.Proper)
    (found : tree.statement? tree.root = some node) (limit : Nat) :
    StopsAt limit (Bind.bindBody tree limit node.content)
      (tree.firstBeyond (limit + 1) tree.root) := by
  have visits := visitsStopping_visit proper limit
  cases isContent : node.content with
  | block members =>
      have listed : node.content.children.map (·.1) = members := by
        simp [isContent, StatementContent.children, Function.comp_def]
      have exist := proper.children_exist found
      rw [StatementTree.firstBeyond_succ found, listed]
      rw [listed] at exist
      exact (visits limit).bindMembers exist
  | _ => exact (visits (limit + 1)).statement .root none found

end Bind

namespace ScopeTree

variable {procedure : Procedure} {tree : StatementTree}

/-- A tree that has been laid out is bound when no statement has more statements around it than the
limit. Otherwise binding it fails with the first statement that has more, and in no other way. -/
theorem ofStatementTree_stops (laidOut : StatementTree.ofProcedure procedure = .ok tree)
    (settings : ScopeSettings) :
    ((∃ scopes, ofStatementTree settings tree = .ok scopes) ↔
      ∀ id : StatementId, id.index < tree.statements.size → ∀ level, tree.IsLevel id level →
        level ≤ settings.nestingLimit) ∧
    ∀ error, ofStatementTree settings tree = .error error → ∃ id : StatementId,
      id.index < tree.statements.size ∧
      (∃ level, tree.IsLevel id level ∧ settings.nestingLimit < level) ∧
      (∀ other : StatementId, other.index < tree.statements.size → ∀ level,
        tree.IsLevel other level → settings.nestingLimit < level → id.index ≤ other.index) ∧
      error = .nestingTooDeep (some id) settings.nestingLimit := by
  refine ⟨exists_ofStatementTree_iff_level laidOut settings, fun error failed => ?_⟩
  have proper := StatementTree.proper_of_ofProcedure laidOut
  obtain ⟨node, found, _⟩ := proper.body
  have rootFound : tree.statement? tree.root = some node := proper.root ▸ found
  rw [ofStatementTree_eq settings (StatementTree.checkLinks_eq_ok laidOut) rootFound] at failed
  have stops := Bind.stopsAt_bindBody proper rootFound settings.nestingLimit
    (.opened settings tree node.span) (by rw [Binder.settings_opened])
  cases beyond : tree.firstBeyond (settings.nestingLimit + 1) tree.root with
  | none =>
      rw [beyond] at stops
      obtain ⟨after, succeeded, _⟩ := stops
      rw [succeeded] at failed
      cases failed
  | some ref =>
      rw [beyond] at stops
      obtain ⟨after, stopped⟩ := stops
      rw [stopped] at failed
      cases failed
      rw [proper.root] at beyond
      obtain ⟨deep, rfl, within, isLevel, least⟩ := proper.firstBeyond_eq_some
        (StatementTree.preordered_of_ofProcedure laidOut) found proper.isLevel_root beyond
      obtain ⟨_, deepFound⟩ := proper.exists_of_within_root within
      rw [Nat.zero_add] at isLevel least
      refine ⟨deep, StatementTree.index_lt_of_statement deepFound,
        ⟨_, isLevel, Nat.lt_succ_self _⟩, fun other bound level isOther far => ?_, rfl⟩
      obtain ⟨_, otherFound⟩ := StatementTree.exists_statement bound
      exact least other level (proper.within_root otherFound) isOther far

/-- With one level allowed the body of an `else if` is where binding stops. -/
theorem ofStatementTree_stops_elseIf : ∃ tree, StatementTree.ofProcedure .elseIf = .ok tree ∧
    ofStatementTree ⟨none, false, [], 1⟩ tree = .error (.nestingTooDeep (some ⟨3⟩) 1) ∧
    ∀ other : StatementId, other.index < tree.statements.size → ∀ level, tree.IsLevel other level →
      1 < level → 3 ≤ other.index := by
  have binds : Procedure.elseIf.binds .default (fun tree _ =>
      match ofStatementTree ⟨none, false, [], 1⟩ tree with
      | .ok _ => false
      | .error error => decide (error = .nestingTooDeep (some ⟨3⟩) 1)) = true := by
    decide +kernel
  obtain ⟨tree, _, laidOut, _, check⟩ := Procedure.exists_of_binds binds
  cases result : ofStatementTree ⟨none, false, [], 1⟩ tree with
  | ok _ =>
      rw [result] at check
      cases check
  | error error =>
      rw [result] at check
      obtain rfl := of_decide_eq_true check
      obtain ⟨id, _, _, least, same⟩ :=
        (ofStatementTree_stops laidOut ⟨none, false, [], 1⟩).2 _ result
      cases same
      exact ⟨tree, laidOut, result, least⟩

end ScopeTree

end LexicalScope
