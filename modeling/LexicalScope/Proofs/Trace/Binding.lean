import LexicalScope.Proofs.Scope.Arms
import LexicalScope.Proofs.Scope.Deepening
import LexicalScope.Proofs.Scope.Order
import LexicalScope.Proofs.Trace.Alike
import LexicalScope.Proofs.Trace.Reading
import LexicalScope.Proofs.Trace.Steps

/-!
# Binding replays the trace of a procedure

Where syntax stands in a statement tree, every visit that succeeds has the trace of the syntax for
its events, by induction on the syntax. So the sketch of the scope tree of a procedure is what
replaying the trace of the procedure builds.
-/

namespace LexicalScope

open ScopeEvent

/-- Below a nesting limit every statement but the root fits, so its exits are found. -/
structure StatementTree.Bindable (tree : StatementTree) (limit : Nat) : Prop where
  proper : tree.Proper
  shallow : ∀ {outer inner : StatementId}, tree.parent (some inner) = some outer →
    tree.Fits limit (some inner)

private theorem Statement.trace_of_block {statement : Statement} (isBlock : statement.kind = .block)
    (branch : Option Alternative) (depth : Nat) (place : ForkPlace) :
    statement.trace false branch depth place = statement.trace false branch 0 place := by
  obtain ⟨span, form⟩ := statement
  cases form with
  | block statements => rfl
  | _ => cases isBlock

namespace Bind

/-! ## Visits -/

/-- Visiting a statement has the trace of its syntax, in whichever way it is visited. -/
structure Performs (tree : StatementTree) (limit : Nat) (visit : Visit → Bind Unit)
    (id : StatementId) (syntaxed : Statement) : Prop where
  kind : tree.kind? (some id) = some syntaxed.kind
  opens : (syntaxed.kind = .branch → ¬ tree.IsElseBody id) →
    (tree.OpensAnywhere id ↔ syntaxed.opens = true)
  exits : ∀ {outer : StatementId} {breakExits : Bool}, tree.parent (some id) = some outer →
    tree.alwaysExits breakExits limit (some id) = syntaxed.exits breakExits
  statement : ∀ {position : Position} {unbraced : Bool} (branch : Option BranchTag),
    (syntaxed.kind = .branch → ¬ tree.IsElseBody id) →
    (tree.classify (some id) position).addsBleedLevel = (unbraced && !syntaxed.opens) →
      Traces tree limit (visit (.statement (some id) position branch)) fun depth =>
        syntaxed.trace unbraced (branch.map (·.alternative tree)) depth (tree.place id)
  link : syntaxed.kind = .branch → ¬ tree.isTwoWay (some id) = true →
    ∀ (head : StatementId) (span : Span) (index : Nat),
      Traces tree limit (visit (.link (some head) span index (some id))) fun _ =>
        syntaxed.link (tree.forksBefore head.index) index (tree.place id)

/-- Binding what the statement at `id` consists of has the trace of a form: as the content of a
statement, as a link of a chain, and as the body of a procedure. -/
structure PerformsContent (tree : StatementTree) (limit : Nat) (visit : Visit → Bind Unit)
    (id : StatementId) (content : StatementContent) (form : StatementForm) : Prop where
  whole : ∀ (span : Span) (branch : Option BranchTag),
    (form.kind = .branch → ¬ tree.IsElseBody id) →
      Traces tree limit (bindContent tree visit (some id) span branch content) fun depth =>
        form.trace (branch.map (·.alternative tree)) depth (tree.place id)
  link : form.kind = .branch → ¬ tree.isTwoWay (some id) = true →
    ∀ (head : StatementId) (span : Span) (index : Nat),
      Traces tree limit (bindLink tree visit (some head) span index (some id)) fun _ =>
        form.link (tree.forksBefore head.index) index (tree.place id)
  members : ∀ refs statements, content = .block refs → form = .block statements →
    Traces tree limit (bindMembers visit refs) fun depth =>
      Statement.traceAll statements depth (tree.place id)

variable {tree : StatementTree} {limit : Nat} {visit : Visit → Bind Unit}
  {id upper body thenId elseId : StatementId} {node : StatementNode}
  {statement thenBody elseBody : Statement} {form : StatementForm} {position : Position}

theorem PerformsContent.single {content : StatementContent}
    (notBranch : (form.kind == .branch) = false) (notBlock : (form.kind == .block) = false)
    (traces : ∀ (span : Span) (branch : Option BranchTag),
      Traces tree limit (bindContent tree visit (some id) span branch content) fun depth =>
        form.trace (branch.map (·.alternative tree)) depth (tree.place id)) :
    PerformsContent tree limit visit id content form where
  whole span branch _ := traces span branch
  link isBranch := absurd isBranch (beq_eq_false_iff_ne.mp notBranch)
  members _ _ _ isBlock :=
    absurd (congrArg StatementForm.kind isBlock) (beq_eq_false_iff_ne.mp notBlock)

/-- Every visit of a statement has the trace of what the statement consists of. -/
theorem performs_visit {span : Option Span} (found : tree.statement? (some id) = some node)
    (isKind : node.kind = form.kind)
    (opens : (form.kind = .branch → ¬ tree.IsElseBody id) →
      (tree.OpensAnywhere id ↔ form.opens = true))
    (exits : ∀ {outer : StatementId} {breakExits : Bool}, tree.parent (some id) = some outer →
      tree.alwaysExits breakExits limit (some id) = form.exits breakExits)
    (performs : ∀ levels, PerformsContent tree limit (Bind.visit tree levels) id node.content form)
    (levels : Nat) : Performs tree limit (Bind.visit tree levels) id (.mk span form) where
  kind := by
    rw [StatementTree.kind?_eq found, isKind]
    rfl
  opens := opens
  exits := exits
  statement {position unbraced} branch notElse adds := by
    cases levels with
    | zero => exact ⟨by rintro before after isLimit ⟨⟩⟩
    | succ levels =>
        refine .find fun {known} knownFound => ?_
        obtain rfl := Option.some.inj (found.symm.trans knownFound)
        refine .recorded (((performs levels).whole node.span branch notElse).withBleed.congr
          fun depth => ?_)
        rw [adds]
        rfl
  link isBranch notTwoWay head span index := by
    cases levels with
    | zero => exact ⟨by rintro before after isLimit ⟨⟩⟩
    | succ levels => exact .recorded ((performs levels).link isBranch notTwoWay head span index)

theorem Performs.child (proper : tree.Proper) (performs : Performs tree limit visit body statement)
    (found : tree.statement? (some upper) = some node)
    (listed : (some body, position) ∈ node.content.children)
    (notElse : position ≠ .nested .elseBody)
    (notTwoWay : position = .nested .thenBody → ¬ tree.isTwoWay (some upper) = true)
    (branch : Option BranchTag) :
    Traces tree limit (visit (.statement (some body) position branch)) fun depth =>
      statement.trace position.isUnbracedBody (branch.map (·.alternative tree)) depth
        (tree.place body) := by
  have noElse : ¬ tree.IsElseBody body := by
    obtain ⟨_, inner, same, bodyFound, _⟩ := proper.child found listed
    obtain rfl := Option.some.inj same
    rw [← proper.position?_eq_elseBody_iff bodyFound, proper.position?_of_child found listed]
    exact fun isElse => notElse (Option.some.inj isElse)
  refine performs.statement branch (fun _ => noElse) (Bool.eq_iff_iff.mpr ?_)
  rw [proper.addsBleedLevel_of_child found listed notElse notTwoWay,
    performs.opens fun _ => noElse, proper.isUnbraced_of_child found listed]
  simp [and_comm]

/-! ## Conditionals -/

theorem traces_bindBranch (performs : Performs tree limit visit body statement) {slot : BodySlot}
    (isBoundary : (tree.classify (some body) (.nested slot)).isBoundary = true)
    (notElse : statement.kind = .branch → ¬ tree.IsElseBody body) (tag : BranchTag) :
    Traces tree limit (bindBranch tree visit (some body) slot tag) fun _ =>
      alternative statement.kind (tree.place body) (tag.alternative tree)
        (statement.trace false · 0 (tree.place body)) := by
  refine .find fun {node} found => ?_
  have isKind : node.kind = statement.kind :=
    Option.some.inj ((StatementTree.kind?_eq found).symm.trans performs.kind)
  have adds : (tree.classify (some body) (.nested slot)).addsBleedLevel =
      (false && !statement.opens) := Classification.addsBleedLevel_eq_false isBoundary
  rw [isKind]
  split
  next isBlock =>
    refine (performs.statement (some tag) notElse adds).congr fun depth => ?_
    rw [alternative, if_pos isBlock, Statement.trace_of_block isBlock]
    rfl
  next notBlock =>
    refine (performs.statement none notElse adds).inRegion.recordAround.congr fun depth => ?_
    rw [alternative, if_neg notBlock]
    rfl

section Conditionals

variable {condition : Expression} {value : ExpressionRef} {elseRef : StatementRef}
  (proper : tree.Proper) (found : tree.statement? (some id) = some node)
include proper found

theorem traces_bindElse (elsePerforms : Performs tree limit visit elseId elseBody)
    (content : node.content = .branch value (some thenId) (some elseId))
    (notBranch : elseBody.kind ≠ .branch) (tag : BranchTag) :
    Traces tree limit (bindBranch tree visit (some elseId) .elseBody tag) fun _ =>
      alternative elseBody.kind (tree.place elseId) (tag.alternative tree)
        (elseBody.trace false · 0 (tree.place elseId)) := by
  have listed : some elseId ∈ node.content.children.map (·.1) := by
    simp [content, StatementContent.children]
  obtain ⟨_, _, same, elseFound, _⟩ := proper.exists_of_child found listed
  obtain rfl := Option.some.inj same
  exact traces_bindBranch elsePerforms
    ((StatementTree.isBoundary_classify elseFound).mpr (.inl rfl))
    (fun isBranch => absurd isBranch notBranch) tag

variable
  (evaluates : ∀ binder : Binder,
    (binder.bindExpression tree value).entries = binder.entries ++ condition.declared)
  (performs : Performs tree limit visit thenId thenBody)
include evaluates performs

theorem traces_linkRegion {step : Bind Unit} {events : Nat → List ScopeEvent}
    (content : node.content = .branch value (some thenId) elseRef)
    (notTwoWay : ¬ tree.isTwoWay (some id) = true) (rest : Traces tree limit step events)
    (head : StatementId) (span covered : Span) (index : Nat) :
    Traces tree limit (do
      let tag ← branchTag tree (some head) index (some thenId) span true
      inRegion .branch (some id) covered (some tag) do
        apply (·.bindExpression tree value)
        visit (.statement (some thenId) (.nested .thenBody) none)
      step) fun depth =>
      region .branch (tree.place id)
          (some ⟨tree.forksBefore head.index, index, thenBody.exits true⟩)
          (declarations condition.declared 0 ++ thenBody.trace true none 0 (tree.place thenId)) ++
        events depth := by
  have listed := StatementTree.thenBody_mem_children content
  have isParent := proper.parent_of_child found (List.mem_map_of_mem listed)
  refine .branchTag (performs.exits isParent) fun tag isTag => ?_
  rw [← isTag]
  exact .seq (.inRegion (.seq (.bindExpression evaluates)
    (performs.child proper found listed (by decide) (fun _ => notTwoWay) none))) rest

private theorem traces_bindLink_last (content : node.content = .branch value (some thenId) none)
    (head : StatementId) (span : Span) (index : Nat) :
    Traces tree limit (bindLink tree visit (some head) span index (some id)) fun _ =>
      region .branch (tree.place id)
        (some ⟨tree.forksBefore head.index, index, thenBody.exits true⟩)
        (declarations condition.declared 0 ++ thenBody.trace true none 0 (tree.place thenId)) := by
  have notTwoWay : ¬ tree.isTwoWay (some id) = true :=
    StatementTree.not_isTwoWay found (by rw [content]; rintro _ _ _ ⟨⟩)
  refine .find fun {known} knownFound => ?_
  obtain rfl := Option.some.inj (found.symm.trans knownFound)
  rw [content]
  exact (traces_linkRegion proper found evaluates performs content notTwoWay .pure head span _
    index).congr fun _ => List.append_nil _

/-- Behind a link stands the next one, or the alternative of the whole chain. -/
theorem traces_bindLink_further (elsePerforms : Performs tree limit visit elseId elseBody)
    (content : node.content = .branch value (some thenId) (some elseId))
    (notTwoWay : ¬ tree.isTwoWay (some id) = true)
    (head : StatementId) (span : Span) (index : Nat) :
    Traces tree limit (bindLink tree visit (some head) span index (some id)) fun _ =>
      region .branch (tree.place id)
          (some ⟨tree.forksBefore head.index, index, thenBody.exits true⟩)
          (declarations condition.declared 0 ++ thenBody.trace true none 0 (tree.place thenId)) ++
        if elseBody.kind = .branch then
          elseBody.link (tree.forksBefore head.index) (index + 1) (tree.place elseId)
        else
          alternative elseBody.kind (tree.place elseId)
            ⟨tree.forksBefore head.index, index + 1, elseBody.exits true⟩
            (elseBody.trace false · 0 (tree.place elseId)) := by
  have isElse : tree.IsElseBody elseId :=
    ⟨id, value, some thenId, by rw [StatementTree.content?_eq found, content]⟩
  have isParent : tree.parent (some elseId) = some id :=
    proper.parent_of_child found (by simp [content, StatementContent.children])
  refine .find fun {known} knownFound => ?_
  obtain rfl := Option.some.inj (found.symm.trans knownFound)
  rw [content]
  refine traces_linkRegion proper found evaluates performs content notTwoWay ?_ head span _ index
  refine .find fun {alternative} elseFound => ?_
  have isKind : alternative.kind = elseBody.kind :=
    Option.some.inj ((StatementTree.kind?_eq elseFound).symm.trans elsePerforms.kind)
  rw [isKind]
  split
  next isBranch =>
    exact elsePerforms.link isBranch (isElse.not_isTwoWay proper elseFound) head span (index + 1)
  next notBranch =>
    refine .branchTag (elsePerforms.exits isParent) fun tag isTag => ?_
    rw [← isTag]
    exact traces_bindElse proper found elsePerforms content notBranch tag

private theorem traces_bindConditional_single
    (content : node.content = .branch value (some thenId) none) (span : Span) :
    Traces tree limit (bindConditional tree visit (some id) span value (some thenId) none)
      fun depth => declarations condition.declared depth ++
        thenBody.trace true (some ⟨tree.forksBefore id.index, 0, thenBody.exits true⟩) depth
          (tree.place thenId) := by
  have listed := StatementTree.thenBody_mem_children content
  have isParent := proper.parent_of_child found (List.mem_map_of_mem listed)
  have notTwoWay : ¬ tree.isTwoWay (some id) = true :=
    StatementTree.not_isTwoWay found (by rw [content]; rintro _ _ _ ⟨⟩)
  refine .seq (.bindExpression evaluates)
    (.branchTag (performs.exits isParent) fun tag isTag => ?_)
  rw [← isTag]
  exact performs.child proper found listed (by decide) (fun _ => notTwoWay) (some tag)

private theorem traces_bindConditional (elsePerforms : Performs tree limit visit elseId elseBody)
    (content : node.content = .branch value (some thenId) (some elseId))
    (notElse : ¬ tree.IsElseBody id) (span : Span) :
    Traces tree limit (bindConditional tree visit (some id) span value (some thenId) (some elseId))
      fun depth =>
        if elseBody.kind = .branch then
          region .branch (tree.place id)
              (some ⟨tree.forksBefore id.index, 0, thenBody.exits true⟩)
              (declarations condition.declared 0 ++
                thenBody.trace true none 0 (tree.place thenId)) ++
            elseBody.link (tree.forksBefore id.index) 1 (tree.place elseId)
        else
          declarations condition.declared depth ++
            (alternative thenBody.kind (tree.place thenId)
                ⟨tree.forksBefore id.index, 0, thenBody.exits true⟩
                (thenBody.trace false · 0 (tree.place thenId)) ++
              alternative elseBody.kind (tree.place elseId)
                ⟨tree.forksBefore id.index, 1, elseBody.exits true⟩
                (elseBody.trace false · 0 (tree.place elseId))) := by
  have twoWay_iff := proper.isTwoWay_iff found content
  rw [elsePerforms.kind] at twoWay_iff
  unfold bindConditional
  rw [if_neg (by simp)]
  split
  next twoWay =>
    have notBranch : elseBody.kind ≠ .branch := fun isBranch =>
      (twoWay_iff.mp twoWay).1 (congrArg some isBranch)
    have listed := StatementTree.thenBody_mem_children content
    obtain ⟨_, inner, same, thenFound, above, _⟩ := proper.child found listed
    obtain rfl := Option.some.inj same
    have isBoundary : (tree.classify (some thenId) (.nested .thenBody)).isBoundary = true :=
      (StatementTree.isBoundary_classify thenFound).mpr (.inr (.inl ⟨rfl, above ▸ twoWay⟩))
    have noElse : ¬ tree.IsElseBody thenId := by
      rw [← proper.position?_eq_elseBody_iff thenFound, proper.position?_of_child found listed]
      rintro ⟨⟩
    have elseParent : tree.parent (some elseId) = some id :=
      proper.parent_of_child found (by simp [content, StatementContent.children])
    simp only [if_neg notBranch]
    refine .seq (.bindExpression evaluates) (.branchTag
      (performs.exits ((StatementTree.parent_eq thenFound).trans above)) fun first isFirst => ?_)
    rw [← isFirst]
    refine .seq (traces_bindBranch performs isBoundary (fun _ => noElse) first) (.branchTag
      (elsePerforms.exits elseParent) fun second isSecond => ?_)
    rw [← isSecond]
    exact traces_bindElse proper found elsePerforms content notBranch second
  next notTwoWay =>
    have isBranch : elseBody.kind = .branch := by
      by_contra notBranch
      exact notTwoWay (twoWay_iff.mpr ⟨fun same => notBranch (Option.some.inj same), notElse⟩)
    refine (traces_bindLink_further proper found evaluates performs elsePerforms content notTwoWay
      id span 0).congr fun depth => ?_
    rw [if_pos isBranch, if_pos isBranch]

end Conditionals

end Bind

open LexicalScope.Bind

/-! ## Statements -/

/-- Wherever a statement lies in a tree, every visit of it has its trace. -/
def Statement.IsPerformed (tree : StatementTree) (limit : Nat) (statement : Statement) : Prop :=
  ∀ ⦃depth : Nat⦄ ⦃parent : StatementRef⦄ ⦃start stop : Mark⦄,
    statement.Occupies tree depth parent start stop → ∀ levels,
      Performs tree limit (visit tree levels) ⟨start.statements⟩ statement

/-- Wherever a statement of a form lies in a tree, binding what it consists of has the trace of the
form. -/
def StatementForm.IsPerformed (tree : StatementTree) (limit : Nat) (form : StatementForm) : Prop :=
  ∀ ⦃depth index expressions : Nat⦄ ⦃content : StatementContent⦄ ⦃span : Span⦄
    ⦃parent : StatementRef⦄ ⦃stop : Mark⦄,
      tree.statement? (some ⟨index⟩) = some ⟨content, span, parent⟩ →
        form.Occupies tree depth ⟨index⟩ content ⟨index + 1, expressions⟩ stop → ∀ levels,
          PerformsContent tree limit (visit tree levels) ⟨index⟩ content form

section Statements

variable {tree : StatementTree} {limit : Nat} (bindable : tree.Bindable limit)
include bindable

theorem Bind.Performs.onlyChild {visit : Visit → Bind Unit} {index depth expressions : Nat}
    {node : StatementNode} {position : Position} {stop : Mark} {body : Statement}
    (performs : Performs tree limit visit ⟨index + 1⟩ body)
    (found : tree.statement? (some ⟨index⟩) = some node) (plain : node.kind.isFork = false)
    (children : node.content.children = [(some ⟨index + 1⟩, position)])
    (notElse : position ≠ .nested .elseBody) (notThen : position ≠ .nested .thenBody)
    (occupied : body.Occupies tree depth (some ⟨index⟩) ⟨index + 1, expressions⟩ stop)
    (branch : Option BranchTag) :
    Traces tree limit (visit (.statement (some ⟨index + 1⟩) position branch)) fun depth =>
      body.trace position.isUnbracedBody (branch.map (·.alternative tree)) depth
        (tree.place ⟨index⟩) := by
  have listed : (some ⟨index + 1⟩, position) ∈ node.content.children :=
    children ▸ List.mem_cons_self
  have samePlace : tree.place ⟨index + 1⟩ = tree.place ⟨index⟩ :=
    (body.place_eq occupied).trans (bindable.proper.placeBelow_of_plain found plain)
  rw [← samePlace]
  exact performs.child bindable.proper found listed notElse (absurd · notThen) branch

section Forms

variable {condition collection : Expression} {body thenBody elseBody : Statement}
  {declarators : List Declarator}

private theorem StatementForm.isPerformed_ifThen (thenPart : thenBody.IsPerformed tree limit) :
    StatementForm.IsPerformed tree limit (.branch condition thenBody none) := by
  intro depth index expressions content span parent stop found occupied levels
  obtain ⟨middle, rfl, header, inThen⟩ := occupied
  have evaluates := fun binder : Binder => binder.entries_bindExpression ⟨rfl, header⟩
  have performs := thenPart inThen levels
  have inside : tree.place ⟨index + 1⟩ = (tree.place ⟨index⟩).inside :=
    (thenBody.place_eq inThen).trans (bindable.proper.placeBelow_of_fork found rfl)
  have single := traces_bindConditional_single bindable.proper found evaluates performs rfl
  have link := traces_bindLink_last bindable.proper found evaluates performs rfl
  simp only [inside] at single link
  exact ⟨fun span _ _ => single span, fun _ _ => link, by rintro _ _ ⟨⟩⟩

private theorem StatementForm.isPerformed_ifElse (thenPart : thenBody.IsPerformed tree limit)
    (elsePart : elseBody.IsPerformed tree limit) :
    StatementForm.IsPerformed tree limit (.branch condition thenBody (some elseBody)) := by
  intro depth index expressions content span parent stop found occupied levels
  obtain ⟨middle, between, rfl, header, inThen, inElse⟩ := occupied
  have evaluates := fun binder : Binder => binder.entries_bindExpression ⟨rfl, header⟩
  have performs := thenPart inThen levels
  have elsePerforms := elsePart inElse levels
  have isInside := bindable.proper.placeBelow_of_fork found rfl
  have inside : tree.place ⟨index + 1⟩ = (tree.place ⟨index⟩).inside :=
    (thenBody.place_eq inThen).trans isInside
  have behind : tree.place ⟨between.statements⟩ =
      (tree.place ⟨index⟩).inside.behind thenBody.forks := by
    rw [elseBody.place_eq inElse, thenBody.placeBelow_stop inThen, isInside]
  have whole := traces_bindConditional bindable.proper found evaluates performs elsePerforms rfl
  have link := traces_bindLink_further bindable.proper found evaluates performs elsePerforms rfl
  simp only [inside, behind] at whole link
  exact ⟨fun span _ notElse => whole (notElse rfl) span, fun _ notTwoWay => link notTwoWay,
    by rintro _ _ ⟨⟩⟩

private theorem StatementForm.isPerformed_whileLoop (part : body.IsPerformed tree limit) :
    StatementForm.IsPerformed tree limit (.whileLoop condition body) := by
  intro depth index expressions content span parent stop found occupied levels
  obtain ⟨middle, rfl, header, inBody⟩ := occupied
  have inside := (part inBody levels).onlyChild bindable found rfl rfl (by decide)
    (by decide) inBody none
  refine .single rfl rfl fun _ _ => .inRegion (.seq (.bindExpression fun binder => ?_) inside)
  exact binder.entries_bindExpression ⟨rfl, header⟩

private theorem StatementForm.isPerformed_doLoop (part : body.IsPerformed tree limit) :
    StatementForm.IsPerformed tree limit (.doLoop body condition) := by
  intro depth index expressions content span parent stop found occupied levels
  obtain ⟨middle, rfl, inBody, header⟩ := occupied
  have inside := (part inBody levels).onlyChild bindable found rfl rfl (by decide)
    (by decide) inBody none
  refine .single rfl rfl fun _ _ => .inRegion (.seq inside (.bindExpression fun binder => ?_))
  exact binder.entries_bindExpression ⟨rfl, header⟩

private theorem StatementForm.isPerformed_forLoop {initializers : List Expression}
    {condition : Option Expression} {incrementors : List Expression}
    (part : body.IsPerformed tree limit) :
    StatementForm.IsPerformed tree limit
      (.forLoop declarators initializers condition incrementors body) := by
  intro depth index expressions content span parent stop found occupied levels
  obtain ⟨nodes, inits, test, steps, _, _, _, _, rfl, names, starts, tests, increments,
    inBody⟩ := occupied
  have inside := (part inBody levels).onlyChild bindable found rfl rfl (by decide)
    (by decide) inBody none
  refine .single rfl rfl fun _ _ => (Traces.inRegion (.seq
    (.bindDeclarators fun binder => binder.entries_bindDeclarators names)
    (.seq (.bindExpressions fun binder => binder.entries_bindExpressions starts)
    (.seq (.bindExpression fun binder => binder.entries_bindOptional tests)
    (.seq (.bindExpressions fun binder => binder.entries_bindExpressions increments)
      inside))))).congr fun _ => ?_
  simp only [StatementForm.trace, declarations_append, List.append_assoc]
  rfl

private theorem StatementForm.isPerformed_forEachLoop {element : Ident}
    (part : body.IsPerformed tree limit) :
    StatementForm.IsPerformed tree limit (.forEachLoop element collection body) := by
  intro depth index expressions content span parent stop found occupied levels
  obtain ⟨middle, rfl, header, inBody⟩ := occupied
  have inside := (part inBody levels).onlyChild bindable found rfl rfl (by decide)
    (by decide) inBody none
  exact .single rfl rfl fun _ _ => (Traces.inRegion (.seq
    (.header (fun keeps => keeps.declare _ _ _ _ _) fun binder => binder.entries_declare ..)
    (.seq (.bindExpression fun binder => binder.entries_bindExpression ⟨rfl, header⟩)
      inside))).congr fun _ => rfl

private theorem StatementForm.isPerformed_resource {held : Option Expression}
    (part : body.IsPerformed tree limit) :
    StatementForm.IsPerformed tree limit (.resource declarators held body) := by
  intro depth index expressions content span parent stop found occupied levels
  obtain ⟨nodes, value, _, _, rfl, names, holds, inBody⟩ := occupied
  have inside := (part inBody levels).onlyChild bindable found rfl rfl (by decide)
    (by decide) inBody none
  refine .single rfl rfl fun _ _ => (Traces.inRegion (.seq
    (.bindDeclarators fun binder => binder.entries_bindDeclarators names)
    (.seq (.bindExpression fun binder => binder.entries_bindOptional holds)
      inside))).congr fun _ => ?_
  simp only [StatementForm.trace, declarations_append, List.append_assoc]
  rfl

end Forms

mutual

theorem Statement.isPerformed : ∀ statement : Statement, statement.IsPerformed tree limit
  | .mk span form => by
    intro depth parent start stop occupied levels
    obtain ⟨_, content, found, inside⟩ := id occupied
    exact performs_visit found (form.kind_eq inside)
      ((Statement.mk span form).opensAnywhere_iff bindable.proper occupied)
      (fun isParent => (Statement.mk span form).alwaysExits_eq occupied
        (bindable.shallow isParent))
      (form.isPerformed found inside) levels

theorem StatementForm.isPerformed : ∀ form : StatementForm, form.IsPerformed tree limit
  | .block statements => by
    intro depth index expressions content span parent stop found occupied levels
    obtain ⟨refs, rfl, inside⟩ := occupied
    have members := Statement.traces_bindMembers statements found (List.Subset.refl _) inside levels
    rw [bindable.proper.placeBelow_of_plain found rfl] at members
    refine ⟨fun _ _ _ => .inRegion members, by rintro ⟨⟩, ?_⟩
    rintro _ _ ⟨⟩ ⟨⟩
    exact members
  | .branch _ thenBody none => StatementForm.isPerformed_ifThen bindable thenBody.isPerformed
  | .branch _ thenBody (some elseBody) =>
    StatementForm.isPerformed_ifElse bindable thenBody.isPerformed elseBody.isPerformed
  | .whileLoop _ body => StatementForm.isPerformed_whileLoop bindable body.isPerformed
  | .doLoop body _ => StatementForm.isPerformed_doLoop bindable body.isPerformed
  | .forLoop _ _ _ _ body => StatementForm.isPerformed_forLoop bindable body.isPerformed
  | .forEachLoop _ _ body => StatementForm.isPerformed_forEachLoop bindable body.isPerformed
  | .resource _ _ body => StatementForm.isPerformed_resource bindable body.isPerformed
  | .switch subject sections => by
    intro depth index expressions content span parent stop found occupied levels
    obtain ⟨middle, refs, rfl, header, inside⟩ := occupied
    refine .single rfl rfl fun span _ => ?_
    have parts := Section.traces_bindSections sections found (List.Subset.refl _) inside levels
      span 0
    rw [bindable.proper.placeBelow_of_fork found rfl] at parts
    exact .seq (.bindExpression fun binder => binder.entries_bindExpression ⟨rfl, header⟩)
      parts.inRegion
  | .localDeclaration declarators => by
    intro depth index expressions content span parent stop found occupied levels
    obtain ⟨nodes, rfl, names, _⟩ := occupied
    exact .single rfl rfl fun _ _ =>
      .bindDeclarators fun binder => binder.entries_bindDeclarators names
  | .evaluation expression => by
    intro depth index expressions content span parent stop found occupied levels
    obtain ⟨rfl, header, _⟩ := occupied
    exact .single rfl rfl fun _ _ =>
      .bindExpression fun binder => binder.entries_bindExpression ⟨rfl, header⟩
  | .returning value | .throwing value => by
    intro depth index expressions content span parent stop found occupied levels
    obtain ⟨ref, rfl, header, _⟩ := occupied
    exact .single rfl rfl fun _ _ =>
      .bindExpression fun binder => binder.entries_bindOptional header
  | .labeled _ body => by
    intro depth index expressions content span parent stop found occupied levels
    obtain ⟨rfl, inBody⟩ := occupied
    refine .single rfl rfl fun _ branch => ?_
    have inside := (body.isPerformed inBody levels).onlyChild bindable found rfl rfl (by decide)
      (by decide) inBody branch
    exact inside
  | .breaking | .continuing | .empty => by
    intro depth index expressions content span parent stop found occupied levels
    obtain ⟨rfl, _⟩ := occupied
    exact .single rfl rfl fun _ _ => .pure

theorem Statement.traces_bindMembers : ∀ (statements : List Statement) {depth : Nat}
    {upper : StatementId} {node : StatementNode} {refs : List StatementRef} {start stop : Mark},
      tree.statement? (some upper) = some node →
      refs.map (·, Position.member) ⊆ node.content.children →
      Statement.AllOccupy tree depth (some upper) statements refs start stop → ∀ levels,
        Traces tree limit (bindMembers (visit tree levels) refs) fun depth =>
          Statement.traceAll statements depth (tree.placeBelow (some upper) start.statements)
  | [], _, _, _, _, _, _, _, _, occupied, levels => by
    obtain ⟨rfl, _⟩ := occupied
    exact .pure
  | first :: rest, _, _, _, _, _, _, found, listed, occupied, levels => by
    obtain ⟨others, middle, rfl, inFirst, inRest⟩ := occupied
    have one := (first.isPerformed inFirst levels).child bindable.proper found
      (listed List.mem_cons_self) (by decide) (by rintro ⟨⟩) none
    have more := Statement.traces_bindMembers rest found
      (fun _ member => listed (List.mem_cons_of_mem _ member)) inRest levels
    rw [first.place_eq inFirst] at one
    rw [first.placeBelow_stop inFirst] at more
    exact .seq one more

theorem Section.traces_visit : ∀ (part : Section) {depth : Nat} {parent : StatementRef}
    {start stop : Mark}, part.Occupies tree depth parent start stop → ∀ levels (tag : BranchTag),
      Traces tree limit
        (visit tree levels (.statement (some ⟨start.statements⟩) .member (some tag)))
        fun _ => part.trace (tag.alternative tree) (tree.place ⟨start.statements⟩)
  | .mk span labels statements, _, _, start, _, occupied, levels, tag => by
    obtain ⟨nodes, refs, middle, found, header, inside⟩ := occupied
    cases levels with
    | zero => exact ⟨by rintro before after isLimit ⟨⟩⟩
    | succ levels =>
        refine .find fun {known} knownFound => ?_
        obtain rfl := Option.some.inj (found.symm.trans knownFound)
        have members := Statement.traces_bindMembers statements found (List.Subset.refl _) inside
          levels
        rw [bindable.proper.placeBelow_of_plain found rfl] at members
        exact .recorded (.withBleed (.inRegion (.seq (.header (fun keeps => keeps.bindLabels _ _)
          fun binder => binder.entries_bindLabels header) members)))

theorem Section.traces_bindSections : ∀ (sections : List Section) {depth : Nat}
    {switch : StatementId} {node : StatementNode} {refs : List StatementRef} {start stop : Mark},
      tree.statement? (some switch) = some node →
      refs.map (·, Position.member) ⊆ node.content.children →
      Section.AllOccupy tree depth (some switch) sections refs start stop → ∀ levels span index,
        Traces tree limit (bindSections tree (visit tree levels) (some switch) span index refs)
          fun _ => Section.traceAll sections (tree.forksBefore switch.index) index
            (tree.placeBelow (some switch) start.statements)
  | [], _, _, _, _, _, _, _, _, occupied, _, _, _ => by
    obtain ⟨rfl, _⟩ := occupied
    exact .pure
  | first :: rest, _, switch, _, _, start, _, found, listed, occupied, levels, span, index => by
    obtain ⟨others, middle, rfl, inFirst, inRest⟩ := occupied
    have isParent : tree.parent (some ⟨start.statements⟩) = some switch :=
      bindable.proper.parent_of_child found (List.mem_map_of_mem (listed List.mem_cons_self))
    have exits := first.alwaysExits_eq inFirst (bindable.shallow isParent)
    have more := Section.traces_bindSections rest found
      (fun _ member => listed (List.mem_cons_of_mem _ member)) inRest levels span (index + 1)
    rw [first.placeBelow_stop inFirst] at more
    refine .branchTag exits fun tag isTag => ?_
    have one := first.traces_visit inFirst levels tag
    rw [isTag, first.place_eq inFirst] at one
    exact .seq one more

end

end Statements

/-! ## Procedures -/

section Procedures

variable {tree : StatementTree} {scopes : ScopeTree} {settings : ScopeSettings}
  {procedure : Procedure}

private theorem Bind.traces_bindParameters {limit : Nat} {stated : List Ident}
    (parameters : tree.parameters = stated.map Ident.binding) :
    Traces tree limit (bindParameters tree)
      (declarations (stated.map (·.entry .parameter))) := by
  refine .header (fun {property} keeps {binder} holds => ?_) fun binder => ?_
  · exact keeps_foldl (fun (binder : Binder) (parameter : Binding) =>
      binder.declare parameter.name .parameter parameter.span tree.root none)
      (fun _ _ => keeps.declare _ _ _ _ _) tree.parameters holds
  · rw [parameters]
    exact Binder.entries_bindParameters ..

/-- At the depth of a region, binding the body of a procedure has the trace of the body. -/
theorem Bind.exists_traces_bindBody {limit : Nat} (bindable : tree.Bindable limit)
    {span : Option Span} {form : StatementForm} {content : StatementContent} {nodeSpan : Span}
    {stop : Mark} (root : tree.root = some ⟨0⟩)
    (found : tree.statement? (some ⟨0⟩) = some ⟨content, nodeSpan, none⟩)
    (occupied : (Statement.mk span form).Occupies tree 0 none ⟨0, 0⟩ stop) :
    ∃ events, Traces tree limit (bindBody tree limit content) events ∧
      events 0 = form.bodyTrace := by
  obtain ⟨_, known, knownFound, inside⟩ := id occupied
  obtain ⟨rfl, _⟩ := StatementNode.mk.inj (Option.some.inj (found.symm.trans knownFound))
  have noParent : tree.parent (some ⟨0⟩) = none := StatementTree.parent_eq found
  have place := StatementTree.place_root noParent
  have noElse : ¬ tree.IsElseBody ⟨0⟩ := by
    rintro ⟨upper, condition, thenBody, isContent⟩
    rw [bindable.proper.parent_elseBody isContent] at noParent
    cases noParent
  have addsNone : (tree.classify (some ⟨0⟩) .root).addsBleedLevel =
      (false && !(Statement.mk span form).opens) := by
    rw [StatementTree.addsBleedLevel_classify found]
    exact Bool.and_false _
  have visited := ((Statement.mk span form).isPerformed bindable occupied (limit + 1)).statement
    none (fun _ => noElse) addsNone
  have kinds := form.kind_eq inside
  cases form with
  | block statements =>
      have members := (StatementForm.isPerformed bindable _ knownFound inside limit).members
      obtain ⟨refs, rfl, _⟩ := inside
      exact ⟨_, members refs statements rfl rfl, by rw [place]; rfl⟩
  | _ =>
      cases content with
      | block => cases kinds
      | _ => exact ⟨_, root ▸ visited, by rw [place]; rfl⟩

private theorem Bind.traces_bindProcedure {limit : Nat} (bindable : tree.Bindable limit)
    (occupied : procedure.Occupies tree) :
    Traces tree limit (bindProcedure tree) fun _ => procedure.trace := by
  obtain ⟨name, stated, ⟨span, form⟩⟩ := procedure
  obtain ⟨_, parameters, root, bodyOccupied⟩ := occupied
  obtain ⟨_, content, bodyFound, _⟩ := id bodyOccupied
  obtain ⟨events, body, atRoot⟩ := exists_traces_bindBody bindable root bodyFound bodyOccupied
  have inside : Traces tree limit (do
      Bind.apply fun binder => binder.recordStatement tree.root binder.current
      bindParameters tree
      bindBody tree (← get).settings.nestingLimit content) fun depth =>
      declarations (stated.map (·.entry .parameter)) depth ++ events depth :=
    .recorded (.seq (traces_bindParameters parameters)
      (.nestingLimit (bindBody tree · content) body))
  refine .find fun {node} found => ?_
  rw [root] at found
  obtain rfl := Option.some.inj (bodyFound.symm.trans found)
  rw [root] at inside ⊢
  refine inside.inRegion.congr fun depth => ?_
  rw [StatementTree.place_root (StatementTree.parent_eq bodyFound), atRoot]
  rfl

private theorem StatementTree.bindable_of_ofProcedure
    (laidOut : StatementTree.ofProcedure procedure = .ok tree)
    (bound : ScopeTree.ofStatementTree settings tree = .ok scopes) :
    tree.Bindable settings.nestingLimit := by
  have proper := StatementTree.proper_of_ofProcedure laidOut
  obtain ⟨node, found, _⟩ := proper.body
  rw [← proper.root] at found
  have fits := (ScopeTree.exists_ofStatementTree_iff settings
    (StatementTree.checkLinks_eq_ok laidOut) found).mp ⟨scopes, bound⟩
  exact ⟨proper, fits.of_parent proper⟩

/-- The sketch of the scope tree of a procedure is what replaying the trace of the procedure
builds. -/
theorem ScopeTree.sketch_eq_replay (laidOut : StatementTree.ofProcedure procedure = .ok tree)
    (bound : ScopeTree.ofStatementTree settings tree = .ok scopes) :
    scopes.regions.map (Region.sketch tree) = (Sketch.blank.replay procedure.trace).regions ∧
      scopes.declarations.map Declaration.sketch =
        (Sketch.blank.replay procedure.trace).declarations := by
  have bindable := StatementTree.bindable_of_ofProcedure laidOut bound
  obtain ⟨after, succeeded, rfl⟩ := of_ofStatementTree bound
  have replays := (Bind.traces_bindProcedure bindable
    (StatementTree.occupies_of_ofProcedure laidOut)).replays rfl succeeded
  rw [procedure.trace_placed] at replays
  have same := replays.sketch
  rw [Binder.sketch_blank] at same
  rw [← same]
  exact ⟨rfl, rfl⟩

end Procedures

end LexicalScope
