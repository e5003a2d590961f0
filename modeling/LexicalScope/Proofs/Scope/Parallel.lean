import LexicalScope.Proofs.Rewording.Nodes
import LexicalScope.Scope.Binder

/-!
# Two runs of binding

A relation between two binders that every change of both keeps is kept by two runs of binding side
by side, on two trees that show the same statements up to their texts. Whatever the first run does,
the second one does in parallel; that it fails with the first one is asked only of exact runs.
-/

namespace LexicalScope

namespace Bind

variable {w : Rewording} {tree other : StatementTree} {visited : StatementRef → Prop}
  {evaluated : ExpressionRef → Prop} {exact : Prop} {relation : Binder → Binder → Prop}
  {step next stepToo nextToo : Bind Unit} {visit visitToo : Visit → Bind Unit}
  {ref : StatementRef} {node : StatementNode}

/-! ## Steps side by side -/

/-- The second of two runs ends as the first one does. If the runs are not exact, a failure of the
first one leaves the second one free. -/
def Matched (exact : Prop) (relation : Binder → Binder → Prop) :
    EStateM.Result ScopeError Binder Unit → EStateM.Result ScopeError Binder Unit → Prop
  | .ok _ after, .ok _ stop => relation after stop
  | .error failure _, .error found _ => exact → failure = found
  | .error _ _, .ok _ _ => ¬ exact
  | .ok _ _, .error _ _ => False

/-- A step does from a related binder what another step does. -/
def Mirrors (exact : Prop) (relation : Binder → Binder → Prop) (step stepToo : Bind Unit) : Prop :=
  ∀ before start, relation before start → Matched exact relation (step before) (stepToo start)

namespace Mirrors

theorem pure : Mirrors exact relation (Pure.pure ()) (Pure.pure ()) := fun _ _ related => related

theorem apply {change changeToo : Binder → Binder}
    (keeps : ∀ before start, relation before start → relation (change before) (changeToo start)) :
    Mirrors exact relation (Bind.apply change) (Bind.apply changeToo) := keeps

theorem exists_ok (mirrors : Mirrors exact relation step stepToo) {before start after : Binder}
    (related : relation before start) (succeeded : step before = .ok () after) :
    ∃ stop, stepToo start = .ok () stop ∧ relation after stop := by
  have matched := mirrors before start related
  rw [succeeded] at matched
  cases ranToo : stepToo start <;> rw [ranToo] at matched
  case ok _ stop => exact ⟨stop, rfl, matched⟩
  case error => exact matched.elim

theorem seq (first : Mirrors exact relation step stepToo)
    (second : Mirrors exact relation next nextToo) :
    Mirrors exact relation (do step; next) (do stepToo; nextToo) := by
  intro before start related
  have matched := first before start related
  change Matched exact relation (EStateM.bind step (fun _ => next) before)
    (EStateM.bind stepToo (fun _ => nextToo) start)
  unfold EStateM.bind
  cases ran : step before <;> cases ranToo : stepToo start <;> rw [ran, ranToo] at matched
  case ok.ok _ between _ betweenToo => exact second between betweenToo matched
  case ok.error => exact matched.elim
  case error.ok _ _ _ betweenToo =>
      dsimp only
      cases nextToo betweenToo with
      | ok _ stop => exact matched
      | error found stop => exact fun isExact => (matched isExact).elim
  case error.error => exact matched

theorem find {next nextToo : StatementNode → Bind Unit} (found : tree.statement? ref = some node)
    (foundToo : other.statement? ref = some (node.reworded w))
    (mirrors : Mirrors exact relation (next node) (nextToo (node.reworded w))) :
    Mirrors exact relation (Bind.find tree ref >>= next) (Bind.find other ref >>= nextToo) := by
  intro before start related
  change Matched exact relation (EStateM.bind (Bind.find tree ref) next before)
    (EStateM.bind (Bind.find other ref) nextToo start)
  unfold EStateM.bind Bind.find
  rw [found, foundToo]
  exact mirrors before start related

/-- Both trees take a statement to exit, or neither does. -/
def SameExits (tree other : StatementTree) (relation : Binder → Binder → Prop)
    (ref : StatementRef) : Prop :=
  ∀ breakExits before start, relation before start →
    other.alwaysExits breakExits start.settings.nestingLimit ref =
      tree.alwaysExits breakExits before.settings.nestingLimit ref

theorem branchTag {conditional : StatementRef} {index : Nat} {span : Span} {breakExits : Bool}
    {next nextToo : BranchTag → Bind Unit} (same : SameExits tree other relation ref)
    (mirrors : ∀ tag, Mirrors exact relation (next tag) (nextToo tag)) :
    Mirrors exact relation (Bind.branchTag tree conditional index ref span breakExits >>= next)
      (Bind.branchTag other conditional index ref span breakExits >>= nextToo) := by
  intro before start related
  change Matched exact relation
    (next ⟨conditional, index, tree.alwaysExits breakExits before.settings.nestingLimit ref, span⟩
      before)
    (nextToo ⟨conditional, index, other.alwaysExits breakExits start.settings.nestingLimit ref,
      span⟩ start)
  rw [same breakExits before start related]
  exact mirrors _ before start related

end Mirrors

/-! ## Trees side by side -/

/-- Two trees show the same statements, up to their texts, and a relation between two binders holds
on as both bind them. -/
structure Parallel (w : Rewording) (tree other : StatementTree) (visited : StatementRef → Prop)
    (evaluated : ExpressionRef → Prop) (exact : Prop) (relation : Binder → Binder → Prop) :
    Prop where
  node : ∀ {ref}, visited ref → ∃ node, tree.statement? ref = some node ∧
    other.statement? ref = some (node.reworded w) ∧
    (∀ child ∈ node.content.children,
      visited child.1 ∧ Mirrors.SameExits tree other relation child.1) ∧
    ∀ slot ∈ node.content.expressionSlots, evaluated slot
  isTwoWay : ∀ {ref}, visited ref → other.isTwoWay ref = tree.isTwoWay ref
  addsBleedLevel : ∀ {ref}, visited ref → ∀ position,
    (other.classify ref position).addsBleedLevel = (tree.classify ref position).addsBleedLevel
  introduced : ∀ {expression}, evaluated expression →
    other.introduced expression = (tree.introduced expression).map (·.reworded w)
  introducedByLabel : ∀ {pattern : PatternNode}, (∀ constant ∈ pattern.constants,
    evaluated constant) → ∀ switchSection,
      other.introducedByLabel switchSection (pattern.reworded w) =
        (tree.introducedByLabel switchSection pattern).map (·.reworded w)
  current : ∀ {before start}, relation before start → start.current = before.current
  bleedDepth : ∀ {before start}, relation before start → start.bleedDepth = before.bleedDepth
  limit : exact → ∀ {before start}, relation before start →
    start.settings.nestingLimit = before.settings.nestingLimit
  enter : ∀ {before start}, relation before start → ∀ kind boundary span branch,
    relation (before.enter kind boundary span branch) (start.enter kind boundary span branch)
  leave : ∀ {before start}, relation before start → relation before.leave start.leave
  bleed : ∀ {before start}, relation before start → ∀ depth,
    relation { before with bleedDepth := depth } { start with bleedDepth := depth }
  recordStatement : ∀ {before start}, relation before start → ∀ ref region,
    relation (before.recordStatement ref region) (start.recordStatement ref region)
  declare : ∀ {before start}, relation before start → ∀ name kind span ref expression,
    relation (before.declare name kind span ref expression)
      (start.declare (w.name name) kind span ref expression)
  recordExpression : ∀ {before start}, relation before start → ∀ {expression},
    evaluated expression →
      relation (before.recordExpression tree expression) (start.recordExpression other expression)

namespace Parallel

variable (parallel : Parallel w tree other visited evaluated exact relation)
include parallel

/-! ### Headers -/

section Header

variable {before start : Binder} (related : relation before start)
include related

theorem declareAll (introductions : List Introduction) :
    relation (introductions.foldl Binder.declareIntroduction before)
      ((introductions.map (·.reworded w)).foldl Binder.declareIntroduction start) := by
  rw [List.foldl_map]
  exact List.foldl_rel related fun introduction _ before start related =>
    parallel.declare related _ _ _ _ _

theorem bindExpression {expression : ExpressionRef} (known : evaluated expression) :
    relation (before.bindExpression tree expression) (start.bindExpression other expression) := by
  cases expression with
  | none => exact related
  | some id =>
      unfold Binder.bindExpression
      rw [parallel.introduced known]
      exact parallel.declareAll (parallel.recordExpression related known) _

private theorem bindExpressions {expressions : List ExpressionRef}
    (known : ∀ expression ∈ expressions, evaluated expression) :
    relation (before.bindExpressions tree expressions)
      (start.bindExpressions other expressions) :=
  List.foldl_rel related fun expression listed _ _ related =>
    parallel.bindExpression related (known expression listed)

private theorem bindDeclarators (ref : StatementRef) {declarators : List DeclaratorNode}
    (known : ∀ expression ∈ declarators.map (·.initializer), evaluated expression) :
    relation (before.bindDeclarators tree ref declarators)
      (start.bindDeclarators other ref (declarators.map (·.reworded w))) := by
  unfold Binder.bindDeclarators
  rw [List.foldl_map]
  exact List.foldl_rel related fun declarator listed before start related =>
    parallel.bindExpression (parallel.declare related _ _ _ _ _)
      (known _ (List.mem_map_of_mem listed))

private theorem bindLabel (ref : StatementRef) {label : LabelNode}
    (known : ∀ expression ∈ StatementContent.labelExpressions label, evaluated expression) :
    relation (before.bindLabel tree ref label) (start.bindLabel other ref (label.reworded w)) := by
  obtain ⟨pattern, guard, span⟩ := label
  have knownGuard : evaluated guard := known guard (List.mem_append_right _ List.mem_cons_self)
  cases pattern with
  | none => exact parallel.bindExpression related knownGuard
  | some pattern =>
      have knownConstant : ∀ constant ∈ pattern.constants, evaluated constant :=
        fun constant listed => known constant (List.mem_append_left _ listed)
      have recorded : relation
          (pattern.constants.foldl (fun binder constant => binder.recordExpression tree constant)
            ((tree.introducedByLabel ref pattern).foldl Binder.declareIntroduction before))
          ((pattern.reworded w).constants.foldl
            (fun binder constant => binder.recordExpression other constant)
            ((other.introducedByLabel ref (pattern.reworded w)).foldl
              Binder.declareIntroduction start)) := by
        rw [pattern.constants_reworded, parallel.introducedByLabel knownConstant]
        exact List.foldl_rel (parallel.declareAll related _) fun constant listed _ _ related =>
          parallel.recordExpression related (knownConstant constant listed)
      exact parallel.bindExpression recorded knownGuard

private theorem bindLabels (ref : StatementRef) {labels : List LabelNode}
    (known : ∀ expression ∈ labels.flatMap StatementContent.labelExpressions,
      evaluated expression) :
    relation (before.bindLabels tree ref labels)
      (start.bindLabels other ref (labels.map (·.reworded w))) := by
  unfold Binder.bindLabels
  rw [List.foldl_map]
  exact List.foldl_rel related fun label listed before start related =>
    parallel.bindLabel related ref fun expression among =>
      known expression (List.mem_flatMap.mpr ⟨label, listed, among⟩)

end Header

/-! ### Steps around others -/

theorem inRegion {kind : RegionKind} {boundary : StatementRef} {span : Span}
    {branch : Option BranchTag} (mirrors : Mirrors exact relation step stepToo) :
    Mirrors exact relation (Bind.inRegion kind boundary span branch step)
      (Bind.inRegion kind boundary span branch stepToo) := by
  intro before start related
  have matched := mirrors _ _ (parallel.enter related kind boundary span branch)
  unfold Bind.inRegion
  cases ran : step (before.enter kind boundary span branch) <;>
    cases ranToo : stepToo (start.enter kind boundary span branch) <;>
    rw [ran, ranToo] at matched
  case ok.ok => exact parallel.leave matched
  all_goals exact matched

private theorem withBleed {added : Bool} (mirrors : Mirrors exact relation step stepToo) :
    Mirrors exact relation (Bind.withBleed added step) (Bind.withBleed added stepToo) := by
  intro before start related
  have matched := mirrors _ _ (parallel.bleed related
    (if added then before.bleedDepth + 1 else before.bleedDepth))
  unfold Bind.withBleed
  rw [parallel.bleedDepth related]
  dsimp only
  cases ran : step { before with
      bleedDepth := if added then before.bleedDepth + 1 else before.bleedDepth } <;>
    cases ranToo : stepToo { start with
      bleedDepth := if added then before.bleedDepth + 1 else before.bleedDepth } <;>
    rw [ran, ranToo] at matched
  case ok.ok => exact parallel.bleed matched _
  all_goals exact matched

private theorem recordAround (mirrors : Mirrors exact relation step stepToo) :
    Mirrors exact relation (Bind.recordAround ref step) (Bind.recordAround ref stepToo) := by
  intro before start related
  have matched := mirrors before start related
  unfold Bind.recordAround
  rw [parallel.current related]
  cases ran : step before <;> cases ranToo : stepToo start <;> rw [ran, ranToo] at matched
  case ok.ok => exact parallel.recordStatement matched _ _
  all_goals exact matched

theorem evaluates {expression : ExpressionRef} (known : evaluated expression) :
    Mirrors exact relation (Bind.apply (·.bindExpression tree expression))
      (Bind.apply (·.bindExpression other expression)) :=
  .apply fun _ _ related => parallel.bindExpression related known

private theorem span_eq (here : visited ref) : other.span ref = tree.span ref := by
  obtain ⟨node, found, foundToo, _⟩ := parallel.node here
  rw [StatementTree.span, foundToo, StatementTree.span, found]
  rfl

private theorem recordHere : Mirrors exact relation
    (Bind.apply fun binder => binder.recordStatement ref binder.current)
    (Bind.apply fun binder => binder.recordStatement ref binder.current) :=
  .apply fun before start related => by
    rw [parallel.current related]
    exact parallel.recordStatement related _ _

end Parallel

/-! ## Visits side by side -/

/-- Visits of the two runs do the same. -/
structure MirrorsVisits (visited : StatementRef → Prop) (exact : Prop)
    (relation : Binder → Binder → Prop) (visit visitToo : Visit → Bind Unit) : Prop where
  statement : ∀ {ref}, visited ref → ∀ position branch,
    Mirrors exact relation (visit (.statement ref position branch))
      (visitToo (.statement ref position branch))
  link : ∀ {ref}, visited ref → ∀ head span index,
    Mirrors exact relation (visit (.link head span index ref))
      (visitToo (.link head span index ref))

theorem MirrorsVisits.bindMembers (visits : MirrorsVisits visited exact relation visit visitToo)
    {members : List StatementRef} (visitable : ∀ member ∈ members, visited member) :
    Mirrors exact relation (Bind.bindMembers visit members)
      (Bind.bindMembers visitToo members) := by
  induction members with
  | nil => exact .pure
  | cons first rest induction =>
      obtain ⟨here, others⟩ := List.forall_mem_cons.mp visitable
      exact .seq (visits.statement here _ _) (induction others)

private theorem MirrorsVisits.bindSections
    (visits : MirrorsVisits visited exact relation visit visitToo) (switch : StatementRef)
    (span : Span) {sections : List StatementRef}
    (known : ∀ ref ∈ sections, visited ref ∧ Mirrors.SameExits tree other relation ref)
    (index : Nat) :
    Mirrors exact relation (Bind.bindSections tree visit switch span index sections)
      (Bind.bindSections other visitToo switch span index sections) := by
  induction sections generalizing index with
  | nil => exact .pure
  | cons first rest induction =>
      obtain ⟨⟨here, same⟩, others⟩ := List.forall_mem_cons.mp known
      exact .branchTag same fun tag =>
        .seq (visits.statement here _ _) (induction others (index + 1))

namespace Parallel

variable (parallel : Parallel w tree other visited evaluated exact relation)
  (visits : MirrorsVisits visited exact relation visit visitToo)
include parallel visits

theorem bindBranch (here : visited ref) (slot : BodySlot) (tag : BranchTag) :
    Mirrors exact relation (Bind.bindBranch tree visit ref slot tag)
      (Bind.bindBranch other visitToo ref slot tag) := by
  obtain ⟨node, found, foundToo, _⟩ := parallel.node here
  refine .find found foundToo ?_
  rw [StatementNode.kind_reworded]
  split
  · exact visits.statement here _ _
  · exact parallel.recordAround (parallel.inRegion (visits.statement here _ _))

theorem bindLink (here : visited ref) (head : StatementRef) (span : Span) (index : Nat) :
    Mirrors exact relation (Bind.bindLink tree visit head span index ref)
      (Bind.bindLink other visitToo head span index ref) := by
  obtain ⟨node, found, foundToo, children, slots⟩ := parallel.node here
  refine .find found foundToo ?_
  rw [StatementNode.content_reworded]
  cases content : node.content with
  | branch condition thenBody elseBody =>
      rw [content] at children slots
      -- the region of a link is the same whether or not an alternative comes behind it
      have thenRegion : visited thenBody → ∀ tag covered, Mirrors exact relation
          (Bind.inRegion .branch ref covered (some tag) (do
            Bind.apply (·.bindExpression tree condition)
            visit (.statement thenBody (.nested .thenBody) none)))
          (Bind.inRegion .branch ref covered (some tag) (do
            Bind.apply (·.bindExpression other condition)
            visitToo (.statement thenBody (.nested .thenBody) none))) :=
        fun thenHere tag covered => parallel.inRegion
          (.seq (parallel.evaluates (slots condition List.mem_cons_self))
            (visits.statement thenHere _ _))
      cases elseBody with
      | none =>
          obtain ⟨thenHere, thenSame⟩ := children _ List.mem_cons_self
          refine .branchTag thenSame fun tag => ?_
          rw [parallel.span_eq thenHere]
          exact .seq (thenRegion thenHere tag _) .pure
      | some elseBody =>
          obtain ⟨thenHere, thenSame⟩ := children _ List.mem_cons_self
          obtain ⟨elseHere, elseSame⟩ :=
            children _ (List.mem_cons_of_mem _ List.mem_cons_self)
          obtain ⟨alternative, elseFound, elseFoundToo, _⟩ := parallel.node elseHere
          refine .branchTag thenSame fun tag => ?_
          rw [parallel.span_eq thenHere]
          refine .seq (thenRegion thenHere tag _) (.find elseFound elseFoundToo ?_)
          rw [StatementNode.kind_reworded]
          split
          · exact visits.link elseHere _ _ _
          · exact .branchTag elseSame fun tag => parallel.bindBranch visits elseHere _ tag
  | _ => exact .pure

private theorem bindConditional (here : visited ref) (span : Span)
    {condition : ExpressionRef} {thenBody elseBody : StatementRef}
    (found : tree.statement? ref = some node)
    (content : node.content = .branch condition thenBody elseBody) :
    Mirrors exact relation (Bind.bindConditional tree visit ref span condition thenBody elseBody)
      (Bind.bindConditional other visitToo ref span condition thenBody elseBody) := by
  obtain ⟨_, known, _, children, slots⟩ := parallel.node here
  obtain rfl := Option.some.inj (found.symm.trans known)
  rw [content] at children slots
  have header := parallel.evaluates (slots condition List.mem_cons_self)
  cases elseBody with
  | none =>
      obtain ⟨thenHere, thenSame⟩ := children _ List.mem_cons_self
      exact .seq header (.branchTag thenSame fun tag => visits.statement thenHere _ _)
  | some elseBody =>
      obtain ⟨thenHere, thenSame⟩ := children _ List.mem_cons_self
      obtain ⟨elseHere, elseSame⟩ := children _ (List.mem_cons_of_mem _ List.mem_cons_self)
      unfold Bind.bindConditional
      simp only [Option.isNone_some, Bool.false_eq_true, if_false, parallel.isTwoWay here]
      split
      · exact .seq header (.branchTag thenSame fun tag =>
          .seq (parallel.bindBranch visits thenHere _ tag)
            (.branchTag elseSame fun tag => parallel.bindBranch visits elseHere _ tag))
      · exact parallel.bindLink visits here _ _ _

private theorem bindContent (here : visited ref) (span : Span) (branch : Option BranchTag)
    (found : tree.statement? ref = some node) {content : StatementContent}
    (isContent : node.content = content) :
    Mirrors exact relation (Bind.bindContent tree visit ref span branch content)
      (Bind.bindContent other visitToo ref span branch (content.reworded w)) := by
  obtain ⟨_, known, _, children, slots⟩ := parallel.node here
  obtain rfl := Option.some.inj (found.symm.trans known)
  rw [isContent] at children slots
  have expression : ∀ {slot}, slot ∈ content.expressionSlots → Mirrors exact relation
      (Bind.apply (·.bindExpression tree slot)) (Bind.apply (·.bindExpression other slot)) :=
    fun listed => parallel.evaluates (slots _ listed)
  have expressions : ∀ {list : List ExpressionRef}, (∀ slot ∈ list,
      slot ∈ content.expressionSlots) → Mirrors exact relation
        (Bind.apply (·.bindExpressions tree list)) (Bind.apply (·.bindExpressions other list)) :=
    fun listed => .apply fun before start related =>
      parallel.bindExpressions related fun slot among => slots slot (listed slot among)
  have declarators : ∀ {list : List DeclaratorNode}, (∀ slot ∈ list.map (·.initializer),
      slot ∈ content.expressionSlots) → Mirrors exact relation
        (Bind.apply (·.bindDeclarators tree ref list))
        (Bind.apply (·.bindDeclarators other ref (list.map (·.reworded w)))) :=
    fun listed => .apply fun before start related =>
      parallel.bindDeclarators related ref fun slot among => slots slot (listed slot among)
  have body : ∀ {body position}, (body, position) ∈ content.children → ∀ tag,
      Mirrors exact relation (visit (.statement body position tag))
        (visitToo (.statement body position tag)) :=
    fun listed tag => visits.statement (children _ listed).1 _ tag
  have members : ∀ {list : List StatementRef}, (∀ member ∈ list,
      (member, Position.member) ∈ content.children) → Mirrors exact relation
        (Bind.bindMembers visit list) (Bind.bindMembers visitToo list) :=
    fun listed => visits.bindMembers fun member among => (children _ (listed member among)).1
  cases content with
  | block statements =>
      exact parallel.inRegion (members fun member => List.mem_map_of_mem)
  | branch condition thenBody elseBody =>
      exact parallel.bindConditional visits here span found isContent
  | whileLoop condition loopBody =>
      exact parallel.inRegion (.seq (expression List.mem_cons_self) (body List.mem_cons_self none))
  | doLoop loopBody condition =>
      exact parallel.inRegion (.seq (body List.mem_cons_self none) (expression List.mem_cons_self))
  | forLoop declared initializers condition incrementors loopBody =>
      refine parallel.inRegion (.seq (declarators fun slot among => ?_)
        (.seq (expressions fun slot among => ?_) (.seq (expression ?_)
          (.seq (expressions fun slot among => ?_) (body List.mem_cons_self none))))) <;>
        simp_all [StatementContent.expressionSlots]
  | forEachLoop element collection loopBody =>
      exact parallel.inRegion (.seq
        (.apply fun before start related => parallel.declare related _ _ _ _ _)
        (.seq (expression List.mem_cons_self) (body List.mem_cons_self none)))
  | resource declared held resourceBody =>
      refine parallel.inRegion (.seq (declarators fun slot among => ?_)
        (.seq (expression ?_) (body List.mem_cons_self none))) <;>
        simp_all [StatementContent.expressionSlots]
  | switch subject sections =>
      exact .seq (expression List.mem_cons_self) (parallel.inRegion
        (visits.bindSections ref span
          (fun switchSection among => children _ (List.mem_map_of_mem among)) 0))
  | switchSection labels statements =>
      exact parallel.inRegion (.seq
        (.apply fun before start related => parallel.bindLabels related ref slots)
        (members fun member => List.mem_map_of_mem))
  | labeled label inner => exact body List.mem_cons_self branch
  | localDeclaration declared => exact declarators fun slot => id
  | evaluation value | returning value | throwing value => exact expression List.mem_cons_self
  | breaking | continuing | empty => exact .pure

end Parallel

/-- Visits do the same side by side. The second run may have more levels left, unless both have to
fail alike. -/
theorem Parallel.mirrorsVisits
    (parallel : Parallel w tree other visited evaluated exact relation) (extra : Nat)
    (none : exact → extra = 0) (levels : Nat) :
    MirrorsVisits visited exact relation (Bind.visit tree levels)
      (Bind.visit other (levels + extra)) := by
  induction levels with
  | zero =>
      have fails : ∀ todo, Mirrors exact relation (Bind.visit tree 0 todo)
          (Bind.visit other (0 + extra) todo) := by
        intro todo before start related
        cases result : Bind.visit other (0 + extra) todo start with
        | ok _ stop =>
            intro isExact
            rw [none isExact] at result
            cases result
        | error found stop =>
            intro isExact
            rw [none isExact] at result
            cases result
            rw [parallel.limit isExact related]
      exact ⟨fun _ _ _ => fails _, fun _ _ _ _ => fails _⟩
  | succ levels induction =>
      rw [Nat.add_right_comm]
      constructor
      · intro ref here position branch
        obtain ⟨node, found, foundToo, _⟩ := parallel.node here
        refine .find found foundToo (.seq parallel.recordHere ?_)
        rw [parallel.addsBleedLevel here]
        exact parallel.withBleed (parallel.bindContent induction here _ _ found rfl)
      · intro ref here head span index
        exact .seq parallel.recordHere (parallel.bindLink induction here _ _ _)

theorem Parallel.bindBody (parallel : Parallel w tree other visited evaluated exact relation)
    (extra : Nat) (none : exact → extra = 0) (here : visited tree.root)
    (root : other.root = tree.root) (found : tree.statement? tree.root = some node) (limit : Nat) :
    Mirrors exact relation (Bind.bindBody tree limit node.content)
      (Bind.bindBody other (limit + extra) (node.reworded w).content) := by
  have visits := parallel.mirrorsVisits extra none
  have whole : Mirrors exact relation
      (Bind.visit tree (limit + 1) (.statement tree.root .root .none))
      (Bind.visit other (limit + extra + 1) (.statement other.root .root .none)) := by
    rw [root, Nat.add_right_comm]
    exact (visits (limit + 1)).statement here _ _
  obtain ⟨_, known, _, children, _⟩ := parallel.node here
  obtain rfl := Option.some.inj (found.symm.trans known)
  rw [StatementNode.content_reworded]
  cases content : node.content with
  | block members =>
      rw [content] at children
      exact (visits limit).bindMembers fun member among =>
        (children _ (List.mem_map_of_mem among)).1
  | _ => exact whole

theorem Parallel.declareParameters
    (parallel : Parallel w tree other visited evaluated exact relation)
    (parameters : other.parameters = tree.parameters.map (·.reworded w))
    (root : other.root = tree.root) {before start : Binder} (related : relation before start) :
    relation
      (tree.parameters.foldl (fun binder parameter =>
        binder.declare parameter.name .parameter parameter.span tree.root .none) before)
      (other.parameters.foldl (fun binder parameter =>
        binder.declare parameter.name .parameter parameter.span other.root .none) start) := by
  rw [parameters, List.foldl_map, root]
  exact List.foldl_rel related fun parameter _ before start related =>
    parallel.declare related _ _ _ _ _

end Bind

end LexicalScope
