import LexicalScope.Scope.Boundary
import LexicalScope.Scope.Introduction
import LexicalScope.Scope.Settings
import LexicalScope.Scope.Tree
import LexicalScope.StatementTree.Links

/-!
# Binding a statement tree

A binder goes through a statement tree in source order. It opens a region at each boundary statement
and at each alternative of a conditional, puts every declaration into the innermost open region, and
records which region was open at each statement and expression.

An `if` with a plain `else` keeps its condition outside and makes each branch a region. An `if` whose
`else` is another `if` is the head of a chain: each link is a region that holds its condition and its
branch, and all links are alternatives of the head.
-/

namespace LexicalScope

/-- Why a statement tree has no scope tree. -/
inductive ScopeError where
  /-- The references of the tree do not agree. -/
  | malformedTree (error : TreeError)
  /-- More statements than the limit are around a statement. -/
  | nestingTooDeep (statement : StatementRef) (limit : Nat)
  /-- The expressions of the tree cannot be followed to an end. -/
  | endless
deriving DecidableEq, Repr

namespace ScopeError

/-- The wording of a failure. -/
def message : ScopeError → String
  | malformedTree error => "malformed statement tree: " ++ error.message
  | nestingTooDeep statement limit =>
    "statement " ++ StatementRef.text statement ++ " is nested more than " ++ toString limit ++
      " levels deep"
  | endless => "malformed statement tree: an expression is a part of itself"

end ScopeError

/-- What to go back to when a region is left. -/
structure EnclosingRegion where
  /-- The region around the one that is left. -/
  region : RegionRef
  /-- The unbraced bodies that were counted there. -/
  bleedDepth : Nat
deriving DecidableEq, Repr

/-- A scope tree under construction, with the regions that are open. -/
structure Binder where
  /-- The settings, which binding does not change. -/
  settings : ScopeSettings
  /-- The regions opened so far. -/
  regions : Array Region
  /-- The declarations met so far. -/
  declarations : Array Declaration
  /-- What is around the innermost open region, from the inside out. -/
  enclosing : List EnclosingRegion
  /-- The innermost open region. -/
  current : RegionRef
  /-- The unbraced bodies between here and the boundary of the innermost open region. -/
  bleedDepth : Nat
  /-- The region around each statement reached. -/
  statementRegions : RegionRecord
  /-- The region around each expression reached. -/
  expressionRegions : RegionRecord
  /-- The region around the last absent constant of a label. -/
  absentRegion : RegionRef
  /-- The first region opened by each statement. -/
  boundaryRegions : RegionRecord
deriving Repr

namespace Binder

/-- A binder that has met nothing, for as many statements and expressions as are given. -/
def blank (settings : ScopeSettings) (statements expressions : Nat) : Binder :=
  { settings := settings
    regions := #[]
    declarations := #[]
    enclosing := []
    current := none
    bleedDepth := 0
    statementRegions := .blank statements
    expressionRegions := .blank expressions
    absentRegion := none
    boundaryRegions := .blank statements }

/-- A binder with the given settings. -/
def new (settings : ScopeSettings) : Binder := blank settings 0 0

/-- The binder without what it met. -/
def reset (binder : Binder) : Binder :=
  { binder with
    regions := #[]
    declarations := #[]
    enclosing := []
    current := none
    bleedDepth := 0
    statementRegions := .blank 0
    expressionRegions := .blank 0
    absentRegion := none
    boundaryRegions := .blank 0 }

/-- The binder with empty records for as many statements and expressions as are given. -/
def sized (statements expressions : Nat) (binder : Binder) : Binder :=
  { binder with
    statementRegions := .blank statements
    expressionRegions := .blank expressions
    boundaryRegions := .blank statements }

/-! ## Steps -/

/-- Opens a region inside the innermost open one. -/
def enter (kind : RegionKind) (boundary : StatementRef) (span : Span)
    (branch : Option BranchTag) (binder : Binder) : Binder :=
  let id : RegionId := ⟨binder.regions.size⟩
  let depth :=
    match binder.current.bind fun parent => binder.regions[parent.index]? with
    | some parent => parent.depth + 1
    | none => 0
  let opened := binder.regions.push (.opened id kind boundary span binder.current depth branch)
  { binder with
    regions :=
      match binder.current with
      | some parent => opened.modify parent.index (·.addChild id)
      | none => opened
    boundaryRegions :=
      match boundary with
      | some statement => binder.boundaryRegions.putFirst statement.index (some id)
      | none => binder.boundaryRegions
    enclosing := ⟨binder.current, binder.bleedDepth⟩ :: binder.enclosing
    current := some id
    bleedDepth := 0 }

/-- Leaves the innermost open region. -/
def leave (binder : Binder) : Binder :=
  match binder.enclosing with
  | [] => { binder with current := none, bleedDepth := 0 }
  | outer :: rest =>
    { binder with current := outer.region, bleedDepth := outer.bleedDepth, enclosing := rest }

/-- Adds a declaration to the innermost open region. -/
def declare (name : String) (kind : DeclarationKind) (span : Span) (statement : StatementRef)
    (expression : ExpressionRef) (binder : Binder) : Binder :=
  let id : DeclarationId := ⟨binder.declarations.size⟩
  { binder with
    declarations := binder.declarations.push
      { id := id
        name := name
        kind := kind
        span := span
        region := binder.current
        statement := statement
        expression := expression
        sequence := id.index
        bleedDepth := binder.bleedDepth }
    regions :=
      match binder.current with
      | some region => binder.regions.modify region.index (·.addDeclaration name id)
      | none => binder.regions }

/-- Adds the declaration of a name introduced inside an expression or pattern. -/
def declareIntroduction (binder : Binder) (introduction : Introduction) : Binder :=
  binder.declare introduction.name introduction.kind introduction.span introduction.statement
    introduction.expression

/-- Records the innermost open region for a statement. -/
def recordStatement (statement : StatementRef) (region : RegionRef) (binder : Binder) : Binder :=
  match statement with
  | some id =>
    { binder with statementRegions := binder.statementRegions.put id.index region }
  | none => binder

/-- Records a region for an expression and everything below it, at most `steps` parts deep. -/
def recordBelow (tree : StatementTree) (region : RegionRef) :
    Nat → RegionRecord → ExpressionId → RegionRecord
  | 0, record, _ => record
  | steps + 1, record, expression =>
    (tree.expressionChildren (some expression)).foldl (recordBelow tree region steps)
      (record.put expression.index region)

/-- Records the innermost open region for an expression and everything below it. -/
def recordExpression (tree : StatementTree) (expression : ExpressionRef) (binder : Binder) :
    Binder :=
  match expression with
  | some id =>
    { binder with
      expressionRegions :=
        recordBelow tree binder.current tree.expressionSteps binder.expressionRegions id }
  | none => { binder with absentRegion := binder.current }

/-- Records an expression and declares the names it introduces; an absent one does nothing. -/
def bindExpression (tree : StatementTree) (expression : ExpressionRef) (binder : Binder) :
    Binder :=
  match expression with
  | none => binder
  | some _ =>
    (tree.introduced expression).foldl declareIntroduction (binder.recordExpression tree expression)

/-- Binds expressions one after the other. -/
def bindExpressions (tree : StatementTree) (expressions : List ExpressionRef) (binder : Binder) :
    Binder :=
  expressions.foldl (fun binder expression => binder.bindExpression tree expression) binder

/-- Declares a local variable, then binds its initial value. -/
def bindDeclarator (tree : StatementTree) (statement : StatementRef) (binder : Binder)
    (declarator : DeclaratorNode) : Binder :=
  (binder.declare declarator.binding.name (.localVariable declarator.initializer.isSome)
    declarator.binding.span statement none).bindExpression tree declarator.initializer

/-- Declares local variables one after the other. -/
def bindDeclarators (tree : StatementTree) (statement : StatementRef)
    (declarators : List DeclaratorNode) (binder : Binder) : Binder :=
  declarators.foldl (bindDeclarator tree statement) binder

/-- Declares the names of a label's pattern, records the constants of the pattern, then binds the
guard. -/
def bindLabel (tree : StatementTree) (switchSection : StatementRef) (binder : Binder)
    (label : LabelNode) : Binder :=
  let matched :=
    match label.pattern with
    | none => binder
    | some pattern =>
      pattern.constants.foldl (fun binder constant => binder.recordExpression tree constant)
        ((tree.introducedByLabel switchSection pattern).foldl declareIntroduction binder)
  matched.bindExpression tree label.guard

/-- Binds labels one after the other. -/
def bindLabels (tree : StatementTree) (switchSection : StatementRef) (labels : List LabelNode)
    (binder : Binder) : Binder :=
  labels.foldl (bindLabel tree switchSection) binder

end Binder

namespace StatementTree

/-- Whether every path through a statement leaves the conditional around it early. A `break` does so
in a branch of an `if`, where it leaves a loop or section further out, but not in a section, where
it leads behind the switch. Statements nested `limit` deep or deeper are taken not to exit. -/
def alwaysExits (tree : StatementTree) (breakExits : Bool) : Nat → StatementRef → Bool
  | 0, _ => false
  | limit + 1, ref =>
    match (tree.statement? ref).map StatementNode.content with
    | none => false
    | some content =>
      match content with
      | .returning _ | .throwing _ | .continuing => true
      | .breaking => breakExits
      | .block members => members.any (tree.alwaysExits breakExits limit)
      | .switchSection _ members => members.any (tree.alwaysExits breakExits limit)
      | .branch _ thenBody (some elseBody) =>
        tree.alwaysExits breakExits limit thenBody &&
          tree.alwaysExits breakExits limit (some elseBody)
      | .labeled _ body => tree.alwaysExits breakExits limit body
      | _ => false

end StatementTree

/-- A step of binding. A failed step keeps the state that it reached. -/
abbrev Bind := EStateM ScopeError Binder

namespace Bind

/-- A step that always succeeds. -/
def apply (change : Binder → Binder) : Bind Unit := fun binder => .ok () (change binder)

/-- Runs a step inside a new region, which is left however the step ends. -/
def inRegion (kind : RegionKind) (boundary : StatementRef) (span : Span)
    (branch : Option BranchTag) (step : Bind Unit) : Bind Unit := fun binder =>
  match step (binder.enter kind boundary span branch) with
  | .ok () after => .ok () after.leave
  | .error error after => .error error after.leave

/-- Runs a step below one more unbraced body, if `added` says so. -/
def withBleed (added : Bool) (step : Bind Unit) : Bind Unit := fun binder =>
  let depth := binder.bleedDepth
  match step { binder with bleedDepth := if added then depth + 1 else depth } with
  | .ok () after => .ok () { after with bleedDepth := depth }
  | .error error after => .error error { after with bleedDepth := depth }

/-- Runs a step, then records the region around it for a statement, however the step ends. -/
def recordAround (statement : StatementRef) (step : Bind Unit) : Bind Unit := fun binder =>
  let region := binder.current
  match step binder with
  | .ok () after => .ok () (after.recordStatement statement region)
  | .error error after => .error error (after.recordStatement statement region)

/-- The statement at a reference. -/
def find (tree : StatementTree) (ref : StatementRef) : Bind StatementNode := fun binder =>
  match tree.statement? ref with
  | some node => .ok node binder
  | none =>
    if ref = tree.root then
      .error (.malformedTree (.missingRoot tree.name)) binder
    else
      .error (.malformedTree (.danglingStatement (tree.parent ref) ref)) binder

/-- The tag of an alternative of a conditional. -/
def branchTag (tree : StatementTree) (conditional : StatementRef) (index : Nat)
    (body : StatementRef) (span : Span) (breakExits : Bool) : Bind BranchTag := fun binder =>
  let exits := tree.alwaysExits breakExits binder.settings.nestingLimit body
  .ok ⟨conditional, index, exits, span⟩ binder

/-- Something below a statement that remains to be bound. -/
inductive Visit where
  /-- A statement at a position; the tag is for the region that it opens, if it opens one. -/
  | statement (ref : StatementRef) (position : Position) (branch : Option BranchTag)
  /-- A later link of an `else if` chain, whose head covers a span. -/
  | link (head : StatementRef) (span : Span) (index : Nat) (ref : StatementRef)

/-- The statement of a visit. -/
def Visit.target : Visit → StatementRef
  | statement ref _ _ => ref
  | link _ _ _ ref => ref

/-- Visits the members of a block or section. -/
def bindMembers (visit : Visit → Bind Unit) (members : List StatementRef) : Bind Unit :=
  members.forM fun member => visit (.statement member .member none)

/-- Binds a branch of a conditional. A block takes the tag itself; any other statement gets a region
around it. Either way the statement is recorded outside. -/
def bindBranch (tree : StatementTree) (visit : Visit → Bind Unit) (body : StatementRef)
    (slot : BodySlot) (tag : BranchTag) : Bind Unit := do
  let node ← find tree body
  if node.kind = .block then
    visit (.statement body (.nested slot) (some tag))
  else
    recordAround body
      (inRegion .branch body node.span (some tag) (visit (.statement body (.nested slot) none)))

/-- Binds a link of an `else if` chain and those behind it. -/
def bindLink (tree : StatementTree) (visit : Visit → Bind Unit) (head : StatementRef)
    (span : Span) (index : Nat) (link : StatementRef) : Bind Unit := do
  let node ← find tree link
  match node.content with
  | .branch condition thenBody elseBody =>
    let tag ← branchTag tree head index thenBody span true
    let covered : Span := ⟨node.span.start, max (tree.span thenBody).stop node.span.start⟩
    inRegion .branch link covered (some tag) do
      apply (·.bindExpression tree condition)
      visit (.statement thenBody (.nested .thenBody) none)
    if elseBody.isSome then
      let alternative ← find tree elseBody
      if alternative.kind = .branch then
        visit (.link head span (index + 1) elseBody)
      else
        let tag ← branchTag tree head (index + 1) elseBody span true
        bindBranch tree visit elseBody .elseBody tag
  | _ => return ()

/-- Binds an `if`: one without alternative, one with a plain `else`, or the head of a chain. -/
def bindConditional (tree : StatementTree) (visit : Visit → Bind Unit) (ref : StatementRef)
    (span : Span) (condition : ExpressionRef) (thenBody elseBody : StatementRef) : Bind Unit := do
  if elseBody.isNone then
    apply (·.bindExpression tree condition)
    let tag ← branchTag tree ref 0 thenBody span true
    visit (.statement thenBody (.nested .thenBody) (some tag))
  else if tree.isTwoWay ref then
    apply (·.bindExpression tree condition)
    let tag ← branchTag tree ref 0 thenBody span true
    bindBranch tree visit thenBody .thenBody tag
    let tag ← branchTag tree ref 1 elseBody span true
    bindBranch tree visit elseBody .elseBody tag
  else
    bindLink tree visit ref span 0 ref

/-- Binds the sections of a switch as its alternatives, numbered from `index` on. -/
def bindSections (tree : StatementTree) (visit : Visit → Bind Unit) (switch : StatementRef)
    (span : Span) : Nat → List StatementRef → Bind Unit
  | _, [] => return ()
  | index, first :: rest => do
    let tag ← branchTag tree switch index first span false
    visit (.statement first .member (some tag))
    bindSections tree visit switch span (index + 1) rest

/-- Binds what a statement consists of. The tag goes to the region that the statement opens; a label
hands it on. -/
def bindContent (tree : StatementTree) (visit : Visit → Bind Unit) (ref : StatementRef)
    (span : Span) (branch : Option BranchTag) : StatementContent → Bind Unit
  | .block members => inRegion .block ref span branch (bindMembers visit members)
  | .branch condition thenBody elseBody =>
    bindConditional tree visit ref span condition thenBody elseBody
  | .whileLoop condition body =>
    inRegion .loop ref span branch do
      apply (·.bindExpression tree condition)
      visit (.statement body (.nested .loopBody) none)
  | .doLoop body condition =>
    inRegion .loop ref span branch do
      visit (.statement body (.nested .loopBody) none)
      apply (·.bindExpression tree condition)
  | .forLoop declarators initializers condition incrementors body =>
    inRegion .loop ref span branch do
      apply (·.bindDeclarators tree ref declarators)
      apply (·.bindExpressions tree initializers)
      apply (·.bindExpression tree condition)
      apply (·.bindExpressions tree incrementors)
      visit (.statement body (.nested .loopBody) none)
  | .forEachLoop element collection body =>
    inRegion .loop ref span branch do
      apply (·.declare element.name .iteration element.span ref none)
      apply (·.bindExpression tree collection)
      visit (.statement body (.nested .loopBody) none)
  | .resource declarators held body =>
    inRegion .resource ref span branch do
      apply (·.bindDeclarators tree ref declarators)
      apply (·.bindExpression tree held)
      visit (.statement body (.nested .resourceBody) none)
  | .switch subject sections => do
    apply (·.bindExpression tree subject)
    inRegion .switch ref span branch (bindSections tree visit ref span 0 sections)
  | .switchSection labels members =>
    inRegion .switchSection ref span branch do
      apply (·.bindLabels tree ref labels)
      bindMembers visit members
  | .localDeclaration declarators => apply (·.bindDeclarators tree ref declarators)
  | .evaluation expression => apply (·.bindExpression tree expression)
  | .returning value => apply (·.bindExpression tree value)
  | .throwing value => apply (·.bindExpression tree value)
  | .labeled _ body => visit (.statement body (.nested .labeledBody) branch)
  | .breaking | .continuing | .empty => return ()

/-- Binds a statement: records it, counts its unbraced body, binds what it consists of. -/
def bindStatement (tree : StatementTree) (visit : Visit → Bind Unit) (ref : StatementRef)
    (position : Position) (branch : Option BranchTag) : Bind Unit := do
  let node ← find tree ref
  apply fun binder => binder.recordStatement ref binder.current
  withBleed (tree.classify ref position).addsBleedLevel
    (bindContent tree visit ref node.span branch node.content)

/-- Binds a visit and everything below it. `levels` counts the statements that may still be nested:
at zero the nesting limit is exceeded. -/
def visit (tree : StatementTree) : Nat → Visit → Bind Unit
  | 0, todo => fun binder =>
    .error (.nestingTooDeep todo.target binder.settings.nestingLimit) binder
  | levels + 1, .statement ref position branch =>
    bindStatement tree (visit tree levels) ref position branch
  | levels + 1, .link head span index ref => do
    apply fun binder => binder.recordStatement ref binder.current
    bindLink tree (visit tree levels) head span index ref

/-- Declares the parameters of a procedure. -/
def bindParameters (tree : StatementTree) : Bind Unit :=
  apply fun binder =>
    tree.parameters.foldl
      (fun binder parameter =>
        binder.declare parameter.name .parameter parameter.span tree.root none)
      binder

/-- Binds the body of a procedure. The members of a body that is a block lie directly in the region
of the procedure. -/
def bindBody (tree : StatementTree) (limit : Nat) : StatementContent → Bind Unit
  | .block members => bindMembers (visit tree limit) members
  | _ => visit tree (limit + 1) (.statement tree.root .root none)

/-- Binds a procedure in a region of its own. -/
def bindProcedure (tree : StatementTree) : Bind Unit := do
  let node ← find tree tree.root
  inRegion .root tree.root node.span none do
    apply fun binder => binder.recordStatement tree.root binder.current
    bindParameters tree
    bindBody tree (← get).settings.nestingLimit node.content

end Bind

namespace Binder

/-- The scope tree that a binder has built. -/
def scopeTree (binder : Binder) (procedure : String) : ScopeTree :=
  { procedure := procedure
    regions := binder.regions
    declarations := binder.declarations
    statementRegions := binder.statementRegions
    expressionRegions := binder.expressionRegions
    absentRegion := binder.absentRegion
    boundaryRegions := binder.boundaryRegions }

/-- The binder after it has handed out its scope tree. -/
def emptied (binder : Binder) : Binder :=
  { binder with
    regions := #[]
    declarations := #[]
    statementRegions := .blank 0
    expressionRegions := .blank 0
    absentRegion := none
    boundaryRegions := .blank 0 }

/-- Builds the scope tree of a statement tree. The binder first forgets what it met; a tree whose
references disagree is refused before any region is opened. -/
def bind (binder : Binder) (tree : StatementTree) : Except ScopeError ScopeTree × Binder :=
  let cleared := binder.reset
  match tree.checkLinks with
  | .error (.faulty error) => (.error (.malformedTree error), cleared)
  | .error .endless => (.error .endless, cleared)
  | .ok () =>
    match Bind.bindProcedure tree (cleared.sized tree.statements.size tree.expressions.size) with
    | .ok () after => (.ok (after.scopeTree tree.name), after.emptied)
    | .error error after => (.error error, after)

end Binder

/-- The scope tree of a statement tree. -/
def ScopeTree.ofStatementTree (settings : ScopeSettings) (tree : StatementTree) :
    Except ScopeError ScopeTree :=
  ((Binder.new settings).bind tree).1

end LexicalScope
