import LexicalScope.Proofs.Layout.Statements
import LexicalScope.Proofs.Scope.Entries
import LexicalScope.Proofs.Scope.Offsets
import LexicalScope.Procedure.Build

/-!
# The order of declarations

Binding a procedure declares just the names that its parts introduce, in the order in which the
parts are evaluated. A name that an expression introduces lies in the region recorded for the
expression.
-/

namespace LexicalScope

namespace Bind

/-- A step declares entries, behind those that are there, whenever it succeeds. -/
structure Declares (step : Bind Unit) (entries : List Entry) : Prop where
  entries : ∀ {before after : Binder}, step before = .ok () after →
    after.entries = before.entries ++ entries

namespace Declares

variable {step next : Bind Unit} {first second : List Entry}

theorem pure : Declares (Pure.pure ()) [] := by
  refine ⟨fun {before after} succeeded => ?_⟩
  obtain ⟨_, rfl⟩ := Step.pure_eq_ok.mp succeeded
  exact (List.append_nil _).symm

theorem apply {change : Binder → Binder}
    (changes : ∀ binder, (change binder).entries = binder.entries ++ first) :
    Declares (Bind.apply change) first := by
  refine ⟨fun {before after} succeeded => ?_⟩
  obtain rfl := apply_eq_ok.mp succeeded
  exact changes before

theorem seq (declares : Declares step first) (others : Declares next second) :
    Declares (do step; next) (first ++ second) := by
  refine ⟨fun {before after} succeeded => ?_⟩
  obtain ⟨_, between, stepped, continued⟩ := Step.bind_eq_ok.mp succeeded
  rw [others.entries continued, declares.entries stepped, List.append_assoc]

theorem after {Value : Type} {look : Bind Value} {next : Value → Bind Unit}
    (still : ∀ {value before between}, look before = .ok value between →
      before = between ∧ Declares (next value) first) : Declares (look >>= next) first := by
  refine ⟨fun {before after} succeeded => ?_⟩
  obtain ⟨value, between, looked, continued⟩ := Step.bind_eq_ok.mp succeeded
  obtain ⟨rfl, declares⟩ := still looked
  exact declares.entries continued

theorem find {tree : StatementTree} {ref : StatementRef} {next : StatementNode → Bind Unit}
    (declares : ∀ {node}, tree.statement? ref = some node → Declares (next node) first) :
    Declares (Bind.find tree ref >>= next) first := by
  refine after fun {node before between} looked => ?_
  obtain ⟨found, same⟩ := find_eq_ok.mp looked
  exact ⟨same, declares found⟩

theorem branchTag {tree : StatementTree} {conditional body : StatementRef} {index : Nat}
    {span : Span} {breakExits : Bool} {next : BranchTag → Bind Unit}
    (declares : ∀ tag, Declares (next tag) first) :
    Declares (Bind.branchTag tree conditional index body span breakExits >>= next) first :=
  after fun looked => ⟨(branchTag_eq_ok.mp looked).2, declares _⟩

theorem inRegion {kind : RegionKind} {boundary : StatementRef} {span : Span}
    {branch : Option BranchTag} (declares : Declares step first) :
    Declares (Bind.inRegion kind boundary span branch step) first := by
  refine ⟨fun {before after} succeeded => ?_⟩
  obtain ⟨inside, stepped, rfl⟩ := inRegion_eq_ok.mp succeeded
  rw [Binder.entries_leave, declares.entries stepped, Binder.entries_enter]

private theorem withBleed {added : Bool} (declares : Declares step first) :
    Declares (Bind.withBleed added step) first := by
  refine ⟨fun {before after} succeeded => ?_⟩
  obtain ⟨_, inside, stepped, _, rfl⟩ := withBleed_eq_ok.mp succeeded
  rw [Binder.entries_bleed, declares.entries stepped, Binder.entries_bleed]

private theorem recordAround {statement : StatementRef} (declares : Declares step first) :
    Declares (Bind.recordAround statement step) first := by
  refine ⟨fun {before after} succeeded => ?_⟩
  obtain ⟨inside, stepped, rfl⟩ := recordAround_eq_ok.mp succeeded
  rw [Binder.entries_recordStatement, declares.entries stepped]

theorem recorded {statement : StatementRef} {region : Binder → RegionRef}
    (declares : Declares step first) :
    Declares (do
      Bind.apply fun binder => binder.recordStatement statement (region binder)
      step) first :=
  seq (apply fun binder => by rw [Binder.entries_recordStatement, List.append_nil]) declares

end Declares

/-! ## Conditionals -/

/-- Visiting a statement declares entries, in whichever way it is visited. -/
structure Introduces (tree : StatementTree) (visit : Visit → Bind Unit) (ref : StatementRef)
    (entries : List Entry) : Prop where
  statement : ∀ position branch, Declares (visit (.statement ref position branch)) entries
  link : tree.kind? ref = some .branch →
    ∀ head span index, Declares (visit (.link head span index ref)) entries

/-- Visiting a statement that may be absent declares entries, none if it is absent. -/
def IntroducesOptional (tree : StatementTree) (visit : Visit → Bind Unit) :
    StatementRef → List Entry → Prop
  | none, entries => entries = []
  | some id, entries => Introduces tree visit (some id) entries

variable {tree : StatementTree} {visit : Visit → Bind Unit} {header thenEntries elseEntries :
  List Entry} {condition : ExpressionRef} {thenBody elseBody : StatementRef}

theorem declares_bindBranch {slot : BodySlot} {tag : BranchTag}
    (introduces : Introduces tree visit thenBody thenEntries) :
    Declares (bindBranch tree visit thenBody slot tag) thenEntries := by
  refine .find fun {node} found => ?_
  split
  · exact introduces.statement _ _
  · exact .recordAround (.inRegion (introduces.statement _ _))

theorem declares_bindLink {link : StatementId}
    (content : tree.content? (some link) = some (.branch condition thenBody elseBody))
    (evaluates : ∀ binder : Binder,
      (binder.bindExpression tree condition).entries = binder.entries ++ header)
    (thenIntroduces : Introduces tree visit thenBody thenEntries)
    (elseIntroduces : IntroducesOptional tree visit elseBody elseEntries)
    (head : StatementRef) (span : Span) (index : Nat) :
    Declares (bindLink tree visit head span index (some link))
      (header ++ thenEntries ++ elseEntries) := by
  refine .find fun {node} found => ?_
  have isContent : node.content = .branch condition thenBody elseBody :=
    Option.some.inj ((StatementTree.content?_eq found).symm.trans content)
  rw [isContent]
  refine .branchTag fun tag => .seq (.inRegion (.seq (.apply evaluates)
    (thenIntroduces.statement _ _))) ?_
  cases elseBody with
  | none =>
      obtain rfl : elseEntries = [] := elseIntroduces
      exact .pure
  | some alternative =>
      refine .find fun {other} found => ?_
      split
      next isBranch =>
        refine elseIntroduces.link ?_ _ _ _
        rw [StatementTree.kind?_eq found, isBranch]
      next => exact .branchTag fun tag => declares_bindBranch elseIntroduces

private theorem declares_bindConditional {statement : StatementId} {span : Span}
    (content : tree.content? (some statement) = some (.branch condition thenBody elseBody))
    (evaluates : ∀ binder : Binder,
      (binder.bindExpression tree condition).entries = binder.entries ++ header)
    (thenIntroduces : Introduces tree visit thenBody thenEntries)
    (elseIntroduces : IntroducesOptional tree visit elseBody elseEntries) :
    Declares (bindConditional tree visit (some statement) span condition thenBody elseBody)
      (header ++ thenEntries ++ elseEntries) := by
  unfold bindConditional
  cases elseBody with
  | none =>
      obtain rfl : elseEntries = [] := elseIntroduces
      rw [List.append_nil]
      exact .seq (.apply evaluates) (.branchTag fun tag => thenIntroduces.statement _ _)
  | some alternative =>
      simp only [Option.isNone_some, Bool.false_eq_true, if_false]
      split
      · rw [List.append_assoc]
        exact .seq (.apply evaluates) (.branchTag fun tag => .seq
          (declares_bindBranch thenIntroduces) (.branchTag fun tag =>
            declares_bindBranch elseIntroduces))
      · exact declares_bindLink content evaluates thenIntroduces elseIntroduces _ _ _

/-! ## Statements -/

/-- Binding what the statement at `id` consists of declares entries: as the content of a statement,
as a link of a chain, and as the body of a procedure. -/
structure DeclaresContent (tree : StatementTree) (visit : Visit → Bind Unit) (id : StatementId)
    (content : StatementContent) (entries : List Entry) : Prop where
  whole : ∀ span branch, Declares (bindContent tree visit (some id) span branch content) entries
  link : content.kind = .branch →
    ∀ head span index, Declares (bindLink tree visit head span index (some id)) entries
  members : ∀ refs, content = .block refs → Declares (bindMembers visit refs) entries

theorem DeclaresContent.single {id : StatementId} {content : StatementContent}
    {entries : List Entry} (notBranch : (content.kind == .branch) = false)
    (notBlock : (content.kind == .block) = false)
    (declares : ∀ span branch,
      Declares (bindContent tree visit (some id) span branch content) entries) :
    DeclaresContent tree visit id content entries where
  whole := declares
  link isBranch := absurd isBranch (beq_eq_false_iff_ne.mp notBranch)
  members _ isBlock :=
    absurd (congrArg StatementContent.kind isBlock) (beq_eq_false_iff_ne.mp notBlock)

/-- Every visit of a statement declares what the statement consists of. -/
theorem introduces_visit {id : StatementId} {content : StatementContent} {entries : List Entry}
    (isContent : tree.content? (some id) = some content)
    (declares : ∀ levels, DeclaresContent tree (Bind.visit tree levels) id content entries)
    (levels : Nat) : Introduces tree (Bind.visit tree levels) (some id) entries := by
  cases levels with
  | zero =>
      refine ⟨fun position branch => ⟨?_⟩, fun isBranch head span index => ⟨?_⟩⟩
      · rintro before after ⟨⟩
      · rintro before after ⟨⟩
  | succ levels =>
      refine ⟨fun position branch => .find fun {node} found => ?_,
        fun isBranch head span index => ?_⟩
      · obtain rfl : node.content = content :=
          Option.some.inj ((StatementTree.content?_eq found).symm.trans isContent)
        exact .recorded (.withBleed ((declares levels).whole _ _))
      · refine .recorded ((declares levels).link ?_ _ _ _)
        obtain ⟨node, found, rfl⟩ := Option.map_eq_some_iff.mp isContent
        rw [StatementTree.kind?_eq found] at isBranch
        exact Option.some.inj isBranch

end Bind

open LexicalScope.Bind

section Statements

variable {tree : StatementTree}

mutual

/-- Every visit of a statement declares what the statement introduces. -/
theorem Statement.introduces : ∀ (statement : Statement) {depth : Nat} {parent : StatementRef}
    {start stop : Mark}, statement.Occupies tree depth parent start stop → ∀ levels,
      Introduces tree (visit tree levels) (some ⟨start.statements⟩) statement.declared
  | .mk span form, depth, parent, start, stop, occupied => by
    obtain ⟨shallow, content, found, inside⟩ := occupied
    exact introduces_visit (StatementTree.content?_eq found)
      (form.declaresContent (StatementTree.content?_eq found) inside)

theorem StatementForm.declaresContent : ∀ (form : StatementForm) {depth : Nat}
    {id : StatementId} {content : StatementContent} {start stop : Mark},
    tree.content? (some id) = some content → form.Occupies tree depth id content start stop →
      ∀ levels, DeclaresContent tree (visit tree levels) id content form.declared
  | .block statements, _, _, _, _, _, _, occupied, levels => by
    obtain ⟨refs, rfl, inside⟩ := occupied
    have members := Statement.declares_bindMembers statements inside levels
    refine ⟨fun _ _ => .inRegion members, ?_, fun others same => ?_⟩
    · rintro ⟨⟩
    · obtain rfl := StatementContent.block.inj same
      exact members
  | .branch condition thenBody none, _, _, _, _, _, isContent, occupied, levels => by
    obtain ⟨middle, rfl, header, inThen⟩ := occupied
    have evaluates := fun binder : Binder => binder.entries_bindExpression ⟨rfl, header⟩
    have thenIntroduces := thenBody.introduces inThen levels
    have entries : (StatementForm.branch condition thenBody none).declared =
      condition.declared ++ thenBody.declared ++ [] := (List.append_nil _).symm
    rw [entries]
    exact ⟨fun _ _ => declares_bindConditional isContent evaluates thenIntroduces rfl,
      fun _ => declares_bindLink isContent evaluates thenIntroduces rfl, by simp⟩
  | .branch condition thenBody (some elseBody), _, _, _, _, _, isContent, occupied, levels => by
    obtain ⟨middle, between, rfl, header, inThen, inElse⟩ := occupied
    have evaluates := fun binder : Binder => binder.entries_bindExpression ⟨rfl, header⟩
    have thenIntroduces := thenBody.introduces inThen levels
    have elseIntroduces := elseBody.introduces inElse levels
    exact ⟨fun _ _ => declares_bindConditional isContent evaluates thenIntroduces elseIntroduces,
      fun _ => declares_bindLink isContent evaluates thenIntroduces elseIntroduces, by simp⟩
  | .whileLoop condition body, _, _, _, _, _, _, occupied, levels => by
    obtain ⟨middle, rfl, header, inBody⟩ := occupied
    refine .single rfl rfl fun _ _ => .inRegion (.seq (.apply fun binder => ?_) ?_)
    · exact binder.entries_bindExpression ⟨rfl, header⟩
    · exact (body.introduces inBody levels).statement _ _
  | .doLoop body condition, _, _, _, _, _, _, occupied, levels => by
    obtain ⟨middle, rfl, inBody, header⟩ := occupied
    refine .single rfl rfl fun _ _ => .inRegion (.seq ?_ (.apply fun binder => ?_))
    · exact (body.introduces inBody levels).statement _ _
    · exact binder.entries_bindExpression ⟨rfl, header⟩
  | .forLoop declarators initializers condition incrementors body, _, _, _, _, _, _, occupied,
      levels => by
    obtain ⟨nodes, inits, test, steps, _, _, _, _, rfl, names, starts, tests, increments,
      inBody⟩ := occupied
    refine .single rfl rfl fun _ _ => .inRegion ?_
    simp only [StatementForm.declared, List.append_assoc]
    refine .seq (.apply fun binder => binder.entries_bindDeclarators names) (.seq (.apply fun
      binder => binder.entries_bindExpressions starts) (.seq (.apply fun binder =>
      binder.entries_bindOptional tests) (.seq (.apply fun binder =>
      binder.entries_bindExpressions increments) ?_)))
    exact (body.introduces inBody levels).statement _ _
  | .forEachLoop element collection body, _, _, _, _, _, _, occupied, levels => by
    obtain ⟨middle, rfl, header, inBody⟩ := occupied
    refine .single rfl rfl fun _ _ => .inRegion ?_
    have entries : (StatementForm.forEachLoop element collection body).declared =
      [element.entry .iteration] ++ (collection.declared ++ body.declared) := rfl
    rw [entries]
    refine .seq (.apply fun binder => ?_) (.seq (.apply fun binder => ?_) ?_)
    · exact binder.entries_declare ..
    · exact binder.entries_bindExpression ⟨rfl, header⟩
    · exact (body.introduces inBody levels).statement _ _
  | .resource declarators held body, _, _, _, _, _, _, occupied, levels => by
    obtain ⟨nodes, value, _, _, rfl, names, holds, inBody⟩ := occupied
    refine .single rfl rfl fun _ _ => .inRegion ?_
    simp only [StatementForm.declared, List.append_assoc]
    refine .seq (.apply fun binder => binder.entries_bindDeclarators names) (.seq (.apply fun
      binder => binder.entries_bindOptional holds) ?_)
    exact (body.introduces inBody levels).statement _ _
  | .switch subject sections, _, _, _, _, _, _, occupied, levels => by
    obtain ⟨middle, refs, rfl, header, inside⟩ := occupied
    refine .single rfl rfl fun _ _ => .seq (.apply fun binder => ?_) (.inRegion ?_)
    · exact binder.entries_bindExpression ⟨rfl, header⟩
    · exact Section.declares_bindSections sections inside levels _ _ _
  | .localDeclaration declarators, _, _, _, _, _, _, occupied, levels => by
    obtain ⟨nodes, rfl, names, _⟩ := occupied
    exact .single rfl rfl fun _ _ => .apply fun binder => binder.entries_bindDeclarators names
  | .evaluation expression, _, _, _, _, _, _, occupied, levels => by
    obtain ⟨rfl, header, _⟩ := occupied
    exact .single rfl rfl fun _ _ =>
      .apply fun binder => binder.entries_bindExpression ⟨rfl, header⟩
  | .returning value, _, _, _, _, _, _, occupied, levels
  | .throwing value, _, _, _, _, _, _, occupied, levels => by
    obtain ⟨ref, rfl, header, _⟩ := occupied
    exact .single rfl rfl fun _ _ => .apply fun binder => binder.entries_bindOptional header
  | .labeled _ body, _, _, _, _, _, _, occupied, levels => by
    obtain ⟨rfl, inBody⟩ := occupied
    exact .single rfl rfl fun _ _ => (body.introduces inBody levels).statement _ _
  | .breaking, _, _, _, _, _, _, occupied, _
  | .continuing, _, _, _, _, _, _, occupied, _
  | .empty, _, _, _, _, _, _, occupied, _ => by
    obtain ⟨rfl, _⟩ := occupied
    exact .single rfl rfl fun _ _ => .pure

theorem Statement.declares_bindMembers : ∀ (statements : List Statement) {depth : Nat}
    {parent : StatementRef} {refs : List StatementRef} {start stop : Mark},
    Statement.AllOccupy tree depth parent statements refs start stop → ∀ levels,
      Declares (bindMembers (visit tree levels) refs) (Statement.declaredInAll statements)
  | [], _, _, _, _, _, occupied, levels => by
    obtain ⟨rfl, _⟩ := occupied
    exact .pure
  | first :: rest, _, _, _, _, _, occupied, levels => by
    obtain ⟨others, middle, rfl, firstOccupied, restOccupied⟩ := occupied
    have firstDeclares := (first.introduces firstOccupied levels).statement .member none
    have restDeclares := Statement.declares_bindMembers rest restOccupied levels
    exact .seq firstDeclares restDeclares

theorem Section.introduces : ∀ (switchSection : Section) {depth : Nat} {parent : StatementRef}
    {start stop : Mark}, switchSection.Occupies tree depth parent start stop → ∀ levels,
      Introduces tree (visit tree levels) (some ⟨start.statements⟩)
        switchSection.declared
  | .mk span labels statements, _, _, _, _, occupied => by
    obtain ⟨nodes, refs, middle, found, header, inside⟩ := occupied
    refine introduces_visit (StatementTree.content?_eq found) fun levels =>
      .single rfl rfl fun _ _ => .inRegion (.seq (.apply fun binder => ?_) ?_)
    · exact binder.entries_bindLabels header
    · exact Statement.declares_bindMembers statements inside levels

theorem Section.declares_bindSections : ∀ (sections : List Section) {depth : Nat}
    {parent : StatementRef} {refs : List StatementRef} {start stop : Mark},
    Section.AllOccupy tree depth parent sections refs start stop → ∀ levels switch span index,
      Declares (bindSections tree (visit tree levels) switch span index refs)
        (Section.declaredInAll sections)
  | [], _, _, _, _, _, occupied, _, _, _, _ => by
    obtain ⟨rfl, _⟩ := occupied
    exact .pure
  | first :: rest, _, _, _, _, _, occupied, levels, switch, span, index => by
    obtain ⟨others, middle, rfl, firstOccupied, restOccupied⟩ := occupied
    have restDeclares := Section.declares_bindSections rest restOccupied levels switch span
    exact .branchTag fun tag => .seq ((first.introduces firstOccupied levels).statement _ _)
      (restDeclares (index + 1))

end

end Statements

/-! ## Procedures -/

section Procedures

variable {tree : StatementTree} {scopes : ScopeTree} {settings : ScopeSettings}

theorem Binder.entries_bindParameters (root : StatementRef) (parameters : List Ident)
    (binder : Binder) :
    ((parameters.map Ident.binding).foldl (fun binder parameter =>
      binder.declare parameter.name .parameter parameter.span root none) binder).entries =
        binder.entries ++ parameters.map (·.entry .parameter) := by
  induction parameters generalizing binder with
  | nil => exact (List.append_nil _).symm
  | cons first rest induction =>
      let declared := binder.declare first.name .parameter first.binding.span root none
      calc (((first :: rest).map Ident.binding).foldl (fun binder parameter =>
            binder.declare parameter.name .parameter parameter.span root none) binder).entries
          = declared.entries ++ rest.map (·.entry .parameter) := induction declared
        _ = binder.entries ++ [first.entry .parameter] ++ rest.map (·.entry .parameter) := by
            rw [entries_declare]
            rfl
        _ = binder.entries ++ (first :: rest).map (·.entry .parameter) := List.append_assoc ..

private theorem Bind.declares_bindBody {id : StatementId} {content : StatementContent}
    {entries : List Entry} (isRoot : tree.root = some id)
    (isContent : tree.content? (some id) = some content)
    (declares : ∀ levels, DeclaresContent tree (visit tree levels) id content entries)
    (limit : Nat) : Declares (bindBody tree limit content) entries := by
  have visited := (introduces_visit isContent declares (limit + 1)).statement .root none
  rw [← isRoot] at visited
  cases content with
  | block members => exact (declares limit).members members rfl
  | _ => exact visited

/-- Binding a procedure declares its parameters and then what its body introduces. -/
theorem Bind.declares_bindProcedure {procedure : Procedure} (occupied : procedure.Occupies tree) :
    Declares (bindProcedure tree) procedure.declared := by
  obtain ⟨name, stated, ⟨span, form⟩⟩ := procedure
  obtain ⟨_, parameters, root, _, content, bodyFound, inside⟩ := occupied
  refine .find fun {node} found => .inRegion (.recorded (.seq (.apply fun binder => ?_) ?_))
  · rw [parameters]
    exact Binder.entries_bindParameters ..
  · rw [root, bodyFound] at found
    obtain rfl := Option.some.inj found
    have isContent := StatementTree.content?_eq bodyFound
    refine .after fun {value before between} got => ⟨(get_eq_ok.mp got).2, ?_⟩
    exact declares_bindBody root isContent (form.declaresContent isContent inside) _

/-- A declaration that an expression introduces lies in the region recorded for the expression. -/
theorem ScopeTree.Follows.region_eq_regionOfExpression (follows : scopes.Follows tree)
    {declaration : Declaration} (member : declaration ∈ scopes.declarations)
    {expression : ExpressionId} (isExpression : declaration.expression = some expression) :
    ∃ region, declaration.region = some region ∧
      scopes.regionOfExpression (some expression) = some region := by
  obtain ⟨i, isBelow, same⟩ := Array.getElem_of_mem member
  have found : scopes.declarations[i]? = some declaration := by
    rw [Array.getElem?_eq_getElem isBelow, same]
  rcases follows.declaration found with ⟨_, _, noExpression⟩ |
    ⟨id, statement, isRegion, bound, stands, site⟩
  · rw [isExpression] at noExpression
    cases noExpression
  · obtain ⟨_, ⟨noExpression, _⟩ | ⟨known, node, _, isKnown, expressionFound, isOwner, _⟩⟩ := stands
    · rw [isExpression] at noExpression
      cases noExpression
    · obtain rfl := Option.some.inj (isExpression.symm.trans isKnown)
      have owned : tree.owner expression = some statement :=
        (StatementTree.owner_eq expressionFound).trans isOwner
      obtain ⟨recorded, isRecorded, recordedBound, recordedSite⟩ := follows.expression owned
      obtain rfl := site.unique follows.agree recordedSite bound recordedBound
      exact ⟨id, isRegion, isRecorded⟩

/-- The declarations of a procedure are numbered in their order, they are just what the procedure
introduces, at the spans at which it is placed, and one that an expression introduces lies in the
region recorded for the expression. -/
theorem ScopeTree.entry_declarations {procedure : Procedure}
    (laidOut : StatementTree.ofProcedure procedure = .ok tree)
    (bound : ScopeTree.ofStatementTree settings tree = .ok scopes) :
    scopes.declarations.toList.map Declaration.entry = procedure.placed.declared ∧
      procedure.placed.declared.map Entry.introduced = procedure.declared.map Entry.introduced ∧
      (∀ (i : Nat) (declaration : Declaration),
        scopes.declarations[i]? = some declaration → declaration.id = ⟨i⟩) ∧
      ∀ declaration ∈ scopes.declarations, ∀ expression,
        declaration.expression = some expression → ∃ region, declaration.region = some region ∧
          scopes.regionOfExpression (some expression) = some region := by
  have follows := follows_of_ofProcedure laidOut bound
  refine ⟨?_, procedure.map_introduced_placed,
    fun i declaration found => follows.agree.declaration found,
    fun declaration member expression isExpression =>
      follows.region_eq_regionOfExpression member isExpression⟩
  obtain ⟨after, succeeded, rfl⟩ := of_ofStatementTree bound
  have occupied := StatementTree.occupies_of_ofProcedure laidOut
  exact (Bind.declares_bindProcedure occupied).entries succeeded

/-- A procedure that declares names in a loop, in labels and in an output argument. -/
def Procedure.declaring : Procedure :=
  .plain "p" ["a"] (.forEachLoop "e" (.name "a") (.switch (.testAs (.name "e") "T" "x")
    [.plain [.matching (.constant (.testAs (.name "a") "U" "_")) (some (.outVariable "y"))]
      [.breaking]]))

example : Procedure.declaring.declared.map Entry.introduced =
    [("a", .parameter), ("e", .iteration), ("x", .patternVariable), ("y", .outputArgument)] := rfl

theorem ScopeTree.entry_declarations_declaring :
    ∃ tree scopes, StatementTree.ofProcedure .declaring = .ok tree ∧
      ScopeTree.ofStatementTree .default tree = .ok scopes ∧
      scopes.declarations.toList.map Declaration.entry = Procedure.declaring.placed.declared ∧
      Procedure.declaring.placed.declared.map Entry.introduced =
        Procedure.declaring.declared.map Entry.introduced ∧
      (∀ (i : Nat) (declaration : Declaration),
        scopes.declarations[i]? = some declaration → declaration.id = ⟨i⟩) ∧
      ∀ declaration ∈ scopes.declarations, ∀ expression,
        declaration.expression = some expression → ∃ region, declaration.region = some region ∧
          scopes.regionOfExpression (some expression) = some region := by
  have binds : Procedure.declaring.binds .default
      (fun _ scopes => scopes.declarations.size == 4) = true := by decide +kernel
  obtain ⟨tree, scopes, laidOut, bound, _⟩ := Procedure.exists_of_binds binds
  exact ⟨tree, scopes, laidOut, bound, entry_declarations laidOut bound⟩

end Procedures

end LexicalScope
