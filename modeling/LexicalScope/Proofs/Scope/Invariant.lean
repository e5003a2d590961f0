import LexicalScope.Proofs.Scope.Steps

/-!
# Invariants of binding

What every change of a binder keeps, binding keeps. The same holds of relations between earlier and
later binders, where a region is left only after it was entered. It holds of binding that fails as
well, since regions are left and unbraced bodies are counted back however a step ends.
-/

namespace LexicalScope

namespace Bind

/-- A property that binding a header keeps. -/
structure HeaderPreserved (tree : StatementTree) (property : Binder → Prop) : Prop where
  declare : ∀ {binder : Binder} (name : String) (kind : DeclarationKind) (span : Span)
    (statement : StatementRef) (expression : ExpressionRef), property binder →
      property (binder.declare name kind span statement expression)
  recordExpression : ∀ {binder : Binder} (expression : ExpressionRef), property binder →
    property (binder.recordExpression tree expression)

/-- A property that every change of a binder keeps. -/
structure Preserved (tree : StatementTree) (property : Binder → Prop) : Prop
    extends HeaderPreserved tree property where
  enter : ∀ {binder : Binder} (kind : RegionKind) (boundary : StatementRef) (span : Span)
    (branch : Option BranchTag), property binder → property (binder.enter kind boundary span branch)
  leave : ∀ {binder : Binder}, property binder → property binder.leave
  recordStatement : ∀ {binder : Binder} (statement : StatementRef) (region : RegionRef),
    property binder → property (binder.recordStatement statement region)
  bleed : ∀ {binder : Binder} (depth : Nat), property binder →
    property { binder with bleedDepth := depth }

/-- A relation between earlier and later binders that holds across every change and from before a
region is entered until it is left. -/
structure Tracked (tree : StatementTree) (relation : Binder → Binder → Prop) : Prop where
  refl : ∀ binder, relation binder binder
  trans : ∀ {first second third}, relation first second → relation second third →
    relation first third
  header : ∀ before, HeaderPreserved tree (relation before)
  recordStatement : ∀ (binder : Binder) (statement : StatementRef) (region : RegionRef),
    relation binder (binder.recordStatement statement region)
  region : ∀ {before inside : Binder} (kind : RegionKind) (boundary : StatementRef) (span : Span)
    (branch : Option BranchTag), relation (before.enter kind boundary span branch) inside →
      relation before inside.leave
  bleed : ∀ {before inside : Binder} (depth : Nat),
    relation { before with bleedDepth := depth } inside →
      relation before { inside with bleedDepth := before.bleedDepth }

private theorem Preserved.tracked {tree : StatementTree} {property : Binder → Prop}
    (preserved : Preserved tree property) :
    Tracked tree fun before after => property before → property after where
  refl _ holds := holds
  trans first second holds := second (first holds)
  header _ :=
    { declare := fun name kind span statement expression held holds =>
        preserved.declare name kind span statement expression (held holds)
      recordExpression := fun expression held holds =>
        preserved.recordExpression expression (held holds) }
  recordStatement _ statement region := preserved.recordStatement statement region
  region kind boundary span branch held holds :=
    preserved.leave (held (preserved.enter kind boundary span branch holds))
  bleed depth held holds := preserved.bleed _ (held (preserved.bleed depth holds))

/-- A step that succeeds leads to a related binder. -/
def Relates {Value : Type} (relation : Binder → Binder → Prop) (step : Bind Value) : Prop :=
  ∀ before value after, step before = .ok value after → relation before after

/-- A step leads to a related binder however it ends. It does not fail because expressions cannot be
followed to an end, which is found out before. -/
def Tracks {Value : Type} (relation : Binder → Binder → Prop) (step : Bind Value) : Prop :=
  ∀ before, match step before with
    | .ok _ after => relation before after
    | .error failure after => relation before after ∧ failure ≠ .endless

theorem Tracks.relates {Value : Type} {relation : Binder → Binder → Prop} {step : Bind Value}
    (tracks : Tracks relation step) : Relates relation step := by
  intro before value after succeeded
  have related := tracks before
  rwa [succeeded] at related

/-- A list of changes keeps what each of them keeps. -/
theorem keeps_foldl {Part : Type} {property : Binder → Prop} {binder : Binder}
    (change : Binder → Part → Binder)
    (keeps : ∀ binder part, property binder → property (change binder part)) (parts : List Part)
    (holds : property binder) : property (parts.foldl change binder) := by
  induction parts generalizing binder with
  | nil => exact holds
  | cons first rest induction => exact induction (keeps binder first holds)

/-! ## Headers -/

namespace HeaderPreserved

variable {tree : StatementTree} {property : Binder → Prop}
  (preserved : HeaderPreserved tree property) {binder : Binder}

include preserved

theorem bindExpression (expression : ExpressionRef) (holds : property binder) :
    property (binder.bindExpression tree expression) := by
  cases expression with
  | none => exact holds
  | some id =>
      exact keeps_foldl Binder.declareIntroduction
        (fun binder introduction => preserved.declare _ _ _ _ _) _
        (preserved.recordExpression (some id) holds)

theorem bindExpressions (expressions : List ExpressionRef) (holds : property binder) :
    property (binder.bindExpressions tree expressions) :=
  keeps_foldl _ (fun _ expression => preserved.bindExpression expression) expressions holds

theorem bindDeclarators (statement : StatementRef) (declarators : List DeclaratorNode)
    (holds : property binder) : property (binder.bindDeclarators tree statement declarators) :=
  keeps_foldl (Binder.bindDeclarator tree statement)
    (fun _ _ held => preserved.bindExpression _ (preserved.declare _ _ _ _ _ held))
    declarators holds

private theorem bindLabel (switchSection : StatementRef) (label : LabelNode)
    (holds : property binder) : property (binder.bindLabel tree switchSection label) := by
  unfold Binder.bindLabel
  refine preserved.bindExpression label.guard ?_
  cases label.pattern with
  | none => exact holds
  | some pattern =>
      exact keeps_foldl _ (fun _ constant => preserved.recordExpression constant) _
        (keeps_foldl Binder.declareIntroduction
          (fun _ introduction => preserved.declare _ _ _ _ _) _ holds)

theorem bindLabels (switchSection : StatementRef) (labels : List LabelNode)
    (holds : property binder) : property (binder.bindLabels tree switchSection labels) :=
  keeps_foldl _ (fun _ label => preserved.bindLabel switchSection label) labels holds

end HeaderPreserved

/-! ## Statements -/

namespace Tracked

variable {tree : StatementTree} {relation : Binder → Binder → Prop}
  (tracked : Tracked tree relation) {visit : Visit → Bind Unit} {First Second : Type}

include tracked

theorem bind {step : Bind First} {next : First → Bind Second} (first : Tracks relation step)
    (second : ∀ value, Tracks relation (next value)) : Tracks relation (step >>= next) := by
  intro before
  have related := first before
  change match EStateM.bind step next before with
    | .ok _ after => relation before after
    | .error failure after => relation before after ∧ failure ≠ .endless
  unfold EStateM.bind
  cases ran : step before <;> rw [ran] at related
  case error failure after => exact related
  case ok value between =>
      have relatedToo := second value between
      dsimp only
      cases ranToo : next value between <;> rw [ranToo] at relatedToo
      case ok result after => exact tracked.trans related relatedToo
      case error failure after =>
          exact ⟨tracked.trans related relatedToo.1, relatedToo.2⟩

theorem pure (value : First) : Tracks relation (Pure.pure value : Bind First) :=
  fun before => tracked.refl before

theorem find (ref : StatementRef) : Tracks relation (Bind.find tree ref) := by
  intro before
  unfold Bind.find
  cases tree.statement? ref with
  | some node => exact tracked.refl before
  | none =>
      dsimp only
      by_cases isRoot : ref = tree.root
      · rw [if_pos isRoot]
        exact ⟨tracked.refl before, nofun⟩
      · rw [if_neg isRoot]
        exact ⟨tracked.refl before, nofun⟩

theorem branchTag {conditional body : StatementRef} {index : Nat} {span : Span}
    {breakExits : Bool} :
    Tracks relation (Bind.branchTag tree conditional index body span breakExits) :=
  fun before => tracked.refl before

omit tracked in
theorem apply {change : Binder → Binder} (relates : ∀ binder, relation binder (change binder)) :
    Tracks relation (Bind.apply change) := relates

theorem applyHeader {change : Binder → Binder}
    (keeps : ∀ {property : Binder → Prop}, HeaderPreserved tree property →
      ∀ {binder : Binder}, property binder → property (change binder)) :
    Tracks relation (Bind.apply change) :=
  apply fun binder => keeps (tracked.header binder) (tracked.refl binder)

theorem recorded (statement : StatementRef) :
    Tracks relation (Bind.apply fun binder => binder.recordStatement statement binder.current) :=
  apply fun binder => tracked.recordStatement binder statement binder.current

theorem bindMembers (tracks : ∀ todo, Tracks relation (visit todo))
    (members : List StatementRef) : Tracks relation (Bind.bindMembers visit members) := by
  induction members with
  | nil => exact tracked.pure ()
  | cons first rest induction => exact tracked.bind (tracks _) fun _ => induction

private theorem bindSections (tracks : ∀ todo, Tracks relation (visit todo)) (switch : StatementRef)
    (span : Span) (sections : List StatementRef) (index : Nat) :
    Tracks relation (Bind.bindSections tree visit switch span index sections) := by
  induction sections generalizing index with
  | nil => exact tracked.pure ()
  | cons first rest induction =>
      exact tracked.bind tracked.branchTag fun _ => tracked.bind (tracks _) fun _ => induction _

theorem inRegion {step : Bind Unit} (kind : RegionKind) (boundary : StatementRef) (span : Span)
    (branch : Option BranchTag) (tracks : Tracks relation step) :
    Tracks relation (Bind.inRegion kind boundary span branch step) := by
  intro before
  have related := tracks (before.enter kind boundary span branch)
  unfold Bind.inRegion
  cases ran : step (before.enter kind boundary span branch) <;> rw [ran] at related
  case ok => exact tracked.region kind boundary span branch related
  case error => exact ⟨tracked.region kind boundary span branch related.1, related.2⟩

private theorem withBleed {step : Bind Unit} (added : Bool) (tracks : Tracks relation step) :
    Tracks relation (Bind.withBleed added step) := by
  intro before
  let depth := if added then before.bleedDepth + 1 else before.bleedDepth
  have related := tracks { before with bleedDepth := depth }
  unfold Bind.withBleed
  dsimp only
  cases ran : step { before with bleedDepth := depth } <;> rw [ran] at related
  case ok => exact tracked.bleed depth related
  case error => exact ⟨tracked.bleed depth related.1, related.2⟩

private theorem recordAround {step : Bind Unit} (statement : StatementRef)
    (tracks : Tracks relation step) : Tracks relation (Bind.recordAround statement step) := by
  intro before
  have related := tracks before
  have recorded : ∀ after : Binder, relation before after →
      relation before (after.recordStatement statement before.current) :=
    fun after reached => tracked.trans reached (tracked.recordStatement after statement _)
  unfold Bind.recordAround
  dsimp only
  cases ran : step before <;> rw [ran] at related
  case ok after => exact recorded after related
  case error after => exact ⟨recorded after related.1, related.2⟩

theorem bindBranch (tracks : ∀ todo, Tracks relation (visit todo)) (body : StatementRef)
    (slot : BodySlot) (tag : BranchTag) :
    Tracks relation (Bind.bindBranch tree visit body slot tag) := by
  refine tracked.bind (tracked.find body) fun node => ?_
  split
  · exact tracks _
  · exact tracked.recordAround body (tracked.inRegion _ _ _ _ (tracks _))

theorem bindLink (tracks : ∀ todo, Tracks relation (visit todo)) (head : StatementRef)
    (span : Span) (index : Nat) (link : StatementRef) :
    Tracks relation (Bind.bindLink tree visit head span index link) := by
  refine tracked.bind (tracked.find link) fun node => ?_
  dsimp only
  split
  · refine tracked.bind tracked.branchTag fun tag => tracked.bind (tracked.inRegion _ _ _ _
      (tracked.bind (tracked.applyHeader (·.bindExpression _)) fun _ => tracks _)) fun _ => ?_
    split
    · refine tracked.bind (tracked.find _) fun alternative => ?_
      split
      · exact tracks _
      · exact tracked.bind tracked.branchTag fun _ => tracked.bindBranch tracks _ _ _
    · exact tracked.pure ()
  · exact tracked.pure ()

private theorem bindConditional (tracks : ∀ todo, Tracks relation (visit todo)) (ref : StatementRef)
    (span : Span) (condition : ExpressionRef) (thenBody elseBody : StatementRef) :
    Tracks relation
      (Bind.bindConditional tree visit ref span condition thenBody elseBody) := by
  have header := tracked.applyHeader (·.bindExpression condition)
  unfold Bind.bindConditional
  split
  · exact tracked.bind header fun _ => tracked.bind tracked.branchTag fun _ => tracks _
  · split
    · exact tracked.bind header fun _ => tracked.bind tracked.branchTag fun _ =>
        tracked.bind (tracked.bindBranch tracks _ _ _) fun _ =>
          tracked.bind tracked.branchTag fun _ => tracked.bindBranch tracks _ _ _
    · exact tracked.bindLink tracks _ _ _ _

private theorem bindContent (tracks : ∀ todo, Tracks relation (visit todo)) (ref : StatementRef)
    (span : Span) (branch : Option BranchTag) (content : StatementContent) :
    Tracks relation (Bind.bindContent tree visit ref span branch content) := by
  cases content with
  | block members => exact tracked.inRegion _ _ _ _ (tracked.bindMembers tracks members)
  | branch condition thenBody elseBody => exact tracked.bindConditional tracks _ _ _ _ _
  | whileLoop condition body =>
      exact tracked.inRegion _ _ _ _
        (tracked.bind (tracked.applyHeader (·.bindExpression _)) fun _ => tracks _)
  | doLoop body condition =>
      exact tracked.inRegion _ _ _ _
        (tracked.bind (tracks _) fun _ => tracked.applyHeader (·.bindExpression _))
  | forLoop declarators initializers condition incrementors body =>
      exact tracked.inRegion _ _ _ _
        (tracked.bind (tracked.applyHeader (·.bindDeclarators _ _)) fun _ =>
        tracked.bind (tracked.applyHeader (·.bindExpressions _)) fun _ =>
        tracked.bind (tracked.applyHeader (·.bindExpression _)) fun _ =>
        tracked.bind (tracked.applyHeader (·.bindExpressions _)) fun _ => tracks _)
  | forEachLoop element collection body =>
      exact tracked.inRegion _ _ _ _
        (tracked.bind (tracked.applyHeader (·.declare _ _ _ _ _)) fun _ =>
        tracked.bind (tracked.applyHeader (·.bindExpression _)) fun _ => tracks _)
  | resource declarators held body =>
      exact tracked.inRegion _ _ _ _
        (tracked.bind (tracked.applyHeader (·.bindDeclarators _ _)) fun _ =>
        tracked.bind (tracked.applyHeader (·.bindExpression _)) fun _ => tracks _)
  | switch subject sections =>
      exact tracked.bind (tracked.applyHeader (·.bindExpression _)) fun _ =>
        tracked.inRegion _ _ _ _ (tracked.bindSections tracks _ _ _ _)
  | switchSection labels members =>
      exact tracked.inRegion _ _ _ _
        (tracked.bind (tracked.applyHeader (·.bindLabels _ _)) fun _ =>
        tracked.bindMembers tracks members)
  | localDeclaration declarators => exact tracked.applyHeader (·.bindDeclarators _ _)
  | evaluation expression => exact tracked.applyHeader (·.bindExpression _)
  | returning value => exact tracked.applyHeader (·.bindExpression _)
  | throwing value => exact tracked.applyHeader (·.bindExpression _)
  | labeled label body => exact tracks _
  | breaking => exact tracked.pure ()
  | continuing => exact tracked.pure ()
  | empty => exact tracked.pure ()

/-- Every visit is tracked. -/
theorem tracks_visit (levels : Nat) (todo : Visit) :
    Tracks relation (Bind.visit tree levels todo) := by
  induction levels generalizing todo with
  | zero => exact fun before => ⟨tracked.refl before, nofun⟩
  | succ levels induction =>
      cases todo with
      | statement ref position branch =>
          exact tracked.bind (tracked.find ref) fun node =>
            tracked.bind (tracked.recorded ref) fun _ =>
              tracked.withBleed _ (tracked.bindContent induction _ _ _ _)
      | link head span index ref =>
          exact tracked.bind (tracked.recorded ref) fun _ => tracked.bindLink induction _ _ _ _

private theorem bindParameters : Tracks relation (Bind.bindParameters tree) :=
  apply fun binder => keeps_foldl _ (fun _ parameter => (tracked.header binder).declare
    parameter.name .parameter parameter.span tree.root none) tree.parameters (tracked.refl binder)

theorem tracks_insideRoot (content : StatementContent) :
    Tracks relation (do
      Bind.apply fun binder => binder.recordStatement tree.root binder.current
      Bind.bindParameters tree
      Bind.bindBody tree (← get).settings.nestingLimit content) := by
  refine tracked.bind (tracked.recorded tree.root) fun _ => tracked.bind tracked.bindParameters
    fun _ => tracked.bind (fun before => tracked.refl before) fun binder => ?_
  cases content with
  | block members => exact tracked.bindMembers (tracked.tracks_visit _) members
  | _ => exact tracked.tracks_visit _ _

theorem tracks_bindProcedure : Tracks relation (Bind.bindProcedure tree) :=
  tracked.bind (tracked.find tree.root) fun node =>
    tracked.inRegion _ _ _ _ (tracked.tracks_insideRoot node.content)

theorem exists_of_bindProcedure {before after : Binder}
    (bound : Bind.bindProcedure tree before = .ok () after) :
    ∃ span inside, relation (before.enter .root tree.root span none) inside ∧
      after = inside.leave := by
  obtain ⟨node, middle, found, opened⟩ := Step.bind_eq_ok.mp bound
  obtain ⟨_, rfl⟩ := find_eq_ok.mp found
  obtain ⟨inside, stepped, rfl⟩ := inRegion_eq_ok.mp opened
  exact ⟨node.span, inside, (tracked.tracks_insideRoot node.content).relates _ _ _ stepped, rfl⟩

end Tracked

/-- Binding a procedure keeps what every change keeps. -/
theorem Preserved.of_bindProcedure {tree : StatementTree} {property : Binder → Prop}
    (preserved : Preserved tree property) {before after : Binder}
    (bound : Bind.bindProcedure tree before = .ok () after) (holds : property before) :
    property after := by
  obtain ⟨span, inside, related, rfl⟩ := preserved.tracked.exists_of_bindProcedure bound
  exact preserved.leave (related (preserved.enter _ _ _ _ holds))

end Bind

end LexicalScope
