import LexicalScope.Proofs.Layout.Links
import LexicalScope.Proofs.Rewording.Layout
import LexicalScope.Proofs.Rewording.Repetition
import LexicalScope.Proofs.Scope.Parallel
import LexicalScope.Proofs.Scope.Success

/-!
# Binding other texts

Binding compares names with each other and with a discard, and nothing else. When names stay apart,
a reworded tree is bound step by step as the tree is, and in its regions and declarations the names
are reworded.
-/

namespace LexicalScope

variable {w : Rewording}

private theorem StatementTree.repeats_reworded (tree : StatementTree) :
    Repeats w tree (tree.reworded w) (fun _ => True) (fun _ => True) where
  statement _ := tree.statement?_reworded _
  child _ _ _ _ := trivial
  expression _ := tree.expression?_reworded _
  slot _ _ _ _ := trivial

/-! ## Regions and declarations -/

/-- A declaration of another name. -/
def Declaration.reworded (w : Rewording) (declaration : Declaration) : Declaration :=
  { declaration with name := w.name declaration.name }

/-- A region with other names in its table. -/
def Region.reworded (w : Rewording) (region : Region) : Region :=
  { region with table := region.table.map fun entry => (w.name entry.1, entry.2) }

/-- A scope tree with other names; the name of the procedure stays. -/
def ScopeTree.reworded (w : Rewording) (scopes : ScopeTree) : ScopeTree :=
  { scopes with
    regions := scopes.regions.map (·.reworded w)
    declarations := scopes.declarations.map (·.reworded w) }

/-- Settings with other names for the globals. -/
def ScopeSettings.reworded (w : Rewording) (settings : ScopeSettings) : ScopeSettings :=
  { settings with globals := settings.globals.map w.name }

/-- A binder that has met other names. -/
def Binder.reworded (w : Rewording) (binder : Binder) : Binder :=
  { binder with
    settings := binder.settings.reworded w
    regions := binder.regions.map (·.reworded w)
    declarations := binder.declarations.map (·.reworded w) }

namespace Region

variable (region : Region)

@[simp] theorem depth_reworded : (region.reworded w).depth = region.depth := rfl

@[simp] theorem parent_reworded : (region.reworded w).parent = region.parent := rfl

theorem lookup_reworded (faithful : w.Faithful) (name : String) :
    (region.reworded w).lookup (w.name name) = region.lookup name := by
  have same : ∀ entry : String × DeclarationId,
      (w.name entry.1 == w.name name) = (entry.1 == name) :=
    fun entry => faithful.beq_eq entry.1 name
  simp only [lookup, reworded, Array.find?_map, Function.comp_def, same, Option.map_map]

private theorem addChild_reworded (id : RegionId) :
    (region.addChild id).reworded w = (region.reworded w).addChild id := rfl

private theorem addDeclaration_reworded (faithful : w.Faithful) (name : String)
    (id : DeclarationId) :
    (region.addDeclaration name id).reworded w =
      (region.reworded w).addDeclaration (w.name name) id := by
  unfold addDeclaration
  rw [region.lookup_reworded faithful]
  split
  · rfl
  · simp [reworded]

end Region

namespace Binder

variable (binder : Binder)

theorem enter_reworded (kind : RegionKind) (boundary : StatementRef) (span : Span)
    (branch : Option BranchTag) :
    (binder.enter kind boundary span branch).reworded w =
      (binder.reworded w).enter kind boundary span branch := by
  have blank : ∀ id parent depth, (Region.opened id kind boundary span parent depth branch).reworded
      w = .opened id kind boundary span parent depth branch := by
    intro id parent depth
    simp [Region.opened, Region.reworded]
  have added : ∀ (entries : Array Region) (index : Nat) (id : RegionId),
      (entries.modify index (·.addChild id)).map (·.reworded w) =
        (entries.map (·.reworded w)).modify index (·.addChild id) :=
    fun entries index id => map_modify (fun region => region.addChild_reworded id) entries index
  cases known : binder.current with
  | none => simp [enter, reworded, known, blank]
  | some parent =>
      cases found : binder.regions[parent.index]? <;>
        simp [enter, reworded, known, blank, added, found]

theorem leave_reworded : binder.leave.reworded w = (binder.reworded w).leave := by
  obtain ⟨_, _, _, enclosing, _⟩ := binder
  cases enclosing <;> rfl

private theorem declare_reworded (faithful : w.Faithful) (name : String) (kind : DeclarationKind)
    (span : Span) (ref : StatementRef) (expression : ExpressionRef) :
    (binder.declare name kind span ref expression).reworded w =
      (binder.reworded w).declare (w.name name) kind span ref expression := by
  have added : ∀ (index : Nat) (id : DeclarationId),
      (binder.regions.modify index (·.addDeclaration name id)).map (·.reworded w) =
        (binder.regions.map (·.reworded w)).modify index (·.addDeclaration (w.name name) id) :=
    fun index id =>
      map_modify (fun region => region.addDeclaration_reworded faithful name id) _ index
  cases known : binder.current <;>
    simp [declare, reworded, known, Declaration.reworded, added]

theorem recordStatement_reworded (ref : StatementRef) (region : RegionRef) :
    (binder.recordStatement ref region).reworded w =
      (binder.reworded w).recordStatement ref region := by
  cases ref <;> rfl

private theorem recordBelow_reworded (tree : StatementTree) (region : RegionRef) (steps : Nat) :
    recordBelow (tree.reworded w) region steps = recordBelow tree region steps := by
  induction steps with
  | zero => rfl
  | succ steps induction =>
      funext record expression
      rw [recordBelow, recordBelow, tree.expressionChildren_reworded, induction]

private theorem recordExpression_reworded (tree : StatementTree) (expression : ExpressionRef) :
    (binder.recordExpression tree expression).reworded w =
      (binder.reworded w).recordExpression (tree.reworded w) expression := by
  cases expression with
  | none => rfl
  | some id =>
      simp only [recordExpression, recordBelow_reworded, StatementTree.expressionSteps_reworded]
      rfl

end Binder

/-! ## Whole trees -/

namespace Bind

variable {tree : StatementTree}

private theorem parallel_reworded (faithful : w.Faithful) (proper : tree.Proper) :
    Parallel w tree (tree.reworded w) (fun ref => ∃ node, tree.statement? ref = some node)
      (fun _ => True) True (fun before start => start = before.reworded w) where
  node := by
    rintro ref ⟨node, found⟩
    refine ⟨node, found, by rw [tree.statement?_reworded, found, Option.map_some],
      fun child listed => ?_, fun _ _ => trivial⟩
    cases ref with
    | none => cases found
    | some id =>
        obtain ⟨below, inner, isChild, innerFound, _⟩ := proper.child found listed
        refine ⟨⟨inner, isChild ▸ innerFound⟩, ?_⟩
        rintro breakExits before start rfl
        exact tree.repeats_reworded.alwaysExits _ _ trivial
  isTwoWay _ := tree.isTwoWay_reworded _
  addsBleedLevel _ position := by rw [tree.classify_reworded]
  introduced _ := tree.repeats_reworded.introduced faithful trivial
  introducedByLabel _ _ := tree.repeats_reworded.introducedByLabel faithful (fun _ _ => trivial) _
  current := by rintro before start rfl; rfl
  bleedDepth := by rintro before start rfl; rfl
  limit := by rintro _ before start rfl; rfl
  enter := by
    rintro before start rfl kind boundary span branch
    exact (before.enter_reworded kind boundary span branch).symm
  leave := by
    rintro before start rfl
    exact before.leave_reworded.symm
  bleed := by
    rintro before start rfl depth
    rfl
  recordStatement := by
    rintro before start rfl ref region
    exact (before.recordStatement_reworded ref region).symm
  declare := by
    rintro before start rfl name kind span ref expression
    exact (before.declare_reworded faithful name kind span ref expression).symm
  recordExpression := by
    rintro before start rfl expression _
    exact (before.recordExpression_reworded tree expression).symm

end Bind

/-- A reworded tree has the reworded scope tree, or is refused for the same reason. -/
theorem ScopeTree.ofStatementTree_reworded {tree : StatementTree} (faithful : w.Faithful)
    (proper : tree.Proper) (linked : tree.checkLinks = .ok ())
    (linkedToo : (tree.reworded w).checkLinks = .ok ()) (settings : ScopeSettings) :
    ofStatementTree (settings.reworded w) (tree.reworded w) =
      (ofStatementTree settings tree).map (·.reworded w) := by
  obtain ⟨node, found, _⟩ := proper.body
  rw [← proper.root] at found
  have foundToo : (tree.reworded w).statement? (tree.reworded w).root = some (node.reworded w) := by
    rw [tree.statement?_reworded, tree.root_reworded, found, Option.map_some]
  rw [ofStatementTree_eq settings linked found, ofStatementTree_eq _ linkedToo foundToo]
  have parallel := Bind.parallel_reworded faithful proper
  have opened : Binder.opened (settings.reworded w) (tree.reworded w) (node.reworded w).span =
      (Binder.opened settings tree node.span).reworded w := by
    refine parallel.declareParameters rfl rfl ?_
    rw [Binder.recordStatement_reworded, Binder.enter_reworded]
    simp [Binder.reworded, Binder.blank, StatementNode.reworded]
  have matched := parallel.bindBody 0 (fun _ => rfl) ⟨node, found⟩ rfl found settings.nestingLimit
    _ _ opened
  change Bind.Matched True _ _ (Bind.bindBody (tree.reworded w) (settings.reworded w).nestingLimit
    (node.reworded w).content _) at matched
  cases ran : Bind.bindBody tree settings.nestingLimit node.content
      (.opened settings tree node.span) <;>
    cases ranToo : Bind.bindBody (tree.reworded w) (settings.reworded w).nestingLimit
      (node.reworded w).content
      (.opened (settings.reworded w) (tree.reworded w) (node.reworded w).span) <;>
    rw [ran, ranToo] at matched
  case ok.ok _ inside _ insideToo =>
      subst matched
      dsimp only
      rw [← inside.leave_reworded]
      rfl
  case error.error => exact congrArg Except.error (matched trivial).symm
  case ok.error => exact matched.elim
  case error.ok => exact absurd trivial matched

end LexicalScope
