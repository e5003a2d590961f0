import LexicalScope.Proofs.Scope.Sites
import LexicalScope.Proofs.Trace.Syntax

/-!
# Steps and their events

A step of binding has events if every run of it that succeeds changes the sketch of the binder as
replaying the events does. The events of a sequence are those of its parts one after the other, and
those of a region stand between its opening and its end.
-/

namespace LexicalScope

open ScopeEvent

/-- From one binder to a later one, in the same regions, the sketch changes as events say. -/
structure Binder.Replays (tree : StatementTree) (before after : Binder)
    (events : List ScopeEvent) : Prop where
  settings : after.settings = before.settings
  enclosing : after.enclosing = before.enclosing
  bleedDepth : after.bleedDepth = before.bleedDepth
  sketch : after.sketch tree = (before.sketch tree).replay events

namespace Binder.Replays

variable {tree : StatementTree} {before middle inside after : Binder}
  {events first second : List ScopeEvent}

theorem refl (binder : Binder) : Replays tree binder binder [] := ⟨rfl, rfl, rfl, rfl⟩

theorem append (left : Replays tree before middle first)
    (right : Replays tree middle after second) : Replays tree before after (first ++ second) where
  settings := right.settings.trans left.settings
  enclosing := right.enclosing.trans left.enclosing
  bleedDepth := right.bleedDepth.trans left.bleedDepth
  sketch := by rw [Sketch.replay_append, ← left.sketch, right.sketch]

private theorem declare (name : String) (kind : DeclarationKind) (span : Span)
    (statement : StatementRef) (expression : ExpressionRef)
    (replays : Replays tree before after events) :
    Replays tree before (after.declare name kind span statement expression)
      (events ++ [.declared name kind before.bleedDepth]) :=
  replays.append ⟨rfl, rfl, rfl, by rw [sketch_declare, replays.bleedDepth]; rfl⟩

private theorem recordExpression (expression : ExpressionRef)
    (replays : Replays tree before after events) :
    Replays tree before (after.recordExpression tree expression) events where
  settings := by cases expression <;> exact replays.settings
  enclosing := by cases expression <;> exact replays.enclosing
  bleedDepth := by cases expression <;> exact replays.bleedDepth
  sketch := by rw [sketch_recordExpression, replays.sketch]

theorem recordStatement (statement : StatementRef) (region : RegionRef)
    (replays : Replays tree before after events) :
    Replays tree before (after.recordStatement statement region) events where
  settings := by cases statement <;> exact replays.settings
  enclosing := by cases statement <;> exact replays.enclosing
  bleedDepth := by cases statement <;> exact replays.bleedDepth
  sketch := by rw [sketch_recordStatement, replays.sketch]

private theorem region {kind : RegionKind} {statement : StatementId} {span : Span}
    {branch : Option BranchTag}
    (replays : Replays tree (before.enter kind (some statement) span branch) inside events) :
    Replays tree before inside.leave
      (ScopeEvent.region kind (tree.place statement) (branch.map (·.alternative tree)) events) := by
  have isOuter : inside.enclosing = ⟨before.current, before.bleedDepth⟩ :: before.enclosing :=
    replays.enclosing
  have left : inside.leave = { inside with
      current := before.current
      bleedDepth := before.bleedDepth
      enclosing := before.enclosing } := by
    unfold leave
    rw [isOuter]
  refine ⟨?_, by rw [left], by rw [left], ?_⟩
  · rw [left]
    exact replays.settings
  · rw [sketch_leave, replays.sketch, sketch_enter, ScopeEvent.region, Sketch.replay_cons,
      Sketch.replay_append]
    rfl

private theorem bleed {depth : Nat}
    (replays : Replays tree { before with bleedDepth := depth } after events) :
    Replays tree before { after with bleedDepth := before.bleedDepth } events :=
  ⟨replays.settings, replays.enclosing, rfl, replays.sketch⟩

private theorem headerPreserved (tree : StatementTree) (before : Binder) :
    Bind.HeaderPreserved tree fun after => ∃ entries, after.entries = before.entries ++ entries ∧
      before.Replays tree after (ScopeEvent.declarations entries before.bleedDepth) where
  declare name kind span statement expression := by
    rintro ⟨entries, areEntries, replays⟩
    refine ⟨entries ++ [⟨name, kind, span⟩], ?_, ?_⟩
    · rw [entries_declare, areEntries, List.append_assoc]
    · rw [declarations_append]
      exact replays.declare name kind span statement expression
  recordExpression expression := by
    rintro ⟨entries, areEntries, replays⟩
    exact ⟨entries, by rw [entries_recordExpression, areEntries],
      replays.recordExpression expression⟩

end Binder.Replays

namespace Bind

/-- A step that succeeds has events, by the unbraced bodies around it. -/
structure Traces (tree : StatementTree) (limit : Nat) (step : Bind Unit)
    (events : Nat → List ScopeEvent) : Prop where
  replays : ∀ {before after : Binder}, before.settings.nestingLimit = limit →
    step before = .ok () after → before.Replays tree after (events before.bleedDepth)

namespace Traces

variable {tree : StatementTree} {limit : Nat} {step next : Bind Unit}
  {first second : Nat → List ScopeEvent}

theorem congr (traces : Traces tree limit step first) (same : ∀ depth, first depth = second depth) :
    Traces tree limit step second :=
  ⟨fun isLimit succeeded => same _ ▸ traces.replays isLimit succeeded⟩

theorem pure : Traces tree limit (Pure.pure ()) fun _ => [] := by
  refine ⟨fun {before after} isLimit succeeded => ?_⟩
  obtain ⟨_, rfl⟩ := Step.pure_eq_ok.mp succeeded
  exact .refl before

/-- The events of a header are the declarations of what it introduces. -/
theorem header {change : Binder → Binder} {entries : List Entry}
    (keeps : ∀ {property : Binder → Prop}, HeaderPreserved tree property →
      ∀ {binder : Binder}, property binder → property (change binder))
    (changes : ∀ binder, (change binder).entries = binder.entries ++ entries) :
    Traces tree limit (Bind.apply change) (declarations entries) := by
  refine ⟨fun {before after} isLimit succeeded => ?_⟩
  obtain rfl := apply_eq_ok.mp succeeded
  obtain ⟨declared, areDeclared, replays⟩ := keeps (Binder.Replays.headerPreserved tree before)
    ⟨[], (List.append_nil _).symm, Binder.Replays.refl before⟩
  obtain rfl := List.append_cancel_left ((changes before).symm.trans areDeclared)
  exact replays

theorem bindExpression {value : ExpressionRef} {entries : List Entry}
    (declares : ∀ binder : Binder,
      (binder.bindExpression tree value).entries = binder.entries ++ entries) :
    Traces tree limit (Bind.apply (·.bindExpression tree value)) (declarations entries) :=
  .header (fun keeps => keeps.bindExpression value) declares

theorem bindExpressions {values : List ExpressionRef} {entries : List Entry}
    (declares : ∀ binder : Binder,
      (binder.bindExpressions tree values).entries = binder.entries ++ entries) :
    Traces tree limit (Bind.apply (·.bindExpressions tree values)) (declarations entries) :=
  .header (fun keeps => keeps.bindExpressions values) declares

theorem bindDeclarators {statement : StatementRef} {nodes : List DeclaratorNode}
    {entries : List Entry} (declares : ∀ binder : Binder,
      (binder.bindDeclarators tree statement nodes).entries = binder.entries ++ entries) :
    Traces tree limit (Bind.apply (·.bindDeclarators tree statement nodes))
      (declarations entries) :=
  .header (fun keeps => keeps.bindDeclarators statement nodes) declares

theorem seq (traces : Traces tree limit step first) (others : Traces tree limit next second) :
    Traces tree limit (do step; next) fun depth => first depth ++ second depth := by
  refine ⟨fun {before after} isLimit succeeded => ?_⟩
  obtain ⟨_, between, stepped, continued⟩ := Step.bind_eq_ok.mp succeeded
  have left := traces.replays isLimit stepped
  have right := others.replays (left.settings ▸ isLimit) continued
  exact left.append (left.bleedDepth ▸ right)

theorem find {ref : StatementRef} {next : StatementNode → Bind Unit}
    (traces : ∀ {node}, tree.statement? ref = some node → Traces tree limit (next node) first) :
    Traces tree limit (Bind.find tree ref >>= next) first := by
  refine ⟨fun {before after} isLimit succeeded => ?_⟩
  obtain ⟨node, between, looked, continued⟩ := Step.bind_eq_ok.mp succeeded
  obtain ⟨found, rfl⟩ := find_eq_ok.mp looked
  exact (traces found).replays isLimit continued

/-- Below the nesting limit a step may depend on it. -/
theorem nestingLimit (next : Nat → Bind Unit) (traces : Traces tree limit (next limit) first) :
    Traces tree limit (get >>= fun binder => next binder.settings.nestingLimit) first := by
  refine ⟨fun {before after} isLimit succeeded => ?_⟩
  obtain ⟨binder, between, got, continued⟩ := Step.bind_eq_ok.mp succeeded
  obtain ⟨rfl, rfl⟩ := get_eq_ok.mp got
  rw [isLimit] at continued
  exact traces.replays isLimit continued

theorem branchTag {conditional : StatementId} {body : StatementRef} {index : Nat} {span : Span}
    {breakExits exits : Bool} {next : BranchTag → Bind Unit}
    (isExit : tree.alwaysExits breakExits limit body = exits)
    (traces : ∀ tag : BranchTag,
      tag.alternative tree = ⟨tree.forksBefore conditional.index, index, exits⟩ →
        Traces tree limit (next tag) first) :
    Traces tree limit
      (Bind.branchTag tree (some conditional) index body span breakExits >>= next) first := by
  refine ⟨fun {before after} isLimit succeeded => ?_⟩
  obtain ⟨tag, between, looked, continued⟩ := Step.bind_eq_ok.mp succeeded
  obtain ⟨rfl, rfl⟩ := branchTag_eq_ok.mp looked
  refine (traces _ ?_).replays isLimit continued
  rw [isLimit, isExit]
  rfl

theorem inRegion {kind : RegionKind} {statement : StatementId} {span : Span}
    {branch : Option BranchTag} (traces : Traces tree limit step first) :
    Traces tree limit (Bind.inRegion kind (some statement) span branch step) fun _ =>
      region kind (tree.place statement) (branch.map (·.alternative tree)) (first 0) := by
  refine ⟨fun {before after} isLimit succeeded => ?_⟩
  obtain ⟨inside, stepped, rfl⟩ := inRegion_eq_ok.mp succeeded
  have replays : (before.enter kind (some statement) span branch).Replays tree inside (first 0) :=
    traces.replays isLimit stepped
  exact replays.region

theorem withBleed {added : Bool} (traces : Traces tree limit step first) :
    Traces tree limit (Bind.withBleed added step) fun depth =>
      first (if added then depth + 1 else depth) := by
  refine ⟨fun {before after} isLimit succeeded => ?_⟩
  obtain ⟨depth, inside, stepped, isDepth, rfl⟩ := withBleed_eq_ok.mp succeeded
  rw [← isDepth]
  have replays : { before with bleedDepth := depth }.Replays tree inside (first depth) :=
    traces.replays isLimit stepped
  exact replays.bleed

theorem recordAround {statement : StatementRef} (traces : Traces tree limit step first) :
    Traces tree limit (Bind.recordAround statement step) first := by
  refine ⟨fun {before after} isLimit succeeded => ?_⟩
  obtain ⟨inside, stepped, rfl⟩ := recordAround_eq_ok.mp succeeded
  exact (traces.replays isLimit stepped).recordStatement statement before.current

theorem recorded {statement : StatementRef} {recorded : Binder → RegionRef}
    (traces : Traces tree limit step first) :
    Traces tree limit (do
      Bind.apply fun binder => binder.recordStatement statement (recorded binder)
      step) first := by
  have still : Traces tree limit
      (Bind.apply fun binder => binder.recordStatement statement (recorded binder))
      fun _ => [] := by
    refine ⟨fun {before after} isLimit succeeded => ?_⟩
    obtain rfl := apply_eq_ok.mp succeeded
    exact (Binder.Replays.refl before).recordStatement statement (recorded before)
  exact still.seq traces

end Traces

end Bind

end LexicalScope
