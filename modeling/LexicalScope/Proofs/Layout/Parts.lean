import LexicalScope.Proofs.Layout.Restoration
import LexicalScope.Proofs.Procedure.Parts

/-!
# The parts of a procedure in its statement tree

The parts of a procedure are read from its statement tree with the spans that they have there. Those
that state a span keep it; the spans of the others, labels among them, are brackets.
-/

namespace LexicalScope

open Placement

/-! ## Reading parts -/

namespace StatementTree

variable (tree : StatementTree)

/-- The part that an expression in the header of a statement is. -/
def headerParts (ref : ExpressionRef) : List (Part (Option Span)) :=
  Expression.partIfPresent (tree.restoreHeader? ref)

/-- The names and constants of the pattern that a label may have. -/
def patternParts (node : Option PatternNode) : List (Part (Option Span)) :=
  match node.bind (·.restore? tree.restoreHeader?) with
  | some pattern => pattern.parts
  | none => []

/-- The name of a declarator and its initial value. -/
def declaratorParts (node : DeclaratorNode) : List (Part (Option Span)) :=
  node.binding.ident.part :: tree.headerParts node.initializer

/-- The part that a label is. -/
def labelPart (node : LabelNode) : Part (Option Span) :=
  .mk .label (some node.span) (tree.patternParts node.pattern ++ tree.headerParts node.guard)

variable (statement : StatementRef → List (Part (Option Span)))

/-- The part that a section is, with its statements read by `statement`. -/
def sectionParts (ref : StatementRef) : List (Part (Option Span)) :=
  match tree.statement? ref with
  | some ⟨.switchSection labels statements, span, _⟩ =>
    [.mk .switchSection (some span) (labels.map tree.labelPart ++ statements.flatMap statement)]
  | _ => []

/-- The parts that a statement refers to, with those that are statements read by `statement`. A
section is no statement of its own. -/
def contentParts : StatementContent → List (Part (Option Span))
  | .block statements => statements.flatMap statement
  | .branch condition thenBody none => tree.headerParts condition ++ statement thenBody
  | .branch condition thenBody (some elseBody) =>
    tree.headerParts condition ++ (statement thenBody ++ statement (some elseBody))
  | .whileLoop condition body => tree.headerParts condition ++ statement body
  | .doLoop body condition => statement body ++ tree.headerParts condition
  | .forLoop declarators initializers condition incrementors body =>
    declarators.flatMap tree.declaratorParts ++ initializers.flatMap tree.headerParts ++
      tree.headerParts condition ++ incrementors.flatMap tree.headerParts ++ statement body
  | .forEachLoop element collection body =>
    element.ident.part :: (tree.headerParts collection ++ statement body)
  | .resource declarators held body =>
    declarators.flatMap tree.declaratorParts ++ tree.headerParts held ++ statement body
  | .switch subject sections =>
    tree.headerParts subject ++ sections.flatMap (tree.sectionParts statement)
  | .localDeclaration declarators => declarators.flatMap tree.declaratorParts
  | .evaluation value => tree.headerParts value
  | .returning value => tree.headerParts value
  | .throwing value => tree.headerParts value
  | .labeled _ body => statement body
  | .switchSection _ _ | .breaking | .continuing | .empty => []

/-- The part that the statement at a reference is, read to at most `steps` levels. -/
def statementParts : Nat → StatementRef → List (Part (Option Span))
  | 0, _ => []
  | steps + 1, ref =>
    match tree.statement? ref with
    | some node => [.mk .statement (some node.span) (tree.contentParts (statementParts steps)
        node.content)]
    | none => []

/-- The parameters of a statement tree and the statement that makes up its body. -/
def parts : List (Part (Option Span)) :=
  tree.parameters.map (·.ident.part) ++
    tree.statementParts (Limit.statementNesting + 1) tree.root

variable {tree} {statement} {ref parent : StatementRef} {span : Span}

private theorem statementParts_succ {content : StatementContent} {steps : Nat}
    (found : tree.statement? ref = some ⟨content, span, parent⟩) :
    tree.statementParts (steps + 1) ref =
      [.mk .statement (some span) (tree.contentParts (tree.statementParts steps) content)] := by
  rw [statementParts, found]

private theorem sectionParts_eq {labels : List LabelNode} {statements : List StatementRef}
    (found : tree.statement? ref = some ⟨.switchSection labels statements, span, parent⟩) :
    tree.sectionParts statement ref = [.mk .switchSection (some span)
      (labels.map tree.labelPart ++ statements.flatMap statement)] := by
  rw [sectionParts, found]

end StatementTree

namespace Layout

/-- Parts have been laid out one after the other, and `read` finds them in the tree. -/
def LaidParts (before after : LayoutState) (parts : List (Part (Option Span)))
    (read : StatementTree → List (Part (Option Span))) : Prop :=
  Laid before after after.next fun tree =>
    Part.PlacedAs parts before.next (read tree) after.next

namespace LaidParts

variable {before middle after : LayoutState} {parts others : List (Part (Option Span))}
  {read readOthers : StatementTree → List (Part (Option Span))}

theorem nothing : LaidParts before before [] fun _ => [] :=
  Laid.nothing fun _ => .nothing

theorem append (first : LaidParts before middle parts read)
    (second : LaidParts middle after others readOthers) :
    LaidParts before after (parts ++ others) fun tree => read tree ++ readOthers tree :=
  (Laid.append first second).imp fun _ ⟨left, right⟩ => left.append right

theorem of_laid {next : Nat} {fact : StatementTree → Prop} (laid : Laid before after next fact)
    (placed : ∀ tree, fact tree → Part.PlacedAs parts before.next (read tree) next) :
    LaidParts before after parts read := by
  obtain rfl := laid.next_eq
  exact laid.imp placed

private theorem around (kind : PartKind) (given : Option Span)
    (inside : LaidParts { before with next := opened given before.next } middle parts read) :
    LaidParts before
      { middle with next := closed (opening given before.next) given middle.next }
      [.mk kind given parts] fun tree =>
        [.mk kind (some (covered (opening given before.next) given middle.next)) (read tree)] := by
  have opens : Laid before { before with next := opened given before.next }
      (opened given before.next) fun _ => True := Laid.ofNext fun _ => trivial
  have closes : Laid middle
      { middle with next := closed (opening given before.next) given middle.next }
      (closed (opening given before.next) given middle.next) fun _ => True :=
    Laid.ofNext fun _ => trivial
  exact (opens.append (Laid.append inside closes)).imp fun _ ⟨_, placed, _⟩ =>
    placed.around kind given

theorem mapM {Syntax Node : Type} {step : Syntax → Layout Node}
    {parts : Syntax → List (Part (Option Span))}
    {read : StatementTree → Node → List (Part (Option Span))}
    (each : ∀ (value : Syntax) {before after : LayoutState} {node : Node},
      step value before = .ok node after →
        LaidParts before after (parts value) fun tree => read tree node)
    (list : List Syntax) {nodes : List Node} (laid : list.mapM step before = .ok nodes after) :
    LaidParts before after (list.flatMap parts) fun tree => nodes.flatMap (read tree) := by
  induction list generalizing before nodes with
  | nil =>
      obtain ⟨rfl, rfl⟩ := Step.mapM_nil_eq_ok.mp laid
      exact nothing
  | cons head tail induction =>
      obtain ⟨node, others, middle, rfl, firstLaid, restLaid⟩ := Step.mapM_cons_eq_ok.mp laid
      exact (each head firstLaid).append (induction restLaid)

end LaidParts

/-! ## Headers -/

theorem binding_parts (ident : Ident) {before after : LayoutState} {bound : Binding}
    (laid : binding ident before = .ok bound after) :
    LaidParts before after [ident.part] fun _ => [bound.ident.part] := by
  obtain ⟨rfl, rfl⟩ := binding_eq_ok laid
  exact Laid.ofNext fun _ => ident.part_placed before.next

theorem header_parts (owner : StatementId) (value : Expression) {before after : LayoutState}
    {ref : ExpressionRef} (laid : header owner value before = .ok ref after) :
    LaidParts before after [value.part] fun tree => tree.headerParts ref := by
  obtain ⟨rfl, added⟩ := header_laid owner value laid
  refine .of_laid added.toLaid fun tree occupied => ?_
  rw [StatementTree.headerParts,
    Expression.restoreHeader_of_occupies (value.completedBy_placed _) occupied]
  exact value.part_placed before.next

theorem optionalHeader_parts (owner : StatementId) (value : Option Expression)
    {before after : LayoutState} {ref : ExpressionRef}
    (laid : optionalHeader owner value before = .ok ref after) :
    LaidParts before after (Expression.partIfPresent value) fun tree => tree.headerParts ref := by
  cases value with
  | none =>
      simp only [optionalHeader, Step.pure_eq_ok] at laid
      obtain ⟨rfl, rfl⟩ := laid
      exact .nothing
  | some value => exact header_parts owner value laid

private theorem declarator_parts (owner : StatementId) (value : Declarator)
    {before after : LayoutState} {node : DeclaratorNode}
    (laid : declarator owner value before = .ok node after) :
    LaidParts before after value.parts fun tree => tree.declaratorParts node := by
  simp only [declarator, Step.bind_eq_ok, Step.pure_eq_ok] at laid
  obtain ⟨_, _, named, _, _, initialized, rfl, rfl⟩ := laid
  exact (binding_parts value.name named).append
    (optionalHeader_parts owner value.initializer initialized)

private theorem headers_parts (owner : StatementId) (values : List Expression)
    {before after : LayoutState} {refs : List ExpressionRef}
    (laid : values.mapM (header owner) before = .ok refs after) :
    LaidParts before after (values.map Expression.part) fun tree =>
      refs.flatMap tree.headerParts := by
  rw [List.map_eq_flatMap]
  exact .mapM (fun value _ _ _ => header_parts owner value) values laid

private theorem declarators_parts (owner : StatementId) (values : List Declarator)
    {before after : LayoutState} {nodes : List DeclaratorNode}
    (laid : values.mapM (declarator owner) before = .ok nodes after) :
    LaidParts before after (values.flatMap Declarator.parts) fun tree =>
      nodes.flatMap tree.declaratorParts :=
  .mapM (fun value _ _ _ => declarator_parts owner value) values laid

private theorem pattern_parts (owner : StatementId) (value : Pattern) {before after : LayoutState}
    {node : PatternNode} (laid : pattern owner 0 none value before = .ok node after) :
    LaidParts before after value.parts fun tree => tree.patternParts (some node) := by
  have added := pattern_laid owner 0 none value laid
  refine .of_laid added.toLaid fun tree occupied => ?_
  have restored := (value.placed before.next).1.restore_of_occupies (value.completedBy_placed _)
    occupied (Nat.lt_succ_self Limit.expressionNesting)
  rw [← StatementTree.restoreHeader?] at restored
  rw [StatementTree.patternParts, Option.bind_some, restored]
  exact value.parts_placed before.next

private theorem label_parts (owner : StatementId) (value : Label) {before after : LayoutState}
    {node : LabelNode} (laid : label owner value before = .ok node after) :
    LaidParts before after [value.part] fun tree => [tree.labelPart node] := by
  cases value with
  | matching pattern guard =>
      simp only [label, Step.bind_eq_ok, Step.pure_eq_ok] at laid
      obtain ⟨start, _, opened, node, _, matched, _, _, guarded, _, _, ⟨rfl, rfl⟩, _, _, closed,
        rfl, rfl⟩ := laid
      obtain ⟨rfl, rfl⟩ := openSpan_eq_ok opened
      have inside := (pattern_parts owner pattern matched).append
        (optionalHeader_parts owner guard guarded)
      obtain ⟨rfl, rfl⟩ := closeSpan_eq_ok closed
      exact inside.around .label none
  | otherwise =>
      simp only [label, Step.bind_eq_ok, Step.pure_eq_ok] at laid
      obtain ⟨start, _, opened, _, _, ⟨rfl, rfl⟩, _, _, closed, rfl, rfl⟩ := laid
      obtain ⟨rfl, rfl⟩ := openSpan_eq_ok opened
      obtain ⟨rfl, rfl⟩ := closeSpan_eq_ok closed
      exact LaidParts.nothing.around .label none

private theorem labels_parts (owner : StatementId) (values : List Label)
    {before after : LayoutState} {nodes : List LabelNode}
    (laid : values.mapM (label owner) before = .ok nodes after) :
    LaidParts before after (values.map Label.part) fun tree => nodes.map tree.labelPart := by
  simp only [List.map_eq_flatMap]
  exact .mapM (fun value _ _ _ => label_parts owner value) values laid

/-! ## Statements -/

/-- A statement or section is laid out around its parts: the node reserved for it refers to them
once it is filled. -/
theorem LaidParts.filled {before middle : LayoutState} {parent : StatementRef}
    {given : Option Span} {content : StatementContent} {parts : List (Part (Option Span))}
    {read readWhole : StatementTree → List (Part (Option Span))} (kind : PartKind)
    (inside : LaidParts (reserved before given parent) middle parts read)
    (whole : ∀ {tree : StatementTree} {span : Span},
      tree.statement? (some ⟨before.tree.statements.size⟩) = some ⟨content, span, parent⟩ →
        readWhole tree = [.mk kind (some span) (read tree)]) :
    LaidParts before
      (Layout.filled middle ⟨before.tree.statements.size⟩ (opening given before.next) given content)
      [.mk kind given parts] readWhole := by
  refine .of_laid (filled_statement_laid inside) fun tree ⟨found, placed⟩ => ?_
  rw [whole found]
  exact placed.around kind given

mutual

theorem statement_parts (depth : Nat) (parent : StatementRef) :
    ∀ (value : Statement) {before after : LayoutState} {id : StatementId} {steps : Nat},
      statement depth parent value before = .ok id after → Limit.statementNesting < steps + depth →
        LaidParts before after [value.part] fun tree => tree.statementParts steps (some id)
  | .mk given form, before, after, id, steps, laid, enough => by
    simp only [statement, Step.bind_eq_ok, Step.pure_eq_ok] at laid
    obtain ⟨_, _, checked, start, _, opened, _, _, reserving, content, middle, formed, span, _,
      closed, _, _, filling, rfl, rfl⟩ := laid
    obtain ⟨bound, rfl⟩ := checkStatementDepth_eq_ok checked
    obtain ⟨rfl, rfl⟩ := openSpan_eq_ok opened
    cases reserving
    cases steps with
    | zero => omega
    | succ fewer =>
        -- One level of reading is spent on the statement, as is one level of nesting.
        have inside : LaidParts (reserved before given parent) middle form.innerParts _ :=
          statementForm_parts (depth + 1) ⟨before.tree.statements.size⟩ form formed
            (by omega : Limit.statementNesting < fewer + (depth + 1))
        obtain ⟨rfl, rfl⟩ := closeSpan_eq_ok closed
        cases filling
        exact inside.filled .statement fun found => StatementTree.statementParts_succ found

theorem statementForm_parts (depth : Nat) (id : StatementId) :
    ∀ (form : StatementForm) {before after : LayoutState} {content : StatementContent}
      {steps : Nat}, statementForm depth id form before = .ok content after →
        Limit.statementNesting < steps + depth →
          LaidParts before after form.innerParts fun tree =>
            tree.contentParts (tree.statementParts steps) content
  | .block members, before, after, content, steps, laid, enough => by
    simp only [statementForm, Step.bind_eq_ok, Step.pure_eq_ok] at laid
    obtain ⟨refs, _, listed, rfl, rfl⟩ := laid
    exact statements_parts depth (some id) members listed enough
  | .branch condition thenBody none, before, after, content, steps, laid, enough => by
    simp only [statementForm, Step.bind_eq_ok, Step.pure_eq_ok] at laid
    obtain ⟨_, _, tested, _, _, thenLaid, rfl, rfl⟩ := laid
    exact (header_parts id condition tested).append
      (statement_parts depth (some id) thenBody thenLaid enough)
  | .branch condition thenBody (some elseBody), before, after, content, steps, laid, enough => by
    simp only [statementForm, Step.bind_eq_ok, Step.pure_eq_ok] at laid
    obtain ⟨_, _, tested, _, _, thenLaid, _, _, elseLaid, rfl, rfl⟩ := laid
    exact (header_parts id condition tested).append
      ((statement_parts depth (some id) thenBody thenLaid enough).append
        (statement_parts depth (some id) elseBody elseLaid enough))
  | .whileLoop condition body, before, after, content, steps, laid, enough => by
    simp only [statementForm, Step.bind_eq_ok, Step.pure_eq_ok] at laid
    obtain ⟨_, _, tested, _, _, bodyLaid, rfl, rfl⟩ := laid
    exact (header_parts id condition tested).append
      (statement_parts depth (some id) body bodyLaid enough)
  | .doLoop body condition, before, after, content, steps, laid, enough => by
    simp only [statementForm, Step.bind_eq_ok, Step.pure_eq_ok] at laid
    obtain ⟨_, _, bodyLaid, _, _, tested, rfl, rfl⟩ := laid
    exact (statement_parts depth (some id) body bodyLaid enough).append
      (header_parts id condition tested)
  | .forLoop declarators initializers condition incrementors body, before, after, content, steps,
      laid, enough => by
    simp only [statementForm, Step.bind_eq_ok, Step.pure_eq_ok] at laid
    obtain ⟨_, _, declared, _, _, started, _, _, tested, _, _, stepped, _, _, bodyLaid, rfl, rfl⟩ :=
      laid
    exact ((((declarators_parts id declarators declared).append
      (headers_parts id initializers started)).append
        (optionalHeader_parts id condition tested)).append
          (headers_parts id incrementors stepped)).append
            (statement_parts depth (some id) body bodyLaid enough)
  | .forEachLoop element collection body, before, after, content, steps, laid, enough => by
    simp only [statementForm, Step.bind_eq_ok, Step.pure_eq_ok] at laid
    obtain ⟨_, _, named, _, _, collected, _, _, bodyLaid, rfl, rfl⟩ := laid
    exact (binding_parts element named).append ((header_parts id collection collected).append
      (statement_parts depth (some id) body bodyLaid enough))
  | .resource declarators held body, before, after, content, steps, laid, enough => by
    simp only [statementForm, Step.bind_eq_ok, Step.pure_eq_ok] at laid
    obtain ⟨_, _, declared, _, _, taken, _, _, bodyLaid, rfl, rfl⟩ := laid
    exact ((declarators_parts id declarators declared).append
      (optionalHeader_parts id held taken)).append
        (statement_parts depth (some id) body bodyLaid enough)
  | .switch subject sections, before, after, content, steps, laid, enough => by
    simp only [statementForm, Step.bind_eq_ok, Step.pure_eq_ok] at laid
    obtain ⟨_, _, tested, refs, _, sectionsLaid, rfl, rfl⟩ := laid
    exact (header_parts id subject tested).append
      (sections_parts depth (some id) sections sectionsLaid enough)
  | .localDeclaration declarators, before, after, content, steps, laid, _ => by
    simp only [statementForm, Step.bind_eq_ok, Step.pure_eq_ok] at laid
    obtain ⟨_, _, declared, rfl, rfl⟩ := laid
    exact declarators_parts id declarators declared
  | .evaluation value, before, after, content, steps, laid, _ => by
    simp only [statementForm, Step.bind_eq_ok, Step.pure_eq_ok] at laid
    obtain ⟨_, _, evaluated, rfl, rfl⟩ := laid
    exact header_parts id value evaluated
  | .returning value, before, after, content, steps, laid, _ => by
    simp only [statementForm, Step.bind_eq_ok, Step.pure_eq_ok] at laid
    obtain ⟨_, _, evaluated, rfl, rfl⟩ := laid
    exact optionalHeader_parts id value evaluated
  | .throwing value, before, after, content, steps, laid, _ => by
    simp only [statementForm, Step.bind_eq_ok, Step.pure_eq_ok] at laid
    obtain ⟨_, _, evaluated, rfl, rfl⟩ := laid
    exact optionalHeader_parts id value evaluated
  | .labeled _ body, before, after, content, steps, laid, enough => by
    simp only [statementForm, Step.bind_eq_ok, Step.pure_eq_ok] at laid
    obtain ⟨_, _, bodyLaid, rfl, rfl⟩ := laid
    exact statement_parts depth (some id) body bodyLaid enough
  | .breaking, before, after, content, steps, laid, _
  | .continuing, before, after, content, steps, laid, _
  | .empty, before, after, content, steps, laid, _ => by
    simp only [statementForm, Step.pure_eq_ok] at laid
    obtain ⟨rfl, rfl⟩ := laid
    exact .nothing

theorem statements_parts (depth : Nat) (parent : StatementRef) :
    ∀ (values : List Statement) {before after : LayoutState} {refs : List StatementRef}
      {steps : Nat}, statements depth parent values before = .ok refs after →
        Limit.statementNesting < steps + depth →
          LaidParts before after (Statement.partsOfAll values) fun tree =>
            refs.flatMap (tree.statementParts steps)
  | [], before, after, refs, steps, laid, _ => by
    simp only [statements, Step.pure_eq_ok] at laid
    obtain ⟨rfl, rfl⟩ := laid
    exact .nothing
  | first :: rest, before, after, refs, steps, laid, enough => by
    simp only [statements, Step.bind_eq_ok, Step.pure_eq_ok] at laid
    obtain ⟨_, _, firstLaid, others, _, restLaid, rfl, rfl⟩ := laid
    exact (statement_parts depth parent first firstLaid enough).append
      (statements_parts depth parent rest restLaid enough)

theorem switchSection_parts (depth : Nat) (parent : StatementRef) :
    ∀ (value : Section) {before after : LayoutState} {id : StatementId} {steps : Nat},
      switchSection depth parent value before = .ok id after →
        Limit.statementNesting < steps + depth →
          LaidParts before after [value.part] fun tree =>
            tree.sectionParts (tree.statementParts steps) (some id)
  | .mk given labels members, before, after, id, steps, laid, enough => by
    simp only [switchSection, Step.bind_eq_ok, Step.pure_eq_ok] at laid
    obtain ⟨start, _, opened, _, _, reserving, nodes, _, labeling, refs, middle, listed, span, _,
      closed, _, _, filling, rfl, rfl⟩ := laid
    obtain ⟨rfl, rfl⟩ := openSpan_eq_ok opened
    cases reserving
    have inside : LaidParts (reserved before given parent) middle _ _ :=
      (labels_parts ⟨before.tree.statements.size⟩ labels labeling).append
        (statements_parts depth (some ⟨before.tree.statements.size⟩) members listed enough)
    obtain ⟨rfl, rfl⟩ := closeSpan_eq_ok closed
    cases filling
    exact inside.filled .switchSection fun found => StatementTree.sectionParts_eq found

theorem sections_parts (depth : Nat) (parent : StatementRef) :
    ∀ (values : List Section) {before after : LayoutState} {refs : List StatementRef}
      {steps : Nat}, sections depth parent values before = .ok refs after →
        Limit.statementNesting < steps + depth →
          LaidParts before after (Section.partsOfAll values) fun tree =>
            refs.flatMap (tree.sectionParts (tree.statementParts steps))
  | [], before, after, refs, steps, laid, _ => by
    simp only [sections, Step.pure_eq_ok] at laid
    obtain ⟨rfl, rfl⟩ := laid
    exact .nothing
  | first :: rest, before, after, refs, steps, laid, enough => by
    simp only [sections, Step.bind_eq_ok, Step.pure_eq_ok] at laid
    obtain ⟨_, _, firstLaid, others, _, restLaid, rfl, rfl⟩ := laid
    exact (switchSection_parts depth parent first firstLaid enough).append
      (sections_parts depth parent rest restLaid enough)

end

private theorem procedure_parts (value : Procedure) {before after : LayoutState}
    (laid : procedure value before = .ok () after) :
    after.tree.parts = Part.shown value.parts before.next := by
  simp only [procedure, Step.bind_eq_ok] at laid
  obtain ⟨bindings, between, bound, root, middle, bodyLaid, modified⟩ := laid
  have parameters : LaidParts before between (value.parameters.map Ident.part) fun _ =>
      bindings.map (·.ident.part) := by
    simp only [List.map_eq_flatMap]
    exact .mapM (fun ident _ _ _ => binding_parts ident) value.parameters bound
  have body : LaidParts between middle [value.body.part] fun tree =>
      tree.statementParts (Limit.statementNesting + 1) (some root) :=
    statement_parts 0 none value.body bodyLaid (Nat.lt_succ_self Limit.statementNesting)
  cases modified
  -- Behind the body only the parameters and the root are set; all nodes stay.
  let tree := { middle.tree with parameters := bindings, root := some root }
  have shows : tree.Shows before.mark middle := ⟨fun _ _ _ => rfl, fun _ _ _ => rfl⟩
  exact ((parameters.append body).holds tree shows).shown

end Layout

/-- The tree of a procedure has the parts of the procedure, in their order and one inside the other
as there; those that state spans have these spans, and the spans of the others are brackets. -/
theorem StatementTree.spansBracketed_of_ofProcedure {procedure : Procedure}
    {tree : StatementTree} (laidOut : StatementTree.ofProcedure procedure = .ok tree) :
    ∃ parts : List (Part PlacedSpan), Part.mapAll PlacedSpan.stated parts = procedure.parts ∧
      Part.mapAll (fun place => some place.span) parts = tree.parts ∧
        Part.SpansBracketed parts := by
  unfold StatementTree.ofProcedure at laidOut
  split at laidOut
  next state succeeded =>
    obtain rfl := Except.ok.inj laidOut
    have shown : state.tree.parts = Part.shown procedure.parts 0 :=
      Layout.procedure_parts procedure succeeded
    refine ⟨(Part.placedAll procedure.parts 0).1, ?_, ?_, ?_⟩
    · exact Part.stated_placedAll procedure.parts 0
    · rw [shown, Part.shown]
    · exact Part.spansBracketed_placedAll procedure.parts 0
  next => cases laidOut

theorem StatementTree.spansBracketed_partlyPlaced :
    ∃ tree, StatementTree.ofProcedure .partlyPlaced = .ok tree ∧
      ∃ parts : List (Part PlacedSpan),
        Part.mapAll PlacedSpan.stated parts = Procedure.partlyPlaced.parts ∧
          Part.mapAll (fun place => some place.span) parts = tree.parts ∧
            Part.SpansBracketed parts := by
  have accepted : (StatementTree.ofProcedure .partlyPlaced).isOk = true := by decide +kernel
  obtain ⟨tree, laidOut⟩ := Step.exists_of_isOk accepted
  exact ⟨tree, laidOut, spansBracketed_of_ofProcedure laidOut⟩

end LexicalScope
