import LexicalScope.Proofs.Trace.Syntax

/-!
# Syntax with the same trace

Statements are alike when they are of one kind and have the same trace wherever they stand. Forms
with headers that introduce the same names and with parts that are alike are alike themselves, so
placing a procedure leaves its trace as it is.
-/

namespace LexicalScope

open ScopeEvent

/-- Two forms are of one kind and have the same trace. -/
structure StatementForm.Alike (form other : StatementForm) : Prop where
  kind : form.kind = other.kind
  opens : form.opens = other.opens
  forks : form.forks = other.forks
  exits : ∀ breakExits, form.exits breakExits = other.exits breakExits
  trace : ∀ branch bleedDepth place,
    form.trace branch bleedDepth place = other.trace branch bleedDepth place
  link : ∀ head index place, form.link head index place = other.link head index place

/-- Two statements are of one kind and have the same trace. -/
structure Statement.Alike (statement other : Statement) : Prop where
  kind : statement.kind = other.kind
  forks : statement.forks = other.forks
  exits : ∀ breakExits, statement.exits breakExits = other.exits breakExits
  trace : ∀ unbraced branch bleedDepth place,
    statement.trace unbraced branch bleedDepth place =
      other.trace unbraced branch bleedDepth place
  link : ∀ head index place, statement.link head index place = other.link head index place

/-- Two lists of statements have the same trace as members of a block or section. -/
structure Statement.AllAlike (statements others : List Statement) : Prop where
  forks : Statement.forksInAll statements = Statement.forksInAll others
  exits : ∀ breakExits, Statement.anyExits breakExits statements =
    Statement.anyExits breakExits others
  trace : ∀ bleedDepth place,
    Statement.traceAll statements bleedDepth place = Statement.traceAll others bleedDepth place

/-- Two sections have the same trace. -/
structure Section.Alike (part other : Section) : Prop where
  forks : part.forks = other.forks
  exits : part.exits = other.exits
  trace : ∀ tag place, part.trace tag place = other.trace tag place

/-- Two lists of sections have the same trace. -/
structure Section.AllAlike (sections others : List Section) : Prop where
  forks : Section.forksInAll sections = Section.forksInAll others
  trace : ∀ fork index place,
    Section.traceAll sections fork index place = Section.traceAll others fork index place

theorem StatementForm.Alike.statement {form other : StatementForm} (alike : form.Alike other)
    (span otherSpan : Option Span) :
    (Statement.mk span form).Alike (.mk otherSpan other) where
  kind := alike.kind
  forks := alike.forks
  exits := alike.exits
  trace unbraced branch bleedDepth place := by
    rw [Statement.trace, Statement.trace, alike.opens, alike.trace]
  link := alike.link

/-! ## Lists -/

namespace Statement.AllAlike

variable {statement other : Statement} {statements others : List Statement}

theorem refl (statements : List Statement) : AllAlike statements statements :=
  ⟨rfl, fun _ => rfl, fun _ _ => rfl⟩

/-- Of a member only the trace without a tag counts. -/
theorem cons (forks : statement.forks = other.forks)
    (exits : ∀ breakExits, statement.exits breakExits = other.exits breakExits)
    (trace : ∀ bleedDepth place,
      statement.trace false none bleedDepth place = other.trace false none bleedDepth place)
    (rest : AllAlike statements others) : AllAlike (statement :: statements) (other :: others) where
  forks := by rw [forksInAll, forksInAll, forks, rest.forks]
  exits breakExits := by rw [anyExits, anyExits, exits, rest.exits]
  trace bleedDepth place := by rw [traceAll, traceAll, trace, forks, rest.trace]

end Statement.AllAlike

namespace Section

variable {part other : Section} {sections others : List Section}
  {members otherMembers : List Statement} {labels otherLabels : List Label}

theorem AllAlike.refl (sections : List Section) : AllAlike sections sections :=
  ⟨rfl, fun _ _ _ => rfl⟩

theorem AllAlike.cons (first : part.Alike other) (rest : AllAlike sections others) :
    AllAlike (part :: sections) (other :: others) where
  forks := by rw [forksInAll, forksInAll, first.forks, rest.forks]
  trace fork index place := by
    rw [traceAll, traceAll, first.exits, first.trace, first.forks, rest.trace]

theorem Alike.refl (part : Section) : part.Alike part := ⟨rfl, rfl, fun _ _ => rfl⟩

theorem Alike.ofMembers (span otherSpan : Option Span)
    (header : (labels.flatMap Label.declared).map Entry.introduced =
      (otherLabels.flatMap Label.declared).map Entry.introduced)
    (alike : Statement.AllAlike members otherMembers) :
    (Section.mk span labels members).Alike (.mk otherSpan otherLabels otherMembers) where
  forks := alike.forks
  exits := alike.exits false
  trace tag place := by
    rw [Section.trace, Section.trace, declarations_congr header, alike.trace]

end Section

/-! ## Forms -/

namespace StatementForm.Alike

variable {condition otherCondition : Expression} {body other thenBody otherThen elseBody otherElse :
  Statement}

theorem block {statements others : List Statement}
    (members : Statement.AllAlike statements others) :
    (StatementForm.block statements).Alike (.block others) where
  kind := rfl
  opens := rfl
  forks := members.forks
  exits := members.exits
  trace branch bleedDepth place := by
    rw [StatementForm.trace, StatementForm.trace, members.trace]
  link _ _ _ := rfl

theorem ifThen
    (header : condition.declared.map Entry.introduced =
      otherCondition.declared.map Entry.introduced)
    (body : thenBody.Alike otherThen) :
    (StatementForm.branch condition thenBody none).Alike
      (.branch otherCondition otherThen none) where
  kind := rfl
  opens := rfl
  forks := by rw [StatementForm.forks, StatementForm.forks, body.forks]
  exits _ := rfl
  trace branch bleedDepth place := by
    rw [StatementForm.trace, StatementForm.trace, declarations_congr header, body.exits, body.trace]
  link head index place := by
    rw [StatementForm.link, StatementForm.link, declarations_congr header, body.exits, body.trace]

theorem ifElse
    (header : condition.declared.map Entry.introduced =
      otherCondition.declared.map Entry.introduced)
    (first : thenBody.Alike otherThen) (second : elseBody.Alike otherElse) :
    (StatementForm.branch condition thenBody (some elseBody)).Alike
      (.branch otherCondition otherThen (some otherElse)) where
  kind := rfl
  opens := by simp only [StatementForm.opens, Option.any_some, second.kind]
  forks := by rw [StatementForm.forks, StatementForm.forks, first.forks, second.forks]
  exits breakExits := by rw [StatementForm.exits, StatementForm.exits, first.exits, second.exits]
  trace branch bleedDepth place := by
    simp only [StatementForm.trace, declarations_congr header, first.kind, first.exits, first.forks,
      first.trace, second.kind, second.exits, second.trace, second.link]
  link head index place := by
    simp only [StatementForm.link, declarations_congr header, first.exits, first.forks, first.trace,
      second.kind, second.exits, second.trace, second.link]

theorem whileLoop
    (header : condition.declared.map Entry.introduced =
      otherCondition.declared.map Entry.introduced)
    (inner : body.Alike other) :
    (StatementForm.whileLoop condition body).Alike (.whileLoop otherCondition other) where
  kind := rfl
  opens := rfl
  forks := inner.forks
  exits _ := rfl
  trace branch bleedDepth place := by
    rw [StatementForm.trace, StatementForm.trace, declarations_congr header, inner.trace]
  link _ _ _ := rfl

theorem doLoop
    (header : condition.declared.map Entry.introduced =
      otherCondition.declared.map Entry.introduced)
    (inner : body.Alike other) :
    (StatementForm.doLoop body condition).Alike (.doLoop other otherCondition) where
  kind := rfl
  opens := rfl
  forks := inner.forks
  exits _ := rfl
  trace branch bleedDepth place := by
    rw [StatementForm.trace, StatementForm.trace, declarations_congr header, inner.trace]
  link _ _ _ := rfl

theorem forLoop {declarators otherDeclarators : List Declarator}
    {initializers otherInitializers incrementors otherIncrementors : List Expression}
    {condition otherCondition : Option Expression}
    (header : (declarators.flatMap Declarator.declared ++
        initializers.flatMap Expression.declared ++ Expression.declaredIfPresent condition ++
        incrementors.flatMap Expression.declared).map Entry.introduced =
      (otherDeclarators.flatMap Declarator.declared ++
        otherInitializers.flatMap Expression.declared ++
        Expression.declaredIfPresent otherCondition ++
        otherIncrementors.flatMap Expression.declared).map Entry.introduced)
    (inner : body.Alike other) :
    (StatementForm.forLoop declarators initializers condition incrementors body).Alike
      (.forLoop otherDeclarators otherInitializers otherCondition otherIncrementors other) where
  kind := rfl
  opens := rfl
  forks := inner.forks
  exits _ := rfl
  trace branch bleedDepth place := by
    rw [StatementForm.trace, StatementForm.trace, declarations_congr header, inner.trace]
  link _ _ _ := rfl

theorem forEachLoop {element otherElement : Ident} {collection otherCollection : Expression}
    (header : (element.entry .iteration :: collection.declared).map Entry.introduced =
      (otherElement.entry .iteration :: otherCollection.declared).map Entry.introduced)
    (inner : body.Alike other) :
    (StatementForm.forEachLoop element collection body).Alike
      (.forEachLoop otherElement otherCollection other) where
  kind := rfl
  opens := rfl
  forks := inner.forks
  exits _ := rfl
  trace branch bleedDepth place := by
    rw [StatementForm.trace, StatementForm.trace, declarations_congr header, inner.trace]
  link _ _ _ := rfl

theorem resource {declarators otherDeclarators : List Declarator}
    {held otherHeld : Option Expression}
    (header : (declarators.flatMap Declarator.declared ++
        Expression.declaredIfPresent held).map Entry.introduced =
      (otherDeclarators.flatMap Declarator.declared ++
        Expression.declaredIfPresent otherHeld).map Entry.introduced)
    (inner : body.Alike other) :
    (StatementForm.resource declarators held body).Alike
      (.resource otherDeclarators otherHeld other) where
  kind := rfl
  opens := rfl
  forks := inner.forks
  exits _ := rfl
  trace branch bleedDepth place := by
    rw [StatementForm.trace, StatementForm.trace, declarations_congr header, inner.trace]
  link _ _ _ := rfl

theorem switch {subject otherSubject : Expression} {sections others : List Section}
    (header : subject.declared.map Entry.introduced = otherSubject.declared.map Entry.introduced)
    (parts : Section.AllAlike sections others) :
    (StatementForm.switch subject sections).Alike (.switch otherSubject others) where
  kind := rfl
  opens := rfl
  forks := by rw [StatementForm.forks, StatementForm.forks, parts.forks]
  exits _ := rfl
  trace branch bleedDepth place := by
    rw [StatementForm.trace, StatementForm.trace, declarations_congr header, parts.trace]
  link _ _ _ := rfl

theorem labeled (label : String) (inner : body.Alike other) :
    (StatementForm.labeled label body).Alike (.labeled label other) where
  kind := rfl
  opens := rfl
  forks := inner.forks
  exits := inner.exits
  trace branch bleedDepth place := by rw [StatementForm.trace, StatementForm.trace, inner.trace]
  link _ _ _ := rfl

private theorem refl (form : StatementForm) : form.Alike form where
  kind := rfl
  opens := rfl
  forks := rfl
  exits _ := rfl
  trace _ _ _ := rfl
  link _ _ _ := rfl

end StatementForm.Alike

theorem Statement.Alike.refl (statement : Statement) : statement.Alike statement :=
  ⟨rfl, rfl, fun _ => rfl, fun _ _ _ _ => rfl, fun _ _ _ => rfl⟩

/-! ## Placing -/

mutual

/-- Placing a statement leaves its trace as it is. -/
theorem Statement.alike_placed : ∀ (statement : Statement) (next : Nat),
    (statement.placed next).1.Alike statement
  | .mk _ form, _ => (form.alike_placed _).statement _ _

theorem StatementForm.alike_placed : ∀ (form : StatementForm) (next : Nat),
    (form.placed next).1.Alike form
  | .block statements, _ => .block (Statement.allAlike_placed statements _)
  | .branch condition thenBody none, _ =>
    .ifThen (condition.map_introduced_placed _) (thenBody.alike_placed _)
  | .branch condition thenBody (some elseBody), _ =>
    .ifElse (condition.map_introduced_placed _) (thenBody.alike_placed _) (elseBody.alike_placed _)
  | .whileLoop condition body, _ =>
    .whileLoop (condition.map_introduced_placed _) (body.alike_placed _)
  | .doLoop body condition, _ =>
    .doLoop (condition.map_introduced_placed _) (body.alike_placed _)
  | .forLoop declarators initializers condition incrementors body, _ => by
    refine .forLoop ?_ (body.alike_placed _)
    simp only [List.map_append, Placement.map_introduced_all Declarator.map_introduced_placed,
      Placement.map_introduced_all Expression.map_introduced_placed,
      Expression.map_introduced_optional]
  | .forEachLoop element collection body, _ => by
    refine .forEachLoop ?_ (body.alike_placed _)
    rw [List.map_cons, List.map_cons, collection.map_introduced_placed]
    rfl
  | .resource declarators held body, _ => by
    refine .resource ?_ (body.alike_placed _)
    simp only [List.map_append, Placement.map_introduced_all Declarator.map_introduced_placed,
      Expression.map_introduced_optional]
  | .switch subject sections, _ =>
    .switch (subject.map_introduced_placed _) (Section.allAlike_placed sections _)
  | .localDeclaration declarators, _ =>
    ⟨rfl, rfl, rfl, fun _ => rfl, fun _ bleedDepth _ =>
      declarations_congr (Placement.map_introduced_all Declarator.map_introduced_placed ..)
        bleedDepth, fun _ _ _ => rfl⟩
  | .evaluation expression, _ =>
    ⟨rfl, rfl, rfl, fun _ => rfl, fun _ bleedDepth _ =>
      declarations_congr (expression.map_introduced_placed _) bleedDepth, fun _ _ _ => rfl⟩
  | .returning value, _ =>
    ⟨rfl, rfl, rfl, fun _ => rfl, fun _ bleedDepth _ =>
      declarations_congr (Expression.map_introduced_optional ..) bleedDepth, fun _ _ _ => rfl⟩
  | .throwing value, _ =>
    ⟨rfl, rfl, rfl, fun _ => rfl, fun _ bleedDepth _ =>
      declarations_congr (Expression.map_introduced_optional ..) bleedDepth, fun _ _ _ => rfl⟩
  | .labeled label body, _ => .labeled label (body.alike_placed _)
  | .breaking, _ => .refl _
  | .continuing, _ => .refl _
  | .empty, _ => .refl _

theorem Statement.allAlike_placed : ∀ (statements : List Statement) (next : Nat),
    Statement.AllAlike (Statement.placedAll statements next).1 statements
  | [], _ => .refl []
  | first :: rest, _ =>
    have alike := first.alike_placed _
    .cons alike.forks alike.exits (alike.trace _ _) (Statement.allAlike_placed rest _)

theorem Section.alike_placed : ∀ (part : Section) (next : Nat), (part.placed next).1.Alike part
  | .mk _ _ statements, _ =>
    .ofMembers _ _ (Placement.map_introduced_all Label.map_introduced_placed ..)
      (Statement.allAlike_placed statements _)

theorem Section.allAlike_placed : ∀ (sections : List Section) (next : Nat),
    Section.AllAlike (Section.placedAll sections next).1 sections
  | [], _ => .refl []
  | first :: rest, _ => .cons (first.alike_placed _) (Section.allAlike_placed rest _)

end

/-! ## Procedures -/

private theorem StatementForm.bodyTrace_of_ne {form : StatementForm}
    (notBlock : form.kind ≠ .block) : form.bodyTrace = form.trace none 0 ⟨0, []⟩ := by
  cases form with
  | block statements => exact absurd rfl notBlock
  | _ => rfl

theorem StatementForm.Alike.bodyTrace_eq {form other : StatementForm} (alike : form.Alike other)
    (notBlock : other.kind ≠ .block) : form.bodyTrace = other.bodyTrace := by
  rw [bodyTrace_of_ne (alike.kind ▸ notBlock), bodyTrace_of_ne notBlock, alike.trace]

private theorem StatementForm.bodyTrace_placed (form : StatementForm) (next : Nat) :
    (form.placed next).1.bodyTrace = form.bodyTrace := by
  cases form with
  | block statements => exact (Statement.allAlike_placed statements next).trace 0 _
  | _ => exact (alike_placed _ next).bodyTrace_eq (by rintro ⟨⟩)

/-- Placing a procedure leaves its trace as it is. -/
theorem Procedure.trace_placed (procedure : Procedure) :
    procedure.placed.trace = procedure.trace := by
  obtain ⟨name, parameters, ⟨span, form⟩⟩ := procedure
  have header : ((Placement.all Ident.placed parameters 0).1.flatMap fun ident =>
        [ident.entry .parameter]).map Entry.introduced =
      (parameters.flatMap fun ident => [ident.entry .parameter]).map Entry.introduced :=
    Placement.map_introduced_all (fun _ _ => rfl) parameters 0
  simp only [← List.map_eq_flatMap] at header
  exact congrArg (region .root ⟨0, []⟩ none)
    (congrArg₂ (· ++ ·) (declarations_congr header 0) (form.bodyTrace_placed _))

end LexicalScope
