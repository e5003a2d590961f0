import LexicalScope.Proofs.Trace.Sketch

/-!
# The trace of a procedure

What happens when a procedure is bound can be read off its syntax: which regions open, as which
alternatives, and which names are declared in them. A label shows in the trace only where it stands
between a statement and its unbraced body or alternative.
-/

namespace LexicalScope

namespace ScopeEvent

/-- The declarations of names, so many unbraced bodies below the boundary of their region. -/
def declarations (entries : List Entry) (bleedDepth : Nat) : List ScopeEvent :=
  entries.map fun entry => .declared entry.name entry.kind bleedDepth

/-- What happens around and inside a region. -/
def region (kind : RegionKind) (place : ForkPlace) (branch : Option Alternative)
    (inside : List ScopeEvent) : List ScopeEvent :=
  .opened kind place.past branch :: (inside ++ [.left])

/-- What happens in an alternative: a block is a region for itself, anything else gets one around
it. -/
def alternative (kind : StatementKind) (place : ForkPlace) (tag : Alternative)
    (inside : Option Alternative → List ScopeEvent) : List ScopeEvent :=
  if kind = .block then inside (some tag) else region .branch place (some tag) (inside none)

theorem declarations_append (first second : List Entry) (bleedDepth : Nat) :
    declarations (first ++ second) bleedDepth =
      declarations first bleedDepth ++ declarations second bleedDepth :=
  List.map_append

/-- What names are declared with does not depend on their spans. -/
theorem declarations_congr {first second : List Entry}
    (same : first.map Entry.introduced = second.map Entry.introduced) (bleedDepth : Nat) :
    declarations first bleedDepth = declarations second bleedDepth := by
  have introduced : ∀ entries, declarations entries bleedDepth =
      (entries.map Entry.introduced).map fun entry => .declared entry.1 entry.2 bleedDepth :=
    fun entries => by
      rw [List.map_map]
      rfl
  rw [introduced, introduced, same]

end ScopeEvent

open ScopeEvent

/-! ## Kinds, forks and exits -/

namespace StatementForm

/-- The kind of a statement of the form. -/
def kind : StatementForm → StatementKind
  | .block _ => .block
  | .branch _ _ _ => .branch
  | .whileLoop _ _ => .whileLoop
  | .doLoop _ _ => .doLoop
  | .forLoop _ _ _ _ _ => .forLoop
  | .forEachLoop _ _ _ => .forEachLoop
  | .resource _ _ _ => .resource
  | .switch _ _ => .switch
  | .localDeclaration _ => .localDeclaration
  | .evaluation _ => .evaluation
  | .returning _ => .returning
  | .throwing _ => .throwing
  | .breaking => .breaking
  | .continuing => .continuing
  | .labeled _ _ => .labeled
  | .empty => .empty

end StatementForm

/-- The kind of a statement. -/
def Statement.kind : Statement → StatementKind
  | .mk _ form => form.kind

/-- Whether a statement of the form opens a region wherever it stands but as an alternative. -/
def StatementForm.opens : StatementForm → Bool
  | .branch _ _ elseBody => elseBody.any fun elseBody => elseBody.kind == .branch
  | form => form.kind.scopeRule == .boundary

/-- Whether a statement opens a region wherever it stands but as an alternative. -/
def Statement.opens : Statement → Bool
  | .mk _ form => form.opens

mutual

/-- The number of forks among a statement and those below it. -/
def Statement.forks : Statement → Nat
  | .mk _ form => form.forks

/-- The number of forks among a statement of the form and those below it. -/
def StatementForm.forks : StatementForm → Nat
  | .block statements => Statement.forksInAll statements
  | .branch _ thenBody none => thenBody.forks + 1
  | .branch _ thenBody (some elseBody) => thenBody.forks + elseBody.forks + 1
  | .whileLoop _ body | .doLoop body _ | .forLoop _ _ _ _ body | .forEachLoop _ _ body
  | .resource _ _ body | .labeled _ body => body.forks
  | .switch _ sections => Section.forksInAll sections + 1
  | .localDeclaration _ | .evaluation _ | .returning _ | .throwing _ | .breaking | .continuing
  | .empty => 0

/-- The number of forks among statements and those below them. -/
def Statement.forksInAll : List Statement → Nat
  | [] => 0
  | first :: rest => first.forks + Statement.forksInAll rest

/-- The number of forks in a section. -/
def Section.forks : Section → Nat
  | .mk _ _ statements => Statement.forksInAll statements

/-- The number of forks in sections. -/
def Section.forksInAll : List Section → Nat
  | [] => 0
  | first :: rest => first.forks + Section.forksInAll rest

end

mutual

/-- Whether every path through a statement leaves the conditional around it early. -/
def Statement.exits (breakExits : Bool) : Statement → Bool
  | .mk _ form => form.exits breakExits

/-- Whether every path through a statement of the form leaves the conditional around it early. -/
def StatementForm.exits (breakExits : Bool) : StatementForm → Bool
  | .returning _ | .throwing _ | .continuing => true
  | .breaking => breakExits
  | .block statements => Statement.anyExits breakExits statements
  | .branch _ thenBody (some elseBody) => thenBody.exits breakExits && elseBody.exits breakExits
  | .labeled _ body => body.exits breakExits
  | .branch _ _ none | .whileLoop _ _ | .doLoop _ _ | .forLoop _ _ _ _ _ | .forEachLoop _ _ _
  | .resource _ _ _ | .switch _ _ | .localDeclaration _ | .evaluation _ | .empty => false

/-- Whether one of some statements exits. -/
def Statement.anyExits (breakExits : Bool) : List Statement → Bool
  | [] => false
  | first :: rest => first.exits breakExits || Statement.anyExits breakExits rest

end

/-- Whether every path through a section leaves the switch and what is around it. -/
def Section.exits : Section → Bool
  | .mk _ _ statements => Statement.anyExits false statements

/-! ## Traces -/

mutual

/-- What happens when a statement is bound: at an unbraced body or not, with the tag that is handed
on to it, so many unbraced bodies below a boundary. -/
def Statement.trace : Statement → Bool → Option Alternative → Nat → ForkPlace → List ScopeEvent
  | .mk _ form, unbraced, branch, bleedDepth, place =>
    form.trace branch (if unbraced && !form.opens then bleedDepth + 1 else bleedDepth) place

/-- What happens when a statement of the form is bound, where its own unbraced body is counted. -/
def StatementForm.trace :
    StatementForm → Option Alternative → Nat → ForkPlace → List ScopeEvent
  | .block statements, branch, _, place =>
    region .block place branch (Statement.traceAll statements 0 place)
  | .branch condition thenBody none, _, bleedDepth, place =>
    declarations condition.declared bleedDepth ++
      thenBody.trace true (some ⟨place.forks, 0, thenBody.exits true⟩) bleedDepth place.inside
  | .branch condition thenBody (some elseBody), _, bleedDepth, place =>
    if elseBody.kind = .branch then
      region .branch place (some ⟨place.forks, 0, thenBody.exits true⟩)
          (declarations condition.declared 0 ++ thenBody.trace true none 0 place.inside) ++
        elseBody.link place.forks 1 (place.inside.behind thenBody.forks)
    else
      declarations condition.declared bleedDepth ++
        (alternative thenBody.kind place.inside ⟨place.forks, 0, thenBody.exits true⟩
            (thenBody.trace false · 0 place.inside) ++
          alternative elseBody.kind (place.inside.behind thenBody.forks)
            ⟨place.forks, 1, elseBody.exits true⟩
            (elseBody.trace false · 0 (place.inside.behind thenBody.forks)))
  | .whileLoop condition body, branch, _, place =>
    region .loop place branch
      (declarations condition.declared 0 ++ body.trace true none 0 place)
  | .doLoop body condition, branch, _, place =>
    region .loop place branch
      (body.trace true none 0 place ++ declarations condition.declared 0)
  | .forLoop declarators initializers condition incrementors body, branch, _, place =>
    region .loop place branch
      (declarations (declarators.flatMap Declarator.declared ++
          initializers.flatMap Expression.declared ++ Expression.declaredIfPresent condition ++
          incrementors.flatMap Expression.declared) 0 ++
        body.trace true none 0 place)
  | .forEachLoop element collection body, branch, _, place =>
    region .loop place branch
      (declarations (element.entry .iteration :: collection.declared) 0 ++
        body.trace true none 0 place)
  | .resource declarators held body, branch, _, place =>
    region .resource place branch
      (declarations (declarators.flatMap Declarator.declared ++
          Expression.declaredIfPresent held) 0 ++
        body.trace true none 0 place)
  | .switch subject sections, branch, bleedDepth, place =>
    declarations subject.declared bleedDepth ++
      region .switch place branch (Section.traceAll sections place.forks 0 place.inside)
  | .localDeclaration declarators, _, bleedDepth, _ =>
    declarations (declarators.flatMap Declarator.declared) bleedDepth
  | .evaluation expression, _, bleedDepth, _ => declarations expression.declared bleedDepth
  | .returning value, _, bleedDepth, _ =>
    declarations (Expression.declaredIfPresent value) bleedDepth
  | .throwing value, _, bleedDepth, _ =>
    declarations (Expression.declaredIfPresent value) bleedDepth
  | .labeled _ body, branch, bleedDepth, place => body.trace false branch bleedDepth place
  | .breaking, _, _, _ | .continuing, _, _, _ | .empty, _, _, _ => []

/-- What happens from a later link of a chain on, whose head has a number. -/
def Statement.link : Statement → Nat → Nat → ForkPlace → List ScopeEvent
  | .mk _ form, head, index, place => form.link head index place

/-- What happens from a later link of the form on. -/
def StatementForm.link : StatementForm → Nat → Nat → ForkPlace → List ScopeEvent
  | .branch condition thenBody none, head, index, place =>
    region .branch place (some ⟨head, index, thenBody.exits true⟩)
      (declarations condition.declared 0 ++ thenBody.trace true none 0 place.inside)
  | .branch condition thenBody (some elseBody), head, index, place =>
    region .branch place (some ⟨head, index, thenBody.exits true⟩)
        (declarations condition.declared 0 ++ thenBody.trace true none 0 place.inside) ++
      if elseBody.kind = .branch then
        elseBody.link head (index + 1) (place.inside.behind thenBody.forks)
      else
        alternative elseBody.kind (place.inside.behind thenBody.forks)
          ⟨head, index + 1, elseBody.exits true⟩
          (elseBody.trace false · 0 (place.inside.behind thenBody.forks))
  | .block _, _, _, _ | .whileLoop _ _, _, _, _ | .doLoop _ _, _, _, _
  | .forLoop _ _ _ _ _, _, _, _ | .forEachLoop _ _ _, _, _, _ | .resource _ _ _, _, _, _
  | .switch _ _, _, _, _ | .localDeclaration _, _, _, _ | .evaluation _, _, _, _
  | .returning _, _, _, _ | .throwing _, _, _, _ | .breaking, _, _, _ | .continuing, _, _, _
  | .labeled _ _, _, _, _ | .empty, _, _, _ => []

/-- What happens when the members of a block or section are bound. -/
def Statement.traceAll : List Statement → Nat → ForkPlace → List ScopeEvent
  | [], _, _ => []
  | first :: rest, bleedDepth, place =>
    first.trace false none bleedDepth place ++
      Statement.traceAll rest bleedDepth (place.behind first.forks)

/-- What happens when a section is bound as an alternative. -/
def Section.trace : Section → Alternative → ForkPlace → List ScopeEvent
  | .mk _ labels statements, tag, place =>
    region .switchSection place (some tag)
      (declarations (labels.flatMap Label.declared) 0 ++ Statement.traceAll statements 0 place)

/-- What happens when the sections of a switch are bound as its alternatives, numbered from `index`
on. -/
def Section.traceAll : List Section → Nat → Nat → ForkPlace → List ScopeEvent
  | [], _, _, _ => []
  | first :: rest, fork, index, place =>
    first.trace ⟨fork, index, first.exits⟩ place ++
      Section.traceAll rest fork (index + 1) (place.behind first.forks)

end

attribute [simp] StatementForm.forks StatementForm.exits StatementForm.trace StatementForm.link

/-- What happens when the body of a procedure is bound. -/
def StatementForm.bodyTrace : StatementForm → List ScopeEvent
  | .block statements => Statement.traceAll statements 0 ⟨0, []⟩
  | form => form.trace none 0 ⟨0, []⟩

/-- What happens when a procedure is bound. -/
def Procedure.trace (procedure : Procedure) : List ScopeEvent :=
  match procedure.body with
  | .mk _ form =>
    region .root ⟨0, []⟩ none
      (declarations (procedure.parameters.map (·.entry .parameter)) 0 ++ form.bodyTrace)

/-- An `else if` chain in a loop without braces. -/
example : (Procedure.mk "p" [⟨"a", none⟩] (.mk none (.whileLoop (.mk none (.name "a"))
    (.mk none (.branch (.mk none (.outVariable none ⟨"x", none⟩)) (.mk none .breaking)
      (some (.mk none (.branch (.mk none (.name "a")) (.mk none .empty) none)))))))).trace =
    [.opened .root [] none, .declared "a" .parameter 0, .opened .loop [] none,
      .opened .branch [] (some ⟨0, 0, true⟩), .declared "x" .outputArgument 0, .left,
      .opened .branch [] (some ⟨0, 1, false⟩), .left, .left, .left] := rfl

end LexicalScope
