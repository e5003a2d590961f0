import LexicalScope.Proofs.Trace.Binding
import LexicalScope.Proofs.Trace.Conflicts

/-!
# Labels

A label on an element of a block or section shows in no trace: the element opens the same regions in
the same places as before. So a procedure is bound alike with and without the label, though all
statements behind it have other numbers and spans.
-/

namespace LexicalScope

open ScopeEvent

/-! ## One more label -/

mutual

/-- Below a statement one element of a block or section gets a label. -/
inductive Statement.GainsLabel (label : String) : Statement → Statement → Prop
  | mk {span : Option Span} {form other : StatementForm} :
      StatementForm.GainsLabel label form other →
        Statement.GainsLabel label (.mk span form) (.mk span other)

/-- Below a statement of a form one element of a block or section gets a label. -/
inductive StatementForm.GainsLabel (label : String) : StatementForm → StatementForm → Prop
  | block {statements others : List Statement} : Statement.OneGainsLabel label statements others →
      StatementForm.GainsLabel label (.block statements) (.block others)
  | thenBody {condition : Expression} {thenBody other : Statement} {elseBody : Option Statement} :
      Statement.GainsLabel label thenBody other → StatementForm.GainsLabel label
        (.branch condition thenBody elseBody) (.branch condition other elseBody)
  | elseBody {condition : Expression} {thenBody elseBody other : Statement} :
      Statement.GainsLabel label elseBody other → StatementForm.GainsLabel label
        (.branch condition thenBody (some elseBody)) (.branch condition thenBody (some other))
  | whileLoop {condition : Expression} {body other : Statement} :
      Statement.GainsLabel label body other →
        StatementForm.GainsLabel label (.whileLoop condition body) (.whileLoop condition other)
  | doLoop {condition : Expression} {body other : Statement} :
      Statement.GainsLabel label body other →
        StatementForm.GainsLabel label (.doLoop body condition) (.doLoop other condition)
  | forLoop {declarators : List Declarator} {initializers : List Expression}
      {condition : Option Expression} {incrementors : List Expression} {body other : Statement} :
      Statement.GainsLabel label body other → StatementForm.GainsLabel label
        (.forLoop declarators initializers condition incrementors body)
        (.forLoop declarators initializers condition incrementors other)
  | forEachLoop {element : Ident} {collection : Expression} {body other : Statement} :
      Statement.GainsLabel label body other → StatementForm.GainsLabel label
        (.forEachLoop element collection body) (.forEachLoop element collection other)
  | resource {declarators : List Declarator} {held : Option Expression} {body other : Statement} :
      Statement.GainsLabel label body other → StatementForm.GainsLabel label
        (.resource declarators held body) (.resource declarators held other)
  | switch {subject : Expression} {sections others : List Section} :
      Section.OneGainsLabel label sections others →
        StatementForm.GainsLabel label (.switch subject sections) (.switch subject others)
  | labeled {outer : String} {body other : Statement} : Statement.GainsLabel label body other →
      StatementForm.GainsLabel label (.labeled outer body) (.labeled outer other)

/-- Among the elements of a block or section and below them one gets a label. -/
inductive Statement.OneGainsLabel (label : String) : List Statement → List Statement → Prop
  | here {statement : Statement} {rest : List Statement} :
      Statement.OneGainsLabel label (statement :: rest)
        (.mk none (.labeled label statement) :: rest)
  | inside {first other : Statement} {rest : List Statement} :
      Statement.GainsLabel label first other →
        Statement.OneGainsLabel label (first :: rest) (other :: rest)
  | behind {first : Statement} {rest others : List Statement} :
      Statement.OneGainsLabel label rest others →
        Statement.OneGainsLabel label (first :: rest) (first :: others)

/-- In a section one element of it or of what is below gets a label. -/
inductive Section.GainsLabel (label : String) : Section → Section → Prop
  | mk {span : Option Span} {labels : List Label} {statements others : List Statement} :
      Statement.OneGainsLabel label statements others →
        Section.GainsLabel label (.mk span labels statements) (.mk span labels others)

/-- In one of some sections an element gets a label. -/
inductive Section.OneGainsLabel (label : String) : List Section → List Section → Prop
  | inside {first other : Section} {rest : List Section} : Section.GainsLabel label first other →
      Section.OneGainsLabel label (first :: rest) (other :: rest)
  | behind {first : Section} {rest others : List Section} :
      Section.OneGainsLabel label rest others →
        Section.OneGainsLabel label (first :: rest) (first :: others)

end

/-- A procedure is the same but that one element of a block or section has got a label. -/
structure Procedure.GainsLabel (label : String) (procedure labeled : Procedure) : Prop where
  name : labeled.name = procedure.name
  parameters : labeled.parameters = procedure.parameters
  body : procedure.body.GainsLabel label labeled.body

/-! ## What a label leaves as it is -/

section Labels

variable {label : String}

mutual

/-- A statement below which something gets a label has the same trace as before. -/
theorem Statement.GainsLabel.alike : ∀ {statement other : Statement},
    statement.GainsLabel label other → other.Alike statement
  | _, _, .mk inside => inside.alike.statement _ _

theorem StatementForm.GainsLabel.alike : ∀ {form other : StatementForm},
    form.GainsLabel label other → other.Alike form
  | _, _, .block inside => .block inside.allAlike
  | .branch _ _ none, _, .thenBody inside => .ifThen rfl inside.alike
  | .branch _ _ (some elseBody), _, .thenBody inside => .ifElse rfl inside.alike (.refl elseBody)
  | _, _, .elseBody inside => .ifElse rfl (.refl _) inside.alike
  | _, _, .whileLoop inside => .whileLoop rfl inside.alike
  | _, _, .doLoop inside => .doLoop rfl inside.alike
  | _, _, .forLoop inside => .forLoop rfl inside.alike
  | _, _, .forEachLoop inside => .forEachLoop rfl inside.alike
  | _, _, .resource inside => .resource rfl inside.alike
  | _, _, .switch inside => .switch rfl inside.allAlike
  | _, _, .labeled inside => .labeled _ inside.alike

/-- As an element of a block or section the labeled statement has the trace of the statement. -/
theorem Statement.OneGainsLabel.allAlike : ∀ {statements others : List Statement},
    Statement.OneGainsLabel label statements others → Statement.AllAlike others statements
  | _, _, .here => .cons rfl (fun _ => rfl) (fun _ _ => rfl) (.refl _)
  | _, _, .inside inside =>
    have alike := inside.alike
    .cons alike.forks alike.exits (alike.trace _ _) (.refl _)
  | _, _, .behind inside => .cons rfl (fun _ => rfl) (fun _ _ => rfl) inside.allAlike

theorem Section.GainsLabel.alike : ∀ {part other : Section},
    part.GainsLabel label other → other.Alike part
  | _, _, .mk inside => .ofMembers _ _ rfl inside.allAlike

theorem Section.OneGainsLabel.allAlike : ∀ {sections others : List Section},
    Section.OneGainsLabel label sections others → Section.AllAlike others sections
  | _, _, .inside inside => .cons inside.alike (.refl _)
  | first :: _, _, .behind inside => .cons (.refl first) inside.allAlike

end

mutual

theorem Statement.GainsLabel.stated : ∀ {statement other : Statement},
    statement.GainsLabel label other → other.stated = statement.stated
  | _, _, .mk inside => congrArg (_ ++ ·) inside.stated

theorem StatementForm.GainsLabel.stated : ∀ {form other : StatementForm},
    form.GainsLabel label other → other.stated = form.stated
  | _, _, .block inside => inside.stated
  | .branch _ _ none, _, .thenBody inside => congrArg (_ ++ ·) inside.stated
  | .branch _ _ (some _), _, .thenBody inside => congrArg (_ ++ · ++ _) inside.stated
  | _, _, .elseBody inside => congrArg (_ ++ ·) inside.stated
  | _, _, .whileLoop inside => congrArg (_ ++ ·) inside.stated
  | _, _, .doLoop inside => congrArg (· ++ _) inside.stated
  | _, _, .forLoop inside => congrArg (_ ++ ·) inside.stated
  | _, _, .forEachLoop inside => congrArg (_ ++ ·) inside.stated
  | _, _, .resource inside => congrArg (_ ++ ·) inside.stated
  | _, _, .switch inside => congrArg (_ ++ ·) inside.stated
  | _, _, .labeled inside => inside.stated

theorem Statement.OneGainsLabel.stated : ∀ {statements others : List Statement},
    Statement.OneGainsLabel label statements others →
      Statement.statedInAll others = Statement.statedInAll statements
  | _, _, .here => rfl
  | _, _, .inside inside => congrArg (· ++ _) inside.stated
  | _, _, .behind inside => congrArg (_ ++ ·) inside.stated

theorem Section.GainsLabel.stated : ∀ {part other : Section},
    part.GainsLabel label other → other.stated = part.stated
  | _, _, .mk inside => congrArg (_ ++ ·) inside.stated

theorem Section.OneGainsLabel.stated : ∀ {sections others : List Section},
    Section.OneGainsLabel label sections others →
      Section.statedInAll others = Section.statedInAll sections
  | _, _, .inside inside => congrArg (· ++ _) inside.stated
  | _, _, .behind inside => congrArg (_ ++ ·) inside.stated

end

private theorem StatementForm.GainsLabel.bodyTrace {form other : StatementForm}
    (inside : form.GainsLabel label other) : other.bodyTrace = form.bodyTrace := by
  have alike := inside.alike
  cases inside with
  | block members => exact members.allAlike.trace 0 _
  | _ => exact alike.bodyTrace_eq (by rintro ⟨⟩)

namespace Procedure.GainsLabel

variable {procedure labeled : Procedure} (gains : procedure.GainsLabel label labeled)
include gains

private theorem trace : labeled.trace = procedure.trace := by
  obtain ⟨_, parameters, ⟨span, form⟩⟩ := procedure
  obtain ⟨_, _, ⟨_, other⟩⟩ := labeled
  obtain ⟨_, rfl, ⟨inside⟩⟩ := gains
  exact congrArg (fun body => region .root ⟨0, []⟩ none (declarations _ 0 ++ body))
    inside.bodyTrace

private theorem stated : labeled.stated = procedure.stated := by
  rw [Procedure.stated, gains.parameters, gains.body.stated, Procedure.stated]

end Procedure.GainsLabel

end Labels

/-! ## Procedures -/

/-- What is the same of a region with and without a label. -/
structure RegionOutline where
  id : RegionId
  kind : RegionKind
  parent : RegionRef
  depth : Nat
  /-- The number of the alternative and whether it exits, if the region is an alternative. -/
  alternative : Option (Nat × Bool)
deriving DecidableEq, Repr

/-- The outline of a region. -/
def Region.outline (region : Region) : RegionOutline :=
  ⟨region.id, region.kind, region.parent, region.depth,
    region.branch.map fun tag => (tag.index, tag.exits)⟩

private theorem Region.outline_eq (tree : StatementTree) (region : Region) :
    region.outline = ⟨region.id, (region.sketch tree).kind, (region.sketch tree).parent,
      (region.sketch tree).depth,
      (region.sketch tree).branch.map fun alternative =>
        (alternative.index, alternative.exits)⟩ := by
  rw [sketch, Option.map_map]
  rfl

namespace ScopeTree

/-- Two scope trees have the same declarations in the same order, the same regions and the same
conflicts, spans aside. -/
structure SameOutline (scopes others : ScopeTree) : Prop where
  declarations : scopes.declarations.map Declaration.sketch =
    others.declarations.map Declaration.sketch
  regions : scopes.regions.map Region.outline = others.regions.map Region.outline
  conflicts : scopes.conflicts.map Finding.clash? = others.conflicts.map Finding.clash?

variable {tree other : StatementTree} {scopes others : ScopeTree}

private theorem SameSketch.map_outline (same : SameSketch tree other scopes others)
    (numbered : scopes.Numbered) (otherNumbered : others.Numbered) :
    scopes.regions.map Region.outline = others.regions.map Region.outline := by
  have each : ∀ i, (scopes.region? (some ⟨i⟩)).map Region.outline =
      (others.region? (some ⟨i⟩)).map Region.outline := by
    intro i
    cases found : scopes.region? (some ⟨i⟩) with
    | none =>
        have nothing := same.region? (some ⟨i⟩)
        rw [found, Option.map_none, eq_comm, Option.map_eq_none_iff] at nothing
        rw [nothing]
    | some region =>
        obtain ⟨known, isKnown, sketch⟩ := same.exists_region found
        rw [isKnown, Option.map_some, Option.map_some, region.outline_eq tree,
          known.outline_eq other, sketch, numbered.number found, otherNumbered.number isKnown]
  refine Array.ext_getElem? fun i => ?_
  rw [Array.getElem?_map, Array.getElem?_map]
  exact each i

variable {procedure labeled : Procedure} {label : String} {settings otherSettings : ScopeSettings}

/-- Procedures with one trace, neither of which states a span, have scope trees with one outline. -/
theorem sameOutline_of_trace (unstated : procedure.stated = [])
    (otherUnstated : labeled.stated = []) (trace : labeled.trace = procedure.trace)
    (laidOut : StatementTree.ofProcedure procedure = .ok tree)
    (otherLaidOut : StatementTree.ofProcedure labeled = .ok other)
    (bound : ofStatementTree settings tree = .ok scopes)
    (otherBound : ofStatementTree otherSettings other = .ok others) :
    scopes.SameOutline others := by
  obtain ⟨regions, declarations⟩ := sketch_eq_replay laidOut bound
  obtain ⟨otherRegions, otherDeclarations⟩ := sketch_eq_replay otherLaidOut otherBound
  have same : SameSketch tree other scopes others :=
    ⟨by rw [regions, otherRegions, trace], by rw [declarations, otherDeclarations, trace]⟩
  have numbered := numbered_of_bind bound
  have otherNumbered := numbered_of_bind otherBound
  refine ⟨same.declarations, same.map_outline numbered otherNumbered, ?_⟩
  calc scopes.conflicts.map Finding.clash?
      = scopes.firstConflicts.map Finding.clash? := by rw [numbered.conflicts_eq_firstConflicts]
    _ = others.firstConflicts.map Finding.clash? :=
        same.map_clash?_firstConflicts (StatementTree.spaced_of_ofProcedure laidOut unstated)
          (follows_of_ofProcedure laidOut bound)
          (StatementTree.spaced_of_ofProcedure otherLaidOut otherUnstated)
          (follows_of_ofProcedure otherLaidOut otherBound)
    _ = others.conflicts.map Finding.clash? := by rw [otherNumbered.conflicts_eq_firstConflicts]

/-- Labels are transparent: where no spans are stated, a label on an element of a block or section
changes neither the declarations, nor the regions, nor the conflicts. -/
theorem sameOutline_of_gainsLabel (unstated : procedure.stated = [])
    (gains : procedure.GainsLabel label labeled)
    (laidOut : StatementTree.ofProcedure procedure = .ok tree)
    (labeledOut : StatementTree.ofProcedure labeled = .ok other)
    (bound : ofStatementTree settings tree = .ok scopes)
    (labeledBound : ofStatementTree otherSettings other = .ok others) :
    scopes.SameOutline others :=
  sameOutline_of_trace unstated (gains.stated.trans unstated) gains.trace laidOut labeledOut bound
    labeledBound

end ScopeTree

/-- A name declared in a branch that is left, in a loop behind it and in a branch there. The
conditional in the loop is given. -/
def Procedure.branchingInLoop (inside : Statement) : Procedure :=
  .plain "p" ["a"] (.block
    [.ifThen (.name "a") (.block [.localVariable "x" none, .returning none]),
      .whileLoop (.name "a") (.block [inside, .localVariable "x" none])])

/-- A conditional with a block and a plain alternative. -/
def Statement.twoWay : Statement :=
  .ifElse (.name "a") (.block [.localVariable "x" none]) (.evaluation (.outVariable "y"))

theorem ScopeTree.sameOutline_branchingInLoop :
    ∃ tree other scopes others,
      (Procedure.branchingInLoop .twoWay).GainsLabel "next"
        (.branchingInLoop (.labeled "next" .twoWay)) ∧
      StatementTree.ofProcedure (.branchingInLoop .twoWay) = .ok tree ∧
      StatementTree.ofProcedure (.branchingInLoop (.labeled "next" .twoWay)) = .ok other ∧
      ofStatementTree .default tree = .ok scopes ∧ ofStatementTree .default other = .ok others ∧
      scopes.conflicts.map Finding.clash? = [some (⟨2⟩, ⟨4⟩, .enclosingRegion)] ∧
      scopes.SameOutline others := by
  have binds : (Procedure.branchingInLoop .twoWay).binds .default (fun _ scopes =>
      scopes.conflicts.map Finding.clash? == [some (⟨2⟩, ⟨4⟩, .enclosingRegion)]) = true := by
    decide +kernel
  have labeledBinds : (Procedure.branchingInLoop (.labeled "next" .twoWay)).binds .default
      (fun _ _ => true) = true := by
    decide +kernel
  have gains : (Procedure.branchingInLoop .twoWay).GainsLabel "next"
      (.branchingInLoop (.labeled "next" .twoWay)) :=
    ⟨rfl, rfl, .mk (.block (.behind (.inside (.mk (.whileLoop (.mk (.block .here)))))))⟩
  obtain ⟨tree, scopes, laidOut, bound, check⟩ := Procedure.exists_of_binds binds
  obtain ⟨other, others, otherLaidOut, otherBound, _⟩ := Procedure.exists_of_binds labeledBinds
  exact ⟨tree, other, scopes, others, gains, laidOut, otherLaidOut, bound, otherBound,
    eq_of_beq check,
    sameOutline_of_gainsLabel rfl gains laidOut otherLaidOut bound otherBound⟩

end LexicalScope
