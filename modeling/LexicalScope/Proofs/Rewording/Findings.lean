import LexicalScope.Proofs.Rewording.Binding
import LexicalScope.Proofs.Scope.Retention
import LexicalScope.Proofs.Scope.Unambiguous
import LexicalScope.Scope.Analysis

/-!
# Findings for other texts

Conflicts compare names, references look names up, and a finding repeats the name it is about. So
the findings for a procedure with other names are those for the procedure, with these names.
-/

namespace LexicalScope

variable {w : Rewording}

/-- A finding about another name. -/
def Finding.reworded (w : Rewording) : Finding → Finding
  | .conflict name first duplicate firstSpan span reason =>
    .conflict (w.name name) first duplicate firstSpan span reason
  | .unresolved name span expression => .unresolved (w.name name) span expression
  | .nestedBleed name declaration span depth => .nestedBleed (w.name name) declaration span depth

/-- A scope tree with other names, and the findings about these. -/
def ScopeAnalysis.reworded (w : Rewording) (analysis : ScopeAnalysis) : ScopeAnalysis :=
  ⟨analysis.scopes.reworded w, analysis.findings.map (·.reworded w)⟩

namespace ScopeTree

variable {scopes : ScopeTree}

theorem region?_reworded (scopes : ScopeTree) (ref : RegionRef) :
    (scopes.reworded w).region? ref = (scopes.region? ref).map (·.reworded w) := by
  cases ref with
  | none => rfl
  | some id => exact Array.getElem?_map

private theorem declaration?_reworded (scopes : ScopeTree) (id : DeclarationId) :
    (scopes.reworded w).declaration? id = (scopes.declaration? id).map (·.reworded w) :=
  Array.getElem?_map

private theorem retains_reworded (scopes : ScopeTree) : (scopes.reworded w).Retains scopes where
  region {id region} found :=
    ⟨region.reworded w, by rw [region?_reworded, found, Option.map_some], rfl, rfl, rfl,
      fun _ => rfl⟩

/-! ## Conflicts -/

section Conflicts

variable {other : ScopeTree} (faithful : w.Faithful) (retains : other.Retains scopes)
  (agree : Consistent scopes.regions scopes.declarations)
include faithful retains agree

private theorem conflict?_reworded {a b : Declaration} (aMember : a ∈ scopes.declarations)
    (bMember : b ∈ scopes.declarations) :
    other.conflict? (a.reworded w) (b.reworded w) = scopes.conflict? a b := by
  have aBound : ∀ id, a.region = some id → id.index < scopes.regions.size :=
    fun _ => agree.region aMember
  have bBound : ∀ id, b.region = some id → id.index < scopes.regions.size :=
    fun _ => agree.region bMember
  unfold conflict?
  simp only [Declaration.reworded, retains.isAncestorOrSelf agree _ aBound, ne_eq,
    faithful.injective.eq_iff, retains.isAncestorOrSelf agree _ bBound,
    retains.areExclusive agree aBound bBound]

private theorem conflictWith_reworded {declaration : Declaration} {earlier : List Declaration}
    (isMember : declaration ∈ scopes.declarations)
    (members : ∀ first ∈ earlier, first ∈ scopes.declarations) :
    other.conflictWith (declaration.reworded w) (earlier.map (·.reworded w)) =
      (scopes.conflictWith declaration earlier).map (·.reworded w) := by
  induction earlier with
  | nil => rfl
  | cons first rest induction =>
      obtain ⟨firstMember, restMembers⟩ := List.forall_mem_cons.mp members
      have others := induction restMembers
      unfold conflictWith at others ⊢
      rw [List.map_cons, List.findSome?_cons, List.findSome?_cons,
        conflict?_reworded faithful retains agree firstMember isMember]
      cases scopes.conflict? first declaration with
      | none => exact others
      | some reason => rfl

end Conflicts

/-- Earlier declarations of other names. -/
def Earlier.reworded (w : Rewording) (earlier : Earlier) : Earlier :=
  earlier.map fun entry => (w.name entry.1, entry.2.map (·.reworded w))

private theorem Earlier.named_reworded (faithful : w.Faithful) (earlier : Earlier) (name : String) :
    (earlier.reworded w).named (w.name name) = (earlier.named name).map (·.reworded w) := by
  induction earlier with
  | nil => rfl
  | cons entry rest induction =>
      obtain ⟨known, declarations⟩ := entry
      change named ((w.name known, declarations.map (·.reworded w)) :: Earlier.reworded w rest) _ =
        _
      rw [named_cons, named_cons, induction]
      simp only [faithful.injective.eq_iff]
      split <;> rfl

private theorem Earlier.add_reworded (faithful : w.Faithful) (earlier : Earlier)
    (declaration : Declaration) :
    (earlier.add declaration).reworded w = (earlier.reworded w).add (declaration.reworded w) := by
  induction earlier with
  | nil => rfl
  | cons entry rest induction =>
      obtain ⟨known, declarations⟩ := entry
      change _ = add _ ((w.name known, declarations.map (·.reworded w)) :: Earlier.reworded w rest)
      rw [add, add, ← induction]
      simp only [Declaration.reworded, faithful.injective.eq_iff]
      split
      · simp [Earlier.reworded, Declaration.reworded]
      · rfl

theorem conflictsAmong_reworded {other : ScopeTree} (faithful : w.Faithful)
    (retains : other.Retains scopes) (agree : Consistent scopes.regions scopes.declarations)
    {earlier : Earlier} {declarations : List Declaration}
    (known : ∀ name, ∀ first ∈ earlier.named name, first ∈ scopes.declarations)
    (members : ∀ declaration ∈ declarations, declaration ∈ scopes.declarations) :
    other.conflictsAmong (earlier.reworded w) (declarations.map (·.reworded w)) =
      (scopes.conflictsAmong earlier declarations).map (·.reworded w) := by
  induction declarations generalizing earlier with
  | nil => rfl
  | cons declaration rest induction =>
      obtain ⟨isMember, restMembers⟩ := List.forall_mem_cons.mp members
      have knownToo : ∀ name, ∀ first ∈ (earlier.add declaration).named name,
          first ∈ scopes.declarations := by
        intro name first listed
        rw [Earlier.named_add, List.mem_append] at listed
        rcases listed with before | added
        · exact known name first before
        · split at added
          · exact List.mem_singleton.mp added ▸ isMember
          · cases added
      have others := induction knownToo restMembers
      rw [Earlier.add_reworded faithful] at others
      have first : other.conflictWith (declaration.reworded w)
          ((earlier.reworded w).named (declaration.reworded w).name) =
            (scopes.conflictWith declaration (earlier.named declaration.name)).map
              (·.reworded w) := by
        rw [show (declaration.reworded w).name = w.name declaration.name from rfl,
          Earlier.named_reworded faithful,
          conflictWith_reworded faithful retains agree isMember (known declaration.name)]
      rw [List.map_cons, conflictsAmong, conflictsAmong, others, first]
      cases scopes.conflictWith declaration (earlier.named declaration.name) <;> rfl

private theorem conflicts_reworded (faithful : w.Faithful)
    (agree : Consistent scopes.regions scopes.declarations) :
    (scopes.reworded w).conflicts = scopes.conflicts.map (·.reworded w) := by
  have among : (scopes.reworded w).conflictsAmong (Earlier.reworded w [])
      (scopes.declarations.toList.map (·.reworded w)) =
        (scopes.conflictsAmong [] scopes.declarations.toList).map (·.reworded w) :=
    conflictsAmong_reworded faithful scopes.retains_reworded agree (fun _ _ => nofun)
      fun _ => Array.mem_toList_iff.mp
  rw [conflicts, conflicts, ← among, ← Array.toList_map]
  rfl

/-! ## Names visible far outside their bodies -/

private theorem nestedBleeds_reworded (scopes : ScopeTree) (threshold : Nat) :
    (scopes.reworded w).nestedBleeds threshold =
      (scopes.nestedBleeds threshold).map (·.reworded w) := by
  simp only [nestedBleeds, reworded, Array.toList_map, List.filter_map, List.map_map]
  rfl

/-! ## References -/

private theorem lookupFrom_reworded (faithful : w.Faithful) (name : String) (steps : Nat)
    (ref : RegionRef) :
    (scopes.reworded w).lookupFrom (w.name name) steps ref = scopes.lookupFrom name steps ref := by
  induction steps generalizing ref with
  | zero => rfl
  | succ steps induction =>
      rw [lookupFrom, lookupFrom, region?_reworded]
      cases scopes.region? ref with
      | none => rfl
      | some region =>
          simp only [Option.map_some, region.lookup_reworded faithful, Region.parent_reworded,
            induction]

private theorem resolveIn_reworded (faithful : w.Faithful) (name : String) (ref : RegionRef) :
    (scopes.reworded w).resolveIn (w.name name) ref =
      (scopes.resolveIn name ref).map (·.reworded w) := by
  rw [resolveIn, resolveIn, lookupFrom_reworded faithful]
  cases scopes.lookupFrom name Limit.regionWalk ref with
  | none => rfl
  | some id => exact scopes.declaration?_reworded id

end ScopeTree

private theorem StatementTree.isCallee_reworded (tree : StatementTree) (id : ExpressionId) :
    (tree.reworded w).isCallee id = tree.isCallee id := by
  unfold isCallee
  rw [expression?_reworded]
  cases tree.expression? (some id) with
  | none => rfl
  | some node =>
      simp only [Option.map_some, expression?_reworded, ExpressionNode.reworded, Option.map_map]
      cases tree.expression? node.parent with
      | none => rfl
      | some caller =>
          obtain ⟨content, span, statement, parent⟩ := caller
          cases content <;> rfl

private theorem ExpressionContent.reference?_reworded (content : ExpressionContent) :
    (content.reworded w).reference? = content.reference?.map w.name := by
  cases content <;> rfl

namespace ScopeTree

variable {scopes : ScopeTree}

private theorem checkReference_reworded (faithful : w.Faithful) (tree : StatementTree)
    (globals : List String) (id : ExpressionId) :
    (scopes.reworded w).checkReference (tree.reworded w) (globals.map w.name) id =
      (scopes.checkReference tree globals id).map (·.reworded w) := by
  unfold checkReference
  rw [tree.expression?_reworded, tree.isCallee_reworded]
  cases tree.expression? (some id) with
  | none => rfl
  | some node =>
      simp only [Option.map_some, Option.bind_eq_bind, Option.bind_some, ExpressionNode.reworded,
        ExpressionContent.reference?_reworded]
      cases node.content.reference? with
      | none => rfl
      | some name =>
          have isGlobal : (globals.map w.name).contains (w.name name) = globals.contains name := by
            simp only [List.contains_eq_mem, List.mem_map_of_injective faithful.injective]
          simp only [Option.map_some, Option.bind_some, isGlobal]
          split
          · rfl
          · change ((scopes.regionOfExpression (some id)).bind _) = _
            cases scopes.regionOfExpression (some id) with
            | none => rfl
            | some region =>
                simp only [Option.bind_some, resolveIn_reworded faithful]
                cases scopes.resolveIn name (some region) <;> rfl

private theorem checkReferences_reworded (faithful : w.Faithful) (tree : StatementTree)
    (globals : List String) :
    (scopes.reworded w).checkReferences (tree.reworded w) (globals.map w.name) =
      (scopes.checkReferences tree globals).map (·.reworded w) := by
  simp only [checkReferences, tree.size_expressions_reworded, checkReference_reworded faithful,
    List.map_filterMap]

end ScopeTree

namespace ScopeAnalysis

private theorem findingsOf_reworded (faithful : w.Faithful) {scopes : ScopeTree}
    (agree : Consistent scopes.regions scopes.declarations) (settings : ScopeSettings)
    (tree : StatementTree) :
    findingsOf (settings.reworded w) (tree.reworded w) (scopes.reworded w) =
      (findingsOf settings tree scopes).map (·.reworded w) := by
  unfold findingsOf
  rw [List.map_append, List.map_append, ScopeTree.conflicts_reworded faithful agree]
  congr 1
  · congr 1
    rw [show (settings.reworded w).bleedThreshold = settings.bleedThreshold from rfl]
    cases settings.bleedThreshold with
    | none => rfl
    | some threshold => exact scopes.nestedBleeds_reworded threshold
  · rw [show (settings.reworded w).checksReferences = settings.checksReferences from rfl]
    split
    · exact ScopeTree.checkReferences_reworded faithful tree settings.globals
    · rfl

/-- The analysis of a procedure with other texts is that of the procedure, with these texts. -/
theorem ofProcedure_reworded (faithful : w.Faithful) (settings : ScopeSettings)
    (procedure : Procedure) :
    ofProcedure (settings.reworded w) (procedure.reworded w) =
      (ofProcedure settings procedure).map fun result =>
        (result.1.reworded w, result.2.reworded w) := by
  have laid := StatementTree.ofProcedure_reworded faithful.blank procedure
  unfold ofProcedure
  cases laidOut : StatementTree.ofProcedure procedure with
  | error failure =>
      rw [laid, laidOut]
      cases failure <;> rfl
  | ok tree =>
      rw [laidOut] at laid
      have bound := ScopeTree.ofStatementTree_reworded faithful
        (StatementTree.proper_of_ofProcedure laidOut) (StatementTree.checkLinks_eq_ok laidOut)
        (StatementTree.checkLinks_eq_ok laid) settings
      rw [laid]
      unfold ofStatementTree
      simp only [Except.map, bound]
      cases scopesBound : ScopeTree.ofStatementTree settings tree with
      | error failure => rfl
      | ok scopes =>
          have agree := ScopeTree.consistent_of_ofStatementTree scopesBound
          simp only [findingsOf_reworded faithful agree]
          rfl

end ScopeAnalysis

end LexicalScope
