import LexicalScope.Procedure.Build
import LexicalScope.Proofs.Rewording.Findings
import Mathlib.Logic.Equiv.Basic

/-!
# Renaming invariance

Which names a procedure uses does not matter, only which of them are the same and which discard a
value; its other texts do not matter at all. A procedure whose names are renamed, and whose
operators, literals, types, members and labels are replaced in any way, has the analysis of the
procedure after the renaming, or is refused for the same reason.
-/

namespace LexicalScope

/-- A renaming of names that keeps different ones apart. What is discarded, and nothing else, is
discarded afterwards. -/
structure Renaming where
  /-- The new form of a name. -/
  name : String → String
  injective : Function.Injective name
  discard : name "_" = "_"

namespace Rewording

/-- Only names are reworded. -/
def ofNames (names : Renaming) : Rewording := ⟨names.name, id, id, id, id, id⟩

/-- All texts but the names are emptied. -/
def bare : Rewording := ⟨id, fun _ => "", fun _ => "", fun _ => "", fun _ => "", fun _ => ""⟩

private theorem faithful_ofNames (names : Renaming) : (ofNames names).Faithful :=
  ⟨names.injective, names.discard, rfl⟩

private theorem faithful_bare : bare.Faithful := ⟨Function.injective_id, rfl, rfl⟩

end Rewording

private theorem ScopeSettings.reworded_bare (settings : ScopeSettings) :
    settings.reworded .bare = settings := by
  have same : settings.globals.map Rewording.bare.name = settings.globals := List.map_id _
  rw [reworded, same]

private theorem ScopeAnalysis.reworded_bare (analysis : ScopeAnalysis) :
    analysis.reworded .bare = analysis := by
  have region : ∀ region : Region, region.reworded .bare = region := by
    intro region
    have table : region.table.map (fun entry => (Rewording.bare.name entry.1, entry.2)) =
        region.table := Array.map_id _
    rw [Region.reworded, table]
  have regions : analysis.scopes.regions.map (·.reworded .bare) = analysis.scopes.regions := by
    simp only [region, Array.map_id']
  have declarations : analysis.scopes.declarations.map (·.reworded .bare) =
      analysis.scopes.declarations := Array.map_id _
  have finding : ∀ finding : Finding, finding.reworded .bare = finding := by
    intro finding
    cases finding <;> rfl
  have findings : analysis.findings.map (·.reworded .bare) = analysis.findings := by
    simp only [finding, List.map_id']
  rw [reworded, ScopeTree.reworded, regions, declarations, findings]

/-- A procedure without its operators, literals, types, members and labels. -/
def Procedure.bare (procedure : Procedure) : Procedure := procedure.reworded .bare

/-- A statement tree without its operators, literals, types, members and labels. -/
def StatementTree.bare (tree : StatementTree) : StatementTree := tree.reworded .bare

/-- A procedure is another one after a renaming of its names, with other operators, literals, types,
members and labels. -/
def Procedure.IsRenamed (names : Renaming) (procedure renamed : Procedure) : Prop :=
  renamed.bare = (procedure.reworded (.ofNames names)).bare

/-- The analysis of a renamed procedure, with renamed globals, is that of the procedure with the
renaming applied: the statement tree up to texts that are no names, the regions, declarations and
records, and the findings in their order. A procedure is refused for the same reason. -/
theorem ScopeAnalysis.ofProcedure_renamed (names : Renaming) (settings : ScopeSettings)
    {procedure renamed : Procedure} (isRenamed : procedure.IsRenamed names renamed) :
    (ofProcedure (settings.reworded (.ofNames names)) renamed).map (fun result =>
        (result.1.bare, result.2)) =
      (ofProcedure settings procedure).map fun result =>
        ((result.1.reworded (.ofNames names)).bare,
          result.2.reworded (.ofNames names)) := by
  have emptied : ∀ (settings : ScopeSettings) (procedure : Procedure),
      ofProcedure settings procedure.bare =
        (ofProcedure settings procedure).map fun result => (result.1.bare, result.2) := by
    intro settings procedure
    have bare := ofProcedure_reworded Rewording.faithful_bare settings procedure
    simp only [ScopeAnalysis.reworded_bare, settings.reworded_bare] at bare
    exact bare
  rw [← emptied, isRenamed, emptied,
    ofProcedure_reworded (Rewording.faithful_ofNames names) settings procedure]
  cases ofProcedure settings procedure <;> rfl

/-- The renaming that exchanges `x` and `y`. -/
def Renaming.exchange : Renaming where
  name := Equiv.swap "x" "y"
  injective := (Equiv.swap "x" "y").injective
  discard := Equiv.swap_apply_of_ne_of_ne (by decide) (by decide)

/-- A procedure that declares a tested name twice and refers to a name from outside and to one that
nobody declares. -/
def Procedure.testing (operator literal type declared outside unknown : String) : Procedure :=
  .plain "p" ["a"] (.block
    [.ifThen (.binary operator (.name "a") (.literal literal))
      (.evaluation (.testAs (.name "a") type declared)),
      .evaluation (.testAs (.name outside) type declared), .evaluation (.name unknown)])

theorem ScopeAnalysis.ofProcedure_renamed_testing :
    (Procedure.testing "<" "1" "T" "x" "y" "z").IsRenamed .exchange
      (.testing ">" "2" "U" "y" "x" "z") ∧
    (ofProcedure ⟨none, true, ["y"], Limit.statementNesting⟩
      (.testing "<" "1" "T" "x" "y" "z")).toOption.map (·.2.findings.length) = some 2 ∧
    (ofProcedure ⟨none, true, ["x"], Limit.statementNesting⟩
        (.testing ">" "2" "U" "y" "x" "z")).map (fun result => (result.1.bare, result.2)) =
      (ofProcedure ⟨none, true, ["y"], Limit.statementNesting⟩
        (.testing "<" "1" "T" "x" "y" "z")).map fun result =>
          ((result.1.reworded (.ofNames .exchange)).bare,
            result.2.reworded (.ofNames .exchange)) := by
  have isRenamed : (Procedure.testing "<" "1" "T" "x" "y" "z").IsRenamed .exchange
      (.testing ">" "2" "U" "y" "x" "z") := rfl
  have found : (ofProcedure ⟨none, true, ["y"], Limit.statementNesting⟩
      (.testing "<" "1" "T" "x" "y" "z")).toOption.map (·.2.findings.length) = some 2 := by
    decide +kernel
  exact ⟨isRenamed, found,
    ofProcedure_renamed .exchange ⟨none, true, ["y"], Limit.statementNesting⟩ isRenamed⟩

end LexicalScope
