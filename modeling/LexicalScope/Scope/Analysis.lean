import LexicalScope.Scope.Binder
import LexicalScope.Scope.Conflict
import LexicalScope.Scope.Resolution
import LexicalScope.StatementTree.Layout

/-!
# Analysis of a procedure

Binding a procedure and checking the result: conflicts first, then declarations that are visible far
outside their bodies, then references without declarations.
-/

namespace LexicalScope

/-- A scope tree with what was found in it. -/
structure ScopeAnalysis where
  /-- The regions and declarations. -/
  scopes : ScopeTree
  /-- The findings, in the order in which they are reported. -/
  findings : List Finding

namespace ScopeAnalysis

/-- Whether a finding is an error. -/
def hasErrors (analysis : ScopeAnalysis) : Bool := analysis.findings.any Finding.isError

/-- What the settings ask to find in a scope tree. -/
def findingsOf (settings : ScopeSettings) (tree : StatementTree) (scopes : ScopeTree) :
    List Finding :=
  scopes.conflicts ++
    (match settings.bleedThreshold with
      | some threshold => scopes.nestedBleeds threshold
      | none => []) ++
    (if settings.checksReferences then scopes.checkReferences tree settings.globals else [])

/-- Analyzes a statement tree. -/
def ofStatementTree (settings : ScopeSettings) (tree : StatementTree) :
    Except ScopeError ScopeAnalysis :=
  match ScopeTree.ofStatementTree settings tree with
  | .ok scopes => .ok ⟨scopes, findingsOf settings tree scopes⟩
  | .error error => .error error

end ScopeAnalysis

/-- Why a procedure cannot be analyzed. -/
inductive AnalysisError where
  /-- The procedure cannot be bound, or nests too deeply to be laid out. -/
  | scope (error : ScopeError)
  /-- A part of the procedure would need an offset out of range. -/
  | overflow (error : OffsetOverflow)
deriving DecidableEq, Repr

namespace ScopeAnalysis

/-- Lays a procedure out and analyzes it; the statement tree tells what the findings refer to. -/
def ofProcedure (settings : ScopeSettings) (procedure : Procedure) :
    Except AnalysisError (StatementTree × ScopeAnalysis) :=
  match StatementTree.ofProcedure procedure with
  | .error (.refused error) => .error (.scope (.malformedTree error))
  | .error (.overflow error) => .error (.overflow error)
  | .ok tree =>
    match ofStatementTree settings tree with
    | .ok analysis => .ok (tree, analysis)
    | .error error => .error (.scope error)

end ScopeAnalysis

end LexicalScope
