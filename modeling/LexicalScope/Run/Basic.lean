import LexicalScope.Json.Printer
import LexicalScope.Options.Resolution
import LexicalScope.Procedure.Decoding
import LexicalScope.Run.Report

/-!
# Runs

A run reads every file it is given before it analyzes the first procedure, so a file that cannot be
read is reported before a procedure that cannot be analyzed.
-/

namespace LexicalScope

/-- What a run prints, and the code with which it ends. -/
structure RunResult where
  /-- The text on the standard output. -/
  output : String
  /-- The code that tells whether errors were found. -/
  exitCode : Nat
deriving DecidableEq, Repr

namespace RunResult

/-- The code of a run that found no error. -/
def success : Nat := 0

/-- The code of a run that found an error. -/
def withErrors : Nat := 1

/-- The code of a run that gives no result. -/
def failed : Nat := 2

end RunResult

/-- What the analysis finds in a procedure of a file. -/
def ProcedureReport.ofProcedure (options : Options) (file : String) (procedure : Procedure) :
    Except RunFailure ProcedureReport :=
  let label := labelOf file procedure.name
  match ScopeAnalysis.ofProcedure options.settings procedure with
  | .error (.scope error) => .error (.notAnalyzed label error)
  | .error (.overflow error) => .error (.overflow error)
  | .ok (_, analysis) =>
    .ok
      ⟨file, procedure.name, analysis.findings.map (·.toDiagnostic label),
        if options.dumpsScopes then some analysis.scopes else none⟩

namespace CommandLine

variable {m : Type → Type} [Monad m]

/-- The procedures of a file, each with the file as it was given. -/
def proceduresOf (access : FileAccess m) (directory file : String) :
    RunAction m (List (String × Procedure)) := do
  let path := Path.join directory file
  let outcome ← (access.read path : m (Except FileFault String))
  let text ← RunAction.ofExcept (.unreadable path) outcome
  let procedures ← RunAction.ofExcept (.badProcedures path) (Procedure.parseAll text)
  return procedures.map fun procedure => (file, procedure)

/-- What the analysis finds in the files of a command line. -/
def report (access : FileAccess m) (directory : String) (line : CommandLine) :
    RunAction m RunReport := do
  if line.files.isEmpty then
    throw .noFiles
  let options ← line.options access directory
  let procedures ← line.files.mapM (proceduresOf access directory)
  let reports ←
    procedures.flatten.mapM fun (file, procedure) =>
      RunAction.ofExcept id (ProcedureReport.ofProcedure options file procedure)
  return ⟨reports⟩

/-- Does what a command line asks for. Text is colored as the command line says, or else if the
standard output `isTerminal`. -/
def run (access : FileAccess m) (directory : String) (isTerminal : Bool) (line : CommandLine) :
    RunAction m RunResult := do
  if line.showsOptions then
    let options ← line.options access directory
    return ⟨options.toJson.pretty ++ "\n", RunResult.success⟩
  let report ← line.report access directory
  let output ←
    match line.outputFormat with
    | .json => pure (report.toJson.pretty ++ "\n")
    | .text => RunAction.ofExcept .overflow (report.text (line.color.getD isTerminal))
  return ⟨output, if 0 < report.errorCount then RunResult.withErrors else RunResult.success⟩

end CommandLine

end LexicalScope
