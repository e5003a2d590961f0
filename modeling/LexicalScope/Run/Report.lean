import LexicalScope.Diagnostic.Basic
import LexicalScope.Report.Document
import LexicalScope.Report.Lines
import LexicalScope.Report.Outline

/-!
# Report of a run

What a run found, procedure by procedure, as lines of text or as a JSON document.
-/

namespace LexicalScope

/-- What was found in a procedure. -/
structure ProcedureReport where
  /-- The file that holds the procedure, as it was given. -/
  file : String
  /-- The name of the procedure. -/
  name : String
  /-- What was found, in order. -/
  diagnostics : List Diagnostic
  /-- The scope tree, if it is to be printed. -/
  scopes : Option ScopeTree

namespace ProcedureReport

/-- What a procedure in a file is called: the file that its diagnostics name. -/
def labelOf (file name : String) : String := file ++ "#" ++ name

/-- What the procedure is called. -/
def label (report : ProcedureReport) : String := labelOf report.file report.name

/-- The heading and the outline of the scope tree, nothing without one. -/
def scopeLines (color : Bool) (report : ProcedureReport) : String :=
  match report.scopes with
  | none => ""
  | some scopes =>
    Style.heading.apply color ("Scopes of " ++ report.label ++ ":") ++ "\n" ++ scopes.outline

/-- The lines of a procedure. -/
def text (color : Bool) (report : ProcedureReport) : Except OffsetOverflow String := do
  return (← Report.allLines color report.diagnostics) ++ report.scopeLines color

/-- A procedure as a JSON object; a scope tree that is not to be printed is left out. -/
def toJson (report : ProcedureReport) : Json :=
  .object
    ([("file", .string report.file), ("name", .string report.name),
      ("diagnostics", .array (report.diagnostics.map Diagnostic.toJson))] ++
      Json.member? "scopes" (report.scopes.map ScopeTree.toJson))

end ProcedureReport

/-- What a run found: the procedures in the order of the files and in their order there. -/
structure RunReport where
  /-- What was found in each procedure. -/
  procedures : List ProcedureReport

namespace RunReport

/-- All diagnostics of a run. -/
def diagnostics (report : RunReport) : List Diagnostic :=
  report.procedures.flatMap ProcedureReport.diagnostics

/-- The number of errors. -/
def errorCount (report : RunReport) : Nat := report.diagnostics.countP Diagnostic.isError

/-- The number of warnings. -/
def warningCount (report : RunReport) : Nat := report.diagnostics.countP Diagnostic.isWarning

/-- The lines of a run: those of its procedures, and one that sums it up. -/
def text (color : Bool) (report : RunReport) : Except OffsetOverflow String := do
  let procedures ← report.procedures.mapM (ProcedureReport.text color)
  let summary :=
    Report.summary color report.errorCount report.warningCount report.procedures.length
  return String.join procedures ++ summary ++ "\n"

/-- A run as a JSON document. -/
def toJson (report : RunReport) : Json :=
  .object
    [("procedures", .array (report.procedures.map ProcedureReport.toJson)),
      ("errorCount", .natural report.errorCount), ("warningCount", .natural report.warningCount)]

end RunReport

end LexicalScope
