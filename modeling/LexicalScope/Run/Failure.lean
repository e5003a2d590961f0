import LexicalScope.Files.Access
import LexicalScope.Options.Basic
import LexicalScope.Scope.Analysis

/-!
# Failures of a run
-/

namespace LexicalScope

/-- Why a run gives no result. -/
inductive RunFailure where
  /-- No file with procedures is given. -/
  | noFiles
  /-- A file cannot be read. -/
  | unreadable (path : String) (fault : FileFault)
  /-- The text of an options file says nothing that can be understood. -/
  | badOptionsFile (path : String) (fault : JsonFault)
  /-- The options are not valid. -/
  | badOptions (fault : OptionsFault)
  /-- The text of a file gives no procedures. -/
  | badProcedures (path : String) (fault : JsonFault)
  /-- A procedure cannot be analyzed. -/
  | notAnalyzed (label : String) (error : ScopeError)
  /-- An offset runs out of range. -/
  | overflow (error : OffsetOverflow)
deriving DecidableEq, Repr

/-- The words for what lies below a failure of a run. -/
structure CauseWording where
  /-- The words for a fault of a file. -/
  file : FileFault → String
  /-- The words for a fault of a JSON text. -/
  json : JsonFault → String

namespace CauseWording

/-- The wording of an options text that cannot be understood. -/
def optionsText (wording : CauseWording) (fault : JsonFault) : String :=
  "failed to parse " ++ OptionsFile.fileName ++ ": " ++ OptionsFile.faultText wording.json fault

end CauseWording

/-- The wording of a failure. -/
def RunFailure.message (wording : CauseWording) : RunFailure → String
  | noFiles => "no input files; pass one or more procedure JSON files"
  | unreadable path fault => "failed to read " ++ path ++ ": " ++ wording.file fault
  | badOptionsFile path fault => "in " ++ path ++ ": " ++ wording.optionsText fault
  | badOptions fault => fault.message
  | badProcedures path fault =>
    "failed to parse procedures in " ++ path ++ ": " ++ wording.json fault
  | notAnalyzed label error => "failed to analyze " ++ label ++ ": " ++ error.message
  | overflow error => error.message

end LexicalScope
