import LexicalScope.Diagnostic.Basic
import LexicalScope.Report.Style

/-!
# Diagnostics as lines of text

A diagnostic is one line with its place, its category and code, and its text; the places that belong
to it follow on lines of their own. Places are given as offsets.
-/

namespace LexicalScope

/-- The style of the word for a category. -/
def Category.style : Category → Style
  | error => .error
  | warning => .warning
  | suggestion => .suggestion
  | message => .message

namespace Report

/-- A place in a file from its start to its end. -/
def place (color : Bool) (file : String) (start length : Nat) : Except OffsetOverflow String := do
  let stop ← addOffsets start length
  let shown := if file.isEmpty then "<unknown>" else file
  return Style.place.apply color (shown ++ "@" ++ toString start ++ ".." ++ toString stop)

/-- A place that belongs to a diagnostic, with its text. -/
def relatedLine (color : Bool) (related : RelatedPlace) : Except OffsetOverflow String := do
  let shown ← place color related.file related.start related.length
  return Style.faint.apply color "  Related" ++ ": " ++ shown ++ " - " ++ related.text

/-- The code of a message behind a blank; a message without a code shows nothing. -/
def codeLabel (color : Bool) (code : Nat) : String :=
  if code = 0 then "" else " " ++ Style.code.apply color ("EXS" ++ toString code)

/-- The lines of a diagnostic, without a line end behind the last. -/
def diagnosticLines (color : Bool) (diagnostic : Diagnostic) : Except OffsetOverflow String := do
  let shown ← place color diagnostic.file diagnostic.start diagnostic.length
  let related ← diagnostic.related.mapM (relatedLine color)
  let category := diagnostic.category.style.apply color diagnostic.category.text
  let first :=
    shown ++ " - " ++ category ++ codeLabel color diagnostic.code ++ ": " ++ diagnostic.text
  return "\n".intercalate (first :: related)

/-- The lines of several diagnostics, each line ended. -/
def allLines (color : Bool) (diagnostics : List Diagnostic) : Except OffsetOverflow String := do
  let lines ← diagnostics.mapM (diagnosticLines color)
  return String.join (lines.map (· ++ "\n"))

/-- A number of things, in the plural unless it is one. -/
def counted (count : Nat) (word : String) : String :=
  if count = 1 then toString count ++ " " ++ word else toString count ++ " " ++ word ++ "s"

/-- The style of a summary. -/
def summaryStyle (errors warnings : Nat) : Style :=
  if 0 < errors then .error else if 0 < warnings then .caution else .success

/-- The line that sums up a run. -/
def summary (color : Bool) (errors warnings procedures : Nat) : String :=
  (summaryStyle errors warnings).apply color
    ("Found " ++ counted errors "error" ++ " and " ++ counted warnings "warning" ++ " in " ++
      counted procedures "procedure" ++ ".")

end Report

end LexicalScope
