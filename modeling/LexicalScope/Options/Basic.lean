import LexicalScope.Json.Basic
import LexicalScope.Options.File
import LexicalScope.Scope.Settings

/-!
# Options of a run

The settings of the analysis together with what a run prints. Options that are not valid are refused
when they are made, so a run never meets them.
-/

namespace LexicalScope

/-- The options of a run. -/
structure Options where
  /-- What the analysis checks. -/
  settings : ScopeSettings
  /-- Whether the scope tree of every procedure is printed. -/
  dumpsScopes : Bool
  /-- The file that the options come from, if there is one. -/
  source : Option String
deriving DecidableEq, Repr

/-- What is wrong with the options of a run. -/
inductive OptionsFault where
  /-- No declaration is warned about from no body on. -/
  | zeroBleedThreshold
  /-- No statement could be nested at all. -/
  | zeroNestingLimit
  /-- Statements could be nested deeper than any procedure may. -/
  | nestingLimitTooHigh
deriving DecidableEq, Repr

/-- The wording of a fault. -/
def OptionsFault.message : OptionsFault → String
  | zeroBleedThreshold => "warnNestedBleed must be at least 1"
  | zeroNestingLimit => "maxNestingDepth must be at least 1"
  | nestingLimitTooHigh => "maxNestingDepth must be at most " ++ toString Limit.statementNesting

namespace Options

/-- The options of a run without an options file. -/
def default : Options := ⟨.default, false, none⟩

/-- The options themselves, if they are valid. -/
def validate (options : Options) : Except OptionsFault Options :=
  if options.settings.bleedThreshold = some 0 then .error .zeroBleedThreshold
  else if options.settings.nestingLimit = 0 then .error .zeroNestingLimit
  else if Limit.statementNesting < options.settings.nestingLimit then .error .nestingLimitTooHigh
  else .ok options

/-- The options that an options file gives; what it leaves out is as without a file. -/
def ofFile (file : OptionsFile) : Except OptionsFault Options :=
  validate
    { default with
      settings :=
        ⟨file.bleedThreshold, file.checksReferences.getD false, file.globals.getD [],
          file.nestingLimit.getD Limit.statementNesting⟩
      dumpsScopes := file.dumpsScopes.getD false }

/-- The options as a JSON object; the file they come from is left out if there is none. -/
def toJson (options : Options) : Json :=
  let settings := options.settings
  .object
    ([("warnNestedBleed", (settings.bleedThreshold.map Json.natural).getD .null),
      ("checkReferences", .bool settings.checksReferences),
      ("globals", .array (settings.globals.map Json.string)),
      ("maxNestingDepth", .natural settings.nestingLimit),
      ("dumpScopes", .bool options.dumpsScopes)] ++
      (options.source.toList.map fun path => ("configPath", .string path)))

end Options

end LexicalScope
