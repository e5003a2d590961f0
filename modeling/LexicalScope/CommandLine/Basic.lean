/-!
# Command lines

What a command line asks for, the options that may stand on it, and how a reading of it can stop.
-/

namespace LexicalScope

/-- How the result of a run is printed. -/
inductive OutputFormat where
  /-- One line for each diagnostic. -/
  | text
  /-- A single JSON document. -/
  | json
deriving DecidableEq, Repr

/-- What a command line asks for; what it does not mention is absent. -/
structure CommandLine where
  /-- The files with the procedures to analyze. -/
  files : List String
  /-- The options file, or the directory that holds it. -/
  optionsPath : Option String
  /-- Whether the options are printed in place of an analysis. -/
  showsOptions : Bool
  /-- How the result is printed. -/
  format : Option OutputFormat
  /-- Whether the printed text is colored. -/
  color : Option Bool
  /-- Whether the scope tree of every procedure is printed. -/
  dumpsScopes : Bool
  /-- The number of unbraced bodies from which on a declaration is warned about. -/
  bleedThreshold : Option Nat
  /-- Whether references that find no declaration are reported. -/
  checksReferences : Bool
  /-- Names that references find without a declaration. -/
  globals : Option (List String)
  /-- The greatest number of statements around a statement. -/
  nestingLimit : Option Nat
  /-- The number of procedures analyzed at a time; it has no influence on what is printed. -/
  threads : Option Nat
deriving DecidableEq, Repr

namespace CommandLine

/-- A command line that asks for nothing. -/
def blank : CommandLine :=
  ⟨[], none, false, none, none, false, none, false, none, none, none⟩

/-- How the result is printed: as text unless the command line says otherwise. -/
def outputFormat (line : CommandLine) : OutputFormat := line.format.getD .text

/-- An option that is followed by a value. -/
inductive Parameter where
  | optionsPath
  | format
  | color
  | bleedThreshold
  | globals
  | nestingLimit
  | threads
deriving DecidableEq, Repr

/-- An option that stands for itself. -/
inductive Flag where
  | showsOptions
  | dumpsScopes
  | checksReferences
deriving DecidableEq, Repr

/-- An option that is answered in place of a run. -/
inductive Request where
  | help
  | version
deriving DecidableEq, Repr

/-- An option that may stand on a command line. -/
inductive Switch where
  | parameter (parameter : Parameter)
  | flag (flag : Flag)
  | request (request : Request)
deriving DecidableEq, Repr

/-- The name of a parameter on the command line. -/
def Parameter.name : Parameter → String
  | optionsPath => "config"
  | format => "format"
  | color => "pretty"
  | bleedThreshold => "warn-nested-bleed"
  | globals => "globals"
  | nestingLimit => "max-nesting-depth"
  | threads => "threads"

/-- The name of a flag on the command line. -/
def Flag.name : Flag → String
  | showsOptions => "show-config"
  | dumpsScopes => "dump-scopes"
  | checksReferences => "check-references"

/-- The name of a request on the command line. -/
def Request.name : Request → String
  | help => "help"
  | version => "version"

/-- The name of an option on the command line. -/
def Switch.name : Switch → String
  | parameter value => value.name
  | flag value => value.name
  | request value => value.name

/-- The option that a long name stands for; some have a second spelling. -/
def Switch.ofLong? : String → Option Switch
  | "config" => some (.parameter .optionsPath)
  | "show-config" | "showConfig" => some (.flag .showsOptions)
  | "format" => some (.parameter .format)
  | "pretty" => some (.parameter .color)
  | "dump-scopes" | "dumpScopes" => some (.flag .dumpsScopes)
  | "warn-nested-bleed" | "warnNestedBleed" => some (.parameter .bleedThreshold)
  | "check-references" | "checkReferences" => some (.flag .checksReferences)
  | "globals" => some (.parameter .globals)
  | "max-nesting-depth" | "maxNestingDepth" => some (.parameter .nestingLimit)
  | "threads" => some (.parameter .threads)
  | "help" => some (.request .help)
  | "version" => some (.request .version)
  | _ => none

/-- The option that a letter stands for. -/
def Switch.ofLetter? : Char → Option Switch
  | 'c' => some (.parameter .optionsPath)
  | 'j' => some (.parameter .threads)
  | 'h' => some (.request .help)
  | 'V' => some (.request .version)
  | _ => none

/-- What is wrong with a command line. -/
inductive Misuse where
  /-- No option has this name or letter. -/
  | unknownOption (argument : String)
  /-- An option, or the list of files, comes without the value it needs. -/
  | missingValue (name : String)
  /-- A value is none of those that the option knows. -/
  | unknownValue (name value : String)
  /-- A value is no number, or none in the range of the option. -/
  | invalidNumber (name value : String)
  /-- An option that may stand once stands again. -/
  | repeated (name : String)
  /-- An option that stands for itself comes with a value. -/
  | unneededValue (name value : String)
deriving DecidableEq, Repr

/-- The wording of a misuse. -/
def Misuse.message : Misuse → String
  | unknownOption argument => "unexpected argument '" ++ argument ++ "' found"
  | missingValue name => "a value is required for '" ++ name ++ "' but none was supplied"
  | unknownValue name value => "invalid value '" ++ value ++ "' for '" ++ name ++ "'"
  | invalidNumber name value => "invalid value '" ++ value ++ "' for '" ++ name ++ "'"
  | repeated name => "the argument '" ++ name ++ "' cannot be used multiple times"
  | unneededValue name value => "unexpected value '" ++ value ++ "' for '" ++ name ++ "' found"

/-- Why the reading of a command line stops without one. -/
inductive Stop where
  | answered (request : Request)
  | misused (misuse : Misuse)
deriving DecidableEq, Repr

end CommandLine

end LexicalScope
