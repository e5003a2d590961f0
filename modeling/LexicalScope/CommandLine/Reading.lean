import LexicalScope.CommandLine.Basic
import LexicalScope.Limit
import LexicalScope.Text.Pieces

/-!
# Reading a command line

Arguments are taken one by one. An option that needs a value, and a run of files, stay pending until
something else is met; only then are their values looked at. So an option that does not exist is
reported before a wrong value in front of it.
-/

namespace LexicalScope.CommandLine

/-! ## Values -/

/-- The number that a non-empty run of digits stands for. -/
def ofDigits? (text : List Char) : Option Nat :=
  if !text.isEmpty && text.all Char.isDigit then
    some (text.foldl (fun value c => value * 10 + (c.toNat - '0'.toNat)) 0)
  else
    none

/-- A natural number, with or without a plus in front. -/
def natural? (text : List Char) : Option Nat :=
  match text with
  | '+' :: digits => ofDigits? digits
  | digits => ofDigits? digits

/-- A natural number given with or without a sign; with a minus it can be zero only. -/
def signed? (text : List Char) : Option Nat :=
  match text with
  | '-' :: digits => (ofDigits? digits).filter (· == 0)
  | unsigned => natural? unsigned

/-- The number of thirty-two bits that a text stands for. -/
def count? (text : String) : Option Nat :=
  (signed? text.toList).filter (· < Limit.offset)

/-- The number of threads that a text stands for. -/
def threads? (text : String) : Option Nat :=
  (natural? text.toList).filter (· < Limit.wideNumber)

/-- The format that a word names, in small or capital letters. -/
def format? (word : String) : Option OutputFormat :=
  match String.ofList (word.toList.map Char.toLower) with
  | "text" => some .text
  | "json" => some .json
  | _ => none

/-- The truth value that a word names. -/
def truth? : String → Option Bool
  | "true" => some true
  | "false" => some false
  | _ => none

/-! ## Options -/

/-- Whether a parameter that may be given once has been given. -/
def isGiven (line : CommandLine) : Parameter → Bool
  | .optionsPath => line.optionsPath.isSome
  | .format => line.format.isSome
  | .color => line.color.isSome
  | .bleedThreshold => line.bleedThreshold.isSome
  | .globals => false
  | .nestingLimit => line.nestingLimit.isSome
  | .threads => line.threads.isSome

/-- A value that was understood, or the misuse that it is. -/
def understood {α : Type} (value : Option α) (misuse : Misuse) : Except Misuse α :=
  match value with
  | some value => .ok value
  | none => .error misuse

/-- The command line with the value of a parameter. Several values of `--globals` add up. -/
def assign (line : CommandLine) (parameter : Parameter) (value : String) :
    Except Misuse CommandLine :=
  let unknown := Misuse.unknownValue parameter.name value
  let number := Misuse.invalidNumber parameter.name value
  match parameter with
  | .optionsPath =>
    if value.isEmpty then .error (.missingValue parameter.name)
    else .ok { line with optionsPath := some value }
  | .format => do
    let format ← understood (format? value) unknown
    return { line with format := some format }
  | .color => do
    let color ← understood (truth? value) unknown
    return { line with color := some color }
  | .bleedThreshold => do
    let threshold ← understood (count? value) number
    return { line with bleedThreshold := some threshold }
  | .globals => .ok { line with globals := some (line.globals.getD [] ++ Text.split ',' value) }
  | .nestingLimit => do
    let limit ← understood (count? value) number
    return { line with nestingLimit := some limit }
  | .threads => do
    let threads ← understood (threads? value) number
    return { line with threads := some threads }

/-- The command line with a parameter and what follows it: a value has to follow, and what may be
given once must not have been given. -/
def give (line : CommandLine) (parameter : Parameter) : Option String → Except Misuse CommandLine
  | none => .error (.missingValue parameter.name)
  | some value =>
    if line.isGiven parameter then .error (.repeated parameter.name)
    else line.assign parameter value

/-- The command line with a flag, which may be given once. -/
def raise (line : CommandLine) (flag : Flag) : Except Misuse CommandLine :=
  match flag with
  | .showsOptions =>
    if line.showsOptions then .error (.repeated flag.name)
    else .ok { line with showsOptions := true }
  | .dumpsScopes =>
    if line.dumpsScopes then .error (.repeated flag.name)
    else .ok { line with dumpsScopes := true }
  | .checksReferences =>
    if line.checksReferences then .error (.repeated flag.name)
    else .ok { line with checksReferences := true }

/-- The command line with more files, none of which may be the empty text. -/
def addFiles (line : CommandLine) (files : List String) : Except Misuse CommandLine :=
  if files.any String.isEmpty then .error (.missingValue "FILES")
  else .ok { line with files := line.files ++ files }

/-! ## Arguments -/

/-- An argument by its shape. -/
inductive Argument where
  /-- The two dashes behind which every argument is a file. -/
  | separator
  /-- A long name, and the text behind an equals sign. -/
  | long (name : String) (value : Option String)
  /-- A letter and the characters that follow it. -/
  | short (letter : Char) (rest : List Char)
  /-- A text that does not look like an option; a single dash is one. -/
  | word

/-- The shape of an argument. -/
def Argument.ofText (text : String) : Argument :=
  match text.toList with
  | ['-', '-'] => .separator
  | '-' :: '-' :: body =>
    let name := String.ofList (body.takeWhile (· != '='))
    match body.dropWhile (· != '=') with
    | [] => .long name none
    | _ :: value => .long name (some (String.ofList value))
  | '-' :: letter :: rest => .short letter rest
  | _ => .word

/-- The value that is attached to a letter, with or without an equals sign between them. -/
def attached : List Char → Option String
  | [] => none
  | '=' :: value => some (String.ofList value)
  | value => some (String.ofList value)

/-! ## Reading -/

/-- What has been met and not yet been looked at. -/
inductive Pending where
  | parameter (parameter : Parameter) (value : Option String)
  | files (files : List String)

/-- How far the reading of a command line has come. -/
structure Progress where
  /-- What the arguments so far ask for. -/
  line : CommandLine
  /-- What is still to be looked at. -/
  pending : Option Pending
  /-- Whether the separator has been met. -/
  isSeparated : Bool

namespace Progress

/-- Nothing has been read. -/
def start : Progress := ⟨.blank, none, false⟩

/-- The command line with what is pending. -/
def settle (progress : Progress) : Except Misuse CommandLine :=
  match progress.pending with
  | none => .ok progress.line
  | some (.parameter parameter value) => progress.line.give parameter value
  | some (.files files) => progress.line.addFiles files

/-- Takes an argument as a file. -/
def takeFile (progress : Progress) (file : String) : Except Misuse Progress :=
  match progress.pending with
  | some (.files files) => .ok { progress with pending := some (.files (files ++ [file])) }
  | _ => do
    let line ← progress.settle
    return { progress with line := line, pending := some (.files [file]) }

/-- Takes a parameter and the value attached to it; without one the next argument may be it. -/
def takeParameter (progress : Progress) (parameter : Parameter) :
    Option String → Except Misuse Progress
  | none => do
    let line ← progress.settle
    return { progress with line := line, pending := some (.parameter parameter none) }
  | some value => do
    let line ← progress.settle
    let line ← line.give parameter (some value)
    return { progress with line := line, pending := none }

/-- Takes a flag. -/
def takeFlag (progress : Progress) (flag : Flag) : Except Misuse Progress := do
  let line ← progress.settle
  let line ← line.raise flag
  return { progress with line := line, pending := none }

/-- A step that can only go wrong by misuse. -/
def orMisused {α : Type} : Except Misuse α → Except Stop α
  | .ok value => .ok value
  | .error misuse => .error (.misused misuse)

/-- Takes a request: nothing behind it is read, but what is pending has to be right. -/
def takeRequest (progress : Progress) (request : Request) : Except Stop Progress := do
  let _ ← orMisused progress.settle
  throw (.answered request)

/-- Takes an option with the value attached to it. -/
def takeSwitch (progress : Progress) (option : Switch) (value : Option String) :
    Except Stop Progress :=
  match option, value with
  | .parameter parameter, value => orMisused (progress.takeParameter parameter value)
  | .flag flag, none => orMisused (progress.takeFlag flag)
  | .request request, none => progress.takeRequest request
  | option, some value => .error (.misused (.unneededValue option.name value))

/-- Takes an argument that does not look like an option: the value of the parameter in front of it,
or else a file. -/
def takeWord (progress : Progress) (text : String) : Except Misuse Progress :=
  match progress.pending with
  | some (.parameter parameter none) =>
    .ok { progress with pending := some (.parameter parameter (some text)) }
  | _ => progress.takeFile text

/-- Takes an argument. A letter that stands for itself lets the letters behind it stand for
themselves too, but every such letter is a request, so these are not read. -/
def take (progress : Progress) (text : String) : Except Stop Progress :=
  if progress.isSeparated then
    orMisused (progress.takeFile text)
  else
    match Argument.ofText text with
    | .separator => .ok { progress with isSeparated := true }
    | .word => orMisused (progress.takeWord text)
    | .long name value =>
      match Switch.ofLong? name with
      | none => .error (.misused (.unknownOption text))
      | some option => progress.takeSwitch option value
    | .short letter rest =>
      match Switch.ofLetter? letter with
      | none => .error (.misused (.unknownOption text))
      | some (.parameter parameter) =>
        orMisused (progress.takeParameter parameter (attached rest))
      | some option => progress.takeSwitch option none

end Progress

/-- Reads the arguments of a command line. -/
def read (arguments : List String) : Except Stop CommandLine := do
  let progress ← arguments.foldlM Progress.take Progress.start
  Progress.orMisused progress.settle

end LexicalScope.CommandLine
