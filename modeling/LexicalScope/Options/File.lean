import LexicalScope.Json.Skip
import LexicalScope.Limit
import LexicalScope.Text.Blank

/-!
# Options files

What an options file may say, and the one pass that reads it. The first defect met on the way decides
what is reported, so a value of a wrong shape wins over anything wrong behind it. A file is an object
whose unknown names are skipped, or an array of the known values in their order.
-/

namespace LexicalScope

open Json

/-- What an options file says; whatever it leaves out is absent. -/
structure OptionsFile where
  /-- The number of unbraced bodies from which on a declaration is warned about. -/
  bleedThreshold : Option Nat
  /-- Whether references that find no declaration are reported. -/
  checksReferences : Option Bool
  /-- Names that references find without a declaration. -/
  globals : Option (List String)
  /-- The greatest number of statements around a statement. -/
  nestingLimit : Option Nat
  /-- Whether the scope tree of every procedure is printed. -/
  dumpsScopes : Option Bool
deriving DecidableEq, Repr

/-- A name that an options file knows. -/
inductive OptionsKey where
  | bleedThreshold
  | checksReferences
  | globals
  | nestingLimit
  | dumpsScopes
deriving DecidableEq, Repr

namespace OptionsKey

/-- The names in the order of the array form. -/
def all : List OptionsKey :=
  [bleedThreshold, checksReferences, globals, nestingLimit, dumpsScopes]

/-- How a name is written. -/
def name : OptionsKey → String
  | bleedThreshold => "warnNestedBleed"
  | checksReferences => "checkReferences"
  | globals => "globals"
  | nestingLimit => "maxNestingDepth"
  | dumpsScopes => "dumpScopes"

/-- The known name with this spelling. -/
def ofName? (name : String) : Option OptionsKey :=
  all.find? fun key => key.name == name

end OptionsKey

namespace OptionsFile

/-- The name under which an options file is looked for. -/
def fileName : String := "exscope.json"

/-- A file that says nothing. -/
def silent : OptionsFile := ⟨none, none, none, none, none⟩

/-- The fault behind a value that was read though its shape is wrong: its own fault, if it has one. -/
def faultBehind {α : Type} : Except JsonFault α → JsonFault
  | .error fault => fault
  | .ok _ => .mismatched

/-- The fault that a value of a wrong shape gives. Words, strings and numbers are read to their end
first; of an array or object only the first character counts. -/
def wrongShape (fuel : Nat) (text : List Char) : JsonFault :=
  match dropGap text with
  | [] => .truncated
  | c :: rest =>
    if c == 'n' then faultBehind (readWord ['u', 'l', 'l'] rest)
    else if c == 't' then faultBehind (readWord ['r', 'u', 'e'] rest)
    else if c == 'f' then faultBehind (readWord ['a', 'l', 's', 'e'] rest)
    else if c == '-' || c.isDigit then faultBehind (readNumber (c :: rest))
    else if c == '"' then faultBehind (readString fuel rest)
    else if c == '[' || c == '\x7b' then .mismatched
    else .malformed

/-- Reads a value that may be absent, which is written as `null`. -/
def readOptional {α : Type} (read : Reader α) : Reader (Option α) := fun text =>
  match dropGap text with
  | 'n' :: rest => do
    let ((), rest) ← readWord ['u', 'l', 'l'] rest
    return (none, rest)
  | ahead => do
    let (value, rest) ← read ahead
    return (some value, rest)

/-- Reads a number of thirty-two bits. -/
def readCount (fuel : Nat) : Reader Nat := fun text =>
  match dropGap text with
  | [] => .error .truncated
  | c :: rest =>
    if c == '-' || c.isDigit then
      match readNumber (c :: rest) with
      | .error fault => .error fault
      | .ok (.natural value, rest) =>
        if value < Limit.offset then .ok (value, rest) else .error .mismatched
      | .ok _ => .error .mismatched
    else
      .error (wrongShape fuel (c :: rest))

/-- Reads a string. -/
def readText (fuel : Nat) : Reader String := fun text =>
  match dropGap text with
  | '"' :: rest => readString fuel rest
  | ahead => .error (wrongShape fuel ahead)

/-- Reads an array of strings. -/
def readTexts (fuel : Nat) : Reader (List String) := fun text =>
  match dropGap text with
  | '[' :: rest => do
    let step (texts : List String) : Reader (List String) := fun text => do
      let (value, rest) ← readText fuel text
      return (value :: texts, rest)
    let (texts, rest) ← readSequence ']' (fun _ => true) step fuel [] rest
    return (texts.reverse, rest)
  | ahead => .error (wrongShape fuel ahead)

/-- The truth value that a text stands for. -/
def truth? (text : String) : Option Bool :=
  match Text.wordKey text with
  | "true" | "1" | "yes" | "on" => some true
  | "false" | "0" | "no" | "off" => some false
  | _ => none

/-- Reads a truth value, which may be written as a string. The value is held while its shape is not
known, so arrays and objects in it nest no deeper than they may anywhere. -/
def readTruth (fuel : Nat) : Reader Bool := fun text =>
  match readValue fuel (Json.nestingLimit - 1) text with
  | .error fault => .error fault
  | .ok (.bool value, rest) => .ok (value, rest)
  | .ok (.string text, rest) =>
    match truth? text with
    | some value => .ok (value, rest)
    | none => .error (.refused text)
  | .ok _ => .error .mismatched

/-- Reads the value of a name into what the file says so far. -/
def readField (fuel : Nat) (key : OptionsKey) (file : OptionsFile) : Reader OptionsFile :=
  fun text =>
    match key with
    | .bleedThreshold => do
      let (value, rest) ← readOptional (readCount fuel) text
      return ({ file with bleedThreshold := value }, rest)
    | .checksReferences => do
      let (value, rest) ← readOptional (readTruth fuel) text
      return ({ file with checksReferences := value }, rest)
    | .globals => do
      let (value, rest) ← readOptional (readTexts fuel) text
      return ({ file with globals := value }, rest)
    | .nestingLimit => do
      let (value, rest) ← readOptional (readCount fuel) text
      return ({ file with nestingLimit := value }, rest)
    | .dumpsScopes => do
      let (value, rest) ← readOptional (readTruth fuel) text
      return ({ file with dumpsScopes := value }, rest)

/-- Reads the array form behind its bracket: the values of `keys`, of which the last may be left
out. Nothing may follow the value of the last key. -/
def readElements (fuel : Nat) : List OptionsKey → Bool → OptionsFile → Reader OptionsFile
  | [], _, file, text =>
    match dropGap text with
    | [] => .error .truncated
    | c :: rest => if c == ']' then .ok (file, rest) else .error .malformed
  | key :: keys, isFirst, file, text =>
    match dropGap text with
    | [] => .error .truncated
    | c :: rest =>
      if c == ']' then
        .ok (file, rest)
      else if isFirst then do
        let (file, rest) ← readField fuel key file (c :: rest)
        readElements fuel keys false file rest
      else if c == ',' then
        match dropGap rest with
        | [] => .error .truncated
        | d :: rest =>
          if d == ']' then
            .error .malformed
          else do
            let (file, rest) ← readField fuel key file (d :: rest)
            readElements fuel keys false file rest
      else
        .error .malformed

/-- Reads a member of the object form; `state` holds the names met so far and what they say. A known
name that comes again is refused before its value is read. -/
def readMember (fuel : Nat) (state : List OptionsKey × OptionsFile) :
    Reader (List OptionsKey × OptionsFile) := fun text => do
  let (name, text) ← readName fuel text
  match OptionsKey.ofName? name with
  | none =>
    let ((), text) ← readColon text
    let ((), text) ← skipValue fuel fuel text
    return (state, text)
  | some key =>
    if state.1.contains key then
      throw .mismatched
    else
      let ((), text) ← readColon text
      let (file, text) ← readField fuel key state.2 text
      return ((key :: state.1, file), text)

/-- Reads an options file in either form. -/
def read (fuel : Nat) : Reader OptionsFile := fun text =>
  match dropGap text with
  | '\x7b' :: rest => do
    let ((_, file), rest) ←
      readSequence '\x7d' (· == '"') (readMember fuel) fuel ([], silent) rest
    return (file, rest)
  | '[' :: rest => readElements fuel OptionsKey.all true silent rest
  | ahead => .error (wrongShape fuel ahead)

/-- What a text says that is an options file from end to end. -/
def parse (text : String) : Except JsonFault OptionsFile := do
  let chars := text.toList
  let (file, rest) ← read (chars.length + 1) chars
  checkEnd rest
  return file

/-- The wording of a fault of an options file; `wording` words the faults that any JSON text has. -/
def faultText (wording : JsonFault → String) : JsonFault → String
  | .refused text =>
    "invalid boolean value: '" ++ text ++ "'. Expected true, false, 'true', or 'false'"
  | fault => wording fault

end OptionsFile

end LexicalScope
