import LexicalScope.Diagnostic.Catalogue
import LexicalScope.Span
import LexicalScope.Text.Template

/-!
# Diagnostics

A diagnostic is a message about a place in a file, with other places that belong to it.
-/

namespace LexicalScope

/-- A place that belongs to a diagnostic, with a message of its own. -/
structure RelatedPlace where
  /-- The file of the place. -/
  file : String
  /-- The offset at which the place starts. -/
  start : Nat
  /-- The number of offsets it covers. -/
  length : Nat
  /-- What is to be said about the place. -/
  text : String
  /-- How serious that is. -/
  category : Category
  /-- The code of the message, zero if it has none. -/
  code : Nat
deriving DecidableEq, Repr

/-- A message about a place in a file. -/
structure Diagnostic where
  /-- The file of the place. -/
  file : String
  /-- The offset at which the place starts. -/
  start : Nat
  /-- The number of offsets it covers. -/
  length : Nat
  /-- What is to be said about the place. -/
  text : String
  /-- How serious that is. -/
  category : Category
  /-- The code of the message, zero if it has none. -/
  code : Nat
  /-- Other places that belong to it. -/
  related : List RelatedPlace
deriving DecidableEq, Repr

namespace Diagnostic

/-- An error with a text of its own. -/
def ofError (file : String) (start length : Nat) (text : String) (code : Nat) : Diagnostic :=
  ⟨file, start, length, text, .error, code, []⟩

/-- A warning with a text of its own. -/
def ofWarning (file : String) (start length : Nat) (text : String) (code : Nat) : Diagnostic :=
  ⟨file, start, length, text, .warning, code, []⟩

/-- The message of a code with its arguments. A code outside the catalogue is an error whose text is
the first argument. -/
def ofCode (file : String) (start length code : Nat) (arguments : List String) : Diagnostic :=
  match Message.find? code with
  | some message =>
    ⟨file, start, length, Text.fill message.template arguments, message.category, code, []⟩
  | none => ⟨file, start, length, Text.fill "\x7b0\x7d" arguments, .error, code, []⟩

/-- Adds a place after those that belong to the diagnostic already. -/
def addRelated (diagnostic : Diagnostic) (file : String) (start length : Nat) (text : String) :
    Diagnostic :=
  { diagnostic with
    related := diagnostic.related ++ [⟨file, start, length, text, .message, 0⟩] }

/-- Whether the diagnostic is an error. -/
def isError (diagnostic : Diagnostic) : Bool := diagnostic.category == .error

/-- Whether the diagnostic is a warning. -/
def isWarning (diagnostic : Diagnostic) : Bool := diagnostic.category == .warning

end Diagnostic

end LexicalScope
