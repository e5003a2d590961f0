/-!
# The catalogue of messages

Every message that the analysis can give, with its code, its category and its template.
-/

namespace LexicalScope

/-- How serious a diagnostic is. -/
inductive Category where
  | warning | error | suggestion | message
deriving DecidableEq, Repr

namespace Category

/-- The word for a category in a report. -/
def text : Category → String
  | warning => "warning"
  | error => "error"
  | suggestion => "suggestion"
  | message => "message"

/-- The name of a category in a document. -/
def name : Category → String
  | warning => "Warning"
  | error => "Error"
  | suggestion => "Suggestion"
  | message => "Message"

end Category

/-- A message of the catalogue. -/
structure Message where
  /-- The code, by which the message is known. -/
  code : Nat
  /-- How serious the message is. -/
  category : Category
  /-- The text with placeholders for what it is about. -/
  template : String
deriving DecidableEq, Repr

namespace Message

/-- A name declared twice in one region. -/
def duplicateInRegion : Message :=
  ⟨2001, .error, "A local variable named '\x7b0\x7d' is already defined in this scope."⟩

/-- A name declared in a region and in one around it. -/
def duplicateAround : Message :=
  ⟨2002, .error,
    "A local named '\x7b0\x7d' cannot be declared in this scope because '\x7b0\x7d' is already " ++
      "declared in an enclosing scope."⟩

/-- A name declared in two regions that can both run. -/
def duplicateOnPath : Message :=
  ⟨2003, .error,
    "A local named '\x7b0\x7d' is already declared in a region that can execute on the same path."⟩

/-- A reference that finds no declaration. -/
def unresolved : Message := ⟨2004, .error, "Cannot find name '\x7b0\x7d'."⟩

/-- A declaration that is visible far outside the body that introduces it. -/
def nestedBleed : Message :=
  ⟨2005, .warning,
    "Variable '\x7b0\x7d' is scoped to a region \x7b1\x7d unbraced nested statements above its " ++
      "declaration."⟩

/-- Where the other declaration of a name is. -/
def alsoDeclared : Message := ⟨2006, .message, "'\x7b0\x7d' was also declared here."⟩

/-- All messages, by ascending code. -/
def all : List Message :=
  [duplicateInRegion, duplicateAround, duplicateOnPath, unresolved, nestedBleed, alsoDeclared]

/-- The message of a code. -/
def find? (code : Nat) : Option Message := all.find? fun message => message.code == code

end Message

end LexicalScope
