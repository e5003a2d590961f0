/-!
# JSON values

Values of the interchange format. Objects keep their members in order and keep repeated names,
because a repeated name can be a fault.
-/

namespace LexicalScope

/-- A JSON value. -/
inductive Json where
  | null
  | bool (value : Bool)
  /-- A number written with digits alone. -/
  | natural (value : Nat)
  /-- Any other number, kept as it is written. -/
  | number (lexeme : String)
  | string (value : String)
  | array (items : List Json)
  | object (members : List (String × Json))
deriving Inhabited

/-- Why a text does not give the value that was asked for. -/
inductive JsonFault where
  /-- The text is not JSON, nests too deeply, or goes on behind its value. -/
  | malformed
  /-- The text stops inside its value. -/
  | truncated
  /-- The text is JSON, but its value has another shape. -/
  | mismatched
  /-- A string has the right shape, but is none of those that have a meaning there. -/
  | refused (text : String)
deriving DecidableEq, Repr

namespace Json

mutual

/-- The number of arrays and objects around the innermost value, itself counted if it is one. -/
def nesting : Json → Nat
  | array items => nestingOfItems items + 1
  | object members => nestingOfMembers members + 1
  | _ => 0

/-- The deepest nesting among the items of an array. -/
def nestingOfItems : List Json → Nat
  | [] => 0
  | item :: rest => max item.nesting (nestingOfItems rest)

/-- The deepest nesting among the members of an object. -/
def nestingOfMembers : List (String × Json) → Nat
  | [] => 0
  | (_, value) :: rest => max value.nesting (nestingOfMembers rest)

end

/-- Each character written in one step, by its short escape. -/
def escapeOf : Char → Option Char
  | '"' => some '"'
  | '\\' => some '\\'
  | '\x08' => some 'b'
  | '\x0c' => some 'f'
  | '\n' => some 'n'
  | '\r' => some 'r'
  | '\t' => some 't'
  | _ => none

/-- The greatest nesting of arrays and objects that a text may have. -/
def nestingLimit : Nat := 127

end Json

end LexicalScope
