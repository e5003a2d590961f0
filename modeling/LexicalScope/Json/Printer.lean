import LexicalScope.Json.Basic

/-!
# JSON text of a value

Two layouts: one without blanks and one with each item on a line of its own. Each function puts its
characters in front of the text that follows, so that writing takes time linear in its result.
-/

namespace LexicalScope.Json

/-- Writes one character of a string: controls, quotes and backslashes are escaped. -/
def writeChar (c : Char) (rest : List Char) : List Char :=
  match escapeOf c with
  | some escape => '\\' :: escape :: rest
  | none =>
    if c.toNat < 0x20 then
      '\\' :: 'u' :: '0' :: '0' :: Nat.digitChar (c.toNat / 16) :: Nat.digitChar (c.toNat % 16) ::
        rest
    else
      c :: rest

/-- Writes a string in quotes. -/
def writeString (value : String) (rest : List Char) : List Char :=
  '"' :: value.toList.foldr writeChar ('"' :: rest)

mutual

/-- Writes a value without blanks. -/
def write : Json → List Char → List Char
  | null, rest => 'n' :: 'u' :: 'l' :: 'l' :: rest
  | bool true, rest => 't' :: 'r' :: 'u' :: 'e' :: rest
  | bool false, rest => 'f' :: 'a' :: 'l' :: 's' :: 'e' :: rest
  | natural value, rest => Nat.toDigits 10 value ++ rest
  | number lexeme, rest => lexeme.toList ++ rest
  | string value, rest => writeString value rest
  | array items, rest => '[' :: writeItems items (']' :: rest)
  | object members, rest => '\x7b' :: writeMembers members ('\x7d' :: rest)

/-- Writes the items of an array with commas between them. -/
def writeItems : List Json → List Char → List Char
  | [], rest => rest
  | [item], rest => item.write rest
  | item :: items, rest => item.write (',' :: writeItems items rest)

/-- Writes the members of an object with commas between them. -/
def writeMembers : List (String × Json) → List Char → List Char
  | [], rest => rest
  | [(name, value)], rest => writeString name (':' :: value.write rest)
  | (name, value) :: members, rest =>
    writeString name (':' :: value.write (',' :: writeMembers members rest))

end

/-- The text of a value without blanks. -/
def compact (value : Json) : String :=
  String.ofList (value.write [])

/-- Starts a line indented by two blanks a level. -/
def newLine (level : Nat) (rest : List Char) : List Char :=
  '\n' :: (List.replicate (2 * level) ' ' ++ rest)

mutual

/-- Writes a value over several lines; `level` is its indentation. -/
def writeLines (level : Nat) : Json → List Char → List Char
  | array [], rest => '[' :: ']' :: rest
  | array items, rest =>
    '[' :: newLine (level + 1) (writeItemLines (level + 1) items (newLine level (']' :: rest)))
  | object [], rest => '\x7b' :: '\x7d' :: rest
  | object members, rest =>
    '\x7b' ::
      newLine (level + 1) (writeMemberLines (level + 1) members (newLine level ('\x7d' :: rest)))
  | null, rest => write null rest
  | bool value, rest => write (bool value) rest
  | natural value, rest => write (natural value) rest
  | number lexeme, rest => write (number lexeme) rest
  | string value, rest => write (string value) rest

/-- Writes the items of an array, each on its own line. -/
def writeItemLines (level : Nat) : List Json → List Char → List Char
  | [], rest => rest
  | [item], rest => item.writeLines level rest
  | item :: items, rest =>
    item.writeLines level (',' :: newLine level (writeItemLines level items rest))

/-- Writes the members of an object, each on its own line. -/
def writeMemberLines (level : Nat) : List (String × Json) → List Char → List Char
  | [], rest => rest
  | [(name, value)], rest => writeString name (':' :: ' ' :: value.writeLines level rest)
  | (name, value) :: members, rest =>
    writeString name
      (':' :: ' ' :: value.writeLines level
        (',' :: newLine level (writeMemberLines level members rest)))

end

/-- The text of a value with each item and member on a line of its own. -/
def pretty (value : Json) : String :=
  String.ofList (value.writeLines 0 [])

end LexicalScope.Json
