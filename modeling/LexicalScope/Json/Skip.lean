import LexicalScope.Json.Reader

/-!
# Skipped JSON values

A value that nobody asks for is skipped: its text has to be well formed, but nothing of it is held.
So its nesting and the size of its numbers have no bound, an escape need not stand for a character,
and a number is malformed wherever it stops too early.
-/

namespace LexicalScope.Json

/-- Skips an escape behind its backslash. -/
def skipEscape : Reader Unit
  | [] => .error .truncated
  | c :: text =>
    if (escaped c).isSome then
      .ok ((), text)
    else if c == 'u' then
      match readQuad text with
      | .error fault => .error fault
      | .ok (_, rest) => .ok ((), rest)
    else
      .error .malformed

/-- Skips the characters of a string up to its closing quote. -/
def skipString : Nat → Reader Unit
  | 0, _ => .error .truncated
  | _ + 1, [] => .error .truncated
  | fuel + 1, c :: text =>
    if c == '"' then
      .ok ((), text)
    else if c == '\\' then
      match skipEscape text with
      | .error fault => .error fault
      | .ok ((), rest) => skipString fuel rest
    else if c.toNat < 0x20 then
      .error .malformed
    else
      skipString fuel text

/-- Skips a number. -/
def skipNumber : Reader Unit := fun text =>
  match readNumeral text with
  | .error _ => .error .malformed
  | .ok (_, rest) => .ok ((), rest)

/-- Skips an item of an array. -/
def skipItem (value : Reader Unit) (_ : Unit) : Reader Unit := value

/-- Skips a member of an object. -/
def skipMember (fuel : Nat) (value : Reader Unit) (_ : Unit) : Reader Unit
  | [] => .error .truncated
  | c :: text =>
    if c == '"' then
      match skipString fuel text with
      | .error fault => .error fault
      | .ok ((), rest) =>
        match readColon rest with
        | .error fault => .error fault
        | .ok ((), rest) => value rest
    else
      .error .malformed

/-- Skips a value in a text of fewer than `size` characters; at most `fuel` arrays and objects stand
around its innermost value. -/
def skipValue (size : Nat) : Nat → Reader Unit
  | 0, _ => .error .truncated
  | fuel + 1, text =>
    match dropGap text with
    | [] => .error .truncated
    | c :: text =>
      if c == 'n' then readWord ['u', 'l', 'l'] text
      else if c == 't' then readWord ['r', 'u', 'e'] text
      else if c == 'f' then readWord ['a', 'l', 's', 'e'] text
      else if c == '"' then skipString size text
      else if c == '-' || c.isDigit then skipNumber (c :: text)
      else if c == '[' then
        readSequence ']' (fun _ => true) (skipItem (skipValue size fuel)) size () text
      else if c == '\x7b' then
        readSequence '\x7d' (· == '"') (skipMember size (skipValue size fuel)) size () text
      else
        .error .malformed

end LexicalScope.Json
