import LexicalScope.Json.Basic
import LexicalScope.Limit

/-!
# Reading JSON text

A reader takes the characters ahead and gives a value with the characters behind it, or the fault
that was met first. Loops are bounded by `fuel`, which the callers take from the length of the text;
nesting is bounded by a depth that counts down.
-/

namespace LexicalScope.Json

/-- A reader of one thing from the characters ahead. -/
abbrev Reader (α : Type) := List Char → Except JsonFault (α × List Char)

/-- The blanks that may stand between the parts of a JSON text. -/
def isGap (c : Char) : Bool :=
  c == ' ' || c == '\n' || c == '\t' || c == '\r'

/-- The text from its first character that is no gap. -/
def dropGap (text : List Char) : List Char :=
  text.dropWhile isGap

/-- Reads exactly the characters of a word. -/
def readWord : List Char → Reader Unit
  | [], text => .ok ((), text)
  | _ :: _, [] => .error .truncated
  | expected :: word, c :: text =>
    if c == expected then readWord word text else .error .malformed

/-! ## Strings -/

/-- The value of a hexadecimal digit. -/
def hexValue (c : Char) : Option Nat :=
  if '0' ≤ c ∧ c ≤ '9' then some (c.toNat - '0'.toNat)
  else if 'a' ≤ c ∧ c ≤ 'f' then some (c.toNat - 'a'.toNat + 10)
  else if 'A' ≤ c ∧ c ≤ 'F' then some (c.toNat - 'A'.toNat + 10)
  else none

/-- The value of four hexadecimal digits. -/
def hexQuad (a b c d : Char) : Option Nat := do
  return (((← hexValue a) * 16 + (← hexValue b)) * 16 + (← hexValue c)) * 16 + (← hexValue d)

/-- The number of bytes of a text. -/
def byteCount (text : List Char) : Nat :=
  text.foldl (fun count c => count + c.utf8Size) 0

/-- Reads four hexadecimal digits; a text with fewer than four bytes left stops too early. -/
def readQuad : Reader Nat
  | a :: b :: c :: d :: text =>
    match hexQuad a b c d with
    | some value => .ok (value, text)
    | none => .error .malformed
  | text => if byteCount text < 4 then .error .truncated else .error .malformed

/-- Whether a sixteen-bit unit is the first half of a pair. -/
def isHighHalf (unit : Nat) : Bool := 0xD800 ≤ unit && unit ≤ 0xDBFF

/-- Whether a sixteen-bit unit is the second half of a pair. -/
def isLowHalf (unit : Nat) : Bool := 0xDC00 ≤ unit && unit ≤ 0xDFFF

/-- The character that two halves stand for. -/
def joinHalves (high low : Nat) : Char :=
  Char.ofNat (0x10000 + (high - 0xD800) * 0x400 + (low - 0xDC00))

/-- Reads the second half of a pair, which has to follow as an escape of its own. -/
def readLowHalf (high : Nat) : Reader Char
  | [] => .error .truncated
  | '\\' :: text =>
    match text with
    | [] => .error .truncated
    | 'u' :: text =>
      match readQuad text with
      | .error fault => .error fault
      | .ok (low, rest) =>
        if isLowHalf low then .ok (joinHalves high low, rest) else .error .malformed
    | _ => .error .malformed
  | _ => .error .malformed

/-- The character that a one-letter escape stands for. -/
def escaped : Char → Option Char
  | '"' => some '"'
  | '\\' => some '\\'
  | '/' => some '/'
  | 'b' => some '\x08'
  | 'f' => some '\x0c'
  | 'n' => some '\n'
  | 'r' => some '\r'
  | 't' => some '\t'
  | _ => none

/-- Reads an escape behind its backslash; a half without its other half is refused. -/
def readEscape : Reader Char
  | [] => .error .truncated
  | c :: text =>
    match escaped c with
    | some value => .ok (value, text)
    | none =>
      if c == 'u' then
        match readQuad text with
        | .error fault => .error fault
        | .ok (unit, rest) =>
          if isLowHalf unit then .error .malformed
          else if isHighHalf unit then readLowHalf unit rest
          else .ok (Char.ofNat unit, rest)
      else
        .error .malformed

/-- Reads the characters of a string up to its closing quote; `read` holds those before, last
first. -/
def readChars : Nat → List Char → Reader (List Char)
  | 0, _, _ => .error .truncated
  | _ + 1, _, [] => .error .truncated
  | fuel + 1, read, c :: text =>
    if c == '"' then
      .ok (read.reverse, text)
    else if c == '\\' then
      match readEscape text with
      | .error fault => .error fault
      | .ok (value, rest) => readChars fuel (value :: read) rest
    else if c.toNat < 0x20 then
      .error .malformed
    else
      readChars fuel (c :: read) text

/-- Reads a string behind its opening quote. -/
def readString (fuel : Nat) : Reader String := fun text =>
  match readChars fuel [] text with
  | .error fault => .error fault
  | .ok (chars, rest) => .ok (String.ofList chars, rest)

/-! ## Numbers -/

/-- The value of a run of digits. -/
def digitsValue (digits : List Char) : Nat :=
  digits.foldl (fun value c => value * 10 + (c.toNat - '0'.toNat)) 0

/-- Half a unit above the largest number that can be held: no number from here on can be. -/
def magnitudeLimit : Nat := Nat.pow 2 1024 - Nat.pow 2 970

/-- The greatest power of ten that can be held. -/
def scaleLimit : Int := 308

/-- A number to fifty-three significant bits; a tie goes to the even neighbour. -/
def roundBits (value : Nat) : Nat :=
  let unit := Nat.pow 2 (value.log2 - 52)
  let kept := value / unit
  let rest := value % unit
  if unit < 2 * rest || (unit == 2 * rest && kept % 2 == 1) then (kept + 1) * unit else kept * unit

/-- Appends digits to a value as long as it fits into sixty-four bits; gives the value and how many
digits were appended. -/
def appendDigits (value : Nat) : List Char → Nat × Nat
  | [] => (value, 0)
  | c :: rest =>
    let next := value * 10 + (c.toNat - '0'.toNat)
    if next < Limit.wideNumber then
      let (result, count) := appendDigits next rest
      (result, count + 1)
    else
      (value, 0)

/-- The parts of a number as they stand in the text. -/
structure Numeral where
  /-- Whether a minus stands in front. -/
  negative : Bool
  /-- The digits before the point. -/
  whole : List Char
  /-- The digits behind the point, none without a point. -/
  fraction : List Char
  /-- The exponent, if one is written. -/
  exponent : Option Int
  /-- All characters of the number. -/
  lexeme : List Char

/-- The value of a numeral: digits alone give a natural number. -/
def Numeral.toJson (numeral : Numeral) : Json :=
  if numeral.negative || !numeral.fraction.isEmpty || numeral.exponent.isSome then
    number (String.ofList numeral.lexeme)
  else
    natural (digitsValue numeral.whole)

/-- Whether a numeral is too large to be held. What is held are its leading digits and a power of
ten, each rounded on its own; the numeral is too large if the power or the product is. -/
def Numeral.isOutOfRange (numeral : Numeral) : Bool :=
  let (front, wholeCount) := appendDigits 0 numeral.whole
  let (value, fractionCount) := appendDigits front numeral.fraction
  let scale : Int :=
    (numeral.whole.length : Int) - wholeCount - fractionCount + numeral.exponent.getD 0
  value != 0 && decide (0 ≤ scale) &&
    (decide (scaleLimit < scale) ||
      decide (magnitudeLimit ≤ roundBits value * roundBits (Nat.pow 10 scale.toNat)))

/-- Reads a non-empty run of digits. -/
def readDigits : Reader (List Char)
  | [] => .error .truncated
  | c :: text =>
    if c.isDigit then
      .ok (c :: text.takeWhile Char.isDigit, text.dropWhile Char.isDigit)
    else
      .error .malformed

/-- Reads the digits before the point; a zero stands alone. -/
def readWhole : Reader (List Char) := fun text =>
  match readDigits text with
  | .error fault => .error fault
  | .ok (digits, rest) =>
    if digits.head? == some '0' && 1 < digits.length then .error .malformed
    else .ok (digits, rest)

/-- Reads a point and the digits behind it, if a point is next. -/
def readFraction : Reader (List Char)
  | '.' :: text => readDigits text
  | text => .ok ([], text)

/-- Reads a mark of exponent, its sign and its digits, if a mark is next. -/
def readExponent : Reader (Option Int)
  | c :: text =>
    if c == 'e' || c == 'E' then
      let (negative, digits) :=
        match text with
        | '-' :: rest => (true, rest)
        | '+' :: rest => (false, rest)
        | _ => (false, text)
      match readDigits digits with
      | .error fault => .error fault
      | .ok (read, rest) =>
        let size : Int := digitsValue read
        .ok (some (if negative then -size else size), rest)
    else
      .ok (none, c :: text)
  | [] => .ok (none, [])

/-- Reads the parts of a number. -/
def readNumeral : Reader Numeral := fun text => do
  let (negative, body) :=
    match text with
    | '-' :: rest => (true, rest)
    | _ => (false, text)
  let (whole, afterWhole) ← readWhole body
  let (fraction, afterFraction) ← readFraction afterWhole
  let (exponent, rest) ← readExponent afterFraction
  return (⟨negative, whole, fraction, exponent, text.take (text.length - rest.length)⟩, rest)

/-- Reads a number that can be held. -/
def readNumber : Reader Json := fun text =>
  match readNumeral text with
  | .error fault => .error fault
  | .ok (numeral, rest) =>
    if numeral.isOutOfRange then .error .malformed else .ok (numeral.toJson, rest)

/-! ## Arrays and objects -/

/-- Reads what follows an element: the closing character, or a comma and the next element. -/
def readMore {σ : Type} (close : Char) (starts : Char → Bool) (step : σ → Reader σ) :
    Nat → σ → Reader σ
  | 0, _, _ => .error .truncated
  | fuel + 1, state, text =>
    match dropGap text with
    | [] => .error .truncated
    | c :: text =>
      if c == close then
        .ok (state, text)
      else if c == ',' then
        match dropGap text with
        | [] => .error .truncated
        | d :: text =>
          if d == close || !starts d then
            .error .malformed
          else
            match step state (d :: text) with
            | .error fault => .error fault
            | .ok (next, rest) => readMore close starts step fuel next rest
      else
        .error .malformed

/-- Reads elements with commas between them up to the closing character. `step` reads one element
and adds it to the state; `starts` says which characters may begin one. -/
def readSequence {σ : Type} (close : Char) (starts : Char → Bool) (step : σ → Reader σ)
    (fuel : Nat) (state : σ) : Reader σ := fun text =>
  match dropGap text with
  | [] => .error .truncated
  | c :: text =>
    if c == close then
      .ok (state, text)
    else if starts c then
      match step state (c :: text) with
      | .error fault => .error fault
      | .ok (next, rest) => readMore close starts step fuel next rest
    else
      .error .malformed

/-- Reads the items of an array behind its bracket. -/
def readItems (item : Reader Json) (fuel : Nat) : Reader (List Json) := fun text =>
  let step (items : List Json) : Reader (List Json) := fun text =>
    match item text with
    | .error fault => .error fault
    | .ok (value, rest) => .ok (value :: items, rest)
  match readSequence ']' (fun _ => true) step fuel [] text with
  | .error fault => .error fault
  | .ok (items, rest) => .ok (items.reverse, rest)

/-- Reads the colon between a name and its value. -/
def readColon : Reader Unit := fun text =>
  match dropGap text with
  | [] => .error .truncated
  | c :: rest => if c == ':' then .ok ((), rest) else .error .malformed

/-- Reads a name with its quotes. -/
def readName (fuel : Nat) : Reader String
  | [] => .error .truncated
  | c :: text => if c == '"' then readString fuel text else .error .malformed

/-- Reads the members of an object behind its brace. -/
def readMembers (item : Reader Json) (fuel : Nat) : Reader (List (String × Json)) := fun text =>
  let step (members : List (String × Json)) : Reader (List (String × Json)) := fun text => do
    let (name, text) ← readName fuel text
    let ((), text) ← readColon text
    let (value, text) ← item text
    return ((name, value) :: members, text)
  match readSequence '\x7d' (· == '"') step fuel [] text with
  | .error fault => .error fault
  | .ok (members, rest) => .ok (members.reverse, rest)

/-- Reads a value that stands for one of JSON's three words. -/
def readConstant (word : List Char) (value : Json) : Reader Json := fun text =>
  match readWord word text with
  | .error fault => .error fault
  | .ok ((), rest) => .ok (value, rest)

/-- Reads a value whose arrays and objects nest at most `depth` deep. -/
def readValue (fuel : Nat) : Nat → Reader Json
  | depth, text =>
    match dropGap text with
    | [] => .error .truncated
    | c :: text =>
      if c == 'n' then readConstant ['u', 'l', 'l'] null text
      else if c == 't' then readConstant ['r', 'u', 'e'] (bool true) text
      else if c == 'f' then readConstant ['a', 'l', 's', 'e'] (bool false) text
      else if c == '"' then
        match readString fuel text with
        | .error fault => .error fault
        | .ok (value, rest) => .ok (string value, rest)
      else if c == '-' || c.isDigit then readNumber (c :: text)
      else if c == '[' then
        match depth with
        | 0 => .error .malformed
        | below + 1 =>
          match readItems (readValue fuel below) fuel text with
          | .error fault => .error fault
          | .ok (items, rest) => .ok (array items, rest)
      else if c == '\x7b' then
        match depth with
        | 0 => .error .malformed
        | below + 1 =>
          match readMembers (readValue fuel below) fuel text with
          | .error fault => .error fault
          | .ok (members, rest) => .ok (object members, rest)
      else
        .error .malformed

/-- Reads the value at the start of a text whose arrays and objects nest at most `depth` deep. -/
def readFront (depth : Nat) (text : String) : Except JsonFault (Json × List Char) :=
  let chars := text.toList
  readValue (chars.length + 1) depth chars

/-- Refuses anything but gaps behind a value. -/
def checkEnd (text : List Char) : Except JsonFault Unit :=
  if (dropGap text).isEmpty then .ok () else .error .malformed

/-- The value that makes up a whole text. -/
def parse (depth : Nat) (text : String) : Except JsonFault Json := do
  let (value, rest) ← readFront depth text
  checkEnd rest
  return value

end LexicalScope.Json
