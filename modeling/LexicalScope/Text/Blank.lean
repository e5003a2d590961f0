/-!
# Blank characters

The characters that trimming removes, and the text without them at its ends.
-/

namespace LexicalScope.Text

/-- The characters with the property of white space. -/
def isBlank (c : Char) : Bool :=
  let code := c.toNat
  (9 ≤ code && code ≤ 13) || code == 0x20 || code == 0x85 || code == 0xA0 || code == 0x1680 ||
    (0x2000 ≤ code && code ≤ 0x200A) || code == 0x2028 || code == 0x2029 || code == 0x202F ||
    code == 0x205F || code == 0x3000

/-- The characters from the first to the last that is not blank. -/
def trimChars (text : List Char) : List Char :=
  ((text.dropWhile isBlank).reverse.dropWhile isBlank).reverse

/-- A text without the blank characters at its ends. -/
def trim (text : String) : String :=
  String.ofList (trimChars text.toList)

/-- Blank ends removed and the letters `A` to `Z` made small: the key by which a word is known. -/
def wordKey (text : String) : String :=
  String.ofList ((trimChars text.toList).map Char.toLower)

end LexicalScope.Text
