/-!
# Message templates

A template holds numbered placeholders such as a zero in braces. They are filled one number after
the other over the whole text, so text brought in by an early argument can be filled again.
-/

namespace LexicalScope.Text

/-- Replaces each occurrence of `pattern`, left to right and without overlap, where `skip` counts
the characters still covered by the last occurrence. -/
def replaceFrom (pattern replacement : List Char) : Nat → List Char → List Char
  | _, [] => []
  | skip + 1, _ :: rest => replaceFrom pattern replacement skip rest
  | 0, c :: rest =>
    if pattern.isPrefixOf (c :: rest) then
      replacement ++ replaceFrom pattern replacement (pattern.length - 1) rest
    else
      c :: replaceFrom pattern replacement 0 rest

/-- Replaces each occurrence of a non-empty pattern. -/
def replaceAll (pattern replacement text : List Char) : List Char :=
  replaceFrom pattern replacement 0 text

/-- The placeholder of argument `index`: its number in braces. -/
def placeholder (index : Nat) : List Char :=
  '{' :: (Nat.toDigits 10 index ++ ['}'])

/-- Fills the placeholders from `index` on, one argument after the other. -/
def fillFrom : Nat → List String → List Char → List Char
  | _, [], text => text
  | index, argument :: rest, text =>
    fillFrom (index + 1) rest (replaceAll (placeholder index) argument.toList text)

/-- A template with its arguments filled in. -/
def fill (template : String) (arguments : List String) : String :=
  String.ofList (fillFrom 0 arguments template.toList)

end LexicalScope.Text
