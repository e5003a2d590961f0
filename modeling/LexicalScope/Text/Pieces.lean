/-!
# Pieces of a text

A text cut at each occurrence of a character. There is one piece more than there are cuts, so the
empty text is one empty piece.
-/

namespace LexicalScope.Text

/-- The pieces of a text between the occurrences of `separator`. -/
def pieces (separator : Char) : List Char → List (List Char)
  | [] => [[]]
  | c :: rest =>
    if c == separator then
      [] :: pieces separator rest
    else
      match pieces separator rest with
      | [] => [[c]]
      | piece :: more => (c :: piece) :: more

/-- The pieces of a string. -/
def split (separator : Char) (text : String) : List String :=
  (pieces separator text.toList).map String.ofList

end LexicalScope.Text
