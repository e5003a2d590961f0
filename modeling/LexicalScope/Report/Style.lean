import LexicalScope.Text.Template

/-!
# Colored text

Terminal styles. A styled text opens with the codes of its style and closes with a reset; a reset
inside the text is followed by the codes again.
-/

namespace LexicalScope

/-- A terminal style, as the codes that switch it on. -/
structure Style where
  /-- The codes, with semicolons between them. -/
  codes : String
deriving DecidableEq, Repr

namespace Style

/-- The style of places. -/
def place : Style := ⟨"36"⟩

/-- The style of message codes. -/
def code : Style := ⟨"94"⟩

/-- The style of headings. -/
def heading : Style := ⟨"1"⟩

/-- The style of what is less important. -/
def faint : Style := ⟨"2"⟩

/-- The style of an error. -/
def error : Style := ⟨"1;31"⟩

/-- The style of the word for a warning. -/
def warning : Style := ⟨"1;33"⟩

/-- The style of the word for a suggestion. -/
def suggestion : Style := ⟨"1;34"⟩

/-- The style of the word for a message. -/
def message : Style := ⟨"1;36"⟩

/-- The style of a summary with warnings and no error. -/
def caution : Style := ⟨"33"⟩

/-- The style of a summary with neither. -/
def success : Style := ⟨"32"⟩

/-- What switches a style on. -/
def opening (style : Style) : String := "\x1b[" ++ style.codes ++ "m"

/-- What switches every style off. -/
def reset : String := "\x1b[0m"

/-- A text in a style, or the plain text without color. -/
def apply (style : Style) (color : Bool) (text : String) : String :=
  if color then
    let inner :=
      Text.replaceAll reset.toList (reset.toList ++ style.opening.toList) text.toList
    style.opening ++ String.ofList inner ++ reset
  else
    text

end Style

end LexicalScope
