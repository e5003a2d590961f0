import LexicalScope.Text.Blank

/-!
# Layouts of a log
-/

namespace LexicalScope

/-- How the events of a log are laid out. -/
inductive LogFormat where
  /-- One line for each event. -/
  | text
  /-- Events indented below what they happen in. -/
  | tree
  /-- One JSON object for each event. -/
  | json
deriving DecidableEq, Repr

/-- The layout that a word names; plain text unless it names another. -/
def LogFormat.ofText (word : String) : LogFormat :=
  match Text.wordKey word with
  | "tree" => .tree
  | "json" => .json
  | _ => .text

end LexicalScope
