import LexicalScope.Text.Pieces

/-!
# Paths

Paths are names with slashes between them, taken as they are written: no name is looked up, and `..`
is a name like any other. Directories around a path are named by a shorter path of the same text.
-/

namespace LexicalScope.Path

/-- Whether a path starts at the root. -/
def isAbsolute (path : String) : Bool := path.toList.head? == some '/'

/-- A path taken from a directory; one that starts at the root stands for itself. -/
def join (directory path : String) : String :=
  if isAbsolute path then path
  else if directory.isEmpty || directory.toList.getLast? == some '/' then directory ++ path
  else directory ++ "/" ++ path

/-- Whether a name stays where it is: the empty name or a single dot. -/
def isIdle (name : List Char) : Bool := name == [] || name == ['.']

/-- The directory around a path that starts at the root; the root itself has none. Names that stay
where they are do not count at the end of either path. -/
def parent? (path : String) : Option String :=
  match (Text.pieces '/' (path.toList.drop 1)).reverse.dropWhile isIdle with
  | [] => none
  | _ :: before =>
    let names := (before.dropWhile isIdle).reverse
    some (String.ofList ('/' :: ['/'].intercalate names))

/-- At most `count` paths: a path, the directory around it, and so on outwards. -/
def outwards : Nat → String → List String
  | 0, _ => []
  | count + 1, path =>
    path ::
      match parent? path with
      | none => []
      | some directory => outwards count directory

/-- A path and all directories around it, from the inside out. -/
def withAncestors (path : String) : List String := outwards (path.length + 1) path

end LexicalScope.Path
