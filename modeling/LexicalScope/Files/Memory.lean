import LexicalScope.Files.Access
import LexicalScope.Text.Pieces

/-!
# Files in memory

Files with their texts, in the directories that their paths name. Looking a path up follows it name
by name, so a path through a file, or through a directory that does not exist, leads nowhere.
-/

namespace LexicalScope

/-- Files below the root. -/
structure FileSet where
  /-- The names that lead to a directory that exists even without files in it. -/
  home : List String
  /-- The names that lead to each file, and its text. -/
  files : List (List String × String)

namespace FileSet

/-- The greatest number of bytes in a name. -/
def nameLimit : Nat := 255

/-- The greatest number of bytes in a path, as it is written. -/
def pathLimit : Nat := 4095

/-- Whether a directory has these names. -/
def hasDirectory (set : FileSet) (names : List String) : Bool :=
  names.isPrefixOf set.home ||
    set.files.any fun file => names.isPrefixOf file.1 && names.length < file.1.length

/-- The text of the file with these names. -/
def text? (set : FileSet) (names : List String) : Option String :=
  (set.files.find? fun file => file.1 == names).map (·.2)

/-- Follows the names of a path from where `names` lead. -/
def follow (set : FileSet) : List String → List String → Except FileFault (List String)
  | names, [] => .ok names
  | names, name :: rest =>
    if !set.hasDirectory names then .error .notDirectory
    else if name = "" ∨ name = "." then set.follow names rest
    else if name = ".." then set.follow names.dropLast rest
    else if nameLimit < name.utf8ByteSize then .error .tooLong
    else
      let next := names ++ [name]
      if set.hasDirectory next || (set.text? next).isSome then set.follow next rest
      else .error .notFound

/-- The names that a path leads to, followed from the root. A path that holds the character zero or
is too long is refused before any name of it is followed. -/
def lookUp (set : FileSet) (path : String) : Except FileFault (List String) :=
  if path.toList.contains '\x00' then .error .zeroInPath
  else if pathLimit < path.utf8ByteSize then .error .tooLong
  else set.follow [] (Text.split '/' path)

/-- Whether a directory has this path. -/
def isDirectory (set : FileSet) (path : String) : Bool :=
  match set.lookUp path with
  | .ok names => set.hasDirectory names
  | .error _ => false

/-- Whether a file has this path. -/
def isFile (set : FileSet) (path : String) : Bool :=
  match set.lookUp path with
  | .ok names => (set.text? names).isSome
  | .error _ => false

/-- The text of the file with this path. -/
def read (set : FileSet) (path : String) : Except FileFault String := do
  let names ← set.lookUp path
  match set.text? names with
  | some text => return text
  | none => throw .isDirectory

/-- Access to the files of a set. -/
def access (set : FileSet) : FileAccess Id :=
  ⟨set.isDirectory, set.isFile, set.read⟩

end FileSet

end LexicalScope
