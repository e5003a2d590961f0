/-!
# Access to files

What a run needs to know of files, in any monad: the files of the machine, or files held in memory.
-/

namespace LexicalScope

/-- Why a file cannot be read. -/
inductive FileFault where
  /-- Nothing has this path. -/
  | notFound
  /-- A directory has this path. -/
  | isDirectory
  /-- A file is used as a directory. -/
  | notDirectory
  /-- The path, or a name in it, is longer than it may be. -/
  | tooLong
  /-- The path holds the character zero. -/
  | zeroInPath
  /-- Anything else, in the words of the machine. -/
  | other (reason : String)
deriving DecidableEq, Repr

/-- What a run needs to know of files. -/
structure FileAccess (m : Type → Type) where
  /-- Whether a directory has a path. -/
  isDirectory : String → m Bool
  /-- Whether a file has a path. -/
  isFile : String → m Bool
  /-- The text of the file with a path. -/
  read : String → m (Except FileFault String)

end LexicalScope
