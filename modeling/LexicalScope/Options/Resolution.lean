import LexicalScope.CommandLine.Basic
import LexicalScope.Files.Path
import LexicalScope.Run.Failure
import LexicalScope.Text.Blank

/-!
# Options of a command line

The options file of a run is the one that the command line names, or the nearest one in the directory
of the first file or around it. What the command line says itself comes on top: flags only switch
checks on, and global names are added to those of the file.
-/

namespace LexicalScope

namespace Options

/-- Adds a name without its blank ends, unless nothing is left of it or it is known. -/
def addGlobal (globals : List String) (name : String) : List String :=
  let name := Text.trim name
  if name.isEmpty || globals.contains name then globals else globals ++ [name]

/-- The options with what a command line says on top of them. -/
def override (options : Options) (line : CommandLine) : Except OptionsFault Options :=
  let settings := options.settings
  validate
    { options with
      settings :=
        ⟨line.bleedThreshold.or settings.bleedThreshold,
          settings.checksReferences || line.checksReferences,
          (line.globals.getD []).foldl addGlobal settings.globals,
          line.nestingLimit.getD settings.nestingLimit⟩
      dumpsScopes := options.dumpsScopes || line.dumpsScopes }

end Options

/-- The outcome of an action that can fail. -/
abbrev RunAction (m : Type → Type) := ExceptT RunFailure m

namespace RunAction

variable {m : Type → Type} [Monad m]

/-- An outcome that is known already; a fault becomes a failure. -/
def ofExcept {ε α : Type} (failure : ε → RunFailure) : Except ε α → RunAction m α
  | .ok value => pure value
  | .error fault => throw (failure fault)

end RunAction

namespace OptionsFile

variable {m : Type → Type} [Monad m]

/-- The options file in a directory, or the path itself if it is no directory. -/
def place (access : FileAccess m) (path : String) : m String := do
  if ← access.isDirectory path then return Path.join path fileName else return path

/-- Reads the options file in a directory, or the one with this path. -/
def load (access : FileAccess m) (path : String) : RunAction m OptionsFile := do
  let file ← (place access path : m String)
  let outcome ← (access.read file : m (Except FileFault String))
  let text ← RunAction.ofExcept (.unreadable file) outcome
  RunAction.ofExcept (.badOptionsFile file) (parse text)

/-- The first of some directories in which an options file lies, as the path of that file. -/
def findIn (access : FileAccess m) : List String → m (Option String)
  | [] => return none
  | directory :: rest => do
    let candidate := Path.join directory fileName
    if ← access.isFile candidate then return some candidate else findIn access rest

/-- The options file nearest to a directory. -/
def findNear (access : FileAccess m) (directory : String) : m (Option String) :=
  findIn access (Path.withAncestors directory)

end OptionsFile

namespace CommandLine

variable {m : Type → Type} [Monad m]

/-- The directory from which the options file is looked for: that of the first file, or the working
directory if there is none. -/
def searchStart (line : CommandLine) (directory : String) : String :=
  match line.files with
  | [] => directory
  | file :: _ => (Path.parent? (Path.join directory file)).getD directory

/-- The path of the options file of a command line given in a directory. -/
def optionsFile (access : FileAccess m) (directory : String) (line : CommandLine) :
    m (Option String) := do
  match line.optionsPath with
  | some path => return some (← OptionsFile.place access (Path.join directory path))
  | none => OptionsFile.findNear access (line.searchStart directory)

/-- The options of a command line given in a directory. -/
def options (access : FileAccess m) (directory : String) (line : CommandLine) :
    RunAction m Options := do
  let source ← (line.optionsFile access directory : m (Option String))
  let found ←
    match source with
    | none => pure Options.default
    | some path => do
      let file ← OptionsFile.load access path
      RunAction.ofExcept .badOptions (Options.ofFile file)
  RunAction.ofExcept .badOptions (Options.override { found with source := source } line)

end CommandLine

end LexicalScope
