import LexicalScope.CommandLine.Reading
import LexicalScope.Run.Basic

/-!
# Command line program

Reads the command line, runs it on the files of the machine, and prints the result. A failure is
printed on the standard error.
-/

namespace LexicalScope.Program

/-- How the program is used. -/
def help : String :=
  "\n".intercalate
    ["Scope checker for pattern variables and output arguments",
      "",
      "Usage: exscope [OPTIONS] [FILES]...",
      "",
      "Options:",
      "  -c, --config <CONFIG>            Path to exscope.json or a directory containing it",
      "      --show-config                Print the final configuration instead of analyzing",
      "      --format <FORMAT>            Diagnostic output format: text or json",
      "      --pretty <PRETTY>            Enable color in text output: true or false",
      "      --dump-scopes                Print the scope tree of every procedure",
      "      --warn-nested-bleed <DEPTH>  Warn about declarations reaching that far out",
      "      --check-references           Report references that resolve to no declaration",
      "      --globals <GLOBALS>          Names that are always in scope, with commas between them",
      "      --max-nesting-depth <DEPTH>  Deepest statement nesting accepted",
      "  -j, --threads <THREADS>          Number of worker threads",
      "  -h, --help                       Print help",
      "  -V, --version                    Print version"]

/-- The name of the program and its version. -/
def version : String := "exscope 0.1.0"

/-- The fault behind an error of the machine. -/
def fileFault : IO.Error → FileFault
  | .noFileOrDirectory _ _ _ => .notFound
  | error => .other (toString error)

/-- Whether a directory of the machine has a path. -/
def isDirectory (path : String) : IO Bool := do
  try
    (← IO.FS.realPath path).isDir
  catch _ =>
    return false

/-- Whether a file of the machine has a path. -/
def isFile (path : String) : IO Bool := do
  if ← isDirectory path then
    return false
  try
    IO.FS.withFile path .read fun _ => return true
  catch _ =>
    return false

/-- The text of a file of the machine. -/
def readFile (path : String) : IO (Except FileFault String) := do
  if ← isDirectory path then
    return .error .isDirectory
  try
    return .ok (← IO.FS.readFile path)
  catch error =>
    return .error (fileFault error)

/-- Access to the files of the machine. -/
def files : FileAccess IO := ⟨isDirectory, isFile, readFile⟩

/-- The words for a fault of a file. -/
def fileWording : FileFault → String
  | .notFound => "No such file or directory"
  | .isDirectory => "Is a directory"
  | .notDirectory => "Not a directory"
  | .tooLong => "File name too long"
  | .zeroInPath => "file name contained an unexpected NUL byte"
  | .other reason => reason

/-- The words for a fault of a JSON text. -/
def jsonWording : JsonFault → String
  | .malformed => "the text is not JSON"
  | .truncated => "the text ends early"
  | .mismatched => "the value has another shape"
  | .refused text => "unknown value '" ++ text ++ "'"

/-- The words of the program for causes. -/
def wording : CauseWording := ⟨fileWording, jsonWording⟩

/-- Prints why there is no result. -/
def fail (message : String) : IO UInt32 := do
  IO.eprintln ("error: " ++ message)
  return UInt32.ofNat RunResult.failed

/-- Runs a command line. -/
def runLine (line : CommandLine) : IO UInt32 := do
  let directory ← IO.currentDir
  let isTerminal ← (← IO.getStdout).isTty
  match ← (line.run files directory.toString isTerminal).run with
  | .error failure => fail (failure.message wording)
  | .ok result =>
    IO.print result.output
    return UInt32.ofNat result.exitCode

end LexicalScope.Program

open LexicalScope in
/-- Reads the command line and runs it. -/
def main (arguments : List String) : IO UInt32 :=
  match CommandLine.read arguments with
  | .error (.answered .help) => do
    IO.println Program.help
    return UInt32.ofNat RunResult.success
  | .error (.answered .version) => do
    IO.println Program.version
    return UInt32.ofNat RunResult.success
  | .error (.misused misuse) => Program.fail misuse.message
  | .ok line => Program.runLine line
