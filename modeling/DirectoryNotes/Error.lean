import DirectoryNotes.FileTree.Basic

/-!
# Failures

The ways in which an operation of this library can fail, and the words for each of them.
-/

namespace DirectoryNotes

/-- Why an operation failed. -/
inductive Failure where
  /-- The file tree refused something. -/
  | file (error : FileError)
  /-- A project without a configuration. -/
  | notInitialized (root : Path)
  /-- A configuration, a mode or a path that makes no sense. -/
  | config (reason : String)
  /-- An ignore pattern that is no pattern. -/
  | ignore (reason : String)
  /-- The assistant gave no answer that is of use. -/
  | agent (reason : String)
  /-- Version control could not be asked. -/
  | git (reason : String)
  /-- A path that leads out of the project. -/
  | outsideRoot (path : Path)
  /-- A line of a status report whose mark ends inside a character. -/
  | brokenLine (line : String)
  deriving DecidableEq, Repr

namespace Failure

/-- The failure in words. -/
def message : Failure → String
  | .file error => "IO error: " ++ error.message
  | .notInitialized root =>
    "No configuration found in " ++ root.text ++ ". Run `dir-context init` first."
  | .config reason => "Configuration error: " ++ reason
  | .ignore reason => "Invalid ignore pattern: " ++ reason
  | .agent reason => "Agent error: " ++ reason
  | .git reason => "Git error: " ++ reason
  | .outsideRoot path => "Path is outside the project root: " ++ path.text
  | .brokenLine line => "the mark of a status line ends inside a character: " ++ line

/-- What lies behind a failure, in words of its own. -/
def cause? : Failure → Option String
  | .file error => some error.message
  | _ => none

end Failure

/-- The result of an operation on files, as a result of this library. -/
def FileError.lift : Except FileError α → Except Failure α
  | .ok a => .ok a
  | .error e => .error (.file e)

end DirectoryNotes
