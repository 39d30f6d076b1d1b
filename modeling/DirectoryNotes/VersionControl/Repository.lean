import DirectoryNotes.Reply
import DirectoryNotes.Text.Utf8
import DirectoryNotes.VersionControl.Log
import DirectoryNotes.VersionControl.Status

/-!
# Version control

What a project asks of version control: which files changed, and the latest commits. The answers come
from the `git` program, which is known here only by what it prints.

* `VersionControl`: the two questions;
* `Git`, `Git.changedFiles`, `Git.recentCommits`: the questions put to the program;
* `repositoryRoot?`: the repository that a directory belongs to.
-/

namespace DirectoryNotes

/-- The questions put to version control. A report of changes that cannot be read at all ends the
command; any other trouble is a reply. -/
structure VersionControl where
  changedFiles : Path → Except Failure (Reply (List Path))
  recentCommits : Path → Nat → Reply (List Commit)

/-- No version control: nothing changed, and there are no commits. -/
def VersionControl.absent : VersionControl where
  changedFiles _ := .ok (.answer [])
  recentCommits _ _ := .answer []

/-! ## The program -/

/-- A way to run the program in a directory: it cannot be started, or it fails, or it ends well and
has printed something. -/
abbrev Git := Path → List String → Except FileError (Option ByteArray)

namespace Git

/-- What the program prints when it ends well. -/
def output? (git : Git) (directory : Path) (arguments : List String) :
    Except Failure (Option String) :=
  match git directory arguments with
  | .error e => .error (.git ("Failed to run git: " ++ e.message))
  | .ok printed => .ok (printed.map Text.decode)

/-- The files that were changed, made or renamed since the last commit. There are none where the
program knows no repository. -/
def changedFiles (git : Git) (directory : Path) : Except Failure (List Path) := do
  match ← git.output? directory ["rev-parse", "--show-toplevel"] with
  | none => return []
  | some printed =>
    let top : Path := ⟨Text.trim printed⟩
    match ← git.output? top ["status", "--porcelain", "--untracked-files=all"] with
    | none => return []
    | some report => return (← Status.paths report).map top.join

/-- The latest commits, the newest first. -/
def recentCommits (git : Git) (directory : Path) (limit : Nat) : Except Failure (List Commit) := do
  let arguments := ["log", "-n" ++ toString limit, "--date=short", "--format=" ++ Log.format]
  match ← git.output? directory arguments with
  | none => return []
  | some log => return Log.commits log

/-- Version control by means of the program. -/
def toVersionControl (git : Git) : VersionControl where
  changedFiles root :=
    match git.changedFiles root with
    | .error (.brokenLine line) => .error (.brokenLine line)
    | result => .ok (.ofExcept result)
  recentCommits root limit := .ofExcept (git.recentCommits root limit)

end Git

/-! ## Repositories -/

/-- The nearest directory from the given one upward that holds an entry `.git`. -/
def repositoryRoot? (t : FileTree) (directory : Path) : Option Path :=
  directory.ancestors.find? fun above => t.reaches (above.join ⟨".git"⟩)

end DirectoryNotes
