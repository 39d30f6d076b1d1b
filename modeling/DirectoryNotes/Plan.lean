import DirectoryNotes.VersionControl.Repository
import DirectoryNotes.Walk

/-!
# What to refresh

A refresh covers one directory, all directories of the project, or those in which something changed.

* `resolveTarget`: a path that was given, as a directory inside the project;
* `affectedDirectories`: the directories of changed files that get a document;
* `RefreshScope.directories`: the directories of a refresh.
-/

namespace DirectoryNotes

/-! ## One directory -/

/-- The directory that a path leads to, as a path from the root without links. The path may be
relative to the root, and it must not lead out of the project. -/
def resolveTarget (t : FileTree) (root path : Path) : Except Failure Path := do
  let joined := root.join path
  let canonicalRoot ← FileError.lift (t.realPath root)
  let canonical ← FileError.lift (t.realPath joined)
  match canonical.relativeTo? canonicalRoot with
  | none => .error (.outsideRoot joined)
  | some rest =>
    if !t.isDirectory canonical then .error (.config (joined.text ++ " is not a directory"))
    else .ok (if rest.isEmpty then root else root.join rest)

/-! ## Directories of changed files -/

/-- Whether a path leads upward or through a hidden entry. -/
def hasHiddenPart (path : Path) : Bool :=
  path.parts.any fun
    | .up => true
    | .name text => FileName.isHidden text
    | _ => false

/-- A changed path from the root of the project, whichever way the root is written. -/
def changedFromRoot? (t : FileTree) (root path : Path) : Option Path :=
  match path.relativeTo? root with
  | some rest => some rest
  | none =>
    match t.realPath root with
    | .ok canonicalRoot => path.relativeTo? canonicalRoot
    | .error _ => none

/-- The directory of a changed file, if it lies in the project, gets a document and is still
there. -/
def affectedDirectory? (t : FileTree) (root : Path) (filter : IgnoreFilter) (path : Path) :
    Option Path := do
  let rest ← changedFromRoot? t root path
  let above := rest.parent?.getD ⟨""⟩
  let directory := if above.isEmpty then root else root.join above
  if !hasHiddenPart rest && filter.includes rest false && filter.includes above true
      && t.isDirectory directory then
    some directory
  else none

/-- The directories of changed files that get a document. -/
def affectedDirectories (t : FileTree) (root : Path) (filter : IgnoreFilter) (paths : List Path) :
    PathSet :=
  .ofList (paths.filterMap (affectedDirectory? t root filter))

/-! ## Scopes -/

/-- What a refresh covers. -/
inductive RefreshScope where
  /-- The directories of files that changed since the last commit. -/
  | changed
  /-- All directories of the project. -/
  | all
  /-- One directory. -/
  | path (p : Path)
  deriving DecidableEq, Repr

/-- The directories that version control reports changes in; none when it cannot tell. -/
def changedDirectories (t : FileTree) (root : Path) (filter : IgnoreFilter)
    (versionControl : VersionControl) : Except Failure PathSet := do
  let reply ← versionControl.changedFiles root
  return affectedDirectories t root filter (reply.value?.getD [])

/-- The directories of a refresh. -/
def RefreshScope.directories (scope : RefreshScope) (t : FileTree) (root : Path)
    (filter : IgnoreFilter) (versionControl : VersionControl) : Except Failure PathSet :=
  match scope with
  | .changed => changedDirectories t root filter versionControl
  | .all => .ok (.ofList (walk t filter root))
  | .path p => do return [← resolveTarget t root p]

end DirectoryNotes
