import DirectoryNotes.FileName
import DirectoryNotes.FileTree.Visit
import DirectoryNotes.Ignore.Filter

/-!
# The directories of a project

`walk` lists the directories that get a document: the root and everything below it, links followed,
apart from hidden directories and those that the ignore filter leaves out. A directory that is left
out is not entered. What is reached on several ways is listed on the first of them, if the file system
tells that it is the same.
-/

namespace DirectoryNotes

/-- The path of what was visited, from the root of the project. -/
def Visited.fromRoot (v : Visited) (root : Path) : Path := (v.path.relativeTo? root).getD v.path

/-- Whether a walk lists what it comes by below the root. -/
def listedBy (filter : IgnoreFilter) (root : Path) (v : Visited) : Bool :=
  v.entry.isDirectory && !FileName.isHidden v.name && filter.includes (v.fromRoot root) true

/-- The visits of directories whose marks were not seen before, each mark once. -/
def firstVisits (t : FileTree) (seen : List (List PathPart)) : List Visited → List Visited
  | [] => []
  | v :: rest =>
    if seen.contains (t.mark v.path) then firstVisits t seen rest
    else v :: firstVisits t (t.mark v.path :: seen) rest

/-- The directories of a project, each before those below it. -/
def walk (t : FileTree) (filter : IgnoreFilter) (root : Path) : List Path :=
  let visits := t.visit true (listedBy filter root) root
  (firstVisits t [] (visits.filter (·.entry.isDirectory))).map (·.path)

end DirectoryNotes
