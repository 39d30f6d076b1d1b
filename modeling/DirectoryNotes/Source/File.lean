import DirectoryNotes.Error
import DirectoryNotes.Source.Analyzer

/-!
# Source files on disk

The facts about a file of a tree. A file whose extension is not one that is read has none, and one
that cannot be read is a failure.
-/

namespace DirectoryNotes.Source

/-- The facts about a file. -/
def analyzeFile (t : FileTree) (p : Path) : Except Failure (Option SourceFacts) :=
  if isReadable p then do
    return analyze? p (← FileError.lift (t.readText p))
  else .ok none

end DirectoryNotes.Source
