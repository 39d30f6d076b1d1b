import DirectoryNotes.Error
import DirectoryNotes.FileTree.Write
import DirectoryNotes.Pattern.Basic
import DirectoryNotes.Record.Basic

/-!
# Documents

The document of a directory is its record written out in sections, what matters most first, since
views show only the first lines. Nothing in it depends on when it was written.

* `Document.render`: the text of a record;
* `Document.keyFiles`: the ranking of the files, read back from a text;
* `Document.write`, `Document.read`: the document in its directory. It is written under another name
  first and then moved into place, so a document is never half of one.
-/

namespace DirectoryNotes.Document

/-! ## Rendering -/

/-- A section: its heading, an empty line, and its lines, or one line to say that there are none. -/
def renderSection (heading absence : String) (lines : List String) : String :=
  "## " ++ heading ++ "\n\n" ++
    if lines.isEmpty then absence ++ "\n" else String.join (lines.map (· ++ "\n"))

/-- The lines of a file: its rank, name, importance and description, and its functions below. -/
def fileLines (position : Nat) (f : FileSummary) : List String :=
  (toString position ++ ". `" ++ f.name ++ "` (importance " ++ toString f.importance.toNat ++ ") - "
      ++ f.description) ::
    if f.functions.isEmpty then [] else ["   - Functions: " ++ Text.join ", " f.functions]

/-- The line of a commit. -/
def changeLine (c : Change) : String :=
  "- `" ++ c.commit ++ "` (" ++ c.date ++ ") " ++ c.description ++ " [" ++ c.impact ++ "]"

/-- The line of a dependency. -/
def dependencyLine (d : Dependency) : String :=
  "- " ++ d.kind.name ++ " `" ++ d.name ++ "`: `" ++ d.source ++ "` -> `" ++ d.target ++ "`"

/-- The heading above the ranked files. -/
def keyFilesHeading : String := "Key Files"

/-- The document of a record. -/
def render (r : DirectoryRecord) : String :=
  "# " ++ r.path.displayName ++ "\n\n## Purpose\n\n" ++ r.purpose ++ "\n\n## Architecture\n\n"
    ++ r.architecture ++ "\n\n"
    ++ renderSection keyFilesHeading "No files analyzed."
      ((r.keyFiles.zipIdx 1).flatMap fun (f, position) => fileLines position f)
    ++ "\n" ++ renderSection "Recent Changes" "No recent changes recorded."
      (r.recentChanges.map changeLine)
    ++ "\n" ++ renderSection "Improvement Suggestions" "No suggestions."
      (r.improvements.map ("- " ++ ·))
    ++ "\n" ++ renderSection "Dependencies" "No dependencies detected."
      (r.dependencies.map dependencyLine)

/-! ## Reading the ranking back -/

/-- The line of a ranked file: 1 the name, 2 the importance. -/
def fileLinePattern : Pattern :=
  .atLeastOne Text.isDigit ++ .literal ". `" ++ .group 1 (.atLeastOne (· != '\x60'))
    ++ .literal "` (importance " ++ .group 2 (.atLeastOne Text.isDigit) ++ .literal ")"

/-- The number that digits stand for, if they are plain digits and it is an importance. -/
def importance? (digits : List Char) : Option UInt8 :=
  let n := Nat.ofDigitChars 10 digits 0
  if digits ≠ [] ∧ digits.all Char.isDigit ∧ n < UInt8.size then some (.ofNat n) else none

/-- The name and the importance in the line of a ranked file. -/
def fileOfLine? (line : String) : Option (String × UInt8) := do
  let m ← fileLinePattern.matchAt? (.start line.toList)
  let importance ← importance? (← m.group? 2)
  return (m.group 1, importance)

/-- The names and importances of the ranked files of a document, in its order. -/
def keyFiles (text : String) : List (String × UInt8) :=
  let sought := "## " ++ keyFilesHeading
  let fromHeading := (Text.linesOf text).dropWhile fun line => Text.trim line != sought
  let lines := (fromHeading.drop 1).takeWhile fun line => !Text.beginsWith line "## "
  lines.filterMap fileOfLine?

/-! ## In the directory -/

/-- The name of the document in its directory. -/
def fileName : String := ".context.md"

/-- The name under which a document is written before it is moved into place. -/
def draftName : String := fileName ++ ".tmp"

/-- The document of a directory. -/
def pathIn (directory : Path) : Path := directory.join ⟨fileName⟩

/-- The draft of a document of a directory. -/
def draftIn (directory : Path) : Path := directory.join ⟨draftName⟩

/-- Writes the document of a record into its directory, in place of an older one. When it cannot be
moved into place the draft is removed. -/
def write (t : FileTree) (r : DirectoryRecord) : FileTree × Except Failure Unit :=
  match t.writeText (draftIn r.path) (render r) with
  | .error e => (t, .error (.file e))
  | .ok drafted =>
    match drafted.moveFile (draftIn r.path) (pathIn r.path) with
    | .ok moved => (moved, .ok ())
    | .error e => ((drafted.removeFile (draftIn r.path)).toOption.getD drafted, .error (.file e))

/-- The document of a directory, if it has one. -/
def read (t : FileTree) (directory : Path) : Except Failure (Option String) :=
  match t.readText (pathIn directory) with
  | .ok text => .ok (some text)
  | .error .missing => .ok none
  | .error e => .error (.file e)

end DirectoryNotes.Document
