import DirectoryNotes.FileName
import DirectoryNotes.Source.Facts

/-!
# Records of directories

A record is what is known about one directory: what it is for, its most important files, the latest
commits, what could be improved, and what its files import and export.

* `FileSummary`, `Dependency`, `Change`: the parts of a record;
* `FileSummary.rank`: the files that a record keeps;
* `Dependency.ofFacts`: what one file contributes;
* `Change.ofCommit`: a commit and the kind of change that its message announces.
-/

namespace DirectoryNotes

/-! ## Files -/

/-- What is known about a file. `modified` is the second at which it was last written, 0 when that is
not known. -/
structure FileSummary where
  name : String
  description : String
  importance : UInt8
  functions : List String
  modified : UInt64
  deriving DecidableEq, Repr

namespace FileSummary

/-- What the name of a file tells. -/
def ofName (name : String) (modified : UInt64) : FileSummary where
  name := name
  description := FileName.description name
  importance := FileName.importance name
  functions := FileName.topics name
  modified := modified

/-- The most files that a record keeps. -/
def rankLimit : Nat := 10

/-- The most important files first, those of one importance in their order. -/
def rank (files : List FileSummary) : List FileSummary :=
  (files.mergeSort fun a b => b.importance ≤ a.importance).take rankLimit

end FileSummary

/-! ## Dependencies -/

/-- What a dependency leads to. -/
inductive DependencyKind where
  /-- A file that is imported. -/
  | file
  /-- A name that everyone may import. -/
  | exported
  /-- A package that is imported. -/
  | package
  deriving DecidableEq, Repr

/-- The name of a kind of dependency. -/
def DependencyKind.name : DependencyKind → String
  | .file => "import"
  | .exported => "export"
  | .package => "external"

/-- A directed link between a file and something that it imports or exports, as it is written. -/
structure Dependency where
  name : String
  kind : DependencyKind
  source : String
  target : String
  deriving DecidableEq, Repr

namespace Dependency

/-- Where exported names lead. -/
def everyone : String := "<public>"

/-- An import of a file leads from the module to the file. -/
def ofImport (file : String) (i : Import) : Dependency where
  name := if i.specifiers.isEmpty then i.source else Text.join ", " i.specifiers
  kind := if i.isExternal then .package else .file
  source := i.source
  target := file

/-- An export of a file leads from the file to everyone. -/
def ofExport (file : String) (e : Export) : Dependency :=
  ⟨e.name, .exported, file, everyone⟩

/-- What one file contributes: its imports and then its exports. -/
def ofFacts (file : String) (facts : SourceFacts) : List Dependency :=
  facts.imports.map (ofImport file) ++ facts.exports.map (ofExport file)

end Dependency

/-! ## Changes -/

/-- An entry of a commit log. -/
structure Commit where
  id : String
  date : String
  message : String
  deriving DecidableEq, Repr

/-- A commit as a record shows it. The files are not known and stay empty. -/
structure Change where
  commit : String
  date : String
  description : String
  impact : String
  files : List String
  deriving DecidableEq, Repr

namespace Change

/-- The words that messages begin with, and the kinds of changes that they announce. -/
def impacts : List (List String × String) :=
  [(["feat", "feature"], "New feature"),
   (["fix", "bugfix", "hotfix"], "Bug fix"),
   (["refactor"], "Refactoring"),
   (["docs", "doc"], "Documentation"),
   (["test", "tests"], "Tests"),
   (["perf"], "Performance"),
   (["chore", "build", "ci", "style"], "Maintenance")]

/-- The word that a message begins with, up to a colon, a parenthesis or an exclamation mark. -/
def leadingWord (message : String) : String :=
  let word := message.toList.takeWhile fun c => c != ':' && c != '(' && c != '!'
  Text.lower (Text.trim (.ofList word))

/-- The kind of change that a message announces. -/
def impactOf (message : String) : String :=
  match impacts.find? fun kind => kind.1.contains (leadingWord message) with
  | some (_, impact) => impact
  | none => "General update"

/-- A commit with the kind of change that its message announces. -/
def ofCommit (c : Commit) : Change :=
  ⟨c.id, c.date, c.message, impactOf c.message, []⟩

end Change

/-! ## Records -/

/-- What is known about a directory. -/
structure DirectoryRecord where
  path : Path
  purpose : String
  architecture : String
  keyFiles : List FileSummary
  recentChanges : List Change
  improvements : List String
  dependencies : List Dependency
  deriving DecidableEq, Repr

end DirectoryNotes
