import DirectoryNotes.Directory.Heuristics
import DirectoryNotes.Document
import DirectoryNotes.FileTree.Write
import DirectoryNotes.Ignore.Filter
import DirectoryNotes.Source.Analyzer
import DirectoryNotes.VersionControl.Repository

/-!
# Analysing a directory

`Analyzer.record` turns the files directly in a directory into a record. Only a directory that cannot
be listed is a failure; a file that cannot be read is described by its name, and where the assistant
or version control has no answer the heuristics stand.

* `Analyzer.visibleFiles`, `InspectedFile.inspect`: the files and what they hold;
* `Analyzer.describe`: their descriptions;
* `Analyzer.record`: the record, with the questions that were put to the assistant;
* `Analyzer.analyze`: the record, and its document written.
-/

namespace DirectoryNotes

/-- What an analysis goes by: the mode, the filter, the assistant if there is one, and version
control. -/
structure Analyzer where
  configuration : Configuration
  filter : IgnoreFilter
  assistant? : Option Assistant
  versionControl : VersionControl

/-! ## Files -/

/-- A file of the directory: where it is, what its name tells, and its text and facts if it is a
source file that can be read. -/
structure InspectedFile where
  path : Path
  summary : FileSummary
  source? : Option (String × SourceFacts)

namespace InspectedFile

/-- The second at which a file was last written, as a record gives it. -/
def modifiedSecond (t : FileTree) (path : Path) : UInt64 :=
  match t.modified path with
  | .ok seconds => if 0 ≤ seconds then seconds.toUInt64 else 0
  | .error _ => 0

/-- What the name of a file tells, with the second at which it was last written. -/
def summarize (t : FileTree) (path : Path) : FileSummary :=
  .ofName path.displayName (modifiedSecond t path)

/-- The text of a source file and the facts in it. -/
def source (t : FileTree) (path : Path) : Option (String × SourceFacts) :=
  match t.readText path with
  | .ok text => (Source.analyze? path text).map fun facts => (text, facts)
  | .error _ => none

/-- Looks at a file. -/
def inspect (t : FileTree) (path : Path) : InspectedFile :=
  ⟨path, summarize t path, source t path⟩

/-- The most functions that stand for a file. -/
def functionLimit : Nat := 3

/-- What is known about a file, given the words of the assistant on it. The functions that a source
file exports take the place of the topics of its name. -/
def summaryWith (file : InspectedFile) (words : Option String) : FileSummary :=
  match file.source? with
  | none => file.summary
  | some (_, facts) =>
    let signatures := (facts.exportedFunctions.take functionLimit).map (·.signature)
    { file.summary with
      description := words.getD facts.purpose
      functions := if signatures.isEmpty then file.summary.functions else signatures }

/-- The facts about a source file under its name. -/
def sourceSummary? (file : InspectedFile) : Option SourceSummary :=
  file.source?.map fun (_, facts) => ⟨file.summary.name, facts⟩

end InspectedFile

namespace Analyzer

/-- The files directly in a directory that are not hidden and that the filter includes, in the order
of their names. -/
def visibleFiles (a : Analyzer) (t : FileTree) (directory : Path) : Except Failure (List Path) := do
  let names ← FileError.lift (t.listDirectory directory)
  let shown := names.filter fun name =>
    let path := directory.join ⟨name⟩
    !FileName.isHidden name && t.isFile path && a.filter.includesPath path false
  return (shown.mergeSort (· ≤ ·)).map fun name => directory.join ⟨name⟩

/-! ## The assistant -/

/-- The assistant, if it can be asked in this mode. -/
def activeAssistant? (a : Analyzer) : Option Assistant :=
  a.assistant?.filter fun assistant =>
    assistant.isAvailable && a.configuration.mode.usesAssistant

/-- The replies on the files of a directory, in their order. -/
def fileReplies (assistant : Assistant) (files : List InspectedFile) :
    List (Option (Reply String)) :=
  repliesInTurn 0 (files.map fun file => file.source?.map fun (text, facts) =>
    assistant.describeFile file.path text facts)

/-- The questions that were put about the files. -/
def fileQuestions (files : List InspectedFile) (replies : List (Option (Reply String))) :
    List Question :=
  (files.zip replies).filterMap fun (file, reply) =>
    match file.source?, reply with
    | some (text, facts), some _ => some (.file file.path text facts)
    | _, _ => none

/-! ## Version control -/

/-- The most commits that a record shows. -/
def changeLimit : Nat := 5

/-- The latest commits of the repository that a directory belongs to. -/
def recentChanges (a : Analyzer) (t : FileTree) (directory : Path) : List Change :=
  match repositoryRoot? t directory with
  | none => []
  | some repository =>
    let commits := (a.versionControl.recentCommits repository changeLimit).value?.getD []
    (commits.take changeLimit).map Change.ofCommit

/-! ## Records -/

/-- Text that says something, or else a fallback. -/
def orElse (words fallback : String) : String :=
  if Text.isBlankText words then fallback else Text.trim words

/-- Puts an insight in place of what the heuristics have. -/
def applyInsight (record : DirectoryRecord) (insight : Insight) : DirectoryRecord :=
  { record with
    purpose := orElse insight.purpose record.purpose
    architecture := orElse insight.architecture record.architecture
    improvements :=
      if insight.improvements.isEmpty then record.improvements else insight.improvements }

/-- The record of a directory from its files and their descriptions, without the assistant's view of
the directory. -/
def baseRecord (directory : Path) (summaries : List FileSummary) (sources : List SourceSummary)
    (changes : List Change) : DirectoryRecord :=
  let names := summaries.map (·.name)
  { path := directory
    purpose := Directory.purpose directory names
    architecture := Directory.architecture names sources
    keyFiles := FileSummary.rank summaries
    recentChanges := changes
    improvements := Directory.improvements names
    dependencies := sources.flatMap fun s => Dependency.ofFacts s.name s.facts }

/-- The record after the assistant's improvements, for a mode that asks for them. -/
def applySuggestions (assistant : Assistant) (mode : Mode) (record : DirectoryRecord) :
    DirectoryRecord × List Question :=
  if mode = .deep then
    let suggestions := (assistant.suggestImprovements record mode).value?.getD []
    let improved := if suggestions.isEmpty then record else { record with improvements := suggestions }
    (improved, [.improvements record mode])
  else (record, [])

/-- The record of a directory, and the questions that were put to the assistant for it. -/
def record (a : Analyzer) (t : FileTree) (directory : Path) :
    Except Failure (DirectoryRecord × List Question) := do
  let files := (← a.visibleFiles t directory).map (InspectedFile.inspect t)
  let sources := files.filterMap (·.sourceSummary?)
  let changes := a.recentChanges t directory
  match a.activeAssistant? with
  | none =>
    let summaries := files.map (·.summaryWith none)
    return (baseRecord directory summaries sources changes, [])
  | some assistant =>
    let mode := a.configuration.mode
    let replies := fileReplies assistant files
    let summaries := files.zipWith (fun file reply => file.summaryWith (reply.bind wordsOf?)) replies
    let base := baseRecord directory summaries sources changes
    let insight := assistant.describeDirectory directory summaries sources mode
    let seen := applyInsight base (insight.value?.getD {})
    let (final, more) := applySuggestions assistant mode seen
    return (final,
      fileQuestions files replies ++ [.directory directory summaries sources mode] ++ more)

/-- What comes of an analysis: the tree after it, the questions that were put to the assistant, and
the record. -/
structure Outcome where
  tree : FileTree
  questions : List Question
  result : Except Failure DirectoryRecord

/-- Analyses a directory and writes its document. -/
def analyze (a : Analyzer) (t : FileTree) (directory : Path) : Outcome :=
  match a.record t directory with
  | .error e => ⟨t, [], .error e⟩
  | .ok (record, questions) =>
    let (written, result) := Document.write t record
    ⟨written, questions, result.map fun _ => record⟩

/-- Analyses directories one after the other; the last tree comes first in the result. -/
def analyzeEach (a : Analyzer) (t : FileTree) : List Path → FileTree × List Outcome
  | [] => (t, [])
  | directory :: rest =>
    let outcome := a.analyze t directory
    let (last, outcomes) := a.analyzeEach outcome.tree rest
    (last, outcome :: outcomes)

end Analyzer

end DirectoryNotes
