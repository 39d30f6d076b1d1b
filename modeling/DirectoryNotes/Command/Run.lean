import DirectoryNotes.Agent.Questions
import DirectoryNotes.Command.Arguments
import DirectoryNotes.Directory.Analysis

/-!
# Running commands

A command looks at the files of a project, asks version control and the agent, and leaves a changed
tree, lines of output and perhaps a failure. A command whose operations fail has changed nothing below
the root. A refresh may also fail at its end, when it has written a document and cannot print the
record of it.

* `Session`: what a command works with;
* `CommandFailure`: why a command fails;
* `setUpProject`, `refreshProject`, `showContext`: the commands;
* `runArguments`: the whole program, from its arguments to its exit code.
-/

namespace DirectoryNotes

/-- What a command works with: the files, the variables, and ways to reach the others. -/
structure Session where
  tree : FileTree
  environment : Environment
  git : Git
  send : Transport

/-- Why a command fails. -/
inductive CommandFailure where
  /-- An operation failed. -/
  | operation (failure : Failure)
  /-- The bytes of a path in a record are no text, so that there is no JSON of the record to print. -/
  | unprintable
  deriving DecidableEq, Repr

namespace CommandFailure

/-- What keeps a record from being printed, in words. -/
def unprintableText : String := "path contains invalid UTF-8 characters"

/-- The failure in words. -/
def message : CommandFailure → String
  | .operation failure => failure.message
  | .unprintable => "JSON error: " ++ unprintableText

/-- What lies behind a failure, in words of its own. -/
def cause? : CommandFailure → Option String
  | .operation failure => failure.cause?
  | .unprintable => some unprintableText

/-- The exit code after a failure. -/
def exitCode : CommandFailure → UInt32
  | .operation (.brokenLine _) => 101
  | _ => 1

end CommandFailure

/-- What a command leaves behind. -/
structure CommandResult where
  tree : FileTree
  output : String
  failure? : Option CommandFailure

namespace CommandResult

/-- A command of which an operation failed before it changed anything. -/
def failed (t : FileTree) (f : Failure) : CommandResult := ⟨t, "", some (.operation f)⟩

/-- A command that went well. -/
def done (t : FileTree) (output : String) : CommandResult := ⟨t, output, none⟩

end CommandResult

namespace Session

/-- What an analysis goes by in a project with this configuration. -/
def analyzer (s : Session) (c : Configuration) (filter : IgnoreFilter) : Analyzer where
  configuration := c
  filter := filter
  assistant? :=
    if c.integrations.assistant then
      some ((AgentSettings.ofEnvironment s.environment).toAssistant s.send true)
    else none
  versionControl := if c.integrations.git then s.git.toVersionControl else .absent

end Session

/-! ## Parts of commands -/

/-- A directory as commands print it: its path from the root, with a point for the root. -/
def relativeText (root directory : Path) : String :=
  match directory.relativeTo? root with
  | some rest => if rest.isEmpty then "." else rest.text
  | none => directory.text

/-- The records of the analyses that went well. -/
def recordsOf (outcomes : List Analyzer.Outcome) : List DirectoryRecord :=
  outcomes.filterMap fun outcome => outcome.result.toOption

/-! ## Setting a project up -/

/-- The configuration of a project that is set up with these options. -/
def InitOptions.configuration (options : InitOptions) : Configuration where
  mode := options.mode
  ignorePatterns :=
    options.ignorePatterns.foldl
      (fun patterns p => if patterns.contains p then patterns else patterns ++ [p])
      defaultIgnorePatterns
  integrations := ⟨options.useGit, options.useAssistant⟩

/-- Writes the configuration and documents every directory. The patterns are looked at before
anything is written. -/
def setUpProject (s : Session) (root : Path) (options : InitOptions) : CommandResult :=
  let c := options.configuration
  match IgnoreFilter.ofPatterns root c.ignorePatterns with
  | .error f => .failed s.tree f
  | .ok filter =>
    match c.save s.tree root with
    | .error f => .failed s.tree f
    | .ok saved =>
      let a := s.analyzer c filter
      let directories := PathSet.ofList (walk saved filter root)
      let (last, outcomes) := a.analyzeEach saved directories
      .done last
        ("Wrote " ++ (Configuration.pathIn root).text ++ "\nDocumented "
          ++ toString (recordsOf outcomes).length ++ " of " ++ toString directories.length
          ++ " directories (" ++ c.mode.name ++ " mode)\n")

/-! ## Refreshing -/

/-- Records as they are printed, up to one that has no JSON. -/
def printRecords (t : FileTree) : List DirectoryRecord → String × Option CommandFailure
  | [] => ("", none)
  | r :: rest =>
    if t.decodes r.path then
      let (printed, failure?) := printRecords t rest
      (r.toJson.pretty ++ "\n" ++ printed, failure?)
    else ("", some .unprintable)

/-- What a refresh of one directory prints after its count: the record, if the project asks for
JSON. -/
def recordOutput (c : Configuration) (scope : RefreshScope) (t : FileTree)
    (records : List DirectoryRecord) : String × Option CommandFailure :=
  match c.outputFormat, scope with
  | .json, .path _ => printRecords t records
  | _, _ => ("", none)

/-- Documents the directories of a refresh, and tells how many. -/
def refreshDirectories (a : Analyzer) (t : FileTree) (scope : RefreshScope)
    (directories : PathSet) : CommandResult :=
  if directories.isEmpty then
    .done t (if scope = .changed then "No changed directories to refresh\n" else "")
  else
    let (last, outcomes) := a.analyzeEach t directories
    let records := recordsOf outcomes
    let (printed, failure?) := recordOutput a.configuration scope t records
    ⟨last, "Refreshed " ++ toString records.length ++ " of " ++ toString directories.length
      ++ " directories\n" ++ printed, failure?⟩

/-- Documents directories again, or only names them. -/
def refreshProject (s : Session) (root : Path) (options : RefreshOptions) : CommandResult :=
  let planned : Except Failure (Analyzer × PathSet) := do
    let c ← Configuration.load s.tree root
    let filter ← IgnoreFilter.ofPatterns root c.ignorePatterns
    let a := s.analyzer c filter
    return (a, ← options.scope.directories s.tree root filter a.versionControl)
  match planned with
  | .error f => .failed s.tree f
  | .ok (a, directories) =>
    if options.dryRun then
      .done s.tree (String.join (directories.map fun d => relativeText root d ++ "\n"))
    else refreshDirectories a s.tree options.scope directories

/-! ## Showing -/

/-- The text of a view of a project that is set up. -/
def contextText (t : FileTree) (root : Path) (options : ContextOptions) : Except Failure String := do
  let _ ← Configuration.load t root
  let target ← match options.path? with
    | some p => resolveTarget t root p
    | none => .ok root
  options.view.text t root target

/-- Prints a view, or writes it to a file. -/
def showContext (s : Session) (root : Path) (options : ContextOptions) : CommandResult :=
  match contextText s.tree root options with
  | .error f => .failed s.tree f
  | .ok text =>
    match options.output? with
    | none => .done s.tree text
    | some path =>
      match s.tree.writeText path text with
      | .error e => .failed s.tree (.file e)
      | .ok written =>
        .done written ("Wrote " ++ options.view.name ++ " context to " ++ path.text ++ "\n")

/-- Runs a command on the project at a root. -/
def Command.run (command : Command) (s : Session) (root : Path) : CommandResult :=
  match command with
  | .init options => setUpProject s root options
  | .refresh options => refreshProject s root options
  | .context options => showContext s root options

/-! ## The program -/

/-- The name and the version of the program. -/
def versionText : String := "dir-context 0.1.0\n"

/-- How the program is called. -/
def usageText : String :=
  "Usage: dir-context [--root <ROOT>] <init|refresh|context> [OPTIONS]\n"

/-- What the program leaves behind: the tree, the exit code, what it prints, and what it prints about
an error. -/
structure ProgramResult where
  tree : FileTree
  code : UInt32
  output : String
  errors : String

/-- An error as it is printed, with what lies behind it. -/
def errorText (message : String) (cause : Option String) : String :=
  "Error: " ++ message ++ "\n" ++
    match cause with
    | some cause => "\nCaused by:\n    " ++ cause ++ "\n"
    | none => ""

/-- Runs a command whose root is not yet known to be there. -/
def Invocation.run (invocation : Invocation) (s : Session) : ProgramResult :=
  match s.tree.realPath invocation.root with
  | .error e =>
    ⟨s.tree, 1, "",
      errorText ("cannot open project root " ++ invocation.root.text) (some e.message)⟩
  | .ok root =>
    let result := invocation.command.run s root
    match result.failure? with
    | none => ⟨result.tree, 0, result.output, ""⟩
    | some f => ⟨result.tree, f.exitCode, result.output, errorText f.message f.cause?⟩

/-- Runs the program with its arguments. -/
def runArguments (s : Session) (arguments : List String) : ProgramResult :=
  match Invocation.parse arguments with
  | .ok invocation => invocation.run s
  | .error .version => ⟨s.tree, 0, versionText, ""⟩
  | .error .help => ⟨s.tree, 0, usageText, ""⟩
  | .error .usage => ⟨s.tree, 2, "", usageText⟩

end DirectoryNotes
