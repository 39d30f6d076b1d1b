import DirectoryNotes.Error
import DirectoryNotes.FileTree.Write
import DirectoryNotes.Json.Decode
import DirectoryNotes.Json.Printer
import DirectoryNotes.Text

/-!
# Configuration

The configuration of a project is a JSON file in its root directory. Every field has a default, so a
file may leave out any of them.

* `Mode`: how much work an analysis may do;
* `Configuration`, `Configuration.toJson`, `Configuration.ofJson?`: the fields and their form;
* `Configuration.load`, `Configuration.save`: the file.
-/

namespace DirectoryNotes

open Json (asText? asBool? asTexts? asName? asFields?)

/-! ## Choices -/

/-- How much work an analysis may do. -/
inductive Mode where
  /-- Never asks the assistant. -/
  | quick
  /-- Asks the assistant about files and directories. -/
  | smart
  /-- Also asks the assistant for improvements. -/
  | deep
  deriving DecidableEq, Repr

namespace Mode

/-- The name of a mode. -/
def name : Mode → String
  | .quick => "quick"
  | .smart => "smart"
  | .deep => "deep"

/-- The mode of a name. -/
def ofName? (name : String) : Option Mode :=
  [Mode.quick, .smart, .deep].find? (·.name == name)

/-- The mode that is written in a text, in any case. -/
def parse (s : String) : Except Failure Mode :=
  match ofName? (Text.lower s) with
  | some mode => .ok mode
  | none => .error (.config ("unknown mode: " ++ Text.lower s))

/-- Whether a mode asks the assistant at all. -/
def usesAssistant (mode : Mode) : Bool := mode != .quick

end Mode

/-- The form in which a command prints a record. -/
inductive OutputFormat where
  | markdown
  | json
  deriving DecidableEq, Repr

namespace OutputFormat

/-- The name of a form. -/
def name : OutputFormat → String
  | .markdown => "markdown"
  | .json => "json"

/-- The form of a name. -/
def ofName? (name : String) : Option OutputFormat :=
  [OutputFormat.markdown, .json].find? (·.name == name)

end OutputFormat

/-- What the project has agreed to work with: version control, and the assistant. -/
structure Integrations where
  git : Bool := true
  assistant : Bool := false
  deriving DecidableEq, Repr

/-! ## Configurations -/

/-- What is left out of every project unless it says otherwise. -/
def defaultIgnorePatterns : List String :=
  ["node_modules/", ".git/", "dist/", "build/", "target/", "coverage/", "*.log", ".DS_Store"]

/-- The configuration of a project. -/
structure Configuration where
  version : String := "1.0.0"
  mode : Mode := .smart
  ignorePatterns : List String := defaultIgnorePatterns
  focus : List String := ["architecture", "dependencies", "patterns"]
  outputFormat : OutputFormat := .markdown
  integrations : Integrations := {}
  deriving DecidableEq, Repr

/-- The integrations as JSON. -/
def Integrations.toJson (i : Integrations) : Json :=
  .object [("git", .bool i.git), ("claude", .bool i.assistant)]

/-- The integrations that JSON stands for. -/
def Integrations.ofJson? (j : Json) : Option Integrations := do
  let fields ← j.asFields? ["git", "claude"]
  let base : Integrations := {}
  return {
    git := ← fields.orElse? "git" base.git asBool?
    assistant := ← fields.orElse? "claude" base.assistant asBool? }

namespace Configuration

/-- A configuration as JSON. -/
def toJson (c : Configuration) : Json :=
  .object [("version", .text c.version), ("mode", .text c.mode.name),
    ("ignorePatterns", .texts c.ignorePatterns), ("analysisFocus", .texts c.focus),
    ("outputFormat", .text c.outputFormat.name), ("integrations", c.integrations.toJson)]

/-- The configuration that JSON stands for. -/
def ofJson? (j : Json) : Option Configuration := do
  let fields ← j.asFields?
    ["version", "mode", "ignorePatterns", "analysisFocus", "outputFormat", "integrations"]
  let base : Configuration := {}
  return {
    version := ← fields.orElse? "version" base.version asText?
    mode := ← fields.orElse? "mode" base.mode fun j => j.asName?.bind Mode.ofName?
    ignorePatterns := ← fields.orElse? "ignorePatterns" base.ignorePatterns asTexts?
    focus := ← fields.orElse? "analysisFocus" base.focus asTexts?
    outputFormat := ← fields.orElse? "outputFormat" base.outputFormat fun j =>
      j.asName?.bind OutputFormat.ofName?
    integrations := ← fields.orElse? "integrations" base.integrations Integrations.ofJson? }

/-- The configuration that a text stands for. -/
def ofText? (s : String) : Option Configuration := do ofJson? (← Json.read? s)

/-- The text of a configuration. -/
def text (c : Configuration) : String := c.toJson.pretty ++ "\n"

/-! ## The file -/

/-- The name of the file in the root directory of a project. -/
def fileName : String := ".dircontext.json"

/-- The file of a project. -/
def pathIn (root : Path) : Path := root.join ⟨fileName⟩

/-- Whether a project has a configuration. -/
def existsIn (t : FileTree) (root : Path) : Bool := t.isFile (pathIn root)

/-- The configuration of a project. -/
def load (t : FileTree) (root : Path) : Except Failure Configuration :=
  if existsIn t root then do
    let s ← FileError.lift (t.readText (pathIn root))
    match ofText? s with
    | some c => .ok c
    | none => .error (.config ((pathIn root).text ++ ": the text is not a configuration"))
  else .error (.notInitialized root)

/-- Writes the configuration of a project; the result is the changed tree. -/
def save (t : FileTree) (root : Path) (c : Configuration) : Except Failure FileTree :=
  FileError.lift (t.writeText (pathIn root) c.text)

end Configuration

end DirectoryNotes
