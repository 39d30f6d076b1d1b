import DirectoryNotes.Agent.Client
import DirectoryNotes.Assistant
import DirectoryNotes.Record.Codec
import DirectoryNotes.Source.Codec

/-!
# The agent as the assistant

Each question to the assistant becomes a prompt, and the text that the agent answers is taken apart
again. What is asked for as JSON may stand in the middle of other text.

* `filePrompt`, `directoryPrompt`, `improvementsPrompt`: what is asked;
* `firstLine?`, `objectIn`: what is made of the answers;
* `AgentSettings.toAssistant`: the assistant.
-/

namespace DirectoryNotes

open Json (asText? asTexts? asFields?)

/-! ## Prompts -/

/-- What the agent is told before it is asked about a file. -/
def fileInstructions : String :=
  Text.join "\n"
    ["You document source files for developers.",
      "Reply with exactly one sentence describing what the file is responsible for.",
      "No markdown, no preamble."]

/-- The form of an insight, as the agent is told of it. -/
def insightShape : String :=
  "\x7b\"purpose\": \"one sentence\", \"architecture\": \"two or three sentences\", "
    ++ "\"improvements\": [\"...\"]\x7d"

/-- What the agent is told before it is asked about a directory. -/
def directoryInstructions : String :=
  Text.join "\n"
    ["You document source directories for developers.",
      "Return strictly one JSON object only (no markdown) with shape:",
      insightShape,
      "Rules:",
      "- Base every statement on the files provided.",
      "- Use an empty string or empty list when unsure.",
      "- With depth \"deep\" include up to five concrete improvements, otherwise up to three."]

/-- What the agent is told before it is asked for improvements. -/
def improvementsInstructions : String :=
  Text.join "\n"
    ["You review source directories for maintainability.",
      "Return strictly one JSON object only (no markdown) with shape:",
      "\x7b\"improvements\": [\"...\"]\x7d",
      "Each improvement is one actionable sentence grounded in the analysis record provided."]

/-- The most characters of a file that are sent. -/
def sourceLimit : Nat := 6000

/-- The most tokens of an answer about a file. -/
def fileTokens : Nat := 120

/-- The most tokens of any other answer. -/
def directoryTokens : Nat := 800

/-- The question about a file. -/
def filePrompt (path : Path) (source : String) (facts : SourceFacts) : String :=
  "File: " ++ path.text ++ "\nStructure: " ++ facts.toJson.compact ++ "\n\nSource:\n"
    ++ Text.takeChars sourceLimit source

/-- The question about a directory. -/
def directoryPrompt (path : Path) (files : List FileSummary) (sources : List SourceSummary)
    (mode : Mode) : String :=
  let file (f : FileSummary) : Json :=
    .object [("path", .text f.name), ("description", .text f.description),
      ("importance", .nat f.importance.toNat)]
  let source (s : SourceSummary) : Json :=
    .object [("path", .text s.name), ("purpose", .text s.facts.purpose),
      ("exports", .texts (s.facts.exports.map (·.name))),
      ("imports", .texts (s.facts.imports.map (·.source)))]
  (Json.object [("directory", .text path.text), ("depth", .text mode.name),
    ("files", .list (files.map file)), ("parsed", .list (sources.map source))]).sorted.pretty

/-- The question for improvements. -/
def improvementsPrompt (record : DirectoryRecord) (mode : Mode) : String :=
  (Json.object [("depth", .text mode.name), ("record", record.toJson)]).sorted.pretty

/-! ## Answers -/

/-- The first line of an answer that says something, without the quotes around it. -/
def firstLine? (answer : String) : Option String :=
  let lines := (Text.linesOf answer).map Text.trim
  (lines.find? (· ≠ "")).map fun line => .ofList (Text.trimBy (· == '\x22') line.toList)

/-- The part of an answer from its first opening brace to its last closing one. -/
def braced? (answer : String) : Option String :=
  let fromBrace := answer.toList.dropWhile (· != '\x7b')
  match (fromBrace.reverse.dropWhile (· != '\x7d')).reverse with
  | [] => none
  | chars => some (.ofList chars)

/-- The most characters of an answer that a failure quotes. -/
def answerQuoteLimit : Nat := 240

/-- The value in an answer: the whole answer is read, or else what stands between its outermost
braces. -/
def objectIn (decode? : Json → Option α) (answer : String) : Except Failure α :=
  match (Json.read? answer).bind decode? with
  | some value => .ok value
  | none =>
    match braced? answer with
    | none =>
      .error (.agent ("agent response is not a JSON object: "
        ++ Text.takeChars answerQuoteLimit (Text.trim answer)))
    | some inner =>
      match (Json.read? inner).bind decode? with
      | some value => .ok value
      | none => .error (.agent "agent JSON parse error: not of the expected form")

/-- The insight that JSON stands for. -/
def Insight.ofJson? (j : Json) : Option Insight := do
  let fields ← j.asFields? ["purpose", "architecture", "improvements"]
  return {
    purpose := ← fields.orElse? "purpose" "" asText?
    architecture := ← fields.orElse? "architecture" "" asText?
    improvements := ← fields.orElse? "improvements" [] asTexts? }

/-- The improvements that JSON stands for. -/
def improvementsOfJson? (j : Json) : Option (List String) := do
  let fields ← j.asFields? ["improvements"]
  fields.orElse? "improvements" [] asTexts?

/-! ## The assistant -/

namespace AgentSettings

/-- The answer to a question under instructions. -/
def ask (s : AgentSettings) (send : Transport) (instructions question : String) (tokens : Nat) :
    Except Failure String :=
  s.complete send [.system instructions, .user question] tokens

/-- One sentence on a file. -/
def describeFile (s : AgentSettings) (send : Transport) (path : Path) (source : String)
    (facts : SourceFacts) : Except Failure String := do
  match firstLine? (← s.ask send fileInstructions (filePrompt path source facts) fileTokens) with
  | some line => return line
  | none => .error (.agent "empty file description from agent")

/-- An insight into a directory. -/
def describeDirectory (s : AgentSettings) (send : Transport) (path : Path)
    (files : List FileSummary) (sources : List SourceSummary) (mode : Mode) :
    Except Failure Insight := do
  let question := directoryPrompt path files sources mode
  objectIn Insight.ofJson? (← s.ask send directoryInstructions question directoryTokens)

/-- Improvements for a directory, those that say something. -/
def suggestImprovements (s : AgentSettings) (send : Transport) (record : DirectoryRecord)
    (mode : Mode) : Except Failure (List String) := do
  let question := improvementsPrompt record mode
  let answer ← s.ask send improvementsInstructions question directoryTokens
  return ((← objectIn improvementsOfJson? answer).map Text.trim).filter (· ≠ "")

/-- Whether the agent can be asked: the project has agreed to it, and there is a key. -/
def isAvailable (s : AgentSettings) (agreed : Bool) : Bool := agreed && s.apiKey?.isSome

/-- The assistant that asks the agent. -/
def toAssistant (s : AgentSettings) (send : Transport) (agreed : Bool) : Assistant where
  isAvailable := s.isAvailable agreed
  describeFile path source facts := .ofExcept (s.describeFile send path source facts)
  describeDirectory path files sources mode :=
    .ofExcept (s.describeDirectory send path files sources mode)
  suggestImprovements record mode := .ofExcept (s.suggestImprovements send record mode)

end AgentSettings

end DirectoryNotes
