import DirectoryNotes.Agent.Settings
import DirectoryNotes.Agent.Status
import DirectoryNotes.Error
import DirectoryNotes.Json.Decode
import DirectoryNotes.Json.Printer

/-!
# Talking to the agent

The agent is a model behind an endpoint for chat completions. A question is a list of messages; the
answer is the text of the first choice in the reply.

* `ChatRequest`, `AgentSettings.request`: what is sent;
* `Exchange`: what comes of sending it;
* `replyText`: the text in a reply, or why there is none;
* `AgentSettings.complete`: the whole of it.
-/

namespace DirectoryNotes

open Json (asText? asList? asFields?)

/-! ## Requests -/

/-- A message and who speaks it. -/
structure ChatMessage where
  role : String
  content : String
  deriving DecidableEq, Repr

namespace ChatMessage

/-- What the model is told beforehand. -/
def system (content : String) : ChatMessage := ⟨"system", content⟩

/-- What the model is asked. -/
def user (content : String) : ChatMessage := ⟨"user", content⟩

/-- A message as JSON. -/
def toJson (m : ChatMessage) : Json :=
  .object [("role", .text m.role), ("content", .text m.content)]

/-- The message that JSON stands for. -/
def ofJson? (j : Json) : Option ChatMessage := do
  let fields ← j.asFields? ["role", "content"]
  return { role := ← fields.need? "role" asText?, content := ← fields.need? "content" asText? }

end ChatMessage

/-- What is sent to the agent. -/
structure ChatRequest where
  url : String
  authorization? : Option String
  body : Json

/-- What comes of sending a request. -/
inductive Exchange where
  /-- It could not be sent. -/
  | unreachable (detail : String)
  /-- Nothing came before the time was up. -/
  | timedOut
  /-- The reply broke off. -/
  | brokenOff (detail : String)
  | reply (status : Nat) (body : String)

/-- A way to send requests. -/
abbrev Transport := ChatRequest → Exchange

namespace AgentSettings

/-- The address for completions at the endpoint. -/
def completionsUrl (s : AgentSettings) : String :=
  let endpoint := Text.trimEndings (Text.trim s.endpoint) "/"
  if Text.endsWith endpoint "/chat/completions" then endpoint
  else if Text.endsWith endpoint "/v1" then endpoint ++ "/chat/completions"
  else endpoint ++ "/v1/chat/completions"

/-- The request for an answer of so many tokens. -/
def request (s : AgentSettings) (messages : List ChatMessage) (maxTokens : Nat) : ChatRequest where
  url := s.completionsUrl
  authorization? := s.apiKey?.map ("Bearer " ++ ·)
  body := .object [("model", .text s.model), ("messages", .list (messages.map (·.toJson))),
    ("max_tokens", .nat maxTokens), ("temperature", .decimal "0.0".toList), ("stream", .bool false)]

end AgentSettings

/-! ## Replies -/

/-- The most characters of a reply that a failure quotes. -/
def quoteLimit : Nat := 400

/-- The beginning of a reply. -/
def quoteReply (body : String) : String :=
  if body.length ≤ quoteLimit then body else Text.takeChars quoteLimit body ++ "..."

/-- The texts of a list of parts, each without the blanks around it; those that say nothing are left
out. -/
def partTexts? (j : Json) : Option (List String) := do
  let parts ← j.asList? fun part => do
    let fields ← part.asFields? ["text"]
    fields.orElse? "text" none fun text =>
      match text with
      | .null => some none
      | other => (asText? other).map some
  return ((parts.filterMap id).map Text.trim).filter (· ≠ "")

/-- The text of a message: it is one text, or a list of parts with a line for each. As it may be either
it is read as a whole first, so nothing in it may be broken, unknown fields included. -/
def contentText? (j : Json) : Option String :=
  if j.isWhole then
    match j with
    | .text s => some (Text.trim s)
    | other => (partTexts? other).map (Text.join "\n")
  else none

/-- The texts of the choices in a reply. -/
def choiceTexts? (j : Json) : Option (List String) := do
  let fields ← j.asFields? ["choices"]
  fields.orElse? "choices" [] (asList? fun choice => do
    let choiceFields ← choice.asFields? ["message"]
    choiceFields.need? "message" fun message => do
      let messageFields ← message.asFields? ["content"]
      messageFields.need? "content" contentText?)

/-- The text of the first choice in the body of a reply. -/
def bodyText (body : String) : Except Failure String :=
  match (Json.read? body).bind choiceTexts? with
  | none =>
    .error (.agent ("invalid JSON from agent endpoint: not a list of choices (body="
      ++ quoteReply body ++ ")"))
  | some [] | some ("" :: _) => .error (.agent "agent response had no content")
  | some (text :: _) => .ok text

/-- A number of thousandths of a second in words. -/
def duration (thousandths : Nat) : String :=
  if thousandths % 1000 = 0 then toString (thousandths / 1000) ++ "s"
  else if thousandths < 1000 then toString thousandths ++ "ms"
  else
    let rest := (Nat.toDigits 10 (1000 + thousandths % 1000)).drop 1
    toString (thousandths / 1000) ++ "." ++ .ofList (Text.trimEndBy (· == '0') rest) ++ "s"

/-- The text that an exchange brings. -/
def replyText (s : AgentSettings) : Exchange → Except Failure String
  | .unreachable detail =>
    .error (.agent ("agent request failed (model=" ++ s.model ++ "): " ++ detail))
  | .timedOut =>
    .error (.agent ("agent request timed out after " ++ duration s.timeout ++ " (model=" ++ s.model
      ++ ")"))
  | .brokenOff detail => .error (.agent ("failed to read agent response body: " ++ detail))
  | .reply status body =>
    if HttpStatus.isSuccess status then bodyText body
    else
      .error (.agent ("agent endpoint returned HTTP " ++ HttpStatus.describe status ++ ": "
        ++ quoteReply body))

/-- Asks the agent. There must be something to ask. -/
def AgentSettings.complete (s : AgentSettings) (send : Transport) (messages : List ChatMessage)
    (maxTokens : Nat) : Except Failure String :=
  if messages.isEmpty then .error (.agent "agent completion requires at least one message")
  else replyText s (send (s.request messages maxTokens))

end DirectoryNotes
