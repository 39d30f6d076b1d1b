import DirectoryNotes.Text

/-!
# Settings of the agent

Where the agent is reached, by what name the model goes, and the key. They come from the environment;
a variable that is blank counts as not set.
-/

namespace DirectoryNotes

/-- The variables of the environment. -/
abbrev Environment := String → Option String

/-- How the agent is reached. The time to wait is in thousandths of a second. -/
structure AgentSettings where
  endpoint : String
  model : String
  apiKey? : Option String
  timeout : Nat
  deriving DecidableEq, Repr

namespace AgentSettings

/-- The variable that names the endpoint. -/
def endpointVariable : String := "DIRCONTEXT_AGENT_ENDPOINT"

/-- The variable that names the model. -/
def modelVariable : String := "DIRCONTEXT_AGENT_MODEL"

/-- The variables that hold the key, the first one before the second. -/
def keyVariables : List String := ["DIRCONTEXT_AGENT_API_KEY", "ANTHROPIC_API_KEY"]

/-- The value of a variable that is not blank. -/
def setValue? (environment : Environment) (name : String) : Option String :=
  (environment name).filter fun value => !Text.isBlankText value

/-- The settings in an environment. -/
def ofEnvironment (environment : Environment) : AgentSettings where
  endpoint := (setValue? environment endpointVariable).getD "https://api.anthropic.com/v1"
  model := (setValue? environment modelVariable).getD "claude-3-5-haiku-latest"
  apiKey? := keyVariables.findSome? (setValue? environment)
  timeout := 60000

end AgentSettings

end DirectoryNotes
