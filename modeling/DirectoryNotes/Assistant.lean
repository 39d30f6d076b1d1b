import DirectoryNotes.Configuration
import DirectoryNotes.Record.Basic
import DirectoryNotes.Reply

/-!
# The assistant

The assistant is asked for better words than the heuristics have: one sentence on a file, an insight
into a directory, and improvements. Every question has a fallback, so it may answer nothing at all.

`repliesInTurn` is the part of it that needs care: the files of a directory are asked about a few at a
time, and a question that is never answered keeps its place.
-/

namespace DirectoryNotes

/-! ## Questions -/

/-- A source file and what is known of it. -/
structure SourceSummary where
  name : String
  facts : SourceFacts
  deriving DecidableEq, Repr

/-- What the assistant has to say on a directory. What is empty is no opinion. -/
structure Insight where
  purpose : String := ""
  architecture : String := ""
  improvements : List String := []
  deriving DecidableEq, Repr

/-- The assistant: whether it can be asked, and what it replies. -/
structure Assistant where
  isAvailable : Bool
  describeFile : Path → String → SourceFacts → Reply String
  describeDirectory : Path → List FileSummary → List SourceSummary → Mode → Reply Insight
  suggestImprovements : DirectoryRecord → Mode → Reply (List String)

/-- A question that was put to the assistant. -/
inductive Question where
  | file (path : Path) (source : String) (facts : SourceFacts)
  | directory (path : Path) (files : List FileSummary) (sources : List SourceSummary) (mode : Mode)
  | improvements (record : DirectoryRecord) (mode : Mode)

/-! ## Files of a directory -/

/-- The most questions that wait for their answers at one time. -/
def questionLimit : Nat := 4

/-- The replies on the files of a directory, each file given by its reply if it is one to ask about.
A file is asked about when a place is free. An answer or a failure frees the place, silence never
does, and so a file is not asked about when silence holds all places before it. -/
def repliesInTurn (held : Nat) : List (Option (Reply α)) → List (Option (Reply α))
  | [] => []
  | none :: rest => none :: repliesInTurn held rest
  | some reply :: rest =>
    if held ≥ questionLimit then none :: repliesInTurn held rest
    else
      match reply with
      | .silence => some .silence :: repliesInTurn (held + 1) rest
      | reply => some reply :: repliesInTurn held rest

/-- The words of a reply without the blanks around them, if there are any. -/
def wordsOf? (reply : Reply String) : Option String :=
  match reply.value?.map Text.trim with
  | some "" | none => none
  | some words => some words

end DirectoryNotes
