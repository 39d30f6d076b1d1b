import DirectoryNotes.Record.Basic

/-!
# Commit logs

A line of a log holds the id, the date and the message of a commit, with a separator between them
that does not occur in the first two. Lines of another form are passed over.
-/

namespace DirectoryNotes.Log

/-- The character between the parts of a line. -/
def separator : Char := '\x1f'

/-- The form in which the lines of a log are asked for. -/
def format : String := "%h%x1f%ad%x1f%s"

/-- The parts of a line: the third one may hold separators of its own. -/
def parts? (line : List Char) : Option (List Char × List Char × List Char) :=
  let id := line.takeWhile (· != separator)
  match line.drop id.length with
  | [] => none
  | _ :: rest =>
    let date := rest.takeWhile (· != separator)
    match rest.drop date.length with
    | [] => none
    | _ :: message => some (id, date, message)

/-- A part as a text, without the blanks around it. -/
def trimmed (part : List Char) : String := .ofList (Text.trimBy Text.isBlank part)

/-- The commit in a line. -/
def commitOfLine? (line : String) : Option Commit := do
  let (id, date, message) ← parts? line.toList
  if trimmed id = "" then none else some ⟨trimmed id, trimmed date, trimmed message⟩

/-- The commits in a log. -/
def commits (log : String) : List Commit := (Text.linesOf log).filterMap commitOfLine?

end DirectoryNotes.Log
