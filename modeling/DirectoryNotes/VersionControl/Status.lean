import DirectoryNotes.Error
import DirectoryNotes.Text

/-!
# The state of a working tree

A line of a status report holds two letters, a blank and a path. Renamed and copied files are written
as the old path, an arrow and the new one. Quotes around a path are taken off; what they escape is
kept as it is written.
-/

namespace DirectoryNotes.Status

/-- How many bytes of a line come before the path. -/
def markBytes : Nat := 3

/-- Cuts a text after some bytes, unless that would cut a character in two. -/
def cutBytes? : Nat → List Char → Option (List Char × List Char)
  | 0, rest => some ([], rest)
  | _ + 1, [] => none
  | n + 1, c :: cs =>
    if c.utf8Size ≤ n + 1 then
      (cutBytes? (n + 1 - c.utf8Size) cs).map fun (front, rest) => (c :: front, rest)
    else none
termination_by n => n
decreasing_by
  have := c.utf8Size_pos
  omega

/-- What stands between an old path and a new one. -/
def arrow : List Char := " -> ".toList

/-- The text after the last arrow, if there is an arrow. -/
def afterArrow? : List Char → Option (List Char)
  | [] => none
  | c :: cs =>
    match afterArrow? cs with
    | some rest => some rest
    | none =>
      if arrow.isPrefixOf (c :: cs) then some ((c :: cs).drop arrow.length) else none

/-- The path in a line of a report. A line that is too short, that speaks of a deletion or that has
no path tells nothing; a line that would have to be cut inside a character is refused. -/
def pathOfLine (line : String) : Except Failure (Option Path) :=
  if line.utf8ByteSize ≤ markBytes then .ok none
  else
    match cutBytes? markBytes line.toList with
    | none => .error (.brokenLine line)
    | some (marks, rest) =>
      let marks := Text.trimBy Text.isBlank marks
      if marks.contains 'D' then .ok none
      else
        let moved := marks.contains 'R' || marks.contains 'C'
        let written := if moved then (afterArrow? rest).getD rest else rest
        match Text.trimBy (· == '\x22') (Text.trimBy Text.isBlank written) with
        | [] => .ok none
        | path => .ok (some ⟨.ofList path⟩)

/-- The paths in a report. -/
def paths (report : String) : Except Failure (List Path) := do
  return (← (Text.linesOf report).mapM pathOfLine).filterMap id

end DirectoryNotes.Status
