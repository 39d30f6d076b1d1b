import DirectoryNotes.Ignore.Glob
import DirectoryNotes.Text

/-!
# Ignore rules

A rule is a line of an ignore list. A `!` in front includes what earlier lines leave out, and a slash
at the end restricts the line to directories. A line with a slash elsewhere speaks of paths from the
root; a line without one speaks of names at any depth.
-/

namespace DirectoryNotes

/-- A line of an ignore list. -/
structure IgnoreRule where
  glob : Glob
  /-- It includes what it matches. -/
  negated : Bool
  directoriesOnly : Bool

namespace IgnoreRule

/-- The marks around the glob of a line. -/
structure Marks where
  negated : Bool
  fromRoot : Bool
  directoriesOnly : Bool
  glob : List Char

/-- Takes the marks at the front off. A backslash in front of `!` or `#` takes their meaning. -/
def takeFront (line : List Char) : Marks :=
  match line with
  | '\\' :: '!' :: rest => ⟨false, false, false, '!' :: rest⟩
  | '\\' :: '#' :: rest => ⟨false, false, false, '#' :: rest⟩
  | '!' :: '/' :: rest => ⟨true, true, false, rest⟩
  | '!' :: rest => ⟨true, false, false, rest⟩
  | '/' :: rest => ⟨false, true, false, rest⟩
  | _ => ⟨false, false, false, line⟩

/-- Takes the slash at the end off, with a backslash in front of it. -/
def takeEnd (marks : Marks) : Marks :=
  if marks.glob.getLast? = some '/' then
    let glob := marks.glob.dropLast
    let glob := if glob.getLast? = some '\\' then glob.dropLast else glob
    { marks with directoriesOnly := true, glob := glob }
  else marks

/-- Whether a glob begins with `**` as a directory of its own. -/
def beginsAnywhere (glob : List Char) : Bool :=
  "**/".toList.isPrefixOf glob || glob == "**".toList

/-- The glob of a line for paths from the root: a line without a slash may match at any depth, and
one that ends in `/**` matches only what lies below. -/
def anchored (marks : Marks) : List Char :=
  let glob :=
    if marks.fromRoot || marks.glob.contains '/' || beginsAnywhere marks.glob then marks.glob
    else "**/".toList ++ marks.glob
  if "/**".toList.isSuffixOf glob then glob ++ "/*".toList else glob

/-- Whether a line says nothing: it is blank, or a comment. -/
def isIdle (line : String) : Bool :=
  line.isEmpty || line.toList.head? == some '#'

/-- The rule of a line that says something. -/
def parse (line : String) : Except GlobError IgnoreRule := do
  let marks := takeEnd (takeFront line.toList)
  return ⟨← Glob.parse (anchored marks), marks.negated, marks.directoriesOnly⟩

/-- Whether a rule speaks of a path. -/
def speaksOf (rule : IgnoreRule) (path : String) (isDirectory : Bool) : Bool :=
  (!rule.directoriesOnly || isDirectory) && rule.glob.covers path

end IgnoreRule

end DirectoryNotes
