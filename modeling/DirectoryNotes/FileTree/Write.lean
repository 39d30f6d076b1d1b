import DirectoryNotes.FileTree.Basic

/-!
# Changing a file tree

Every operation returns the changed tree or the reason why nothing changes; no operation changes a
part of what it should.

* `FileTree.write`: the whole content of a file, through links;
* `FileTree.moveFile`, `FileTree.removeFile`, `FileTree.removeAll`: an entry itself, not what it
  links to;
* `FileTree.makeDirectories`, `FileTree.makeLink`: new entries;
* `FileTree.listing`: everything below a directory.
-/

namespace DirectoryNotes.FileTree

/-! ## Naming an entry -/

/-- Whether a segment is the name of an entry, and not a way of saying a directory. -/
def isName (segment : String) : Bool := segment ≠ "" && segment ≠ "." && segment ≠ ".."

/-- The location of a directory given by segments. -/
def walkToDirectory (t : FileTree) (start : Location) (path : List String) :
    Except FileError Location := do
  let l ← t.walk linkLimit start path
  match t.entryAt? l with
  | some .directory => .ok l
  | some (.link _) | none => .error .missing
  | some (.file ..) => .error .notDirectory

/-- The location of the entry that segments name, links followed on the way but not at the end. -/
def locateNamed (t : FileTree) (start : Location) (names : List String) :
    Except FileError Location :=
  match names.getLast?.filter isName with
  | none => t.walk linkLimit start names
  | some name => do
    let directory ← t.walkToDirectory start names.dropLast
    if name.utf8ByteSize > nameLimit then .error .nameTooLong else .ok (directory ++ [name])

/-- The location of the entry that a path names. -/
def locateEntry (t : FileTree) (p : Path) : Except FileError Location := do
  let (start, names) ← t.begin p
  t.locateNamed start names

/-- Segments without the empty ones at the end, which slashes there leave. -/
def dropEmptyEnd (names : List String) : List String := (names.reverse.dropWhile (· = "")).reverse

/-! ## Files -/

/-- Writes a file, in place of the bytes that it had. The file need not be there, but its directory
must be. -/
def write (t : FileTree) (p : Path) (bytes : ByteArray) : Except FileError FileTree := do
  let (start, names) ← t.begin p
  match names.getLast?.filter isName with
  | some _ =>
    let l ← t.walk linkLimit start names
    match t.entryAt? l with
    | some .directory => .error .isDirectory
    | _ => .ok (t.put l (.file bytes t.clock))
  | none =>
    let _ ← t.walkToDirectory start (dropEmptyEnd names).dropLast
    .error .isDirectory

/-- Writes a text as a file. -/
def writeText (t : FileTree) (p : Path) (text : String) : Except FileError FileTree :=
  t.write p text.toUTF8

/-- Moves a file or a link to another name, where it takes the place of a file or a link. -/
def moveFile (t : FileTree) (p q : Path) : Except FileError FileTree := do
  let source ← t.locateEntry p
  let target ← t.locateEntry q
  match t.entryAt? source, t.entryAt? target with
  | none, _ => .error .missing
  | some .directory, _ => .error .isDirectory
  | some _, some .directory => .error .isDirectory
  | some e, _ => .ok ((t.erase source).put target e)

/-- Removes a file or a link. -/
def removeFile (t : FileTree) (p : Path) : Except FileError FileTree := do
  let l ← t.locateEntry p
  match t.entryAt? l with
  | none => .error .missing
  | some .directory => .error .isDirectory
  | some _ => .ok (t.erase l)

/-- Removes a file, a link, or a directory with everything below it. -/
def removeAll (t : FileTree) (p : Path) : Except FileError FileTree := do
  let l ← t.locateEntry p
  match t.entryAt? l with
  | none => .error .missing
  | some _ => .ok { t with entries := t.entries.filter fun (m, _) => !l.isPrefixOf m }

/-! ## Directories and links -/

/-- Makes a new entry; nothing may stand there. -/
def make (t : FileTree) (p : Path) (e : Entry) : Except FileError FileTree := do
  let (start, names) ← t.begin p
  let l ← t.locateNamed start (dropEmptyEnd names)
  match t.entryAt? l with
  | none => .ok (t.put l e)
  | some _ => .error .alreadyThere

/-- Makes a directory, unless it is there already. -/
def ensureDirectory (t : FileTree) (p : Path) : Except FileError FileTree :=
  match t.make p .directory with
  | .ok made => .ok made
  | .error e => if t.isDirectory p then .ok t else .error e

/-- Makes the first of the paths a directory. Where the directory above is missing, it is made before,
which is the next of the paths. -/
def makeFrom (t : FileTree) : List Path → Except FileError FileTree
  | [] => .ok t
  | p :: above =>
    if p.isEmpty then .ok t
    else
      match t.ensureDirectory p with
      | .error .missing => do (← makeFrom t above).ensureDirectory p
      | result => result

/-- Makes a directory and the directories above it, those that are not there yet. -/
def makeDirectories (t : FileTree) (p : Path) : Except FileError FileTree :=
  makeFrom t p.ancestors

/-- Makes a link. -/
def makeLink (t : FileTree) (p : Path) (target : String) : Except FileError FileTree :=
  t.make p (.link target)

/-! ## Listing -/

/-- The paths of everything below a directory, relative to it and in increasing order. A directory
ends in a slash. -/
def listing (t : FileTree) (p : Path) : Except FileError (List String) := do
  let (l, _) ← t.find p
  let texts := t.entries.filterMap fun (m, e) =>
    if isBelow l m then
      some ("/".intercalate (m.drop l.length) ++ if e.isDirectory then "/" else "")
    else none
  .ok (texts.mergeSort (· ≤ ·))

end DirectoryNotes.FileTree
