import DirectoryNotes.Document
import DirectoryNotes.FileTree.Visit
import DirectoryNotes.View.Tree

/-!
# Views

A view puts the documents of a project together into one text.

* the directory view: the document of a directory, and its entries drawn;
* the project view: the entries of the root drawn, and the first lines of the documents that are met
  first;
* the standard view: the document of a directory, and the first lines of the one above it.
-/

namespace DirectoryNotes

/-- The ways to look at a project. -/
inductive View where
  | directory
  | project
  | standard
  deriving DecidableEq, Repr

namespace View

/-- The name of a view. -/
def name : View → String
  | .directory => "directory"
  | .project => "project"
  | .standard => "standard"

/-- The view that is written in a text, in any case. -/
def parse (s : String) : Except Failure View :=
  let small := Text.lower s
  if small = "directory" ∨ small = "dir" then .ok .directory
  else if small = "project" then .ok .project
  else if small = "standard" then .ok .standard
  else .error (.config ("unknown context view: " ++ small))

/-! ## Parts of a view -/

/-- How deep the directory view draws. -/
def directoryDepth : Nat := 2

/-- How deep the project view draws. -/
def projectDepth : Nat := 1

/-- The most documents in the project view. -/
def documentLimit : Nat := 10

/-- The most lines of a document in the project view. -/
def documentLines : Nat := 10

/-- The most lines of the document above in the standard view. -/
def parentLines : Nat := 20

/-- What stands in place of a document that is not there. -/
def missingNotice (target : Path) : String :=
  "No documentation found for " ++ target.text ++ ". Run `dir-context refresh --path "
    ++ target.text ++ "` to generate it.\n"

/-- The first lines of a text, and a line of points if there are more. -/
def excerpt (text : String) (limit : Nat) : String :=
  let lines := Text.linesOf text
  String.join ((lines.take limit).map (· ++ "\n")) ++ if lines.length > limit then "...\n" else ""

/-- A text that ends in a line feed. -/
def closed (text : String) : String := if Text.endsWith text "\n" then text else text ++ "\n"

/-- A directory as the views name it: its path from the root, with a point for the root. -/
def relativeName (root directory : Path) : String :=
  match directory.relativeTo? root with
  | some rest =>
    if rest.isEmpty then "."
    else .ofList (rest.text.toList.map fun c => if c = '\\' then '/' else c)
  | none => directory.text

/-- The document of a directory, or the notice that it has none. -/
def documentOrNotice (t : FileTree) (target : Path) : Except Failure String := do
  return closed ((← Document.read t target).getD (missingNotice target))

/-! ## The directory view -/

/-- The document of a directory and its entries. -/
def directoryView (t : FileTree) (target : Path) : Except Failure String := do
  let document ← documentOrNotice t target
  return document ++ "\n## File Tree\n\n```\n" ++ renderTree t target directoryDepth ++ "```\n"

/-! ## The project view -/

/-- What the project view comes by: directories that are not hidden, and documents. -/
def showsDocument (v : Visited) : Bool :=
  if v.entry.isDirectory then !FileName.isHidden v.name && v.name != packagesName
  else v.name == Document.fileName

/-- The directories with a document that the project view shows. Links are not followed below the
root. -/
def documentDirectories (t : FileTree) (root : Path) : List Path :=
  let visits := t.visit false showsDocument root
  let rootIsLink := match t.locateEntry root with
    | .ok l => match t.entryAt? l with
      | some (.link _) => true
      | _ => false
    | .error _ => false
  let documents := visits.filter fun v => v.entry.isFile && !(v.depth == 0 && rootIsLink)
  (documents.filterMap (·.path.parent?)).take documentLimit

/-- The section of a directory in the project view, if it still has a document. -/
def projectSection (t : FileTree) (root directory : Path) : Except Failure String := do
  match ← Document.read t directory with
  | none => return ""
  | some text =>
    return "\n## " ++ relativeName root directory ++ "\n\n" ++ excerpt text documentLines

/-- The entries of the root and the first lines of documents. -/
def projectView (t : FileTree) (root : Path) : Except Failure String := do
  let sections ← (documentDirectories t root).mapM (projectSection t root)
  return "# Project Structure\n\n```\n" ++ renderTree t root projectDepth ++ "```\n"
    ++ String.join sections

/-! ## The standard view -/

/-- The directory above a target inside the project, as a path from the root. -/
def parentWithinRoot? (t : FileTree) (root target : Path) : Option Path :=
  match t.realPath root, t.realPath target with
  | .ok canonicalRoot, .ok canonicalTarget => do
    if canonicalTarget.same canonicalRoot then none
    let above ← canonicalTarget.parent?
    let rest ← above.relativeTo? canonicalRoot
    return if rest.isEmpty then root else root.join rest
  | _, _ => none

/-- The document of a directory and the first lines of the one above it. -/
def standardView (t : FileTree) (root target : Path) : Except Failure String := do
  let document ← documentOrNotice t target
  match parentWithinRoot? t root target with
  | none => return document
  | some above =>
    match ← Document.read t above with
    | none => return document
    | some text =>
      return document ++ "\n## Parent Context (" ++ relativeName root above ++ ")\n\n"
        ++ excerpt text parentLines

/-- The text of a view. -/
def text (view : View) (t : FileTree) (root target : Path) : Except Failure String :=
  match view with
  | .directory => directoryView t target
  | .project => projectView t root
  | .standard => standardView t root target

end View

end DirectoryNotes
