import DirectoryNotes.FileName
import DirectoryNotes.FileTree.Basic

/-!
# Drawn trees

`drawTree` draws a directory as lines: its name, and below it the entries down to a depth, directories
before files and each kind in the order of the names. Hidden entries and packages that were installed
are left out.

Links are followed. A directory that was reached before, on any way, is named again but its entries
are not. It is known again by its resolved path, or by the path on which it was reached if the file
system does not tell that one.
-/

namespace DirectoryNotes

/-- The directory of installed packages. -/
def packagesName : String := "node_modules"

namespace Drawing

/-- An entry to be drawn: its name, its path, and whether that leads to a directory. -/
structure Item where
  name : String
  path : Path
  isDirectory : Bool

/-- Whether an entry is drawn. -/
def isDrawn (name : String) : Bool := !FileName.isHidden name && name != packagesName

/-- Whether an item comes before another: directories first, then by name. -/
def comesBefore (a b : Item) : Bool :=
  if a.isDirectory == b.isDirectory then a.name ≤ b.name else a.isDirectory

/-- The entries of a directory to be drawn, in their order. -/
def items (t : FileTree) (directory : Path) : List Item :=
  let names := ((t.listDirectory directory).toOption.getD []).filter isDrawn
  (names.map fun name =>
    let path := directory.join ⟨name⟩
    Item.mk name path (t.isDirectory path)).mergeSort comesBefore

/-- The connector in front of an entry. -/
def branch (isLast : Bool) : String := if isLast then "└── " else "├── "

/-- What stands below the connector of an entry. -/
def stem (isLast : Bool) : String := if isLast then "    " else "│   "

/-- An entry as it is named in a drawing. -/
def label (name : String) (isDirectory : Bool) : String := name ++ if isDirectory then "/" else ""

/-- The line of an entry below others that are drawn with the given margin. -/
def line (margin : String) (isLast : Bool) (name : String) (isDirectory : Bool) : String :=
  margin ++ branch isLast ++ label name isDirectory

/-- The margin of what is drawn below an entry. -/
def innerMargin (margin : String) (isLast : Bool) : String := margin ++ stem isLast

/-- The lines drawn so far, and the marks of the directories whose entries were drawn. -/
abbrev State := List String × List (List PathPart)

mutual

/-- Draws the entries of a directory, `depth` levels of them. -/
def below (t : FileTree) (depth : Nat) (margin : String) (directory : Path) (state : State) :
    State :=
  match depth with
  | 0 => state
  | depth + 1 => each t depth margin (items t directory) state
termination_by (depth, 0)

/-- Draws entries one after the other, and `depth` levels below each. -/
def each (t : FileTree) (depth : Nat) (margin : String) (remaining : List Item) (state : State) :
    State :=
  match remaining with
  | [] => state
  | item :: rest =>
    let isLast := rest.isEmpty
    let drawn := (state.1 ++ [line margin isLast item.name item.isDirectory], state.2)
    let inner :=
      if item.isDirectory ∧ depth ≠ 0 ∧ t.mark item.path ∉ state.2 then
        below t depth (innerMargin margin isLast) item.path
          (drawn.1, t.mark item.path :: state.2)
      else drawn
    each t depth margin rest inner
termination_by (depth, remaining.length + 1)

end

end Drawing

/-- The lines of a drawn directory. -/
def drawTree (t : FileTree) (directory : Path) (depth : Nat) : List String :=
  let seen := (t.realPath directory).toOption.toList.map (·.parts)
  (Drawing.below t depth "" directory ([directory.displayName ++ "/"], seen)).1

/-- The text of a drawn directory. -/
def renderTree (t : FileTree) (directory : Path) (depth : Nat) : String :=
  String.join ((drawTree t directory depth).map (· ++ "\n"))

end DirectoryNotes
