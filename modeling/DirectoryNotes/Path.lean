import DirectoryNotes.Text.Basic

/-!
# Paths

A path is a text whose parts stand between slashes. The text is kept as it was written; what a path
means is read off its parts, where repeated slashes, a trailing slash and the part `.` inside a path
do not count. Two paths are the same when their parts are.

* `Path.parts`, `Path.compare`: the parts and the order by them;
* `Path.join`, `Path.parent?`, `Path.ancestors`, `Path.relativeTo?`: moving about;
* `Path.fileName?`, `Path.stem?`, `Path.extension?`: the last part and what stands around its last
  point;
* `PathSet`: paths in increasing order without repetition.
-/

namespace DirectoryNotes

/-! ## Parts -/

/-- A part of a path. The leading slash is a part of its own, and so is a leading `.`. -/
inductive PathPart where
  | root
  | here
  | up
  | name (text : String)
  deriving DecidableEq, Repr

namespace PathPart

/-- The kinds of parts in increasing order. -/
def rank : PathPart → Nat
  | .root => 0
  | .here => 1
  | .up => 2
  | .name _ => 3

/-- The name in a part, empty for the other kinds. -/
def nameText : PathPart → String
  | .name text => text
  | _ => ""

/-- Parts are ordered by kind, and names by their characters. -/
def compare (a b : PathPart) : Ordering :=
  (Ord.compare a.rank b.rank).then (Ord.compare a.nameText b.nameText)

/-- The part that a segment between two slashes stands for, if it counts. -/
def ofSegment? (segment : List Char) : Option PathPart :=
  if segment = [] ∨ segment = ['.'] then none
  else if segment = ['.', '.'] then some .up
  else some (.name (.ofList segment))

end PathPart

/-- A path, as it was written. -/
structure Path where
  text : String
  deriving DecidableEq, Repr, Inhabited

namespace Path

/-- What a path begins with. -/
inductive Opening where
  /-- A slash. -/
  | root
  /-- The part `.`. -/
  | here
  /-- Neither of them. -/
  | plain
  deriving DecidableEq, Repr

/-- The text of an opening. -/
def Opening.text : Opening → List Char
  | .root => ['/']
  | .here => ['.']
  | .plain => []

/-- The part of an opening. -/
def Opening.parts : Opening → List PathPart
  | .root => [.root]
  | .here => [.here]
  | .plain => []

/-- The opening of a path and the segments after it. -/
def opened (p : Path) : Opening × List (List Char) :=
  match p.text.toList with
  | '/' :: rest => (.root, Text.pieces '/' rest)
  | chars =>
    match Text.pieces '/' chars with
    | ['.'] :: rest => (.here, rest)
    | segments => (.plain, segments)

/-- The path that has the given opening and segments. -/
def ofOpened (opening : Opening) (segments : List (List Char)) : Path :=
  let slash := if opening = .here ∧ segments ≠ [] then ['/'] else []
  ⟨.ofList (opening.text ++ slash ++ List.intercalate ['/'] segments)⟩

/-- The parts of a path. -/
def parts (p : Path) : List PathPart :=
  p.opened.1.parts ++ p.opened.2.filterMap PathPart.ofSegment?

/-- Whether a path starts at the root. -/
def isAbsolute (p : Path) : Bool := p.text.toList.head? == some '/'

/-- Whether a path has no text at all. -/
def isEmpty (p : Path) : Bool := p.text.isEmpty

/-! ## Order -/

/-- The order of paths, part by part. -/
def compare (p q : Path) : Ordering :=
  List.compareLex PathPart.compare p.parts q.parts

/-- Whether two paths have the same parts. -/
def same (p q : Path) : Bool := p.parts == q.parts

/-! ## Moving about -/

/-- A path continued by another; an absolute path takes the place of the first. -/
def join (p q : Path) : Path :=
  if q.isAbsolute then q
  else if p.text.toList.getLast?.all (· == '/') then ⟨p.text ++ q.text⟩
  else ⟨p.text ++ "/" ++ q.text⟩

/-- Whether a segment stands for no part. -/
def isIdle (segment : List Char) : Bool := (PathPart.ofSegment? segment).isNone

/-- Segments without the idle ones at the end. -/
def dropIdleEnd (segments : List (List Char)) : List (List Char) :=
  (segments.reverse.dropWhile isIdle).reverse

/-- The path without what stands for no part at its end, such as a trailing slash. -/
def trimmed (p : Path) : Path := ofOpened p.opened.1 (dropIdleEnd p.opened.2)

/-- The paths above one with the given opening and segments, the segments in reverse. -/
def above (opening : Opening) : List (List Char) → List Path
  | [] => if opening = .here then [⟨""⟩] else []
  | segment :: rest =>
    if isIdle segment then above opening rest
    else ofOpened opening (rest.dropWhile isIdle).reverse :: above opening rest

/-- The paths that are left after taking parts off the end one by one. -/
def properAncestors (p : Path) : List Path :=
  above p.opened.1 p.opened.2.reverse

/-- The path itself and those above it, up to the root or the empty path. -/
def ancestors (p : Path) : List Path := p :: p.properAncestors

/-- The path without its last part. The root has none, and neither has the empty path. -/
def parent? (p : Path) : Option Path := p.properAncestors.head?

/-- What is left of the segments after the given parts. -/
def dropParts : List PathPart → List (List Char) → Option (List (List Char))
  | [], segments => some segments
  | _ :: _, [] => none
  | part :: rest, segment :: segments =>
    match PathPart.ofSegment? segment with
    | none => dropParts (part :: rest) segments
    | some p => if p = part then dropParts rest segments else none

/-- The rest of a path below `base`, if the parts of `base` come first in it. -/
def relativeTo? (p base : Path) : Option Path :=
  let (opening, segments) := p.opened
  match base.parts, opening with
  | [], _ => some p.trimmed
  | parts, .plain => rest parts segments
  | .root :: parts, .root => rest parts segments
  | .here :: parts, .here => rest parts segments
  | _, _ => none
where
  rest (parts : List PathPart) (segments : List (List Char)) : Option Path :=
    (dropParts parts segments).map fun left =>
      ofOpened .plain (dropIdleEnd (left.dropWhile isIdle))

/-! ## The last part -/

/-- The last part, if it is a name. -/
def fileName? (p : Path) : Option String :=
  match p.parts.getLast? with
  | some (.name text) => some text
  | _ => none

/-- The last name, or the whole path when it ends in none. -/
def displayName (p : Path) : String := p.fileName?.getD p.text

/-- What stands before and after the last point of a name. A point at the very start does not
count. -/
def splitAtPoint (name : List Char) : List Char × Option (List Char) :=
  let reversed := name.reverse
  let after := reversed.takeWhile (· != '.')
  match reversed.drop after.length with
  | [] => (name, none)
  | _ :: before => if before = [] then (name, none) else (before.reverse, some after.reverse)

/-- The last name up to its last point. -/
def stem? (p : Path) : Option String :=
  p.fileName?.map fun name => .ofList (splitAtPoint name.toList).1

/-- The last name after its last point. -/
def extension? (p : Path) : Option String :=
  p.fileName?.bind fun name => (splitAtPoint name.toList).2.map String.ofList

end Path

/-! ## Sets -/

/-- Paths in increasing order, each once. -/
abbrev PathSet := List Path

namespace PathSet

/-- Adds a path at its place; of two that are the same the first stays. -/
def insert (p : Path) : PathSet → PathSet
  | [] => [p]
  | q :: rest =>
    match p.compare q with
    | .lt => p :: q :: rest
    | .eq => q :: rest
    | .gt => q :: insert p rest

/-- The set of the paths in a list. -/
def ofList (paths : List Path) : PathSet :=
  paths.foldl (fun set p => insert p set) []

end PathSet

/-! ## Paths in use -/

example : (Path.mk "/a/./b//c/").parts = [.root, .name "a", .name "b", .name "c"] := by
  decide +kernel

example : (Path.mk "./a").parts = [.here, .name "a"] := by decide +kernel

example : (Path.mk "/a//b/.").parent? = some ⟨"/a"⟩ ∧ (Path.mk "/").parent? = none := by
  decide +kernel

example : (Path.mk "/p/src//x/").relativeTo? ⟨"/p"⟩ = some ⟨"src//x"⟩ := by decide +kernel

example : (Path.mk "/p").relativeTo? ⟨"/pp"⟩ = none := by decide +kernel

example : (Path.mk "a/b.tar.gz").extension? = some "gz" ∧ (Path.mk ".env").extension? = none := by
  decide +kernel

end DirectoryNotes
