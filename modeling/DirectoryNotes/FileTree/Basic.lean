import DirectoryNotes.Path

/-!
# File trees

A file tree says what stands at each location below the root directory: a directory, a file, or a
link. Paths lead to locations by way of links.

* `FileTree`, `FileTree.entryAt?`, `FileTree.put`, `FileTree.erase`: the tree as a map;
* `FileTree.locate`, `FileTree.find`: where a path leads, links followed;
* `FileTree.readText`, `FileTree.listDirectory`: looking at what is there;
* `FileTree.realPath`: a path with the links in it replaced, whatever its length;
* `FileTree.mark`: what a directory is known again by when it is reached on another way;
* `FileTree.below`: how many entries lie below a location, the measure of every descent.
-/

namespace DirectoryNotes

/-! ## Entries -/

/-- What stands at a location. -/
inductive Entry where
  | directory
  /-- A file with its bytes and the second at which it was last written. -/
  | file (bytes : ByteArray) (modified : Int64)
  /-- A link to a path, which starts beside the link unless it is absolute. -/
  | link (target : String)

/-- Whether an entry is a directory. -/
def Entry.isDirectory : Entry → Bool
  | .directory => true
  | _ => false

/-- Whether an entry is a file. -/
def Entry.isFile : Entry → Bool
  | .file .. => true
  | _ => false

/-- The names that lead from the root directory to an entry, none of them a link's. -/
abbrev Location := List String

/-- Why the file tree refuses an operation. -/
inductive FileError where
  | missing
  | notDirectory
  | isDirectory
  | alreadyThere
  | nameTooLong
  | tooManyLinks
  | notText
  | nullInPath
  deriving DecidableEq, Repr

/-- The reason in words. -/
def FileError.message : FileError → String
  | .missing => "No such file or directory (os error 2)"
  | .notDirectory => "Not a directory (os error 20)"
  | .isDirectory => "Is a directory (os error 21)"
  | .alreadyThere => "File exists (os error 17)"
  | .nameTooLong => "File name too long (os error 36)"
  | .tooManyLinks => "Too many levels of symbolic links (os error 40)"
  | .notText => "stream did not contain valid UTF-8"
  | .nullInPath => "file name contained an unexpected NUL byte"

/-! ## The tree as a map -/

/-- The entries below the root directory, the directory where relative paths start, and the second
at which anything written now is written. A name is a text; one whose bytes are no text stands in the
tree as it is shown, and is listed under `undecodable`. -/
structure FileTree where
  entries : List (Location × Entry) := []
  workingDirectory : Location := []
  clock : Int64 := 1
  undecodable : List String := []

namespace FileTree

/-- What stands at a location. The root directory is always there. -/
def entryAt? (t : FileTree) (l : Location) : Option Entry :=
  if l = [] then some .directory else t.entries.lookup l

/-- Puts an entry at a location, in place of the one that stands there. -/
def put (t : FileTree) (l : Location) (e : Entry) : FileTree :=
  { t with entries := set t.entries }
where
  set : List (Location × Entry) → List (Location × Entry)
    | [] => [(l, e)]
    | (m, old) :: rest => if m = l then (l, e) :: rest else (m, old) :: set rest

/-- Takes the entry at a location away. -/
def erase (t : FileTree) (l : Location) : FileTree :=
  { t with entries := t.entries.filter (·.1 ≠ l) }

/-- The names of the entries directly in a directory, in the order of the tree. -/
def children (t : FileTree) (l : Location) : List String :=
  t.entries.filterMap fun (m, _) => if m.dropLast = l then m.getLast? else none

/-! ## Following paths -/

/-- The most links that may lie on the way to an entry. -/
def linkLimit : Nat := 40

/-- The most bytes that a name may have. -/
def nameLimit : Nat := 255

/-- The most bytes that a path may have. -/
def pathLimit : Nat := 4095

/-- The segments of a path's text between the slashes, without the leading slash. -/
def segments (text : String) : List String :=
  let chars := text.toList
  let chars := if chars.head? = some '/' then chars.drop 1 else chars
  (Text.pieces '/' chars).map String.ofList

/-- Where a path's text starts, given the directory for relative ones. -/
def startOf (text : String) (here : Location) : Location :=
  if text.toList.head? = some '/' then [] else here

/-- The location that the segments lead to from `here`, over at most `links` links. Everything but
the last segment must be a directory; nothing need stand at the result. -/
def walk (t : FileTree) (links : Nat) (here : Location) (path : List String) :
    Except FileError Location :=
  match path with
  | [] => .ok here
  | segment :: rest =>
    match t.entryAt? here with
    | none => .error .missing
    | some .directory =>
      if segment = "" ∨ segment = "." then walk t links here rest
      else if segment = ".." then walk t links here.dropLast rest
      else if segment.utf8ByteSize > nameLimit then .error .nameTooLong
      else
        match t.entryAt? (here ++ [segment]), links with
        | some (.link _), 0 => .error .tooManyLinks
        | some (.link target), links + 1 =>
          walk t links (startOf target here) (segments target ++ rest)
        | _, links => walk t links (here ++ [segment]) rest
    | some _ => .error .notDirectory
termination_by (links, path.length)

/-- Where a path starts, and its segments, if it may be a path at all. -/
def begin (t : FileTree) (p : Path) : Except FileError (Location × List String) :=
  if p.isEmpty then .error .missing
  else if p.text.toList.contains '\x00' then .error .nullInPath
  else if p.text.utf8ByteSize > pathLimit then .error .nameTooLong
  else .ok (startOf p.text t.workingDirectory, segments p.text)

/-- The location that a path leads to. Nothing need stand there, but the directory above it must be
there. -/
def locate (t : FileTree) (p : Path) : Except FileError Location := do
  let (start, names) ← t.begin p
  t.walk linkLimit start names

/-- The location that a path leads to, and the entry there. It is never a link. -/
def find (t : FileTree) (p : Path) : Except FileError (Location × Entry) := do
  let l ← t.locate p
  match t.entryAt? l with
  | some e => .ok (l, e)
  | none => .error .missing

/-! ## Looking -/

/-- Whether a path leads to something. -/
def reaches (t : FileTree) (p : Path) : Bool := (t.find p).toBool

/-- Whether a path leads to a directory. -/
def isDirectory (t : FileTree) (p : Path) : Bool :=
  match t.find p with
  | .ok (_, e) => e.isDirectory
  | .error _ => false

/-- Whether a path leads to a file. -/
def isFile (t : FileTree) (p : Path) : Bool :=
  match t.find p with
  | .ok (_, e) => e.isFile
  | .error _ => false

/-- The second at which what a path leads to was last written. -/
def modified (t : FileTree) (p : Path) : Except FileError Int64 := do
  match ← t.find p with
  | (_, .file _ seconds) => .ok seconds
  | _ => .ok t.clock

/-- The bytes of the file that a path leads to. -/
def readBytes (t : FileTree) (p : Path) : Except FileError ByteArray := do
  match ← t.find p with
  | (_, .file bytes _) => .ok bytes
  | _ => .error .isDirectory

/-- The text of the file that a path leads to. -/
def readText (t : FileTree) (p : Path) : Except FileError String := do
  match String.fromUTF8? (← t.readBytes p) with
  | some text => .ok text
  | none => .error .notText

/-- The names in the directory that a path leads to, in the order of the tree. -/
def listDirectory (t : FileTree) (p : Path) : Except FileError (List String) := do
  match ← t.find p with
  | (l, .directory) => .ok (t.children l)
  | _ => .error .notDirectory

/-- The path of a location. -/
def pathOf (l : Location) : Path := ⟨"/" ++ "/".intercalate l⟩

/-- The path without links that a path comes down to when it is resolved part by part. The path
itself may then be of any length; the one it comes down to may not. -/
def realPath (t : FileTree) (p : Path) : Except FileError Path :=
  if p.isEmpty then .error .missing
  else if p.text.toList.contains '\x00' then .error .nullInPath
  else do
    let l ← t.walk linkLimit (startOf p.text t.workingDirectory) (segments p.text)
    if (pathOf l).text.utf8ByteSize > pathLimit then .error .nameTooLong
    else
      match t.entryAt? l with
      | some _ => .ok (pathOf l)
      | none => .error .missing

/-- What the directory that a path leads to is known by: the parts of its resolved path, or of the
path itself if the file system does not tell that one. -/
def mark (t : FileTree) (p : Path) : List PathPart := ((t.realPath p).toOption.getD p).parts

/-- Whether the bytes of a path are a text. -/
def decodes (t : FileTree) (p : Path) : Bool :=
  p.parts.all fun
    | .name text => !t.undecodable.contains text
    | _ => true

/-! ## Measures -/

/-- Whether `m` lies below `l`. -/
def isBelow (l m : Location) : Bool := l.isPrefixOf m && l.length < m.length

/-- How many entries lie below a location. -/
def below (t : FileTree) (l : Location) : Nat := t.entries.countP (isBelow l ·.1)

/-- How many places where a directory may stand are not in the list. -/
def offList (t : FileTree) (seen : List Location) : Nat :=
  (([] : Location) :: t.entries.map (·.1)).countP (fun l => !seen.contains l)

theorem mem_of_entryAt? {t : FileTree} {l : Location} {e : Entry} (hl : l ≠ [])
    (h : t.entryAt? l = some e) : (l, e) ∈ t.entries := by
  simp only [entryAt?, hl, if_false] at h
  generalize t.entries = entries at h ⊢
  induction entries with
  | nil => simp at h
  | cons x rest ih =>
    obtain ⟨m, old⟩ := x
    simp only [List.lookup_cons] at h
    split at h
    · next heq => simp_all
    · exact List.mem_cons_of_mem _ (ih h)

/-- An entry of a directory has fewer entries below it than the directory. -/
theorem below_child_lt {t : FileTree} {l : Location} {name : String} {e : Entry}
    (h : t.entryAt? (l ++ [name]) = some e) : t.below (l ++ [name]) < t.below l := by
  have hmem := mem_of_entryAt? (by simp) h
  unfold below
  refine Nat.lt_of_le_of_ne (List.countP_mono_left ?_) ?_
  · intro x _ hx
    simp only [isBelow, Bool.and_eq_true, List.isPrefixOf_iff_prefix, decide_eq_true_eq] at hx ⊢
    exact ⟨(List.prefix_append l [name]).trans hx.1, by simp at hx; omega⟩
  · intro heq
    have hsplit := List.append_of_mem hmem
    obtain ⟨before, after, hs⟩ := hsplit
    have hle : ∀ xs : List (Location × Entry),
        xs.countP (fun x => isBelow (l ++ [name]) x.1) ≤ xs.countP (fun x => isBelow l x.1) := by
      intro xs
      refine List.countP_mono_left ?_
      intro x _ hx
      simp only [isBelow, Bool.and_eq_true, List.isPrefixOf_iff_prefix, decide_eq_true_eq] at hx ⊢
      exact ⟨(List.prefix_append l [name]).trans hx.1, by simp at hx; omega⟩
    have hself : isBelow (l ++ [name]) (l ++ [name]) = false := by simp [isBelow]
    have hup : isBelow l (l ++ [name]) = true := by simp [isBelow]
    rw [hs] at heq
    simp only [List.countP_append, List.countP_cons, hself, hup] at heq
    have h1 := hle before
    have h2 := hle after
    simp at heq
    omega

/-- Fewer places are off a longer list. -/
theorem offList_cons_le (t : FileTree) (seen : List Location) (l : Location) :
    t.offList (l :: seen) ≤ t.offList seen := by
  refine List.countP_mono_left ?_
  intro x _ hx
  simp only [List.contains_cons, Bool.not_or, Bool.and_eq_true] at hx
  exact hx.2

/-- A place that has an entry and is not on the list leaves fewer off when it is put there. -/
theorem offList_cons_lt {t : FileTree} {seen : List Location} {l : Location} {e : Entry}
    (h : t.entryAt? l = some e) (hnew : l ∉ seen) : t.offList (l :: seen) < t.offList seen := by
  have hmem : l ∈ ([] : Location) :: t.entries.map (·.1) := by
    by_cases hl : l = []
    · simp [hl]
    · exact List.mem_cons_of_mem _ (List.mem_map.mpr ⟨_, mem_of_entryAt? hl h, rfl⟩)
  obtain ⟨before, after, hs⟩ := List.append_of_mem hmem
  have hle : ∀ xs : List Location,
      xs.countP (fun x => !(l :: seen).contains x) ≤ xs.countP (fun x => !seen.contains x) := by
    intro xs
    refine List.countP_mono_left ?_
    intro x _ hx
    simp only [List.contains_cons, Bool.not_or, Bool.and_eq_true] at hx
    exact hx.2
  unfold offList
  rw [hs]
  simp only [List.countP_append, List.countP_cons]
  have h1 := hle before
  have h2 := hle after
  have hin : (!(l :: seen).contains l) = false := by simp
  have hout : (!seen.contains l) = true := by simpa using hnew
  rw [hin, hout]
  simp only [if_true, if_false, Bool.false_eq_true]
  omega

end FileTree

end DirectoryNotes
