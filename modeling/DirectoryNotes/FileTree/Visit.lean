import DirectoryNotes.FileTree.Basic

/-!
# Descending into a file tree

`FileTree.visit` lists what lies at a path and below it, each directory before its entries and the
entries of a directory in the order of their names. A test decides for each entry whether it is
listed; a directory that is not listed is not entered either.

Links may be followed. A link to a directory that the descent is in at the moment is passed over, so
the descent ends: each link that is followed puts a new directory on the way, and between two links
fewer and fewer entries lie below.
-/

namespace DirectoryNotes

/-- An entry that a descent came by: the path on which it did, how far below the start that is, and
what stands there, at which location. -/
structure Visited where
  path : Path
  depth : Nat
  name : String
  entry : Entry
  location : Location

namespace FileTree

/-- The names in a directory in increasing order. -/
def sortedChildren (t : FileTree) (l : Location) : List String :=
  (t.children l).mergeSort (· ≤ ·)

/-- The names that a directory is read with on the path on which a descent came to it: none, if the
file system does not take the path. -/
def namesOn (t : FileTree) (path : Path) (here : Location) : List String :=
  match t.begin path with
  | .ok _ => t.sortedChildren here
  | .error _ => []

/-- The entries below a directory that the test lists. `trail` holds the locations of the
directories that the descent is in. -/
def visitBelow (t : FileTree) (followLinks : Bool) (lists : Visited → Bool)
    (trail : List Location) (depth : Nat) (path : Path) (here : Location) : List Visited :=
  (t.namesOn path here).flatMap fun name =>
    let inner := path.join ⟨name⟩
    match _h : t.entryAt? (here ++ [name]) with
    | none => []
    | some .directory =>
      let v : Visited := ⟨inner, depth, name, .directory, here ++ [name]⟩
      if lists v then
        v :: visitBelow t followLinks lists ((here ++ [name]) :: trail) (depth + 1) inner
          (here ++ [name])
      else []
    | some (.file bytes modified) =>
      let v : Visited := ⟨inner, depth, name, .file bytes modified, here ++ [name]⟩
      if lists v then [v] else []
    | some (.link target) =>
      if followLinks then
        match hf : t.find inner with
        | .error _ => []
        | .ok (there, .directory) =>
          let v : Visited := ⟨inner, depth, name, .directory, there⟩
          if hseen : there ∈ trail then []
          else if lists v then
            v :: visitBelow t followLinks lists (there :: trail) (depth + 1) inner there
          else []
        | .ok (there, e) =>
          let v : Visited := ⟨inner, depth, name, e, there⟩
          if lists v then [v] else []
      else
        let v : Visited := ⟨inner, depth, name, .link target, here ++ [name]⟩
        if lists v then [v] else []
termination_by (t.offList trail, t.below here)
decreasing_by
  · have hle := t.offList_cons_le trail (here ++ [name])
    have hlt := below_child_lt _h
    rw [Prod.lex_def]
    omega
  · have hentry : t.entryAt? there = some .directory := by
      simp only [find, bind, Except.bind] at hf
      split at hf
      · cases hf
      · split at hf
        · next e he => cases hf; exact he
        · cases hf
    have hlt := offList_cons_lt hentry hseen
    rw [Prod.lex_def]
    omega

/-- What lies at a path and below it. The entry at the path itself is listed without a test, and
when it is a link to a directory, the descent starts there. -/
def visit (t : FileTree) (followLinks : Bool) (lists : Visited → Bool) (p : Path) : List Visited :=
  match t.find p with
  | .error _ => []
  | .ok (l, e) =>
    let name := p.displayName
    ⟨p, 0, name, e, l⟩ ::
      if e.isDirectory then t.visitBelow followLinks lists [l] 1 p l else []

end FileTree

end DirectoryNotes
