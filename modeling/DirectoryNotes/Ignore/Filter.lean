import DirectoryNotes.Error
import DirectoryNotes.Ignore.Rule

/-!
# The ignore filter

A filter is a list of rules for the paths below a root. Of the rules that speak of a path the last
one decides. Where none does, the directory above decides, and so on up to the root; what no rule
speaks of is included.

* `IgnoreFilter.ofPatterns`: the filter of the lines of a configuration;
* `IgnoreFilter.includes`: the decision on a path from the root;
* `IgnoreFilter.includesPath`: the decision on any path.
-/

namespace DirectoryNotes

/-- Rules for the paths below a root. -/
structure IgnoreFilter where
  root : Path
  rules : List IgnoreRule

namespace IgnoreFilter

/-- The filter that includes everything. -/
def everything (root : Path) : IgnoreFilter := ⟨root, []⟩

/-- The rules of a line: none for a line that says nothing. -/
def rulesOf (pattern : String) : Except Failure (List IgnoreRule) :=
  let line := Text.trim pattern
  if IgnoreRule.isIdle line then .ok []
  else
    match IgnoreRule.parse line with
    | .ok rule => .ok [rule]
    | .error e =>
      .error (.ignore (line ++ ": error parsing glob '" ++ line ++ "': " ++ e.message))

/-- Why globs are refused that nest too deep: those that end in an extension are looked at one by
one and first, the others by their place among themselves. -/
def depthError? (globs : List Glob) : Option String :=
  match globs.find? fun g => g.isExtended && g.isTooDeep with
  | some g => some ("error parsing glob '" ++ g.text ++ "': error parsing pattern 0")
  | none =>
    ((globs.filter (·.isGeneral)).findIdx? (·.isTooDeep)).map fun i =>
      "error parsing pattern " ++ toString i

/-- The filter of a list of lines. -/
def ofPatterns (root : Path) (patterns : List String) : Except Failure IgnoreFilter := do
  let rules := (← patterns.mapM rulesOf).flatten
  match depthError? (rules.map (·.glob)) with
  | some reason => .error (.ignore reason)
  | none => return ⟨root, rules⟩

/-! ## Decisions -/

/-- What the last rule that speaks of a path says: whether it is included. -/
def decision? (rules : List IgnoreRule) (path : String) (isDirectory : Bool) : Option Bool :=
  (rules.reverse.find? (·.speaksOf path isDirectory)).map (·.negated)

/-- What the rules say of a path, or else of the nearest directory above it. -/
def nearestDecision? (rules : List IgnoreRule) (path : Path) (isDirectory : Bool) : Option Bool :=
  match decision? rules path.text isDirectory with
  | some included => some included
  | none => path.properAncestors.findSome? fun above => decision? rules above.text true

/-- A path with backslashes as slashes and without the part `.`. -/
def normalized (path : Path) : Path :=
  let slashed := Path.mk (.ofList (path.text.toList.map fun c => if c = '\\' then '/' else c))
  match slashed.opened with
  | (opening, segments) =>
    let opening := if opening = .here then Path.Opening.plain else opening
    .ofOpened opening (segments.filter (!Path.isIdle ·))

/-- The text after `start`, if the text begins with it. -/
def textAfter? (start text : String) : Option String :=
  if Text.beginsWith text start then some (.ofList (text.toList.drop start.length)) else none

/-- A path without the text of the root in front. A path of one name is left alone, and so is every
path when the root is `.`. -/
def withoutRoot (root path : Path) : Path :=
  let rootText := (textAfter? "./" root.text).getD root.text
  if root.same ⟨"."⟩ || !path.text.toList.contains '/' then path
  else
    match textAfter? rootText path.text with
    | none => path
    | some rest => ⟨(textAfter? "/" rest).getD rest⟩

/-- Whether a path from the root is included. -/
def includes (filter : IgnoreFilter) (path : Path) (isDirectory : Bool) : Bool :=
  let plain := normalized path
  if plain.isEmpty || plain.isAbsolute then true
  else
    (nearestDecision? filter.rules (withoutRoot filter.root plain) isDirectory).getD true

/-- Whether a path is included, one below the root or one from the root. Other paths are not the
filter's to decide on. -/
def includesPath (filter : IgnoreFilter) (path : Path) (isDirectory : Bool) : Bool :=
  match path.relativeTo? filter.root with
  | some rest => filter.includes rest isDirectory
  | none => if path.isAbsolute then true else filter.includes path isDirectory

/-! ## Without rules -/

theorem includes_everything (root path : Path) (isDirectory : Bool) :
    (everything root).includes path isDirectory = true := by
  have hnone : ∀ above, nearestDecision? [] above isDirectory = none := by
    simp [nearestDecision?, decision?, List.findSome?_eq_none_iff]
  simp [includes, everything, hnone]

theorem includesPath_everything (root path : Path) (isDirectory : Bool) :
    (everything root).includesPath path isDirectory = true := by
  unfold includesPath
  split
  · exact includes_everything root _ isDirectory
  · split
    · rfl
    · exact includes_everything root path isDirectory

end IgnoreFilter

end DirectoryNotes
