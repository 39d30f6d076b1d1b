import DirectoryNotes.Json.Decode
import DirectoryNotes.Record.Basic

/-!
# Records as JSON

A record written as JSON and taken out of it again.
-/

namespace DirectoryNotes

open Json (asText? asNatBelow? asList? asTexts? asName? asFields?)

/-! ## Writing -/

/-- A file as JSON. -/
def FileSummary.toJson (f : FileSummary) : Json :=
  .object [("path", .text f.name), ("description", .text f.description),
    ("importance", .nat f.importance.toNat), ("primary_functions", .texts f.functions),
    ("last_modified", .nat f.modified.toNat)]

/-- A change as JSON. -/
def Change.toJson (c : Change) : Json :=
  .object [("commit", .text c.commit), ("date", .text c.date), ("description", .text c.description),
    ("impact", .text c.impact), ("files", .texts c.files)]

/-- A dependency as JSON. -/
def Dependency.toJson (d : Dependency) : Json :=
  .object [("name", .text d.name), ("kind", .text d.kind.name), ("from", .text d.source),
    ("to", .text d.target)]

/-- A record as JSON. -/
def DirectoryRecord.toJson (r : DirectoryRecord) : Json :=
  .object [("path", .text r.path.text), ("purpose", .text r.purpose),
    ("architecture", .text r.architecture),
    ("key_files", .list (r.keyFiles.map (·.toJson))),
    ("recent_changes", .list (r.recentChanges.map (·.toJson))),
    ("improvements", .texts r.improvements),
    ("dependencies", .list (r.dependencies.map (·.toJson)))]

/-! ## Reading -/

/-- The file that JSON stands for. -/
def FileSummary.ofJson? (j : Json) : Option FileSummary := do
  let fields ← j.asFields?
    ["path", "description", "importance", "primary_functions", "last_modified"]
  return {
    name := ← fields.need? "path" asText?
    description := ← fields.need? "description" asText?
    importance := .ofNat (← fields.need? "importance" (asNatBelow? UInt8.size))
    functions := ← fields.need? "primary_functions" asTexts?
    modified := .ofNat (← fields.need? "last_modified" (asNatBelow? UInt64.size)) }

/-- The change that JSON stands for. -/
def Change.ofJson? (j : Json) : Option Change := do
  let fields ← j.asFields? ["commit", "date", "description", "impact", "files"]
  return {
    commit := ← fields.need? "commit" asText?
    date := ← fields.need? "date" asText?
    description := ← fields.need? "description" asText?
    impact := ← fields.need? "impact" asText?
    files := ← fields.need? "files" asTexts? }

/-- The kind of dependency of a name. -/
def DependencyKind.ofName? (name : String) : Option DependencyKind :=
  [DependencyKind.file, .exported, .package].find? (·.name == name)

/-- The dependency that JSON stands for. -/
def Dependency.ofJson? (j : Json) : Option Dependency := do
  let fields ← j.asFields? ["name", "kind", "from", "to"]
  return {
    name := ← fields.need? "name" asText?
    kind := ← fields.need? "kind" fun j => j.asName?.bind DependencyKind.ofName?
    source := ← fields.need? "from" asText?
    target := ← fields.need? "to" asText? }

/-- The record that JSON stands for. -/
def DirectoryRecord.ofJson? (j : Json) : Option DirectoryRecord := do
  let fields ← j.asFields?
    ["path", "purpose", "architecture", "key_files", "recent_changes", "improvements",
      "dependencies"]
  return {
    path := ⟨← fields.need? "path" asText?⟩
    purpose := ← fields.need? "purpose" asText?
    architecture := ← fields.need? "architecture" asText?
    keyFiles := ← fields.need? "key_files" (asList? FileSummary.ofJson?)
    recentChanges := ← fields.need? "recent_changes" (asList? Change.ofJson?)
    improvements := ← fields.need? "improvements" asTexts?
    dependencies := ← fields.need? "dependencies" (asList? Dependency.ofJson?) }

end DirectoryNotes
