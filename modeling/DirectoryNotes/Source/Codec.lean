import DirectoryNotes.Json.Decode
import DirectoryNotes.Source.Facts

/-!
# Facts as JSON

The facts about a source file written as JSON and taken out of it again. The names of kinds are in
`ImportKind.name` and `ExportKind.name`.
-/

namespace DirectoryNotes

open Json (asText? asBool? asList? asTexts? asName? asFields?)

/-! ## Kinds -/

/-- The name of a kind of import. -/
def ImportKind.name : ImportKind → String
  | .named => "named"
  | .default => "default"
  | .wildcard => "namespace"

/-- The kind of import of a name. -/
def ImportKind.ofName? (name : String) : Option ImportKind :=
  [ImportKind.named, .default, .wildcard].find? (·.name == name)

/-- The name of a kind of export. -/
def ExportKind.name : ExportKind → String
  | .function => "function"
  | .classDecl => "class"
  | .interface => "interface"
  | .variable => "variable"
  | .typeDecl => "type"

/-- The kind of export of a name. -/
def ExportKind.ofName? (name : String) : Option ExportKind :=
  [ExportKind.function, .classDecl, .interface, .variable, .typeDecl].find? (·.name == name)

/-! ## Writing -/

/-- An import as JSON. -/
def Import.toJson (i : Import) : Json :=
  .object [("source", .text i.source), ("specifiers", .texts i.specifiers),
    ("kind", .text i.kind.name)]

/-- An export as JSON. -/
def Export.toJson (e : Export) : Json :=
  .object [("name", .text e.name), ("kind", .text e.kind.name), ("is_default", .bool e.isDefault)]

/-- A function as JSON. -/
def FunctionFact.toJson (f : FunctionFact) : Json :=
  .object [("name", .text f.name), ("params", .texts f.params), ("is_async", .bool f.isAsync),
    ("is_exported", .bool f.isExported)]

/-- A class as JSON. -/
def ClassFact.toJson (c : ClassFact) : Json :=
  .object [("name", .text c.name), ("methods", .texts c.methods),
    ("is_exported", .bool c.isExported)]

/-- An interface as JSON. -/
def InterfaceFact.toJson (i : InterfaceFact) : Json :=
  .object [("name", .text i.name), ("properties", .texts i.properties),
    ("is_exported", .bool i.isExported)]

/-- The facts about a file as JSON. -/
def SourceFacts.toJson (s : SourceFacts) : Json :=
  .object [("imports", .list (s.imports.map (·.toJson))),
    ("exports", .list (s.exports.map (·.toJson))),
    ("functions", .list (s.functions.map (·.toJson))),
    ("classes", .list (s.classes.map (·.toJson))),
    ("interfaces", .list (s.interfaces.map (·.toJson))),
    ("main_purpose", .text s.purpose)]

/-! ## Reading -/

/-- The import that JSON stands for. -/
def Import.ofJson? (j : Json) : Option Import := do
  let fields ← j.asFields? ["source", "specifiers", "kind"]
  return {
    source := ← fields.need? "source" asText?
    specifiers := ← fields.need? "specifiers" asTexts?
    kind := ← fields.need? "kind" fun j => j.asName?.bind ImportKind.ofName? }

/-- The export that JSON stands for. -/
def Export.ofJson? (j : Json) : Option Export := do
  let fields ← j.asFields? ["name", "kind", "is_default"]
  return {
    name := ← fields.need? "name" asText?
    kind := ← fields.need? "kind" fun j => j.asName?.bind ExportKind.ofName?
    isDefault := ← fields.need? "is_default" asBool? }

/-- The function that JSON stands for. -/
def FunctionFact.ofJson? (j : Json) : Option FunctionFact := do
  let fields ← j.asFields? ["name", "params", "is_async", "is_exported"]
  return {
    name := ← fields.need? "name" asText?
    params := ← fields.need? "params" asTexts?
    isAsync := ← fields.need? "is_async" asBool?
    isExported := ← fields.need? "is_exported" asBool? }

/-- The class that JSON stands for. -/
def ClassFact.ofJson? (j : Json) : Option ClassFact := do
  let fields ← j.asFields? ["name", "methods", "is_exported"]
  return {
    name := ← fields.need? "name" asText?
    methods := ← fields.need? "methods" asTexts?
    isExported := ← fields.need? "is_exported" asBool? }

/-- The interface that JSON stands for. -/
def InterfaceFact.ofJson? (j : Json) : Option InterfaceFact := do
  let fields ← j.asFields? ["name", "properties", "is_exported"]
  return {
    name := ← fields.need? "name" asText?
    properties := ← fields.need? "properties" asTexts?
    isExported := ← fields.need? "is_exported" asBool? }

/-- The facts about a file that JSON stands for. -/
def SourceFacts.ofJson? (j : Json) : Option SourceFacts := do
  let fields ← j.asFields?
    ["imports", "exports", "functions", "classes", "interfaces", "main_purpose"]
  return {
    imports := ← fields.need? "imports" (asList? Import.ofJson?)
    exports := ← fields.need? "exports" (asList? Export.ofJson?)
    functions := ← fields.need? "functions" (asList? FunctionFact.ofJson?)
    classes := ← fields.need? "classes" (asList? ClassFact.ofJson?)
    interfaces := ← fields.need? "interfaces" (asList? InterfaceFact.ofJson?)
    purpose := ← fields.need? "main_purpose" asText? }

end DirectoryNotes
