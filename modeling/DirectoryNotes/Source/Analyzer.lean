import DirectoryNotes.Path
import DirectoryNotes.Text
import DirectoryNotes.Source.Facts
import DirectoryNotes.Source.Patterns

/-!
# Reading a source file

`Source.analyze?` collects the facts about a module of JavaScript or TypeScript from the matches of
the declaration patterns. Nothing is parsed: a declaration inside a string counts, and one in an
unusual layout may be missed.

* imports come in the order wildcard, default, named, and within each in the order of the text;
* functions that are declared come before names bound to arrow functions;
* the members of a class or an interface are sought in its block, up to the brace that closes it;
* `Source.purpose` puts into one sentence what the file seems to be for.
-/

namespace DirectoryNotes

namespace Source

/-! ## Which files -/

/-- The extensions of the files that are read. -/
def extensions : List String := ["ts", "tsx", "js", "jsx", "mjs", "cjs"]

/-- Whether a file is one to read, judged by its extension in any case. -/
def isReadable (p : Path) : Bool :=
  match p.extension? with
  | some ext => extensions.contains (Text.lower ext)
  | none => false

/-! ## Imports -/

/-- The imports of whole modules. -/
def wildcardImports (content : List Char) : List Import :=
  (importWildcard.inLines content).map fun m => ⟨m.group 2, [m.group 1], .wildcard⟩

/-- The default imports; a name is imported from a module once. -/
def defaultImports (content : List Char) : List Import :=
  Text.firstOccurrences
    ((importDefault.inLines content).map fun m => ⟨m.group 2, [m.group 1], .default⟩)

/-- The names between the braces of an import. -/
def specifiers (inner : String) : List String :=
  Text.firstOccurrences (((Text.split ',' inner).map Text.trim).filter (· ≠ ""))

/-- The imports of names. -/
def namedImports (content : List Char) : List Import :=
  (importNamed.inLines content).map fun m => ⟨m.group 2, specifiers (m.group 1), .named⟩

/-- All imports. -/
def imports (content : List Char) : List Import :=
  wildcardImports content ++ defaultImports content ++ namedImports content

/-! ## Functions -/

/-- The functions that are declared, with the first word of each parameter. -/
def declaredFunctions (content : List Char) : List FunctionFact :=
  (functionDeclaration.inLines content).map fun m =>
    ⟨m.group 3, (Text.split ',' (m.group 4)).filterMap Text.firstWord?, m.has 2, m.has 1⟩

/-- The names bound to arrow functions; their parameters are not taken apart. -/
def arrowFunctions (content : List Char) : List FunctionFact :=
  (arrowFunction.inLines content).map fun m => ⟨m.group 2, [], m.has 3, m.has 1⟩

/-- All functions. -/
def functions (content : List Char) : List FunctionFact :=
  declaredFunctions content ++ arrowFunctions content

/-! ## Blocks -/

/-- The text up to the brace that closes the innermost of `depth` open blocks and those around it;
all of it when they are not closed. Every brace counts, wherever it stands. -/
def blockBody (depth : Nat) : List Char → List Char
  | [] => []
  | c :: cs =>
    if c = '\x7b' then c :: blockBody (depth + 1) cs
    else if c = '\x7d' then if depth ≤ 1 then [] else c :: blockBody (depth - 1) cs
    else c :: blockBody depth cs

/-- The body of the declaration whose match ends with its opening brace. -/
def bodyOf (m : Match) : List Char := blockBody 1 m.stop.rest

/-- Words that stand before parentheses in a class and are not methods to speak of. -/
def notMethods : List String :=
  ["constructor", "if", "for", "while", "switch", "catch", "function", "return", "with", "else"]

/-- The methods in the body of a class. -/
def methods (body : List Char) : List String :=
  ((method.inLines body).map (·.group 1)).filter (!notMethods.contains ·)

/-- The properties in the body of an interface. -/
def properties (body : List Char) : List String :=
  (property.inLines body).map (·.group 1)

/-- All classes. -/
def classes (content : List Char) : List ClassFact :=
  (classDeclaration.inLines content).map fun m => ⟨m.group 2, methods (bodyOf m), m.has 1⟩

/-- All interfaces. -/
def interfaces (content : List Char) : List InterfaceFact :=
  (interfaceDeclaration.inLines content).map fun m => ⟨m.group 2, properties (bodyOf m), m.has 1⟩

/-! ## Exports -/

end Source

/-- The kind of declaration that a keyword makes. -/
def ExportKind.ofKeyword (keyword : String) : ExportKind :=
  let word := Text.trim keyword
  if Text.beginsWith word "function" then .function
  else if Text.endsWith word "class" then .classDecl
  else if word = "interface" then .interface
  else if word = "type" ∨ word = "enum" then .typeDecl
  else .variable

/-- The kind of declaration that a name has among the facts; a name that is not declared in a known
way is a variable. -/
def SourceFacts.kindOf (s : SourceFacts) (name : String) : ExportKind :=
  if s.classes.any (·.name == name) then .classDecl
  else if s.functions.any (·.name == name) then .function
  else if s.interfaces.any (·.name == name) then .interface
  else .variable

namespace Source

/-- The exports that are declarations. -/
def declaredExports (content : List Char) : List Export :=
  (exportDeclaration.inLines content).map fun m =>
    ⟨m.group 3, .ofKeyword (m.group 2), m.has 1⟩

/-- Adds a default export by name, unless the name is exported already. -/
def addDefault (facts : SourceFacts) (exports : List Export) (name : String) : List Export :=
  if exports.any (·.name == name) then exports else exports ++ [⟨name, facts.kindOf name, true⟩]

/-- All exports, given the other facts. -/
def exports (content : List Char) (facts : SourceFacts) : List Export :=
  ((exportDefaultName.inLines content).map (·.group 1)).foldl (addDefault facts)
    (declaredExports content)

/-! ## Purpose -/

/-- Parts of the names of packages for user interfaces. -/
def interfaceMarkers : List String := ["react", "vue", "svelte", "@angular", "solid-js", "preact"]

/-- Parts of the names of packages for servers. -/
def serverMarkers : List String := ["express", "koa", "fastify", "@nestjs", "hapi", "http"]

/-- Whether a module with one of the markers in its name is imported. -/
def importsAny (facts : SourceFacts) (markers : List String) : Bool :=
  facts.imports.any fun i => markers.any (Text.contains (Text.lower i.source) ·)

/-- Whether the stem of a name speaks of tests. -/
def isTestStem (stem : String) : Bool :=
  let small := Text.lower stem
  Text.contains small "test" || Text.contains small "spec"

/-- What a file seems to be for: its name decides first, then what it declares, then what it
imports. -/
def purpose (p : Path) (facts : SourceFacts) : String :=
  let stem := p.stem?.getD ""
  let exported := facts.exportedFunctions.map (·.name)
  if isTestStem stem then
    "Test suite for " ++ Text.trimEndings (Text.trimEndings stem ".test") ".spec"
  else if Text.lower stem = "index" then "Module entry point and exports"
  else
    match facts.classes with
    | c :: _ => "Defines " ++ c.name ++ " class with " ++ toString c.methods.length ++ " methods"
    | [] =>
      if !facts.interfaces.isEmpty then
        "Type definitions: " ++ Text.join ", " (facts.interfaces.map (·.name))
      else if !exported.isEmpty then "Exports functions: " ++ Text.join ", " exported
      else if importsAny facts interfaceMarkers then "UI component module"
      else if importsAny facts serverMarkers then "Server module handling HTTP requests"
      else "Module implementation"

/-! ## All facts -/

/-- The facts about a text, whatever its name. -/
def declarations (content : List Char) : SourceFacts :=
  let facts : SourceFacts :=
    { imports := imports content, functions := functions content, classes := classes content,
      interfaces := interfaces content }
  { facts with exports := exports content facts }

/-- The facts about a file of the given name, if its extension is one that is read. -/
def analyze? (p : Path) (content : String) : Option SourceFacts :=
  if isReadable p then
    let facts := declarations content.toList
    some { facts with purpose := purpose p facts }
  else none

end Source

end DirectoryNotes
