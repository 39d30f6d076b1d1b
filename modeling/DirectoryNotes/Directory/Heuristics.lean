import DirectoryNotes.Assistant

/-!
# What the files of a directory tell

The purpose, the architecture and the improvements of a directory, taken from the names of its files
and from what they import.

* `Directory.purpose`: the name of the directory decides, or else the commonest extension;
* `Directory.architecture`: the commonest extension, the packages that are imported, and whether there
  are tests and type definitions;
* `Directory.improvements`: what seems to be missing.
-/

namespace DirectoryNotes.Directory

/-! ## The commonest extension -/

/-- The extensions of files, one for each file that has one. -/
def extensionsOf (names : List String) : List String := names.filterMap FileName.extension?

/-- The better of an extension with its count and another: the commoner one, and of two that are
equally common the first in the alphabet. -/
def commoner (extensions : List String) (best : Option (String × Nat)) (ext : String) :
    Option (String × Nat) :=
  let count := extensions.count ext
  match best with
  | none => some (ext, count)
  | some (other, most) =>
    if count > most ∨ (count = most ∧ ext < other) then some (ext, count) else some (other, most)

/-- The commonest extension and how many files have it. -/
def dominantExtension? (names : List String) : Option (String × Nat) :=
  (extensionsOf names).foldl (commoner (extensionsOf names)) none

/-! ## Purpose -/

/-- Directories that are known by their names. -/
def knownDirectories : List (String × String) :=
  [("src", "Main source code directory"),
   ("lib", "Shared library code"),
   ("components", "Reusable UI components"),
   ("utils", "Utility functions and helper modules"),
   ("util", "Utility functions and helper modules"),
   ("helpers", "Utility functions and helper modules"),
   ("api", "API endpoints and client code"),
   ("services", "Business logic and service layer"),
   ("models", "Data models and schemas"),
   ("hooks", "Custom React hooks"),
   ("pages", "Page-level components and routes"),
   ("routes", "Route definitions and handlers"),
   ("middleware", "Request middleware"),
   ("store", "Application state management"),
   ("types", "Shared type definitions"),
   ("config", "Configuration files"),
   ("tests", "Test suites"),
   ("test", "Test suites"),
   ("__tests__", "Test suites"),
   ("styles", "Stylesheets"),
   ("assets", "Static assets"),
   ("public", "Publicly served static assets"),
   ("scripts", "Build and maintenance scripts"),
   ("docs", "Project documentation")]

/-- What directories are that hold mostly files of one extension. -/
def extensionPurposes : List (String × String) :=
  [("ts", "Contains TypeScript modules"),
   ("tsx", "Contains TypeScript React components"),
   ("js", "Contains JavaScript modules"),
   ("jsx", "Contains JavaScript React components"),
   ("mjs", "Contains JavaScript modules"),
   ("cjs", "Contains JavaScript modules"),
   ("py", "Contains Python modules"),
   ("rs", "Contains Rust modules"),
   ("go", "Contains Go source files"),
   ("java", "Contains Java classes"),
   ("md", "Contains documentation"),
   ("json", "Contains configuration and data files"),
   ("yml", "Contains configuration files"),
   ("yaml", "Contains configuration files"),
   ("css", "Contains stylesheets"),
   ("scss", "Contains stylesheets"),
   ("html", "Contains HTML pages"),
   ("sh", "Contains shell scripts"),
   ("sql", "Contains SQL scripts")]

/-- What a directory is for. -/
def purpose (path : Path) (names : List String) : String :=
  let count := "Directory containing " ++ toString names.length ++ " files"
  match knownDirectories.lookup (Text.lower (path.fileName?.getD "")) with
  | some known => known
  | none =>
    match dominantExtension? names with
    | some (ext, _) => (extensionPurposes.lookup ext).getD count
    | none => count

/-! ## Architecture -/

/-- The most packages that are named. -/
def packageLimit : Nat := 3

/-- The packages that are imported, as they come up first. -/
def packages (sources : List SourceSummary) : List String :=
  let imports := sources.flatMap (·.facts.imports)
  (Text.firstOccurrences ((imports.filter (·.isExternal)).map (·.source))).take packageLimit

/-- How a directory is made up. -/
def architecture (names : List String) (sources : List SourceSummary) : String :=
  match dominantExtension? names with
  | none => "No source files to analyze."
  | some (ext, count) =>
    let named := packages sources
    Text.join " "
      (["Primarily ." ++ ext ++ " files (" ++ toString count ++ " of " ++ toString names.length
          ++ ")."]
        ++ (if named.isEmpty then [] else ["External dependencies: " ++ Text.join ", " named ++ "."])
        ++ (if names.any FileName.isTest then ["Includes tests."] else [])
        ++ (if names.any FileName.isTypeDefinition then ["Includes type definitions."] else []))

/-! ## Improvements -/

/-- Extensions of scripts, which have no types of their own. -/
def scriptExtensions : List String := ["js", "jsx", "mjs", "cjs"]

/-- Above this number of files a directory should have a readme. -/
def readmeThreshold : Nat := 5

/-- Whether a file is source code and not a test. -/
def isPlainSource (name : String) : Bool :=
  !FileName.isTest name && FileName.hasExtension FileName.sourceExtensions name

/-- Whether a file is a readme. -/
def isReadme (name : String) : Bool := Text.beginsWith (Text.lower name) "readme"

/-- What could be improved. -/
def improvements (names : List String) : List String :=
  (if names.any isPlainSource && !names.any FileName.isTest then
    ["Add unit tests for the source files in this directory"] else [])
  ++ (if names.length > readmeThreshold && !names.any isReadme then
    ["Add a README describing this directory"] else [])
  ++ (if names.any (FileName.hasExtension scriptExtensions)
        && !names.any FileName.isTypeDefinition then
    ["Add type definitions (.d.ts) for the JavaScript modules"] else [])

end DirectoryNotes.Directory
