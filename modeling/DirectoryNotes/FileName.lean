import DirectoryNotes.Path
import DirectoryNotes.Text

/-!
# What the name of a file tells

A file is described, ranked and labelled by its name alone. Letter case never matters.

* `FileName.description`: one phrase on what kind of file it is;
* `FileName.importance`: how much it says about its directory, one of 3, 5, 7 and 10;
* `FileName.topics`: one to three labels for what it is about;
* `FileName.isTest`, `FileName.isTypeDefinition`: two kinds of files that others are seen against.
-/

namespace DirectoryNotes.FileName

/-! ## Parts of a name -/

/-- The extension in small letters. -/
def extension? (name : String) : Option String :=
  (Path.mk name).extension?.map Text.lower

/-- The name without its extension, in small letters. -/
def stem (name : String) : String :=
  Text.lower ((Path.mk name).stem?.getD "")

/-- A test, judged by the stem. -/
def isTest (name : String) : Bool :=
  Text.contains (stem name) "test" || Text.contains (stem name) "spec"

/-- A file of type declarations and nothing else. -/
def isTypeDefinition (name : String) : Bool :=
  let small := Text.lower name
  Text.endsWith small ".d.ts" || small == "types.ts"

/-- A hidden entry: its name begins with a point. -/
def isHidden (name : String) : Bool := name.toList.head? == some '.'

/-! ## Description -/

/-- Files that are known by their whole name. -/
def knownFiles : List (String × String) :=
  [("package.json", "Node.js package manifest with dependencies and scripts"),
   ("package-lock.json", "Locked npm dependency tree"),
   ("yarn.lock", "Locked Yarn dependency tree"),
   ("pnpm-lock.yaml", "Locked pnpm dependency tree"),
   ("tsconfig.json", "TypeScript compiler configuration"),
   ("jsconfig.json", "JavaScript project configuration"),
   ("readme.md", "Project documentation and overview"),
   ("changelog.md", "Release history"),
   ("license", "License terms"),
   ("cargo.toml", "Rust crate manifest"),
   ("go.mod", "Go module definition"),
   ("requirements.txt", "Python dependency list"),
   ("pyproject.toml", "Python project configuration"),
   ("dockerfile", "Container image build instructions"),
   ("docker-compose.yml", "Multi-container service definitions"),
   ("makefile", "Build automation targets"),
   ("webpack.config.js", "Webpack bundler configuration"),
   ("vite.config.ts", "Vite build configuration"),
   ("jest.config.js", "Jest test runner configuration"),
   ("babel.config.js", "Babel transpiler configuration")]

/-- What files with an extension are. -/
def knownExtensions : List (String × String) :=
  [("ts", "TypeScript source file"),
   ("tsx", "TypeScript React component"),
   ("js", "JavaScript source file"),
   ("jsx", "JavaScript React component"),
   ("mjs", "JavaScript ES module"),
   ("cjs", "CommonJS module"),
   ("py", "Python source file"),
   ("rs", "Rust source file"),
   ("go", "Go source file"),
   ("java", "Java source file"),
   ("kt", "Kotlin source file"),
   ("rb", "Ruby source file"),
   ("php", "PHP source file"),
   ("cs", "C# source file"),
   ("cpp", "C++ source file"),
   ("c", "C source file"),
   ("h", "C/C++ header file"),
   ("swift", "Swift source file"),
   ("vue", "Vue single-file component"),
   ("svelte", "Svelte component"),
   ("json", "JSON data or configuration"),
   ("md", "Markdown documentation"),
   ("yml", "YAML configuration"),
   ("yaml", "YAML configuration"),
   ("toml", "TOML configuration"),
   ("css", "Stylesheet"),
   ("scss", "Sass stylesheet"),
   ("html", "HTML document"),
   ("sh", "Shell script"),
   ("sql", "SQL script"),
   ("txt", "Plain text file")]

/-- One phrase on what kind of file it is. -/
def description (name : String) : String :=
  let small := Text.lower name
  match knownFiles.lookup small with
  | some phrase => phrase
  | none =>
    if Text.endsWith small ".d.ts" then "TypeScript type declarations"
    else
      match extension? name with
      | none => "File"
      | some ext => (knownExtensions.lookup ext).getD (Text.upper ext ++ " file")

/-! ## Importance -/

/-- Extensions of source code. -/
def sourceExtensions : List String :=
  ["ts", "tsx", "js", "jsx", "mjs", "cjs", "py", "rs", "go", "java", "kt", "rb", "php", "cs",
   "cpp", "c", "h", "swift", "vue", "svelte"]

/-- Parts of the names of entry points, manifests and configurations. -/
def leadingParts : List String :=
  ["index", "main", "app.", "server", "config", "package.json", "readme", "cargo.toml",
   "tsconfig", "dockerfile", "makefile", "setup", "manifest"]

/-- Whether the extension is one of those in the list. -/
def hasExtension (extensions : List String) (name : String) : Bool :=
  (extension? name).any extensions.contains

/-- How much a file says about its directory: most an entry point, least a test. -/
def importance (name : String) : UInt8 :=
  if leadingParts.any (Text.contains (Text.lower name) ·) then 10
  else if isTest name then 3
  else if hasExtension sourceExtensions name then 7
  else 5

/-! ## Topics -/

/-- Parts of stems and the labels that they stand for. -/
def topicParts : List (String × String) :=
  [("auth", "Authentication and authorization"),
   ("login", "Authentication and authorization"),
   ("api", "API communication"),
   ("route", "Request routing"),
   ("controller", "Request handling"),
   ("middleware", "Middleware processing"),
   ("service", "Business logic"),
   ("model", "Data modeling"),
   ("schema", "Schema definitions"),
   ("util", "Utility helpers"),
   ("helper", "Utility helpers"),
   ("config", "Configuration management"),
   ("store", "State management"),
   ("hook", "Reusable hooks"),
   ("component", "UI rendering"),
   ("database", "Data persistence"),
   ("db", "Data persistence"),
   ("type", "Type definitions"),
   ("valid", "Input validation"),
   ("format", "Data formatting"),
   ("parse", "Parsing"),
   ("client", "Client communication"),
   ("server", "Server setup"),
   ("log", "Logging")]

/-- The most labels that a file has. -/
def topicLimit : Nat := 3

/-- What a file is about: the kind of test, or the labels whose parts the stem contains. -/
def topics (name : String) : List String :=
  if isTest name then
    [if Text.contains (stem name) "spec" then "Test cases" else "Unit tests"]
  else
    let found := (topicParts.filter fun part => Text.contains (stem name) part.1).map (·.2)
    match (Text.firstOccurrences found).take topicLimit with
    | [] => ["General functionality"]
    | labels => labels

/-! ## Names in use -/

example : description "logo.svg" = "SVG file" := by decide +kernel

example : importance "index.test.ts" = 10 ∧ importance "a.test.ts" = 3 := by decide +kernel

example : topics "authService.ts" = ["Authentication and authorization", "Business logic"] := by
  decide +kernel

end DirectoryNotes.FileName
