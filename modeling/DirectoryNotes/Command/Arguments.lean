import DirectoryNotes.Configuration
import DirectoryNotes.Plan
import DirectoryNotes.View.Context

/-!
# Arguments of the command line

An option is written `--name`, and its value follows it as the next argument or after an equals sign.
A value does not begin with a dash. An option stands at most once, unless it is one that adds to a
list. Options are read in order, so the first fault or request among them is the one that is told.
The root of the project may be given before the command and after it, and the inner one counts.

* `OptionKind`, `Given`: what options there are and what was given;
* `scan`: the options up to the first argument that is none;
* `Command`, `Invocation.parse`: the command that the arguments stand for.
-/

namespace DirectoryNotes

/-- Why there is no command to run. -/
inductive ArgumentError where
  /-- The version was asked for. -/
  | version
  /-- Help was asked for. -/
  | help
  /-- The arguments make no command. -/
  | usage
  deriving DecidableEq, Repr

/-! ## Options -/

/-- What an option takes. -/
inductive OptionKind where
  /-- No value. -/
  | flag
  /-- A value of some form, once. -/
  | single (isValid : String → Bool)
  /-- Any value, each time. -/
  | repeated
  /-- No value; it asks for something else than a command. -/
  | request (error : ArgumentError)

/-- The options of a command. -/
abbrev OptionTable := List (String × OptionKind)

/-- The options that were given, with an empty value for flags. -/
abbrev Given := List (String × String)

/-- An argument that begins with a dash and has more than that. -/
def looksLikeOption (argument : String) : Bool :=
  Text.beginsWith argument "-" && argument != "-"

/-- The name of an option and the value after its equals sign. After a single dash the name is one
letter; as such options only ask for something, what follows the letter does not matter. -/
def splitOption (argument : String) : String × Option String :=
  let chars := argument.toList
  if Text.beginsWith argument "--" then
    let name := chars.takeWhile (· != '=')
    match chars.drop name.length with
    | [] => (argument, none)
    | _ :: value => (.ofList name, some (.ofList value))
  else (.ofList (chars.take 2), none)

/-- Adds an option with its value to those that were given already. -/
def accept (kind : OptionKind) (name value : String) (given : Given) :
    Except ArgumentError Given :=
  let isNew := given.all (·.1 != name)
  let isFine := match kind with
    | .flag => isNew
    | .single isValid => isNew && isValid value
    | .repeated => true
    | .request _ => false
  if isFine then .ok (given ++ [(name, value)]) else .error .usage

/-- Reads options after some that were given, up to the first argument that is none; that one and
what follows it are left. After two dashes nothing may follow. -/
def scan (table : OptionTable) (given : Given) :
    List String → Except ArgumentError (Given × List String)
  | [] => .ok (given, [])
  | "--" :: rest => if rest.isEmpty then .ok (given, []) else .error .usage
  | argument :: rest =>
    if !looksLikeOption argument then .ok (given, argument :: rest)
    else
      let (name, attached) := splitOption argument
      match table.lookup name, attached, rest with
      | some (.request error), none, _ => .error error
      | some .flag, none, rest => do scan table (← accept .flag name "" given) rest
      | some .flag, some _, _ | some (.request _), some _, _ | none, _, _ => .error .usage
      | some kind, some value, rest => do scan table (← accept kind name value given) rest
      | some _, none, [] => .error .usage
      | some kind, none, value :: rest =>
        if looksLikeOption value then .error .usage
        else do scan table (← accept kind name value given) rest

/-- The options of a command, after which nothing is left. -/
def scanAll (table : OptionTable) (arguments : List String) : Except ArgumentError Given := do
  let (given, left) ← scan table [] arguments
  if left.isEmpty then return given else throw .usage

namespace Given

/-- Whether an option was given. -/
def has (given : Given) (name : String) : Bool := given.any (·.1 == name)

/-- The values of an option. -/
def values (given : Given) (name : String) : List String :=
  (given.filter (·.1 == name)).map (·.2)

/-- The path in an option. -/
def path? (given : Given) (name : String) : Option Path :=
  (given.lookup name).map fun text => ⟨text⟩

/-- What an option stands for, or else a default. -/
def parsed (given : Given) (name : String) (default : α) (parse : String → Except Failure α) : α :=
  match given.lookup name with
  | none => default
  | some text => (parse text).toOption.getD default

end Given

/-! ## Commands -/

/-- How a project is set up. -/
structure InitOptions where
  mode : Mode
  useGit : Bool
  useAssistant : Bool
  ignorePatterns : List String
  deriving DecidableEq, Repr

/-- What a refresh does. -/
structure RefreshOptions where
  scope : RefreshScope
  dryRun : Bool
  watch : Bool
  deriving DecidableEq, Repr

/-- What is shown, and where it goes. -/
structure ContextOptions where
  view : View
  path? : Option Path
  output? : Option Path
  deriving DecidableEq, Repr

/-- A command. -/
inductive Command where
  /-- Writes the configuration and documents the whole project. -/
  | init (options : InitOptions)
  /-- Documents directories again. -/
  | refresh (options : RefreshOptions)
  /-- Shows a view. -/
  | context (options : ContextOptions)
  deriving DecidableEq, Repr

/-- A command and the root of the project. -/
structure Invocation where
  root : Path
  command : Command
  deriving DecidableEq, Repr

namespace Command

/-- An option that takes a path, which is never empty. -/
def pathOption : OptionKind := .single (· != "")

/-- The options that every command has. -/
def commonOptions : OptionTable :=
  [("--root", pathOption), ("--help", .request .help), ("-h", .request .help)]

/-- The options of setting up. -/
def initTable : OptionTable :=
  commonOptions ++
    [("--mode", .single fun text => (Mode.parse text).toOption.isSome), ("--no-git", .flag),
      ("--ai", .flag), ("--ignore", .repeated)]

/-- The options of a refresh. -/
def refreshTable : OptionTable :=
  commonOptions ++
    [("--path", pathOption), ("--all", .flag), ("--dry-run", .flag), ("--watch", .flag)]

/-- The options of a view. -/
def contextTable : OptionTable :=
  commonOptions ++
    [("--view", .single fun text => (View.parse text).toOption.isSome), ("--path", pathOption),
      ("--output", pathOption)]

/-- The options before a command. -/
def outerTable : OptionTable :=
  commonOptions ++ [("--version", .request .version), ("-V", .request .version)]

/-- The command to set a project up. -/
def initOf (given : Given) : Command :=
  .init ⟨given.parsed "--mode" .smart Mode.parse, !given.has "--no-git", given.has "--ai",
    given.values "--ignore"⟩

/-- The command to refresh. One directory excludes all of them, and watching excludes a dry run. -/
def refreshOf (given : Given) : Except ArgumentError Command :=
  let path := given.path? "--path"
  let all := given.has "--all"
  let dryRun := given.has "--dry-run"
  let watch := given.has "--watch"
  if (path.isSome && all) || (watch && dryRun) then .error .usage
  else
    let scope := match path with
      | some p => RefreshScope.path p
      | none => if all then .all else .changed
    .ok (.refresh ⟨scope, dryRun, watch⟩)

/-- The command to show a view. -/
def contextOf (given : Given) : Command :=
  .context ⟨given.parsed "--view" .standard View.parse, given.path? "--path",
    given.path? "--output"⟩

/-- The names of the commands, and of the one that explains them. -/
def names : List String := ["init", "refresh", "context", "help"]

/-- The command of a name with its options, and the root if it is given there. -/
def ofArguments (name : String) (arguments : List String) :
    Except ArgumentError (Command × Option Path) := do
  match name with
  | "init" =>
    let given ← scanAll initTable arguments
    return (initOf given, given.path? "--root")
  | "refresh" =>
    let given ← scanAll refreshTable arguments
    return (← refreshOf given, given.path? "--root")
  | "context" =>
    let given ← scanAll contextTable arguments
    return (contextOf given, given.path? "--root")
  | "help" =>
    match arguments with
    | [] => throw .help
    | [topic] => throw (if names.contains topic then .help else .usage)
    | _ => throw .usage
  | _ => throw .usage

end Command

namespace Invocation

/-- The command that the arguments stand for. -/
def parse (arguments : List String) : Except ArgumentError Invocation := do
  let (given, left) ← scan Command.outerTable [] arguments
  match left with
  | [] => throw .usage
  | name :: rest =>
    let (command, innerRoot) ← Command.ofArguments name rest
    return ⟨(innerRoot.orElse fun _ => given.path? "--root").getD ⟨"."⟩, command⟩

end Invocation

end DirectoryNotes
