import DirectoryNotes.Command.Run

/-!
# The program

The outer layer: it reads the files of the project into a tree, runs the arguments on it, writes what
changed back, and prints. It decides nothing itself.

Version control and the agent are not reached from here; a command runs as it does when they are not
there. A link that leads out of the project leads nowhere.
-/

namespace DirectoryNotes.Program

/-- The names in an absolute path. -/
def locationOf (path : String) : Location :=
  (FileTree.segments path).filter (· ≠ "")

/-- The directories on the way to a location and at it. -/
def wayTo (l : Location) : List (Location × Entry) :=
  (List.range l.length).map fun n => (l.take (n + 1), .directory)

/-- Reads what lies below a directory, given by its path without links. -/
partial def load (directory : String) : IO (List (Location × Entry)) := do
  let mut entries : List (Location × Entry) := []
  for item in ← (← IO.FS.realPath directory).readDir do
    let path := directory ++ "/" ++ item.fileName
    let here := locationOf path
    let target ← try pure (some (← IO.FS.realPath path)) catch _ => pure none
    match target with
    | none => entries := (here, .link path) :: entries
    | some target =>
      if target.toString ≠ path then entries := (here, .link target.toString) :: entries
      else if ← target.isDir then
        entries := (here, .directory) :: (← load path) ++ entries
      else
        let bytes ← IO.FS.readBinFile path
        let seconds := (← target.metadata).modified.sec
        entries := (here, .file bytes (.ofInt seconds)) :: entries
  return entries

/-- The tree of a project at a path, as far as it can be read. -/
def loadProject (root : String) : IO FileTree := do
  let here := locationOf (← IO.currentDir).toString
  let ways := wayTo here
  let outside : FileTree := { entries := ways, workingDirectory := here }
  try
    let real := (← IO.FS.realPath root).toString
    let inside ← load real
    let new := (wayTo (locationOf real)).filter fun (l, _) => !ways.any (·.1 = l)
    return { outside with entries := ways ++ new ++ inside }
  catch _ => return outside

/-- Whether an entry is the file with these bytes. -/
def holds (e : Option Entry) (bytes : ByteArray) : Bool :=
  match e with
  | some (.file old _) => old == bytes
  | _ => false

/-- Writes the files that differ, and removes what is gone. -/
def store (before after : FileTree) : IO Unit := do
  for (l, _) in before.entries do
    if (after.entryAt? l).isNone then IO.FS.removeFile (FileTree.pathOf l).text
  for (l, e) in after.entries do
    match e with
    | .file bytes _ =>
      if !holds (before.entryAt? l) bytes then
        IO.FS.writeBinFile (FileTree.pathOf l).text bytes
    | _ => pure ()

/-- The values of the variables that settings come from. -/
def loadEnvironment : IO Environment := do
  let names :=
    AgentSettings.endpointVariable :: AgentSettings.modelVariable :: AgentSettings.keyVariables
  let values ← names.mapM fun name => return (name, ← IO.getEnv name)
  return fun name => (values.lookup name).join

end DirectoryNotes.Program

open DirectoryNotes

/-- Runs the program and answers with its exit code. -/
def main (arguments : List String) : IO UInt32 := do
  let root := match Invocation.parse arguments with
    | .ok invocation => invocation.root.text
    | .error _ => "."
  let tree ← Program.loadProject root
  let session : Session :=
    { tree := tree
      environment := ← Program.loadEnvironment
      git := fun _ _ => .ok none
      send := fun _ => .unreachable "not connected" }
  let result := runArguments session arguments
  Program.store tree result.tree
  IO.print result.output
  IO.eprint result.errors
  return result.code
