import ModuleDeps.Command.Run

/-!
# The program

Reads the part of the file system that a run can look at, runs the command,
prints what it printed and writes the files it changed.
-/

set_option autoImplicit false

namespace ModuleDeps.Program

/-! ## What to read -/

/-- The paths that arguments may name: an argument, and the value of a flag. -/
def namedPaths (args : List Text) : List Text :=
  args.flatMap fun arg =>
    match Text.indexOf? (utf8 "=") arg with
    | some i => [arg, arg.drop (i + 1)]
    | none => [arg]

/-- The paths from the root to a path, and the path itself at the end. -/
def pathsTo (path : Text) : List Text :=
  let names := Path.cleanComponents path
  (List.range (names.length + 1)).map fun n =>
    Text.slash :: Text.joinWith [Text.slash] (names.take n)

def searches : Command.Verb → Bool
  | .add => true
  | .open => true
  | .resolve => true
  | _ => false

/-! ## Reading -/

def bytes (t : Text) : ByteArray := ⟨t.toArray⟩

def nameOf (t : Text) : String := (String.fromUTF8? (bytes t)).getD ""

def place (path : Text) := (· / nameOf path) <$> IO.currentDir

def readContent (path : Text) : IO Text := do
  try return (← IO.FS.readBinFile (nameOf path)).toList
  catch _ => return []

def readPath (path : Text) (listing : Listing) : IO Listing := do
  let mut listing := listing
  for step in pathsTo path do
    let found ← place step
    if ← found.isDir then
      listing := listing.addFolder (Path.cleanComponents step)
    else if ← found.pathExists then
      return listing.add (← readContent step) (Path.cleanComponents step)
    else return listing
  return listing

/-- How deep folders are read: a path of the system has no more components. -/
def maxDepth : Nat := 2048

/-- Adds everything below a folder to a listing, and the contents of module
files if they are asked for. -/
def readFolder (contents : Bool) : Nat → Text → Listing → IO Listing
  | 0, _, listing => return listing
  | depth + 1, path, listing => do
    let found ← place path
    if !(← found.isDir) then return listing
    let mut listing := listing
    for entry in ← found.readDir do
      let below := Path.join [path, utf8 entry.fileName]
      let names := Path.cleanComponents below
      match (← entry.path.symlinkMetadata).type with
      | .dir => listing ← readFolder contents depth below (listing.addFolder names)
      | _ =>
        let content ← if contents && isModuleFile below then readContent below else pure []
        listing := listing.add content names
    return listing

def readMarkers (path : Text) (listing : Listing) : IO Listing := do
  let mut listing := listing
  for step in pathsTo path do
    for marker in workspaceMarkers do
      listing ← readPath (Path.join [step, marker]) listing
  return listing

def readVariable (name : Text) : IO Environment := do
  match ← IO.getEnv (nameOf name) with
  | some value => return [(name, utf8 value)]
  | none => return []

/-- The disk as far as a run with these arguments can see it. -/
def readDisk (env : Environment) (args : List Text) : IO Disk := do
  let here := utf8 (← IO.currentDir).toString
  let within (listing : Listing) : Disk := ⟨listing, Path.cleanComponents here⟩
  let mut listing ← readPath here .nil
  listing ← readPath (Path.join [here, utf8 ".env"]) listing
  let full := Command.fullEnvironment (within listing) env
  let named := (namedPaths args ++ full.map Prod.snd).map (Path.absolute here)
  for path in named do
    listing ← readPath path listing
    listing ← readMarkers path listing
  let verb := (Command.findVerb args).1
  let roots := if searches verb then here :: named.map (within listing).workspaceRoot else []
  for path in named ++ roots.filter (!·.isEmpty) do
    listing ← readFolder (verb == .check) maxDepth path listing
  return within listing

/-! ## Writing -/

/-- The files whose contents differ; no run adds or removes a file. -/
def changedFiles (before after : Listing) : List (List Text × Text) :=
  ((before.files []).zip (after.files [])).filterMap fun (old, new) =>
    if old = new then none else some new

def writeChanges (before after : Disk) : IO Unit := do
  for (names, content) in changedFiles before.root after.root do
    IO.FS.writeBinFile (nameOf (Text.slash :: Text.joinWith [Text.slash] names)) (bytes content)

/-! ## Running -/

def run (args : List Text) : IO UInt32 := do
  let env := (← readVariable Command.rootVariable) ++ (← readVariable Command.configVariable)
  let disk ← readDisk env args
  match Command.run disk env BuildInfo.plain args with
  | .error stop =>
    (← IO.getStderr).write (bytes (stop.message ++ [Text.lf]))
    writeChanges disk stop.disk
    return 2
  | .ok result =>
    (← IO.getStdout).write (bytes result.stdout)
    (← IO.getStderr).write (bytes result.stderr)
    writeChanges disk result.disk
    return if result.failure.isSome then 1 else 0

end ModuleDeps.Program

def main (args : List String) : IO UInt32 :=
  ModuleDeps.Program.run (args.map ModuleDeps.utf8)
