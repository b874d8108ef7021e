import ModuleDeps.Block.Json
import ModuleDeps.Buffer.Word
import ModuleDeps.BuildInfo
import ModuleDeps.Check
import ModuleDeps.Command.Help
import ModuleDeps.Diff.Unified
import ModuleDeps.EnvFile
import ModuleDeps.Importer
import ModuleDeps.SettingsFile
import ModuleDeps.Workspace.Root
import ModuleDeps.Workspace.Search

/-!
# The command line

A run of the program reads a disk and an environment and leaves behind what it
printed, a failure if there was one, and the disk, which only `add --in-place`
changes.  A run that stops without a result still has its disk.
-/

set_option autoImplicit false

namespace ModuleDeps.Command

/-! ## Failures -/

inductive CommandError
  | usage (cause : UsageError)
  | notModuleFile (path : Text)
  | noSymbol
  | notAdded (outcome : Outcome)
  | nothingToOpen (symbol : Text)
  | notInWorkspace (symbol : Text)
  | rootNotFolder (path : Text)
  | failed (cause : Failure)
deriving DecidableEq, Repr

def CommandError.message : CommandError → Text
  | .usage cause => cause.message
  | .notModuleFile path =>
    Task.readFile.message ++ utf8 ": " ++ path ++ utf8 " is not a .js file"
  | .noSymbol => utf8 "no symbol at cursor"
  | .notAdded outcome => utf8 "dependency not added: " ++ outcome.name
  | .nothingToOpen symbol => Task.search.message ++ utf8 ": " ++ symbol
  | .notInWorkspace symbol =>
    utf8 "\"" ++ symbol ++ utf8 ".js\" not found in the workspace file system!"
  | .rootNotFolder path =>
    Task.resolveRoot.message ++ utf8 ": " ++ path ++ utf8 " is not a directory"
  | .failed cause => cause.message

/-! ## Results -/

structure Result where
  stdout : Text := []
  stderr : Text := []
  failure : Option CommandError := none
  disk : Disk
deriving DecidableEq, Repr

/-- How a run stops without a result, and the disk as it is then. -/
inductive Stop
  | halted (why : Halt) (disk : Disk)
  /-- The command line is for a command of the library, which takes over. -/
  | handedOver (disk : Disk)
deriving DecidableEq, Repr

namespace Stop

def disk : Stop → Disk
  | .halted _ disk => disk
  | .handedOver disk => disk

def message : Stop → Text
  | .halted why _ => why.message
  | .handedOver _ => utf8 "a command of the command library is not provided"

end Stop

abbrev Run := Except Stop Result

/-- The disk that a run leaves, also where it stops. -/
def Run.disk : Run → Disk
  | .ok r => r.disk
  | .error stop => stop.disk

/-- A computation that may halt, as a part of a run. -/
def haltingOn {α : Type} (d : Disk) : Except Halt α → Except Stop α
  | .ok a => .ok a
  | .error why => .error (.halted why d)

@[simp]
theorem haltingOn_ok {α : Type} (d : Disk) (a : α) : haltingOn d (.ok a) = .ok a := rfl

def line (t : Text) : Text := t ++ [Text.lf]

def textLines (ts : List Text) : Text := ts.flatMap line

/-! ## Options -/

structure Options where
  root : Text
  config : Text
  inPlace : Bool
  diff : Bool
  verbose : Bool
deriving DecidableEq, Repr

def rootVariable : Text := utf8 "WISEIMPORT_ROOT"

def configVariable : Text := utf8 "WISEIMPORT_CONFIG"

/-- The cursor flags, counted from one; zero where a flag is not set. -/
structure CursorFlags where
  line : Int
  column : Int
  endLine : Int
  endColumn : Int
deriving DecidableEq, Repr

/-- One less, within 64 bits. -/
def lessOne (n : Int) : Int := Int.bmod (n - 1) 0x10000000000000000

def CursorFlags.selection (c : CursorFlags) : Selection :=
  let start : Position := ⟨lessOne c.line, lessOne c.column⟩
  ⟨start, ⟨if 0 < c.endLine then c.endLine - 1 else start.line,
    if 0 < c.endColumn then c.endColumn - 1 else start.column⟩⟩

/-! ## Workspaces -/

/-- The directory to search: the one given, or that of a file, or the working
directory. -/
def workspace (d : Disk) (o : Options) (file : Text) : Except CommandError Text :=
  let inferred := if o.root.isEmpty ∧ !file.isEmpty then d.workspaceRoot file else o.root
  let root := d.absolute (if inferred.isEmpty then utf8 "." else inferred)
  match d.isFolder root with
  | .error e => .error (.failed (.during .checkPath (.disk e)))
  | .ok false => .error (.rootNotFolder root)
  | .ok true => .ok root

def diskFinder (d : Disk) (root : Text) : Finder := fun q b => (d.findFiles root q, b)

def importerFor (d : Disk) (o : Options) (file : Text) :
    Except Halt (Except CommandError (Importer × Text)) := do
  match ← Settings.load d o.config with
  | .error e => return .error (.failed e)
  | .ok settings =>
    match workspace d o file with
    | .error e => return .error e
    | .ok root =>
      return .ok ({ settings, finder := some (diskFinder d root) },
        if o.verbose then line (utf8 "Workspace root: " ++ root) else [])

def sessionText (o : Options) (s : Session) : Text :=
  (if o.verbose then textLines s.log else []) ++ textLines s.notes

/-! ## Verbs -/

/-- The symbol to add: the one given, or the one at the cursor. -/
def symbolFor (b : Buffer) (c : CursorFlags) (given : Option Text) :
    Except Halt (Except CommandError Text) :=
  match given with
  | some symbol => .ok (.ok symbol)
  | none => do
    match ← orHalt (b.wordAt c.selection) with
    | some word => return if c.line ≤ 0 then .error .noSymbol else .ok word
    | none => return .error .noSymbol

def deliver (d : Disk) (o : Options) (path old new : Text) (said : Text) : Result :=
  if o.inPlace then
    match d.writeFile path new with
    | .error e =>
      { stderr := said, failure := some (.failed (.during .writeFile (.disk e))), disk := d }
    | .ok disk =>
      { stderr := said ++ (if o.verbose then line (utf8 "Wrote: " ++ path) else []), disk }
  else if o.diff then { stdout := Diff.unified path old new, stderr := said, disk := d }
  else { stdout := new, stderr := said, disk := d }

def runAdd (d : Disk) (o : Options) (c : CursorFlags) (path : Text) (given : Option Text) : Run :=
  let fail (e : CommandError) : Result := { failure := some e, disk := d }
  if !isModuleFile path then .ok (fail (.notModuleFile path))
  else
    match d.readFile path with
    | .error e => .ok (fail (.failed (.during .readFile (.disk e))))
    | .ok content => do
      let buffer := Buffer.ofText content
      match ← haltingOn d (symbolFor buffer c given) with
      | .error e => return fail e
      | .ok symbol =>
        match ← haltingOn d (importerFor d o path) with
        | .error e => return fail e
        | .ok (im, said) =>
          let (added, s) := im.addDependency symbol { buffer }
          let r ← haltingOn d (orHalt added)
          let said := said ++ sessionText o s
          let text := s.buffer.text
          match r.failure, r.outcome with
          | some e, _ => return { stderr := said, failure := some (.failed e), disk := d }
          | none, .added => return deliver d o path content text said
          | none, .alreadyImported =>
            return {
              stdout := if o.inPlace || o.diff then [] else text
              stderr := said
              disk := d }
          | none, outcome =>
            return { stderr := said, failure := some (.notAdded outcome), disk := d }

def runCheck (d : Disk) (o : Options) (path : Text) : Result :=
  let report := d.checkPath o.verbose path
  { stdout := report.output, failure := report.failure.map .failed, disk := d }

def runLocate (d : Disk) (path : Text) : Result :=
  match d.readFile path with
  | .error e => { failure := some (.failed (.during .readFile (.disk e))), disk := d }
  | .ok content =>
    let buffer := Buffer.ofText content
    match ModuleDeps.locate buffer buffer.version with
    | .error e => { failure := some (.failed (.during .locateBlock (.locate e))), disk := d }
    | .ok found => { stdout := line found.toJson, disk := d }

def runOpen (d : Disk) (o : Options) (symbol : Text) : Run := do
  match ← haltingOn d (importerFor d o []) with
  | .error e => return { failure := some e, disk := d }
  | .ok (im, said) =>
    let (reply, s) := im.openFile symbol { buffer := Buffer.ofText [] }
    let said := said ++ sessionText o s
    match ← haltingOn d (orHalt reply) with
    | .error e => return { stderr := said, failure := some (.failed e), disk := d }
    | .ok [] => return { stderr := said, failure := some (.nothingToOpen symbol), disk := d }
    | .ok path => return { stdout := line path, stderr := said, disk := d }

def runResolve (d : Disk) (o : Options) (symbol : Text) : Run := do
  match ← haltingOn d (Settings.load d o.config) with
  | .error e => return { failure := some (.failed e), disk := d }
  | .ok settings =>
    match settings.modules.lookup symbol with
    | some known => return { stdout := line known.path, disk := d }
    | none =>
      match ← haltingOn d (importerFor d o []) with
      | .error e => return { failure := some e, disk := d }
      | .ok (im, said) =>
        let (reply, s) := im.resolve symbol { buffer := Buffer.ofText [] }
        let said := said ++ sessionText o s
        match ← haltingOn d (orHalt reply) with
        | .error e => return { stderr := said, failure := some (.failed e), disk := d }
        | .ok ⟨none, _⟩ =>
          return { stderr := said, failure := some (.notInWorkspace symbol), disk := d }
        | .ok ⟨some candidate, _⟩ =>
          return { stdout := line candidate.importPath, stderr := said, disk := d }

/-! ## Running -/

def optionsOf (root config : Text) (p : Parsed) : Options where
  root := p.text "root" root
  config := p.text "config" config
  inPlace := p.switch "in-place"
  diff := p.switch "diff"
  verbose := p.switch "verbose"

def cursorOf (p : Parsed) : CursorFlags :=
  ⟨p.number "line", p.number "col", p.number "end-line", p.number "end-col"⟩

def runVerb (d : Disk) (info : BuildInfo) (root config : Text) (v : Verb) (p : Parsed) : Run :=
  let o := optionsOf root config p
  let refuse (e : UsageError) : Run := .ok { failure := some (.usage e), disk := d }
  let count (wanted : String) : Run := refuse (.wrongCount wanted p.args.length)
  if p.switch "help" then .ok { stdout := help root config v, disk := d }
  else
    match v, p.args with
    | .none, [] =>
      .ok {
        stdout := if p.switch "version" then line info.render else help root config .none
        disk := d }
    | .none, arg :: _ => refuse (.unknownCommand arg)
    | .add, [path] => runAdd d o (cursorOf p) path none
    | .add, [path, symbol] => runAdd d o (cursorOf p) path (some symbol)
    | .add, _ => count "between 1 and 2"
    | .check, [path] => .ok (runCheck d o path)
    | .locate, [path] => .ok (runLocate d path)
    | .open, [symbol] => runOpen d o symbol
    | .resolve, [symbol] => runResolve d o symbol
    | .help, args =>
      if names listedCommands args then .error (.handedOver d)
      else .ok { stdout := help root config (findVerb args).1, disk := d }
    | _, _ => count "1"

def Result.reported (r : Result) : Result :=
  match r.failure with
  | some e => { r with stderr := r.stderr ++ line (utf8 "Error: " ++ e.message) }
  | none => r

def fullEnvironment (d : Disk) (env : Environment) : Environment :=
  match d.readFile (utf8 ".env") with
  | .ok content => env.load content
  | .error _ => env

def run (d : Disk) (env : Environment) (info : BuildInfo) (args : List Text) : Run :=
  let env := fullEnvironment d env
  let root := (env.get? rootVariable).getD []
  let config := (env.get? configVariable).getD []
  let (v, rest) := findVerb args
  if names libraryCommands args then .error (.handedOver d)
  else
    match parse (allFlags root config v) rest with
    | .error e => .ok (Result.reported { failure := some (.usage e), disk := d })
    | .ok p => (runVerb d info root config v p).map Result.reported

end ModuleDeps.Command
