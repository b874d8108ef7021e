import ModuleDeps.Block.Edits
import ModuleDeps.Failure
import ModuleDeps.Settings

/-!
# Adding a dependency

A symbol is added by locating the declaration block, finding the import path
of the symbol, in the catalog or else in the workspace, and applying the edits
to the buffer.  The search is left to a finder, during which the buffer may
change; the edits then no longer fit and are refused.

Every operation says what it did in a session: the notes for the user, the
progress log, the queries made and the buffer.
-/

set_option autoImplicit false

namespace ModuleDeps

inductive Outcome
  | failed
  | added
  | alreadyImported
  | blockNotFound
  | malformedBlock
  | candidateNotFound
deriving DecidableEq, Repr

def Outcome.name : Outcome → Text
  | .failed => utf8 "failed"
  | .added => utf8 "added"
  | .alreadyImported => utf8 "already imported"
  | .blockNotFound => utf8 "declaration block not found"
  | .malformedBlock => utf8 "malformed declaration block"
  | .candidateNotFound => utf8 "not found in workspace"

/-- Answers a query, and may change the buffer meanwhile. -/
abbrev Finder := Query → Buffer → Except Failure (List Text) × Buffer

structure Importer where
  settings : Settings
  finder : Option Finder
  /-- Whether edits are tied to the version of the text they were made for. -/
  versioned : Bool := true

structure Session where
  buffer : Buffer
  notes : List Text := []
  log : List Text := []
  calls : List Query := []
deriving DecidableEq, Repr

namespace Session

def note (s : Session) (words : Text) : Session := { s with notes := s.notes ++ [words] }

def progress (s : Session) (words : Text) : Session := { s with log := s.log ++ [words] }

end Session

namespace Importer

/-! ## Searching the workspace -/

/-- What the workspace has for a symbol: the paths found, and the candidate
among them that the layout gives an import path. -/
structure Lookup where
  candidate : Option Candidate
  paths : List Text
deriving DecidableEq, Repr

def query (im : Importer) (symbol : Text) : Query :=
  ⟨moduleGlob symbol, im.settings.excludes, im.settings.limit⟩

/-- Looks a symbol up in the workspace.  A path that the layout cannot be
applied to ends the look-up after the search. -/
def resolve (im : Importer) (symbol : Text) (s : Session) :
    Except OutOfRange (Except Failure Lookup) × Session :=
  match im.finder with
  | none => (.ok (.ok ⟨none, []⟩), s)
  | some finder =>
    let q := im.query symbol
    let s := s.progress (utf8 "Searching " ++ q.pattern)
    let (reply, buffer) := finder q s.buffer
    let s := { s with buffer, calls := s.calls ++ [q] }
    match reply with
    | .error e => (.ok (.error (.during .search e)), s)
    | .ok paths =>
      let found := (ModuleDeps.resolve paths im.settings.markers).map fun candidate =>
        .ok ⟨candidate, paths⟩
      (found, s.progress (utf8 "Found " ++ Text.ofNat paths.length ++ utf8 " candidates"))

/-! ## Adding -/

structure Addition where
  outcome : Outcome
  failure : Option Failure := none
deriving DecidableEq, Repr

def stamp (im : Importer) (b : Buffer) : UInt64 := if im.versioned then b.version else 0

def locatedNote (d : Descriptor) : Text :=
  utf8 "Located " ++ d.kind.name ++ utf8 " block: " ++ Text.ofNat d.dependencies.length ++
    utf8 " dependencies, " ++ Text.ofNat d.parameters.length ++ utf8 " parameters"

/-- The name and the import path to add for a symbol, or how the attempt ends
without them. -/
def target (im : Importer) (symbol : Text) (s : Session) :
    Except OutOfRange (Except Addition (Text × Text)) × Session :=
  match im.settings.modules.lookup symbol with
  | some known => (.ok (.ok (known.name, known.path)), s)
  | none =>
    match im.resolve symbol s with
    | (.error stop, s) => (.error stop, s)
    | (.ok (.error e), s) =>
      (.ok (.error { outcome := .failed, failure := some e }), s.note e.message)
    | (.ok (.ok ⟨none, _⟩), s) =>
      (.ok (.error { outcome := .candidateNotFound }),
        s.note (utf8 "\"" ++ symbol ++ utf8 ".js\" not found in the workspace file system!"))
    | (.ok (.ok ⟨some candidate, _⟩), s) => (.ok (.ok (symbol, candidate.importPath)), s)

def insert (d : Descriptor) (name path : Text) (s : Session) : Addition × Session :=
  match s.buffer.apply (d.edits s.buffer.lineCount name path) with
  | .error e =>
    let failure := Failure.during .applyEdits (.apply e)
    ({ outcome := .failed, failure := some failure }, s.note failure.message)
  | .ok buffer =>
    ({ outcome := .added },
      { s with buffer }.note (path ++ utf8 " has been added into the define section"))

def addDependency (im : Importer) (symbol : Text) (s : Session) :
    Except OutOfRange Addition × Session :=
  match locate s.buffer (im.stamp s.buffer) with
  | .error .notFound =>
    (.ok { outcome := .blockNotFound }, s.note (utf8 "Cannot locate sap.ui.define() section!"))
  | .error .outOfRange => (.error .mk, s)
  | .error e =>
    (.ok { outcome := .malformedBlock },
      s.note (utf8 "The sap.ui.define() section cannot be edited safely: " ++ e.message))
  | .ok d =>
    let s := s.progress (locatedNote d)
    if d.hasParameter symbol then
      (.ok { outcome := .alreadyImported },
        s.note (utf8 "Import \"" ++ symbol ++ utf8 "\" already exists!"))
    else
      match im.target symbol s with
      | (.error stop, s) => (.error stop, s)
      | (.ok (.error ended), s) => (.ok ended, s)
      | (.ok (.ok (name, path)), s) =>
        let (added, s) := insert d name path s
        (.ok added, s)

/-! ## Opening -/

/-- The file that defines a symbol, empty when there is none. -/
def openFile (im : Importer) (symbol : Text) (s : Session) :
    Except OutOfRange (Except Failure Text) × Session :=
  match im.resolve symbol s with
  | (.error stop, s) => (.error stop, s)
  | (.ok (.error e), s) => (.ok (.error e), s.note e.message)
  | (.ok (.ok lookup), s) =>
    let found :=
      match lookup.candidate with
      | some candidate => candidate.path
      | none => lookup.paths.headD []
    if found.isEmpty then
      (.ok (.ok []), s.note (utf8 "Cannot open file name \"" ++ symbol ++ utf8 "\"."))
    else (.ok (.ok found), s.note (found ++ utf8 " opened."))

end Importer

end ModuleDeps
