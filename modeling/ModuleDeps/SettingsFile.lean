import ModuleDeps.Failure
import ModuleDeps.Settings
import ModuleDeps.Yaml.Decode

/-!
# Settings files

A settings file is a YAML mapping.  A key that is absent or null leaves the
built-in table alone, and any other replaces it.  Unknown keys are ignored.
-/

set_option autoImplicit false

namespace ModuleDeps

open Yaml (Datum Shape)

namespace SettingsFile

/-! ## Shapes -/

def markerShape : Shape :=
  .ofFields [("segments", .list .text), ("prefix", .text), ("strip", .truth)]

def shape : Shape :=
  .ofFields [("markers", .list markerShape), ("modules", .map .text .text),
    ("excludes", .list .text), ("maxResults", .number)]

/-! ## Tables -/

/-- A text; null stands for the empty one. -/
def text (datum : Datum) : Text := datum.text?.getD []

def texts (datum : Datum) : Option (List Text) := datum.items?.map fun items => items.map text

def marker (datum : Datum) : Marker where
  segments := (texts (datum.field "segments")).getD []
  lead := text (datum.field "prefix")
  strip := (datum.field "strip").truth?.getD false

def knownModule? : Yaml.Value × Datum → Option KnownModule
  | (.text name, path) => some ⟨name, text path⟩
  | _ => none

def patch (datum : Datum) : SettingsPatch where
  markers := (datum.field "markers").items?.map fun items => items.map marker
  modules := (datum.field "modules").rows?.map fun rows => rows.filterMap knownModule?
  excludes := texts (datum.field "excludes")
  limit := (datum.field "maxResults").number?.getD 0

end SettingsFile

namespace Settings

/-- The first marker without segments. -/
def checked (s : Settings) : Except Failure Settings :=
  match s.markers.findIdx? fun m => m.segments.isEmpty with
  | some i => .error (.markerWithoutSegments i)
  | none => .ok s

def ofYaml (t : Text) : Except Halt (Except Failure Settings) :=
  let refused : Except Failure Settings := .error (.during .parseSettings .badYaml)
  match Yaml.parse t with
  | none => .ok refused
  | some none => .ok builtin.checked
  | some (some document) =>
    match document.read SettingsFile.shape with
    | .error .collectionKey => .error .collectionKey
    | .error .refused => .ok refused
    | .ok none => .ok refused
    | .ok (some datum) => .ok (builtin.patched (SettingsFile.patch datum)).checked

/-- The settings of a file; without a path the built-in ones. -/
def load (d : Disk) (path : Text) : Except Halt (Except Failure Settings) :=
  if path.isEmpty then .ok (.ok builtin)
  else
    match d.readFile path with
    | .error e => .ok (.error (.during .readSettings (.disk e)))
    | .ok content => ofYaml content

end Settings

end ModuleDeps
