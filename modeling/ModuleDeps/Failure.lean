import ModuleDeps.Block.Locate
import ModuleDeps.Buffer.Batch
import ModuleDeps.Disk.Basic
import ModuleDeps.Finder

/-!
# Failures

A failure is a cause, possibly inside the task that it spoiled.  Its message
names the tasks from the outermost to the innermost and then the cause.

A halt is worse: it leaves no result at all.
-/

set_option autoImplicit false

namespace ModuleDeps

inductive Task
  | readFile
  | writeFile
  | applyEdits
  | search
  | locateBlock
  | checkPath
  | resolveRoot
  | findModuleFiles
  | readSettings
  | parseSettings
deriving DecidableEq, Repr

def Task.message : Task → Text
  | .readFile => utf8 "failed to read file"
  | .writeFile => utf8 "failed to write file"
  | .applyEdits => utf8 "failed to apply edits"
  | .search => utf8 "failed to search workspace"
  | .locateBlock => utf8 "failed to locate declaration block"
  | .checkPath => utf8 "failed to check path"
  | .resolveRoot => utf8 "failed to resolve workspace root"
  | .findModuleFiles => utf8 "failed to find module files"
  | .readSettings => utf8 "failed to read config"
  | .parseSettings => utf8 "failed to parse config"

inductive Failure
  | locate (cause : LocateError)
  | apply (cause : ApplyError)
  | find (cause : FindError)
  | disk (cause : DiskError)
  /-- The settings file is no YAML, or a value in it has the wrong type. -/
  | badYaml
  | markerWithoutSegments (index : Nat)
  | brokenFiles (count : Nat)
  /-- A cause known by its words only. -/
  | other (words : Text)
  | during (task : Task) (cause : Failure)
deriving DecidableEq, Repr

namespace Failure

def message : Failure → Text
  | .locate cause => cause.message
  | .apply cause => cause.message
  | .find cause => cause.message
  | .disk cause => cause.message
  | .badYaml => utf8 "yaml: invalid document"
  | .markerWithoutSegments index =>
    utf8 "layout marker " ++ Text.ofNat index ++ utf8 " has no segments"
  | .brokenFiles count =>
    Text.ofNat count ++ utf8 " files have a declaration block that cannot be edited"
  | .other words => words
  | .during task cause => task.message ++ utf8 ": " ++ message cause

def root : Failure → Failure
  | .during _ cause => root cause
  | cause => cause

end Failure

/-- Why a run ends without a result. -/
inductive Halt
  /-- A place outside of a text was looked at. -/
  | outOfRange
  /-- A sequence or a mapping was to be remembered as a key. -/
  | collectionKey
deriving DecidableEq, Repr

def Halt.message : Halt → Text
  | .outOfRange => utf8 "a place outside of the text was asked for"
  | .collectionKey => utf8 "a collection cannot be remembered as a key"

/-- Where to stop because of a place outside of a text. -/
def orHalt {α : Type} : Except OutOfRange α → Except Halt α
  | .ok a => .ok a
  | .error _ => .error .outOfRange

end ModuleDeps
