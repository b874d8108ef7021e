import ModuleDeps.Failure
import ModuleDeps.Workspace.Files

/-!
# Checking files

A check reads the declaration block of each file and reports those that cannot
be edited.  A file without a block is no fault.
-/

set_option autoImplicit false

namespace ModuleDeps

/-- What was read in a file: a block, no block, or a block that cannot be
edited. -/
structure CheckResult where
  path : Text
  descriptor : Option Descriptor := none
  failure : Option Failure := none
deriving DecidableEq, Repr

structure CheckReport where
  output : Text
  failure : Option Failure := none
deriving DecidableEq, Repr

namespace CheckResult

def ofText (path content : Text) : CheckResult :=
  let buffer := Buffer.ofText content
  match locate buffer buffer.version with
  | .ok descriptor => { path, descriptor := some descriptor }
  | .error .notFound => { path }
  | .error e => { path, failure := some (.locate e) }

def line (r : CheckResult) : Text :=
  match r.failure, r.descriptor with
  | some failure, _ => r.path ++ utf8 ": " ++ failure.message ++ [Text.lf]
  | none, none => r.path ++ utf8 ": no declaration block\n"
  | none, some d =>
    r.path ++ utf8 ": " ++ d.kind.name ++ utf8 " block, " ++ Text.ofNat d.dependencies.length ++
      utf8 " dependencies\n"

/-- Sound files are reported on demand. -/
def report (r : CheckResult) (always : Bool) : Text :=
  if r.failure.isSome || always then r.line else []

def isBroken (r : CheckResult) : Bool := r.failure.isSome

def isWithoutBlock (r : CheckResult) : Bool := r.failure.isNone && r.descriptor.isNone

end CheckResult

namespace Disk

def checkFile (d : Disk) (path : Text) : Except Failure CheckResult :=
  match d.readFile path with
  | .ok content => .ok (.ofText path content)
  | .error e => .error (.during .readFile (.disk e))

/-- A file that cannot be read counts as broken. -/
def checkOrFail (d : Disk) (path : Text) : CheckResult :=
  match d.checkFile path with
  | .ok result => result
  | .error failure => { path, failure := some failure }

def checkSingle (d : Disk) (path : Text) : CheckReport :=
  match d.checkFile path with
  | .error failure => ⟨[], some failure⟩
  | .ok result => ⟨result.report true, result.failure.map (.during .locateBlock)⟩

def countPart (count : Nat) (words : String) : Text :=
  if count = 0 then [] else utf8 ", " ++ Text.ofNat count ++ utf8 words

def summary (results : List CheckResult) : Text :=
  utf8 "Checked " ++ Text.ofNat results.length ++ utf8 " files" ++
    countPart (results.countP CheckResult.isWithoutBlock) " without a declaration block" ++
    countPart (results.countP CheckResult.isBroken) " with errors" ++ [Text.lf]

def checkFiles (d : Disk) (verbose : Bool) (paths : List Text) : CheckReport :=
  let results := paths.map d.checkOrFail
  let broken := results.countP CheckResult.isBroken
  ⟨results.flatMap (·.report verbose) ++ summary results,
    if broken = 0 then none else some (.brokenFiles broken)⟩

/-- Checks a file, or the module files below a directory. -/
def checkPath (d : Disk) (verbose : Bool) (path : Text) : CheckReport :=
  match d.isFolder path with
  | .error e => ⟨[], some (.during .checkPath (.disk e))⟩
  | .ok false => d.checkSingle path
  | .ok true =>
    match d.moduleFiles path with
    | .error e => ⟨[], some (.during .findModuleFiles (.disk e))⟩
    | .ok [] => ⟨utf8 "No JavaScript files found in " ++ path ++ [Text.lf], none⟩
    | .ok files =>
      let report := d.checkFiles verbose files
      if verbose then
        { report with
          output := utf8 "Found " ++ Text.ofNat files.length ++ utf8 " JavaScript files in " ++
            path ++ utf8 "\n\n" ++ report.output }
      else report

end Disk

end ModuleDeps
