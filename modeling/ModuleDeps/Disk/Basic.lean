import ModuleDeps.Disk.Listing
import ModuleDeps.Disk.Path

/-!
# Disks

A disk is a directory tree together with a working directory.  Paths are
followed component by component: every component but the last has to be a
folder, and so has the last one when a slash follows it.  A path that holds a
zero byte, or that is too long as a whole, leads nowhere.
-/

set_option autoImplicit false

namespace ModuleDeps

inductive DiskCause
  | notFound
  | notFolder
  | isFolder
  | nameTooLong
  | invalidPath
deriving DecidableEq, Repr

def DiskCause.message : DiskCause → Text
  | .notFound => utf8 "no such file or directory"
  | .notFolder => utf8 "not a directory"
  | .isFolder => utf8 "is a directory"
  | .nameTooLong => utf8 "file name too long"
  | .invalidPath => utf8 "invalid argument"

structure DiskError where
  operation : Text
  path : Text
  cause : DiskCause
deriving DecidableEq, Repr

def DiskError.message (e : DiskError) : Text :=
  e.operation ++ utf8 " " ++ e.path ++ utf8 ": " ++ e.cause.message

structure Disk where
  root : Listing
  /-- The names of the folders from the root to the working directory. -/
  workingDir : List Text
deriving DecidableEq, Repr

namespace Disk

def workingPath (d : Disk) : Text := Text.slash :: Text.joinWith [Text.slash] d.workingDir

def absolute (d : Disk) (path : Text) : Text := Path.absolute d.workingPath path

def maxName : Nat := 255

def maxPath : Nat := 4095

/-- Follows components from an entry.  `above` holds the folders above it, the
nearest first, and `trail` the names that lead to it, the last first. -/
def follow : List Listing → List Text → Entry → List Text →
    Except DiskCause (List Text × Entry)
  | _, trail, entry, [] => .ok (trail.reverse, entry)
  | _, _, .file _, _ :: _ => .error .notFolder
  | above, trail, .folder here, component :: rest =>
    if component = [] ∨ component = utf8 "." then follow above trail (.folder here) rest
    else if component = utf8 ".." then
      match above with
      | [] => follow [] [] (.folder here) rest
      | parent :: above => follow above trail.tail (.folder parent) rest
    else if maxName < component.length then .error .nameTooLong
    else
      match here.find? component with
      | some entry => follow (here :: above) (component :: trail) entry rest
      | none => .error .notFound

def locate (d : Disk) (path : Text) : Except DiskCause (List Text × Entry) :=
  if List.contains path 0 then .error .invalidPath
  else if path.isEmpty then .error .notFound
  else if maxPath < path.length then .error .nameTooLong
  else if Path.isAbsolute path then follow [] [] (.folder d.root) (Path.components path)
  else follow [] [] (.folder d.root) (d.workingDir ++ Path.components path)

def failing (operation : String) (path : Text) {α : Type} : Except DiskCause α →
    Except DiskError α
  | .ok a => .ok a
  | .error cause => .error ⟨utf8 operation, path, cause⟩

def stat (d : Disk) (path : Text) (operation : String) : Except DiskError Entry :=
  failing operation path ((d.locate path).map Prod.snd)

def exists? (d : Disk) (path : Text) : Bool := (d.locate path).isOk

def isFolder (d : Disk) (path : Text) : Except DiskError Bool := do
  match ← d.stat path "stat" with
  | .file _ => return false
  | .folder _ => return true

def readFile (d : Disk) (path : Text) : Except DiskError Text := do
  match ← d.stat path "open" with
  | .file content => return content
  | .folder _ => .error ⟨utf8 "read", path, .isFolder⟩

def writeFile (d : Disk) (path content : Text) : Except DiskError Disk :=
  match d.locate path with
  | .ok (names, .file _) => .ok { d with root := d.root.setFile content names }
  | .ok (_, .folder _) => .error ⟨utf8 "open", path, .isFolder⟩
  | .error cause => .error ⟨utf8 "open", path, cause⟩

end Disk

end ModuleDeps
