import ModuleDeps.Disk.Basic

/-!
# Module files of a workspace

The module files below a directory, in the order of a walk.  Folders of build
output and of dependencies, and hidden folders, are left out.  The directory
that the walk starts from is never left out.  An entry whose path is too long
ends the walk.
-/

set_option autoImplicit false

namespace ModuleDeps

def isModuleFile (path : Text) : Bool := path.endsWith (utf8 ".js")

def isSkippedFolder (name : Text) : Bool :=
  [utf8 "node_modules", utf8 "dist", utf8 "vendor"].contains name || name.startsWith (utf8 ".")

def Disk.visit (path : Text) : Except DiskError Text :=
  if maxPath < path.length then .error ⟨utf8 "lstat", path, .nameTooLong⟩ else .ok path

/-- The module files of a folder whose path is `dir`. -/
def Listing.moduleFiles : Text → Listing → Except DiskError (List Text)
  | _, .nil => return []
  | dir, .file name _ rest => do
    let path ← Disk.visit (Path.join [dir, name])
    let more ← moduleFiles dir rest
    return if isModuleFile name then path :: more else more
  | dir, .folder name inner rest => do
    let path ← Disk.visit (Path.join [dir, name])
    let below ← (if isSkippedFolder name then pure [] else moduleFiles path inner)
    let more ← moduleFiles dir rest
    return below ++ more

def Disk.moduleFiles (d : Disk) (root : Text) : Except DiskError (List Text) := do
  match ← d.stat root "lstat" with
  | .file _ => return if isModuleFile (Path.base root) then [root] else []
  | .folder inner => inner.moduleFiles root

end ModuleDeps
