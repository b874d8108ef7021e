import ModuleDeps.Disk.Basic

/-!
# Workspace roots

The workspace of a file is the nearest directory above it that holds one of
the marker files.  The search goes up a bounded number of times; without a
marker the workspace is the directory that holds the `webapp` folder.
-/

set_option autoImplicit false

namespace ModuleDeps

def workspaceMarkers : List Text := [utf8 "ui5.yaml", utf8 "package.json", utf8 ".git"]

def webappSegment : Text := utf8 "/webapp/"

def maxClimb : Nat := 20

namespace Disk

def holdsMarker (d : Disk) (dir : Text) : Bool :=
  workspaceMarkers.any fun marker => d.exists? (Path.join [dir, marker])

/-- The nearest of the next directories above a path that holds a marker. -/
def climb (d : Disk) : Nat → Text → Option Text
  | 0, _ => none
  | steps + 1, path =>
    let parent := Path.dir path
    if parent = path then none
    else if d.holdsMarker parent then some parent
    else climb d steps parent

/-- The workspace of a file, empty when there is none. -/
def workspaceRoot (d : Disk) (path : Text) : Text :=
  let full := d.absolute path
  match d.climb maxClimb full with
  | some dir => dir
  | none =>
    match Text.indexOf? webappSegment full with
    | some i => full.take i
    | none => []

end Disk

end ModuleDeps
