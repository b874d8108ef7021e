import ModuleDeps.Failure
import ModuleDeps.Settings

/-!
# Searching a directory of a disk

The files found are written with the directory's path in front, as it was
given.
-/

set_option autoImplicit false

namespace ModuleDeps

def Path.inside (dir : Text) : Text :=
  if dir.endsWith [Text.slash] then dir ++ utf8 "." else dir ++ utf8 "/."

/-- The files below a directory that a query asks for.  The directory itself
goes by the name `.` in a failure. -/
def Disk.findFiles (d : Disk) (dir : Text) (q : Query) : Except Failure (List Text) :=
  match q.check with
  | .error e => .error (.find (.query e))
  | .ok () =>
    if dir.isEmpty then .error (.other (utf8 "stat .: os: DirFS with empty root"))
    else
      match d.locate (Path.inside dir) with
      | .error cause => .error (.disk ⟨utf8 "stat", utf8 ".", cause⟩)
      | .ok (_, .file _) => .error (.disk ⟨utf8 "stat", utf8 ".", .notFolder⟩)
      | .ok (_, .folder inner) =>
        match find inner dir (fun _ => false) false q with
        | .ok paths => .ok paths
        | .error e => .error (.find e)

end ModuleDeps
