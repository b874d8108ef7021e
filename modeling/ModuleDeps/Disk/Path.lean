import ModuleDeps.Text.Basic

/-!
# Paths

Paths are texts with slashes.  The clean form of a path has no empty, `.` or
superfluous `..` components.
-/

set_option autoImplicit false

namespace ModuleDeps.Path

def isAbsolute (path : Text) : Bool := path.startsWith [Text.slash]

def components (path : Text) : List Text := path.splitAt Text.slash

/-- Puts a component behind clean components, which are held backwards. -/
def push (rooted : Bool) (above : List Text) (component : Text) : List Text :=
  if component = [] ∨ component = utf8 "." then above
  else if component = utf8 ".." then
    match above with
    | [] => if rooted then [] else [component]
    | last :: rest => if last = utf8 ".." then component :: above else rest
  else component :: above

def cleanComponents (path : Text) : List Text :=
  ((components path).foldl (push (isAbsolute path)) []).reverse

def clean (path : Text) : Text :=
  let joined := Text.joinWith [Text.slash] (cleanComponents path)
  if isAbsolute path then Text.slash :: joined
  else if joined.isEmpty then utf8 "."
  else joined

def join (parts : List Text) : Text :=
  match parts.filter fun part => !part.isEmpty with
  | [] => []
  | parts => clean (Text.joinWith [Text.slash] parts)

def absolute (workingDir path : Text) : Text :=
  if isAbsolute path then clean path else join [workingDir, path]

def dir (path : Text) : Text :=
  match Text.lastIndexOf? Text.slash path with
  | some i => clean (path.take (i + 1))
  | none => utf8 "."

def base (path : Text) : Text :=
  let trimmed := path.trimEndWhere (· == Text.slash)
  if path.isEmpty then utf8 "."
  else if trimmed.isEmpty then [Text.slash]
  else
    match Text.lastIndexOf? Text.slash trimmed with
    | some i => trimmed.drop (i + 1)
    | none => trimmed

end ModuleDeps.Path
