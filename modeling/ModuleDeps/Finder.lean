import ModuleDeps.Disk.Listing
import ModuleDeps.Glob.Match
import ModuleDeps.Text.Quoted

/-!
# Finding files by pattern

A search walks a directory tree in order, depth first, and collects the files
that match a pattern until a limit is reached.  Nothing is looked for below a
folder when its path, or a file in it, would be excluded.
-/

set_option autoImplicit false

namespace ModuleDeps

def moduleGlob (symbol : Text) : Text := utf8 "**/" ++ symbol ++ utf8 ".js"

def defaultExcludes : List Text :=
  [utf8 "**/node_modules/**", utf8 "**/resources/**", utf8 "**/dist/**"]

def defaultLimit : Nat := 100

structure Query where
  pattern : Text
  excludes : List Text
  limit : Int
deriving DecidableEq, Repr

inductive QueryError
  | pattern (pattern : Text)
  | exclude (pattern : Text)
deriving DecidableEq, Repr

def QueryError.message : QueryError → Text
  | .pattern p => utf8 "invalid pattern " ++ p.quoted ++ utf8 ": syntax error in pattern"
  | .exclude p => utf8 "invalid exclude pattern " ++ p.quoted ++ utf8 ": syntax error in pattern"

inductive FindError
  | query (cause : QueryError)
  | cancelled
  /-- A folder could not be listed. -/
  | listing (folder : Text)
deriving DecidableEq, Repr

def FindError.message : FindError → Text
  | .query cause => cause.message
  | .cancelled => utf8 "context canceled"
  | .listing folder => utf8 "cannot list " ++ folder

namespace Query

def check (q : Query) : Except QueryError Unit :=
  if !Glob.isValid (Glob.codes q.pattern) then .error (.pattern q.pattern)
  else
    match q.excludes.find? fun e => !Glob.isValid (Glob.codes e) with
    | some e => .error (.exclude e)
    | none => .ok ()

/-- The number of files wanted; anything below one means the usual number. -/
def bound (q : Query) : Nat := if q.limit ≤ 0 then defaultLimit else q.limit.toNat

def excluded (q : Query) (path : Text) : Bool := q.excludes.any fun e => Glob.isMatch e path

/-- A folder is passed over when its own path is excluded, or the path of an
entry `_` in it. -/
def skips (q : Query) (folder : Text) : Bool :=
  q.excluded folder || q.excluded (folder ++ utf8 "/_")

def keeps (q : Query) (file : Text) : Bool := !q.excluded file && Glob.isMatch q.pattern file

end Query

/-- How a walk stands: going on, ended at the limit, or ended by a folder that
cannot be listed. -/
inductive Walk
  | going (found : List Text)
  | full (found : List Text)
  | failed (folder : Text)
deriving DecidableEq, Repr

namespace Listing

def under (dir name : Text) : Text := if dir.isEmpty then name else dir ++ utf8 "/" ++ name

def collect (q : Query) (found : List Text) (path : Text) : Walk :=
  if !q.keeps path then .going found
  else if q.bound ≤ found.length + 1 then .full (found ++ [path])
  else .going (found ++ [path])

/-- Walks the entries of a folder.  `fails` says which folders cannot be
listed. -/
def walk (q : Query) (fails : Text → Bool) : Text → Listing → List Text → Walk
  | _, .nil, found => .going found
  | dir, .file name _ rest, found =>
    match collect q found (under dir name) with
    | .going found => walk q fails dir rest found
    | stopped => stopped
  | dir, .folder name inner rest, found =>
    let path := under dir name
    if q.skips path then walk q fails dir rest found
    else if fails path then .failed path
    else
      match walk q fails path inner found with
      | .going found => walk q fails dir rest found
      | stopped => stopped

end Listing

def joinRoot (root path : Text) : Text :=
  if root.isEmpty then path
  else Text.dropTail [Text.slash] (root.replaceByte Text.backslash [Text.slash]) ++
    utf8 "/" ++ path

/-- The files of a tree that a query asks for.  The top of the tree is called
`.` when it cannot be listed. -/
def find (tree : Listing) (root : Text) (fails : Text → Bool) (cancelled : Bool) (q : Query) :
    Except FindError (List Text) :=
  match q.check with
  | .error e => .error (.query e)
  | .ok () =>
    if cancelled then .error .cancelled
    else if fails (utf8 ".") then .error (.listing (utf8 "."))
    else
      match tree.walk q fails [] [] with
      | .going found => .ok (found.map (joinRoot root))
      | .full found => .ok (found.map (joinRoot root))
      | .failed folder => .error (.listing folder)

end ModuleDeps
