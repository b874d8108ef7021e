import ModuleDeps.Text.Basic

/-!
# Directory listings

The contents of a directory, entry by entry, with the contents of its folders
inside.  A listing is in order when the names of each folder rise in byte
order, which is the order in which a directory is walked; `add` and
`addFolder` keep that order.
-/

set_option autoImplicit false

namespace ModuleDeps

inductive Listing
  | nil
  | file (name content : Text) (rest : Listing)
  | folder (name : Text) (inner rest : Listing)
deriving DecidableEq, Repr

inductive Entry
  | file (content : Text)
  | folder (inner : Listing)
deriving DecidableEq, Repr

namespace Listing

def find? (name : Text) : Listing → Option Entry
  | .nil => none
  | .file n content rest => if n = name then some (.file content) else find? name rest
  | .folder n inner rest => if n = name then some (.folder inner) else find? name rest

def names : Listing → List Text
  | .nil => []
  | .file n _ rest => n :: names rest
  | .folder n _ rest => n :: names rest

/-- Puts an entry where its name sorts, and leaves a listing that has the name
alone. -/
def put (name : Text) (entry : Entry) : Listing → Listing
  | .nil => match entry with
    | .file content => .file name content .nil
    | .folder inner => .folder name inner .nil
  | .file n content rest =>
    if name = n then .file n content rest
    else if name.before n then match entry with
      | .file c => .file name c (.file n content rest)
      | .folder inner => .folder name inner (.file n content rest)
    else .file n content (put name entry rest)
  | .folder n inner rest =>
    if name = n then .folder n inner rest
    else if name.before n then match entry with
      | .file c => .file name c (.folder n inner rest)
      | .folder i => .folder name i (.folder n inner rest)
    else .folder n inner (put name entry rest)

def within (name : Text) (change : Listing → Listing) : Listing → Listing
  | .nil => .nil
  | .file n content rest => .file n content (within name change rest)
  | .folder n inner rest =>
    if n = name then .folder n (change inner) rest else .folder n inner (within name change rest)

def addFolder : List Text → Listing → Listing
  | [], l => l
  | name :: path, l => within name (addFolder path) (put name (.folder .nil) l)

/-- Adds a file at a path, with the folders above it.  What is there already
stays: a file in the way of a folder keeps the new file out. -/
def add (content : Text) : List Text → Listing → Listing
  | [], l => l
  | [name], l => put name (.file content) l
  | name :: path, l => within name (add content path) (put name (.folder .nil) l)

def setFile (content : Text) : List Text → Listing → Listing
  | _, .nil => .nil
  | path, .file n old rest =>
    if path = [n] then .file n content rest else .file n old (setFile content path rest)
  | path, .folder n inner rest =>
    match path with
    | [] => .folder n inner rest
    | name :: below =>
      if n = name then .folder n (setFile content below inner) rest
      else .folder n inner (setFile content path rest)

/-- All files with their paths, in the order of a walk. -/
def files : List Text → Listing → List (List Text × Text)
  | _, .nil => []
  | above, .file n content rest => (above ++ [n], content) :: files above rest
  | above, .folder n inner rest => files (above ++ [n]) inner ++ files above rest

end Listing

end ModuleDeps
