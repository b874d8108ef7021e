import ModuleDeps.Block.Comment
import ModuleDeps.Text.Blank
import ModuleDeps.Text.Utf8

/-!
# Entries of a list

A list is cut into its entries line by line and then at the separator.  Blank
pieces and pieces of comments are no entries; an entry keeps the white space
around it, from which the indentation of a further entry is taken.
-/

set_option autoImplicit false

namespace ModuleDeps

def isComment (t : Text) : Bool := t.trim.startsWith lineComment

def isEntry (piece : Text) : Bool := !piece.isBlank && !isComment piece

/-- The entries of one line.  A line that is all comment is cut like any
other. -/
def lineEntries (sep line : Text) : List Text :=
  let code := if isComment line then line else stripComment line
  (code.splitOn sep).filter isEntry

def splitEntries (t sep : Text) : List Text := (t.splitAt Text.lf).flatMap (lineEntries sep)

/-- The white space in front of the first entry that is no comment, without
line ends. -/
def filler : List Text → Text
  | [] => []
  | entry :: rest =>
    if isComment entry then filler rest
    else
      match Text.indexOf? entry.trim entry with
      | some i => (entry.take i).filter fun b => b != Text.cr && b != Text.lf
      | none => []

end ModuleDeps
