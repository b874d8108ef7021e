import ModuleDeps.Diff.Script

/-!
# Unified differences

The edits of a text are printed in hunks with up to three lines of context
around them.  Edits that lie no more than two contexts apart share a hunk.
-/

set_option autoImplicit false

namespace ModuleDeps.Diff

def context : Nat := 3

inductive Mark
  | kept
  | deleted
  | inserted
deriving DecidableEq, Repr

structure Hunk where
  oldLine : Nat
  newLine : Int
  lines : List (Mark × Text) := []
deriving DecidableEq, Repr

/-! ## Edits of whole lines -/

def joinEdits : Edit → List Edit → List Edit
  | current, [] => [current]
  | current, e :: rest =>
    if e.start ≤ current.stop then
      joinEdits { current with stop := e.stop, inserted := current.inserted ++ e.inserted } rest
    else current :: joinEdits e rest

/-- Behind the last line nothing can be told apart from an edit of that line,
so an edit there is joined with what it touches, and so are all others. -/
def prepare (size : Nat) (edits : List Edit) : List Edit :=
  match edits with
  | [] => []
  | first :: rest =>
    if edits.any fun e => size ≤ e.start then joinEdits first rest else edits

/-! ## Hunks -/

/-- The lines kept from `start` up to `stop`, as far as there are any. -/
def kept (lines : List Text) (start stop : Nat) : List (Mark × Text) :=
  ((lines.take stop).drop start).map fun line => (.kept, line)

def editLines (lines : List Text) (e : Edit) : List (Mark × Text) :=
  (((lines.take e.stop).drop e.start).map fun line => (.deleted, line)) ++
    e.inserted.map fun line => (.inserted, line)

/-- The hunks of edits behind a pending hunk.  `last` is the number of old lines
passed, and `shown` the number of new lines counted so far. -/
def hunks (lines : List Text) : Option Hunk → Nat → Nat → List Edit → List Hunk
  | none, _, _, [] => []
  | some h, last, _, [] => [{ h with lines := h.lines ++ kept lines last (last + context) }]
  | pending, last, shown, e :: rest =>
    let added := e.inserted.length
    match pending with
    | some h =>
      if e.start ≤ last + 2 * context then
        let h := { h with lines := h.lines ++ kept lines last e.start ++ editLines lines e }
        hunks lines (some h) e.stop (shown + added) rest
      else
        let h := { h with lines := h.lines ++ kept lines last (last + context) }
        let shown := shown + (e.start - last)
        h :: hunks lines (some (start shown e)) e.stop (shown + added) rest
    | none =>
      let shown := shown + (e.start - last)
      hunks lines (some (start shown e)) e.stop (shown + added) rest
where
  /-- A new hunk with the context in front of its first edit. -/
  start (shown : Nat) (e : Edit) : Hunk :=
    let above := kept lines (e.start - context) e.start
    { oldLine := e.start + 1 - above.length
      newLine := (shown : Int) + 1 - above.length
      lines := above ++ editLines lines e }

/-! ## Printing -/

def Mark.sign : Mark → Text
  | .kept => utf8 " "
  | .deleted => utf8 "-"
  | .inserted => utf8 "+"

def printLine (row : Mark × Text) : Text :=
  let text := row.1.sign ++ row.2
  if row.2.endsWith [Text.lf] then text else text ++ utf8 "\n\\ No newline at end of file\n"

/-- A range of lines; a count of one or none is left out. -/
def printRange (sign : String) (line : Int) (count : Nat) : Text :=
  utf8 sign ++ Text.ofInt line ++ (if 1 < count then utf8 "," ++ Text.ofNat count else [])

def Hunk.print (h : Hunk) : Text :=
  let oldCount := h.lines.countP fun row => row.1 != .inserted
  let newCount := h.lines.countP fun row => row.1 != .deleted
  utf8 "@@" ++ printRange " -" h.oldLine oldCount ++ printRange " +" h.newLine newCount ++
    utf8 " @@\n" ++ h.lines.flatMap printLine

def unified (path old new : Text) : Text :=
  let lines := linesOf old
  match hunks lines none 0 0 (prepare lines.length (script lines (linesOf new))) with
  | [] => []
  | found =>
    utf8 "--- " ++ path ++ utf8 "\n+++ " ++ path ++ [Text.lf] ++ found.flatMap Hunk.print

end ModuleDeps.Diff
