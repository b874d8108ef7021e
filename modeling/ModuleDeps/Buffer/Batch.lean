import ModuleDeps.Buffer.Basic

/-!
# Edit batches

A batch is a set of insertions made at once: all positions refer to the text
before the batch, and insertions at one place keep their order.  A batch
carries the version it was made for, or zero to be applied to any version.

The insertions are carried out from the end of the text to its start, so that
the offsets still to be used stay valid.
-/

set_option autoImplicit false

namespace ModuleDeps

structure Insertion where
  place : Position
  text : Text
deriving DecidableEq, Repr

structure Batch where
  version : UInt64
  inserts : List Insertion
deriving DecidableEq, Repr

inductive ApplyError
  | stale (edit document : UInt64)
  | outOfRange (place : Position)
deriving DecidableEq, Repr

def ApplyError.message : ApplyError → Text
  | .stale edit document =>
    utf8 "document changed since the edit was computed: edit version " ++ Text.ofNat edit.toNat ++
      utf8 ", document version " ++ Text.ofNat document.toNat
  | .outOfRange place => utf8 "insert position " ++ place.render ++ utf8 " out of range"

structure Splice where
  offset : Nat
  text : Text
deriving DecidableEq, Repr

namespace Splice

def run (t : Text) (s : Splice) : Text := t.take s.offset ++ s.text ++ t.drop s.offset

def place (s : Splice) : List Splice → List Splice
  | [] => [s]
  | first :: rest => if first.offset ≤ s.offset then s :: first :: rest else first :: place s rest

/-- From the last offset to the first, and at one offset from the last given
to the first. -/
def arrange (splices : List Splice) : List Splice :=
  splices.foldl (fun arranged s => s.place arranged) []

end Splice

namespace Buffer

/-- Inserted text takes over the line ends of the buffer. -/
def withEnding (b : Buffer) (t : Text) : Text :=
  match b.ending with
  | .lf => t
  | .crlf => t.replaceByte Text.lf [Text.cr, Text.lf]

def splice (b : Buffer) (i : Insertion) : Except ApplyError Splice :=
  if i.place.line < 0 ∨ b.lineCount < i.place.line then .error (.outOfRange i.place)
  else
    match b.offset i.place with
    | .ok offset => .ok ⟨offset, b.withEnding i.text⟩
    | .error _ => .error (.outOfRange i.place)

def apply (b : Buffer) (batch : Batch) : Except ApplyError Buffer :=
  if batch.version ≠ 0 ∧ batch.version ≠ b.version then
    .error (.stale batch.version b.version)
  else if batch.inserts.isEmpty then .ok b
  else do
    let splices ← batch.inserts.mapM b.splice
    let edited := (Splice.arrange splices).foldl Splice.run b.text
    return { b with lines := edited.cutLines, version := b.version + 1 }

end Buffer

end ModuleDeps
