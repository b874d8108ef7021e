import ModuleDeps.Buffer.Position

/-!
# Line-addressed buffers

A buffer holds the lines of a document without their line ends, the line end
used to put them together again, and a version that changes with every edit.
A document with at least one CRLF is rendered with CRLF throughout.

Looking at a place outside of every text, one on a negative line, is refused
with `OutOfRange`; all other positions are moved to the nearest place of the
text.
-/

set_option autoImplicit false

namespace ModuleDeps

inductive LineEnding
  | lf
  | crlf
deriving DecidableEq, Repr

def LineEnding.bytes : LineEnding → Text
  | .lf => [Text.lf]
  | .crlf => [Text.cr, Text.lf]

/-- The refusal of a place that lies in no text. -/
inductive OutOfRange
  | mk
deriving DecidableEq, Repr

namespace Text

def dropCr (t : Text) : Text := if t.getLast? = some cr then t.dropLast else t

/-- The lines of a text, each without its line feed and one carriage return in
front of it. -/
def cutLines (t : Text) : List Text := (t.splitAt lf).map dropCr

def slice (t : Text) (start stop : Nat) : Except OutOfRange Text :=
  if start ≤ stop ∧ stop ≤ t.length then .ok ((t.take stop).drop start) else .error .mk

end Text

structure Buffer where
  lines : List Text
  ending : LineEnding
  version : UInt64
deriving DecidableEq, Repr

namespace Buffer

def ofText (t : Text) : Buffer where
  lines := t.cutLines
  ending := if t.contains [Text.cr, Text.lf] then .crlf else .lf
  version := 1

def text (b : Buffer) : Text := Text.joinWith b.ending.bytes b.lines

def lineCount (b : Buffer) : Nat := b.lines.length

def line (b : Buffer) (i : Int) : Text := if i < 0 then [] else b.lines.getD i.toNat []

/-- The number of bytes in front of a column of a line, when the lines are put
together with line ends of `width` bytes.  The column is moved into its line,
and a line past the last one means the end of the text. -/
def offsetIn (width : Nat) : List Text → Nat → Int → Nat
  | [], _, _ => 0
  | [l], 0, column => min column.toNat l.length
  | [l], _ + 1, _ => l.length
  | l :: _ :: _, 0, column => min column.toNat l.length
  | l :: l' :: rest, n + 1, column => l.length + width + offsetIn width (l' :: rest) n column

def offset (b : Buffer) (p : Position) : Except OutOfRange Nat :=
  if p.line < 0 then .error .mk
  else .ok (offsetIn b.ending.bytes.length b.lines p.line.toNat p.column)

/-- The text between two positions, in whichever order they are given. -/
def textRange (b : Buffer) (p q : Position) : Except OutOfRange Text := do
  let (start, stop) := if q.Before p then (q, p) else (p, q)
  b.text.slice (← b.offset start) (← b.offset stop)

end Buffer

end ModuleDeps
