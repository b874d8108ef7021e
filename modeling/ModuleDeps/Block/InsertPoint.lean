import ModuleDeps.Block.Comment
import ModuleDeps.Buffer.Basic
import ModuleDeps.Text.Blank

/-!
# Where a list can be continued

From the closing delimiter of a list the search for the end of its last entry
goes backwards over blank text, and stops in front of a line that holds a
comment.  Whether the list already ends with a comma is known once a step back
was made; otherwise it is read off the code in front of the point.
-/

set_option autoImplicit false

namespace ModuleDeps

inductive CommaState
  | unknown
  | present
  | absent
deriving DecidableEq, Repr

def CommaState.name : CommaState → Text
  | .unknown => utf8 "unknown"
  | .present => utf8 "present"
  | .absent => utf8 "absent"

def endsWithComma (t : Text) : Bool := t.endsWith [Text.comma]

def cutAt (line : Text) (column : Int) : Text := line.take column.toNat

namespace Buffer

def lineBefore (b : Buffer) (p : Position) : Text := cutAt (b.line p.line) p.column

/-- The steps back from a point `p` on line `n` with only blanks in front. -/
def walkUp (b : Buffer) : Nat → Position → CommaState → Position × CommaState
  | 0, p, state => (p, state)
  | n + 1, p, _ =>
    let previous := b.line n
    if previous.contains lineComment then (p, .unknown)
    else
      let point : Position := ⟨n, previous.length⟩
      let comma := if endsWithComma previous.trim then .present else .absent
      if previous.isBlank then walkUp b n point comma else (point, comma)

def lastMeaningful (b : Buffer) (p : Position) : Position × CommaState :=
  if (b.lineBefore p).isBlank then b.walkUp p.line.toNat p .unknown else (p, .unknown)

/-- Whether the nearest code on the lines in front of line `n` ends with a
comma. -/
def commaAbove (b : Buffer) : Nat → Bool
  | 0 => false
  | n + 1 =>
    let code := (stripComment (b.line n)).trim
    if code.isEmpty then commaAbove b n else endsWithComma code

def resolveComma (b : Buffer) (p : Position) : CommaState → Bool
  | .present => true
  | .absent => false
  | .unknown =>
    if p.line < 0 then false
    else
      let code := (stripComment (b.lineBefore p)).trim
      if code.isEmpty then b.commaAbove p.line.toNat else endsWithComma code

def isLineBlank (b : UInt8) : Bool := b == Text.space || b == Text.tab || b == Text.cr

/-- The insert point on the nearest line of code in front of line `n`: behind
a comma it is the end of the line, so that a comment stays with its entry, and
otherwise it is the end of the code.  Without code it is `p`. -/
def settleAbove (b : Buffer) (p : Position) : Nat → Position × Bool
  | 0 => (p, false)
  | n + 1 =>
    let line := b.line n
    let code := (stripComment line).trimEndWhere isLineBlank
    if code.isBlank then settleAbove b p n
    else if endsWithComma code then (⟨n, line.length⟩, true)
    else (⟨n, code.length⟩, false)

def settleInsert (b : Buffer) (p : Position) : Position × Bool :=
  if (b.lineBefore p).isBlank then b.settleAbove p p.line.toNat
  else (p, b.resolveComma p .unknown)

end Buffer

end ModuleDeps
