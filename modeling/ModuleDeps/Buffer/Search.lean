import ModuleDeps.Buffer.Basic

/-!
# Searching a buffer

An occurrence lies within one line.  The starting column counts on the
starting line only; the lines after it are looked at from their start.
-/

set_option autoImplicit false

namespace ModuleDeps.Buffer

/-- The first occurrence in lines numbered from `n` on, the first of them
looked at from `column` on. -/
def searchLines (needle : Text) : List Text → Nat → Int → Except OutOfRange (Option Position)
  | [], _, _ => .ok none
  | l :: rest, n, column =>
    if l.length < column then searchLines needle rest (n + 1) 0
    else if column < 0 then .error .mk
    else
      match Text.indexOf? needle (l.drop column.toNat) with
      | some i => .ok (some ⟨n, column + i⟩)
      | none => searchLines needle rest (n + 1) 0

/-- The first occurrence at or after `start`.  Lines with a negative number
are empty, so they hold the empty text only. -/
def search (b : Buffer) (needle : Text) (start : Position) : Except OutOfRange (Option Position) :=
  if 0 ≤ start.line then
    searchLines needle (b.lines.drop start.line.toNat) start.line.toNat start.column
  else if start.column < 0 then .error .mk
  else if needle.isEmpty then
    .ok (some ⟨if start.column = 0 then start.line else start.line + 1, 0⟩)
  else searchLines needle b.lines 0 0

end ModuleDeps.Buffer
