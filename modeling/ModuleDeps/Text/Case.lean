import ModuleDeps.Text.Utf8
import ModuleDeps.Text.CaseTable

/-!
# Letter case

Lower-casing maps every character to its simple small letter.  It may change
the number of bytes: the Kelvin sign takes three bytes and its small letter
`k` one, and a byte outside every character becomes the three bytes of U+FFFD.

Two texts are equal up to case when their characters are, one by one, in the
same simple folding class.
-/

set_option autoImplicit false

namespace ModuleDeps.Text

/-! ## Characters -/

def inLowerRow (code : Nat) (row : Nat × Nat × Int × Nat) : Bool :=
  row.1 ≤ code && code ≤ row.2.1 && (code - row.1) % row.2.2.2 == 0

def lowerCode (code : Nat) : Nat :=
  if code < 0x80 then
    if 0x41 ≤ code && code ≤ 0x5A then code + 0x20 else code
  else
    match lowerRows.find? (inLowerRow code) with
    | some row => (code + row.2.2.1).toNat
    | none => code

/-- The representative of a folding class.  The dotted capital I is in no
class but its own. -/
def foldCode (code : Nat) : Nat :=
  if code = 0x130 then code
  else if code < 0x80 then lowerCode code
  else
    match foldRows.find? (·.1 == code) with
    | some row => row.2
    | none => lowerCode code

/-! ## Texts -/

def lower (t : Text) : Text := (scalars t).flatMap fun s => encode (lowerCode s.code)

def folded (t : Text) : List Nat := (scalars t).map fun s => foldCode s.code

def equalFold (s t : Text) : Bool := folded s == folded t

end ModuleDeps.Text
