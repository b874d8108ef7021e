import ModuleDeps.Text.Utf8
import ModuleDeps.Text.GraphicTable

/-!
# Quoted texts

The form in which a text appears inside a message: graphic characters stand
for themselves, everything else is escaped, so that the message stays on one
line and shows bytes outside every character.
-/

set_option autoImplicit false

namespace ModuleDeps.Text

def isGraphic (code : Nat) : Bool :=
  if code < 0x80 then 0x20 ≤ code && code ≤ 0x7E
  else graphicRows.any fun row => row.1 ≤ code && code ≤ row.2

def hexDigit (n : Nat) : UInt8 := (if n < 10 then 0x30 + n else 0x57 + n).toUInt8

/-- The last `width` hexadecimal digits of a number. -/
def hexDigits : Nat → Nat → Text
  | 0, _ => []
  | width + 1, n => hexDigits width (n / 16) ++ [hexDigit (n % 16)]

def shortEscape? (code : Nat) : Option UInt8 :=
  match code with
  | 0x07 => some 0x61
  | 0x08 => some 0x62
  | 0x09 => some 0x74
  | 0x0A => some 0x6E
  | 0x0B => some 0x76
  | 0x0C => some 0x66
  | 0x0D => some 0x72
  | _ => none

/-- One character between quotes `mark`. -/
def escapeScalar (mark : UInt8) (s : Scalar) : Text :=
  if !s.wellFormed then utf8 "\\x" ++ s.bytes.flatMap fun b => hexDigits 2 b.toNat
  else if s.code = mark.toNat || s.code = backslash.toNat then backslash :: s.bytes
  else if isGraphic s.code then s.bytes
  else
    match shortEscape? s.code with
    | some letter => [backslash, letter]
    | none =>
      if s.code < 0x20 || s.code = 0x7F then utf8 "\\x" ++ hexDigits 2 s.code
      else if s.code < 0x10000 then utf8 "\\u" ++ hexDigits 4 s.code
      else utf8 "\\U" ++ hexDigits 8 s.code

def quotedWith (mark : UInt8) (t : Text) : Text :=
  mark :: (scalars t).flatMap (escapeScalar mark) ++ [mark]

def quoted (t : Text) : Text := quotedWith dquote t

end ModuleDeps.Text
