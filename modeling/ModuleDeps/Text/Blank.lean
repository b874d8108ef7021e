import ModuleDeps.Text.Basic

/-!
# White space

The white space of a text is that of the Unicode property `White_Space`.  Its
characters are written with one, two or three bytes, so both ends of a text
are trimmed by looking at up to three bytes at a time; trimming the end is
trimming the start of the reversed text with the byte patterns reversed.
-/

set_option autoImplicit false

namespace ModuleDeps.Text

/-! ## The characters -/

/-- Tab, line feed, vertical tab, form feed, carriage return and space. -/
def isBlank1 (a : UInt8) : Bool := (0x09 ≤ a && a ≤ 0x0D) || a == 0x20

/-- U+0085 and U+00A0. -/
def isBlank2 (a b : UInt8) : Bool := a == 0xC2 && (b == 0x85 || b == 0xA0)

/-- U+1680, U+2000 to U+200A, U+2028, U+2029, U+202F, U+205F and U+3000. -/
def isBlank3 (a b c : UInt8) : Bool :=
  (a == 0xE1 && b == 0x9A && c == 0x80) ||
  (a == 0xE2 && b == 0x80 && ((0x80 ≤ c && c ≤ 0x8A) || c == 0xA8 || c == 0xA9 || c == 0xAF)) ||
  (a == 0xE2 && b == 0x81 && c == 0x9F) ||
  (a == 0xE3 && b == 0x80 && c == 0x80)

/-! ## Trimming -/

/-- Drops, as long as possible, one byte in `one`, two bytes in `two` or three
bytes in `three` from the start. -/
def dropRuns (one : UInt8 → Bool) (two : UInt8 → UInt8 → Bool)
    (three : UInt8 → UInt8 → UInt8 → Bool) : Text → Text
  | [] => []
  | a :: rest =>
    if one a then dropRuns one two three rest
    else
      match rest with
      | [] => [a]
      | b :: rest =>
        if two a b then dropRuns one two three rest
        else
          match rest with
          | [] => [a, b]
          | c :: rest =>
            if three a b c then dropRuns one two three rest
            else a :: b :: c :: rest

def trimStart (t : Text) : Text := dropRuns isBlank1 isBlank2 isBlank3 t

def trimEnd (t : Text) : Text :=
  (dropRuns isBlank1 (fun b a => isBlank2 a b) (fun c b a => isBlank3 a b c) t.reverse).reverse

def trim (t : Text) : Text := trimEnd (trimStart t)

def isBlank (t : Text) : Bool := (trim t).isEmpty

end ModuleDeps.Text
