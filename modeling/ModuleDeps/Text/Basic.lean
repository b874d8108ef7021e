/-!
# Byte texts

File contents, paths and messages are byte strings: a file need not be valid
UTF-8, and every column is a byte offset.  A text is a list of bytes, so all
operations below are structural recursions on that list.
-/

set_option autoImplicit false

namespace ModuleDeps

abbrev Text := List UInt8

def utf8 (s : String) : Text := s.toList.flatMap String.utf8EncodeChar

namespace Text

/-! ## Bytes with a name -/

abbrev tab : UInt8 := 0x09
abbrev lf : UInt8 := 0x0A
abbrev cr : UInt8 := 0x0D
abbrev space : UInt8 := 0x20
abbrev dquote : UInt8 := 0x22
abbrev dollar : UInt8 := 0x24
abbrev squote : UInt8 := 0x27
abbrev star : UInt8 := 0x2A
abbrev comma : UInt8 := 0x2C
abbrev dash : UInt8 := 0x2D
abbrev dot : UInt8 := 0x2E
abbrev slash : UInt8 := 0x2F
abbrev backslash : UInt8 := 0x5C
abbrev backquote : UInt8 := 0x60

def isDigit (b : UInt8) : Bool := 0x30 ≤ b && b ≤ 0x39

def isLetter (b : UInt8) : Bool := (0x41 ≤ b && b ≤ 0x5A) || (0x61 ≤ b && b ≤ 0x7A)

/-- Bytes of a word: letters, digits and the underscore. -/
def isWord (b : UInt8) : Bool := isLetter b || isDigit b || b == 0x5F

/-! ## Searching -/

def startsWith (t lead : Text) : Bool := lead.isPrefixOf t

def endsWith (t tail : Text) : Bool := tail.isSuffixOf t

def indexOf? (needle : Text) : Text → Option Nat
  | [] => if needle.isEmpty then some 0 else none
  | b :: rest =>
    if needle.isPrefixOf (b :: rest) then some 0
    else (indexOf? needle rest).map (· + 1)

def contains (t needle : Text) : Bool := (indexOf? needle t).isSome

def lastIndexOf? (b : UInt8) : Text → Option Nat
  | [] => none
  | c :: rest =>
    match lastIndexOf? b rest with
    | some i => some (i + 1)
    | none => if c = b then some 0 else none

/-! ## Cutting and joining -/

/-- The pieces between the occurrences of a byte; there is always at least one. -/
def splitAt (sep : UInt8) : Text → List Text
  | [] => [[]]
  | b :: rest =>
    if b = sep then [] :: splitAt sep rest
    else
      match splitAt sep rest with
      | [] => [[b]]
      | piece :: more => (b :: piece) :: more

/-- The pieces between the occurrences of a non-empty separator, taken from
the left without overlap.  `skip` bytes of a separator are still to be passed
and `piece` holds the current piece backwards. -/
def splitFrom (sep : Text) : Nat → Text → Text → List Text
  | _, piece, [] => [piece.reverse]
  | skip + 1, piece, _ :: rest => splitFrom sep skip piece rest
  | 0, piece, b :: rest =>
    if sep.isPrefixOf (b :: rest) then piece.reverse :: splitFrom sep (sep.length - 1) [] rest
    else splitFrom sep 0 (b :: piece) rest

def joinWith (sep : Text) (pieces : List Text) : Text := sep.intercalate pieces

def replaceByte (t : Text) (old : UInt8) (new : Text) : Text :=
  t.flatMap fun b => if b = old then new else [b]

def dropLead (lead t : Text) : Text :=
  if t.startsWith lead then t.drop lead.length else t

def dropTail (tail t : Text) : Text :=
  if t.endsWith tail then t.take (t.length - tail.length) else t

/-- Removes the bytes satisfying `p` from both ends. -/
def trimWhere (p : UInt8 → Bool) (t : Text) : Text :=
  ((t.dropWhile p).reverse.dropWhile p).reverse

def trimEndWhere (p : UInt8 → Bool) (t : Text) : Text :=
  (t.reverse.dropWhile p).reverse

/-! ## Order -/

/-- Byte order; a proper beginning sorts first. -/
def before : Text → Text → Bool
  | _, [] => false
  | [], _ :: _ => true
  | a :: s, b :: t => a < b || (a == b && before s t)

/-! ## Numbers -/

def ofNat (n : Nat) : Text := (Nat.toDigits 10 n).flatMap String.utf8EncodeChar

def ofInt : Int → Text
  | .ofNat n => ofNat n
  | .negSucc n => dash :: ofNat (n + 1)

end Text

end ModuleDeps
