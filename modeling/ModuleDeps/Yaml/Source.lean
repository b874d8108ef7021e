import ModuleDeps.Text.Utf8

/-!
# Streams of characters

A YAML text is read as UTF-8, or as UTF-16 when its byte order mark says so.
Its bytes are taken in load by load.  A load that holds anything but allowed
characters cannot be read, and neither can a text that ends inside of one; the
loads in front of such a place can.
-/

set_option autoImplicit false

namespace ModuleDeps.Yaml

abbrev Codes := List Nat

def byteOrderMark : Nat := 0xFEFF

def isAllowed (c : Nat) : Bool :=
  c == 0x09 || c == 0x0A || c == 0x0D || (0x20 ≤ c && c ≤ 0x7E) || c == 0x85 ||
    (0xA0 ≤ c && c ≤ 0xD7FF) || (0xE000 ≤ c && c ≤ 0xFFFD) ||
    (0x10000 ≤ c && c ≤ 0x10FFFF)

/-! ## Encodings -/

inductive Encoding
  | utf8
  | utf16 (bigEndian : Bool)
deriving DecidableEq, Repr

/-- The encoding of a text and the width of its byte order mark. -/
def Encoding.ofText : Text → Encoding × Nat
  | 0xFF :: 0xFE :: _ => (.utf16 false, 2)
  | 0xFE :: 0xFF :: _ => (.utf16 true, 2)
  | 0xEF :: 0xBB :: 0xBF :: _ => (.utf8, 3)
  | _ => (.utf8, 0)

/-- What bytes start with: a character and its width, the beginning of one, or
neither. -/
inductive Lead
  | char (code width : Nat)
  | cut
  | invalid
deriving DecidableEq, Repr

/-- The width that the first byte of a character announces, zero if it is no
such byte. -/
def leadWidth (b : UInt8) : Nat :=
  if b < 0x80 then 1
  else if b < 0xC0 then 0
  else if b < 0xE0 then 2
  else if b < 0xF0 then 3
  else if b < 0xF8 then 4
  else 0

def leadUtf8 : Text → Lead
  | [] => .cut
  | b :: rest =>
    let width := leadWidth b
    if width = 0 then .invalid
    else if ((b :: rest).drop (width - 1)).isEmpty then .cut
    else
      match Text.firstScalar? (b :: rest) with
      | some (code, _) => .char code width
      | none => .invalid

def unit16 (bigEndian : Bool) (a b : UInt8) : Nat :=
  if bigEndian then a.toNat * 256 + b.toNat else b.toNat * 256 + a.toNat

def isHighSurrogate (u : Nat) : Bool := 0xD800 ≤ u && u ≤ 0xDBFF

def isLowSurrogate (u : Nat) : Bool := 0xDC00 ≤ u && u ≤ 0xDFFF

def leadUtf16 (bigEndian : Bool) : Text → Lead
  | a :: b :: rest =>
    let u := unit16 bigEndian a b
    if isLowSurrogate u then .invalid
    else if isHighSurrogate u then
      match rest with
      | c :: d :: _ =>
        let v := unit16 bigEndian c d
        if isLowSurrogate v then .char (0x10000 + (u - 0xD800) * 0x400 + (v - 0xDC00)) 4
        else .invalid
      | _ => .cut
    else .char u 2
  | _ => .cut

def Encoding.lead : Encoding → Text → Lead
  | .utf8 => leadUtf8
  | .utf16 bigEndian => leadUtf16 bigEndian

/-- The characters of a load, and the bytes at its end that are part of one
only.  `done` holds the characters so far, the last first. -/
def Encoding.decode (e : Encoding) : Nat → Codes → Text → Option (Codes × Text)
  | 0, done, rest => some (done.reverse, rest)
  | _ + 1, done, [] => some (done.reverse, [])
  | fuel + 1, done, b :: rest =>
    match e.lead (b :: rest) with
    | .char code width =>
      if isAllowed code then e.decode fuel (code :: done) ((b :: rest).drop width) else none
    | .cut => some (done.reverse, b :: rest)
    | .invalid => none

/-! ## Loads -/

structure Source where
  loads : List Codes
  /-- Whether what follows the loads cannot be read. -/
  broken : Bool
deriving DecidableEq, Repr

def loadSize : Nat := 512

/-- The loads of a text, the first of `size` bytes.  The bytes of a character
that a load cuts off count for the next one. -/
def Encoding.loads (e : Encoding) : Nat → Nat → Text → Source
  | 0, _, _ => ⟨[], false⟩
  | fuel + 1, size, bytes =>
    if bytes.isEmpty then ⟨[], false⟩
    else
      match e.decode size [] (bytes.take size) with
      | none => ⟨[], true⟩
      | some ([], _) => ⟨[], true⟩
      | some (codes, cut) =>
        let more := e.loads fuel loadSize (cut ++ bytes.drop size)
        { more with loads := codes :: more.loads }

namespace Source

/-- The byte order mark counts for the first load but is no character. -/
def ofText (t : Text) : Source :=
  let (e, width) := Encoding.ofText t
  e.loads (t.length + 1) (loadSize - width) (t.drop width)

def size (s : Source) : Nat := s.loads.foldl (fun n codes => n + codes.length) 0

end Source

end ModuleDeps.Yaml
