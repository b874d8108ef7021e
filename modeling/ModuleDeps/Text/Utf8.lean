import ModuleDeps.Text.Basic

/-!
# Characters of a byte text

A text is read as a sequence of characters: every well-formed UTF-8 sequence
is one character, and every byte that starts none is a character of its own,
which stands for U+FFFD.  The bytes of the characters, put together, give the
text back.
-/

set_option autoImplicit false

namespace ModuleDeps.Text

structure Scalar where
  code : Nat
  bytes : Text
  wellFormed : Bool
deriving DecidableEq, Repr

/-- The code point that stands for bytes outside every character. -/
def replacement : Nat := 0xFFFD

def isContinuation (b : UInt8) : Bool := 0x80 ≤ b && b ≤ 0xBF

def secondOfThree (a b : UInt8) : Bool :=
  if a = 0xE0 then 0xA0 ≤ b && b ≤ 0xBF
  else if a = 0xED then 0x80 ≤ b && b ≤ 0x9F
  else 0xE1 ≤ a && a ≤ 0xEF && isContinuation b

def secondOfFour (a b : UInt8) : Bool :=
  if a = 0xF0 then 0x90 ≤ b && b ≤ 0xBF
  else if a = 0xF4 then 0x80 ≤ b && b ≤ 0x8F
  else 0xF1 ≤ a && a ≤ 0xF3 && isContinuation b

def low6 (b : UInt8) : Nat := b.toNat % 64

/-- Code point and width of the well-formed character a text starts with. -/
def firstScalar? : Text → Option (Nat × Nat)
  | [] => none
  | a :: rest =>
    if a < 0x80 then some (a.toNat, 1)
    else
      match rest with
      | [] => none
      | b :: rest =>
        if 0xC2 ≤ a && a ≤ 0xDF && isContinuation b then
          some (a.toNat % 32 * 64 + low6 b, 2)
        else
          match rest with
          | [] => none
          | c :: rest =>
            if secondOfThree a b && isContinuation c then
              some ((a.toNat % 16 * 64 + low6 b) * 64 + low6 c, 3)
            else
              match rest with
              | [] => none
              | d :: _ =>
                if secondOfFour a b && isContinuation c && isContinuation d then
                  some (((a.toNat % 8 * 64 + low6 b) * 64 + low6 c) * 64 + low6 d, 4)
                else none

/-- The characters of a text, of whose first character `skip` bytes are
already accounted for. -/
def scalarsFrom : Nat → Text → List Scalar
  | _, [] => []
  | skip + 1, _ :: rest => scalarsFrom skip rest
  | 0, b :: rest =>
    match firstScalar? (b :: rest) with
    | some (code, width) => ⟨code, (b :: rest).take width, true⟩ :: scalarsFrom (width - 1) rest
    | none => ⟨replacement, [b], false⟩ :: scalarsFrom 0 rest

def scalars (t : Text) : List Scalar := scalarsFrom 0 t

def encode (code : Nat) : Text :=
  if code < 0x80 then [code.toUInt8]
  else if code < 0x800 then [(0xC0 + code / 64).toUInt8, (0x80 + code % 64).toUInt8]
  else if code < 0x10000 then
    [(0xE0 + code / 4096).toUInt8, (0x80 + code / 64 % 64).toUInt8, (0x80 + code % 64).toUInt8]
  else
    [(0xF0 + code / 262144).toUInt8, (0x80 + code / 4096 % 64).toUInt8,
      (0x80 + code / 64 % 64).toUInt8, (0x80 + code % 64).toUInt8]

/-- The pieces between the occurrences of `sep`; an empty separator cuts
between any two characters. -/
def splitOn (t sep : Text) : List Text :=
  if sep.isEmpty then (scalars t).map Scalar.bytes else splitFrom sep 0 [] t

end ModuleDeps.Text
