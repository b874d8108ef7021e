import ModuleDeps.Text.Basic

/-!
# Reading numbers

Whole numbers are written with an optional sign and one of the bases two,
eight, ten and sixteen, which the digits `0b`, `0o`, `0` and `0x` in front
tell apart.  Underscores may stand between digits.
-/

set_option autoImplicit false

namespace ModuleDeps.Text

inductive NumberError
  | malformed
  | outOfRange
deriving DecidableEq, Repr

def lowerAscii (b : UInt8) : UInt8 := if 0x41 ≤ b && b ≤ 0x5A then b + 0x20 else b

def digitValue? (b : UInt8) : Option Nat :=
  let c := lowerAscii b
  if isDigit c then some (c.toNat - 0x30)
  else if 0x61 ≤ c && c ≤ 0x7A then some (c.toNat - 0x57)
  else none

/-- Reads digits behind a number `n`.  The result stays below 2^64. -/
def readDigits (base : Nat) : Nat → Text → Except NumberError Nat
  | n, [] => .ok n
  | n, b :: rest =>
    if b = 0x5F then readDigits base n rest
    else
      match digitValue? b with
      | none => .error .malformed
      | some d =>
        if base ≤ d then .error .malformed
        else if 0x10000000000000000 ≤ n * base + d then .error .outOfRange
        else readDigits base (n * base + d) rest

/-- The base that the first digits announce, and the digits behind them. -/
def splitBase : Text → Nat × Text
  | 0x30 :: b :: c :: rest =>
    if lowerAscii b = 0x62 then (2, c :: rest)
    else if lowerAscii b = 0x6F then (8, c :: rest)
    else if lowerAscii b = 0x78 then (16, c :: rest)
    else (8, b :: c :: rest)
  | 0x30 :: rest => (8, rest)
  | t => (10, t)

/-- Whether every underscore stands behind a digit, which `digit` says of the
byte in front, and before one. -/
def underscoresFit (hex : Bool) : Bool → Text → Bool
  | _, [] => true
  | digit, b :: rest =>
    if b = 0x5F then
      match rest with
      | [] => false
      | c :: _ => digit && isNumeral c && underscoresFit hex false rest
    else underscoresFit hex (isNumeral b) rest
where
  isNumeral (b : UInt8) : Bool :=
    isDigit b || (hex && 0x61 ≤ lowerAscii b && lowerAscii b ≤ 0x66)

/-- The announcement of a base counts as a digit in front of an underscore. -/
def underscoresOk (t : Text) : Bool :=
  if !List.contains t 0x5F then true
  else
    match t with
    | 0x30 :: b :: rest =>
      let c := lowerAscii b
      if c = 0x62 || c = 0x6F || c = 0x78 then underscoresFit (c == 0x78) true rest
      else underscoresFit false false t
    | _ => underscoresFit false false t

def readNat (t : Text) : Except NumberError Nat :=
  if t.isEmpty then .error .malformed
  else
    let (base, digits) := splitBase t
    match readDigits base 0 digits with
    | .error e => .error e
    | .ok n => if underscoresOk t then .ok n else .error .malformed

def splitSign : Text → Bool × Text
  | 0x2B :: rest => (false, rest)
  | 0x2D :: rest => (true, rest)
  | t => (false, t)

def signed64 (negative : Bool) (size : Nat) : Except NumberError Int :=
  if negative then
    if 0x8000000000000000 < size then .error .outOfRange else .ok (-(size : Int))
  else if 0x8000000000000000 ≤ size then .error .outOfRange
  else .ok size

def readInt (t : Text) : Except NumberError Int :=
  let (negative, digits) := splitSign t
  match readNat digits with
  | .error e => .error e
  | .ok size => signed64 negative size

def readIntIn (base : Nat) (t : Text) : Except NumberError Int :=
  let (negative, digits) := splitSign t
  if digits.isEmpty then .error .malformed
  else
    match readDigits base 0 digits with
    | .error e => .error e
    | .ok size => signed64 negative size

/-! ## Binary fractions -/

/-- The fraction `n / d`, for positive numbers, to 53 binary places: a whole
number and the power of two it is multiplied with.  Halves go to the even
neighbour. -/
def nearestDouble (n d : Nat) : Nat × Int :=
  let scaled (q : Int) : Nat × Nat :=
    if 0 ≤ q then (n, d * Nat.pow 2 q.toNat) else (n * Nat.pow 2 (-q).toNat, d)
  let low : Int := (Nat.log2 n : Int) - (Nat.log2 d : Int) - 53
  let high := scaled (low + 1)
  let q := if 0x10000000000000 ≤ high.1 / high.2 then low + 1 else low
  let (num, den) := scaled q
  let whole := num / den
  let rest := num % den
  let up := den < 2 * rest || (2 * rest == den && whole % 2 == 1)
  (if up then whole + 1 else whole, q)

def wholePart (m : Nat) (q : Int) : Nat :=
  if 0 ≤ q then m * Nat.pow 2 q.toNat else m / Nat.pow 2 (-q).toNat

end ModuleDeps.Text
