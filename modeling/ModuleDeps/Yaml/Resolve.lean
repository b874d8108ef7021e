import ModuleDeps.Text.Number
import ModuleDeps.Yaml.Timestamp

/-!
# Values of scalars

A scalar without quotes and without a tag may read as null, as a truth value,
as a number or as a point in time.  A tag has to agree with what the scalar
reads as.
-/

set_option autoImplicit false

namespace ModuleDeps.Yaml

inductive Value
  | null
  | bool (b : Bool)
  | int (n : Int)
  /-- A number with a fraction: its whole part as a 64-bit number, where one is
  given. -/
  | float (whole : Option Int)
  /-- A point in time, as it is written. -/
  | time (t : Text)
  | text (t : Text)
deriving DecidableEq, Repr

def Value.tag : Value → Text
  | .null => utf8 "!!null"
  | .bool _ => utf8 "!!bool"
  | .int _ => utf8 "!!int"
  | .float _ => utf8 "!!float"
  | .time _ => utf8 "!!timestamp"
  | .text _ => utf8 "!!str"

/-! ## Numbers -/

/-- The least 64-bit number stands for all whole parts that have no place in
64 bits, except those above the greatest, which stand for nothing. -/
def leastInt64 : Int := -0x8000000000000000

def wholeOf (negative : Bool) (size : Nat) : Option Int :=
  if negative then some (if 0x8000000000000000 < size then leastInt64 else -(size : Int))
  else if 0x8000000000000000 < size then none
  else if size = 0x8000000000000000 then some leastInt64
  else some size

/-- The value of digits times a power of ten; nothing when it is too large. -/
def decimalValue (negative : Bool) (digits : Nat) (exponent : Int) : Option Value :=
  let magnitude := exponent + ((Nat.toDigits 10 digits).length : Int)
  if digits = 0 ∨ magnitude < -400 then some (.float (some 0))
  else if 400 < magnitude then none
  else
    let (num, den) :=
      if 0 ≤ exponent then (digits * Nat.pow 10 exponent.toNat, 1)
      else (digits, Nat.pow 10 (-exponent).toNat)
    let (m, q) := Text.nearestDouble num den
    let size := Text.wholePart m q
    if Nat.pow 2 1024 ≤ size then none else some (.float (wholeOf negative size))

def natOf (digits : Text) : Nat := digits.foldl (fun n d => n * 10 + (d.toNat - 0x30)) 0

def readExponent : Text → Option Int
  | [] => some 0
  | b :: rest =>
    if b = 0x65 ∨ b = 0x45 then
      let (negative, digits) := Text.splitSign rest
      if digits.isEmpty ∨ !digits.all Text.isDigit then none
      else
        let size := natOf ((digits.dropWhile (· == 0x30)).take 10)
        some (if negative then -(size : Int) else size)
    else none

/-- A decimal number: a sign, digits with a point among them or in front, and
an exponent. -/
def readDecimal (t : Text) : Option Value := do
  let (negative, t) := Text.splitSign t
  let whole := t.takeWhile Text.isDigit
  let rest := t.dropWhile Text.isDigit
  let (fraction, rest, pointed) : Text × Text × Bool :=
    match rest with
    | 0x2E :: more => (more.takeWhile Text.isDigit, more.dropWhile Text.isDigit, true)
    | _ => ([], rest, false)
  if whole.isEmpty ∧ (!pointed ∨ fraction.isEmpty) then none
  else
    let exponent ← readExponent rest
    decimalValue negative (natOf (whole ++ fraction)) (exponent - fraction.length)

/-- A whole number: with a base announced, or in base two or eight with the
sign behind the announcement. -/
def readWhole (t : Text) : Option Int :=
  match Text.readInt t with
  | .ok n => some n
  | .error _ =>
    match Text.readNat (Text.dropLead (utf8 "+") t) with
    | .ok n => if t.startsWith (utf8 "+") then none else some n
    | .error _ => none

def readMarkedBase (t : Text) : Option Int :=
  if t.startsWith (utf8 "0b") then (Text.readIntIn 2 (t.drop 2)).toOption
  else if t.startsWith (utf8 "-0b") then (Text.readIntIn 2 (utf8 "-" ++ t.drop 3)).toOption
  else if t.startsWith (utf8 "0o") then (Text.readIntIn 8 (t.drop 2)).toOption
  else if t.startsWith (utf8 "-0o") then (Text.readIntIn 8 (utf8 "-" ++ t.drop 3)).toOption
  else none

/-- Underscores in a number count for nothing. -/
def readNumeral (t : Text) : Option Value :=
  let digits := t.filter (· != 0x5F)
  match readWhole digits with
  | some n => some (.int n)
  | none =>
    match readDecimal digits with
    | some v => some v
    | none => (readMarkedBase digits).map .int

/-- Whether every underscore stands between two digits. -/
def separates : Bool → Text → Bool
  | _, [] => true
  | afterDigit, b :: rest =>
    if b = 0x5F then afterDigit && (rest.head?.map Text.isDigit).getD false && separates false rest
    else separates (Text.isDigit b) rest

/-- A number that starts with its point, in which underscores may separate
digits. -/
def readPointed (t : Text) : Option Value :=
  if separates false t then readDecimal (t.filter (· != 0x5F)) else none

/-! ## Scalars -/

def wordValues : List (List String × Value) := [
  (["", "~", "null", "Null", "NULL"], .null),
  (["true", "True", "TRUE"], .bool true),
  (["false", "False", "FALSE"], .bool false),
  ([".nan", ".NaN", ".NAN", ".inf", ".Inf", ".INF", "+.inf", "+.Inf", "+.INF"], .float none),
  (["-.inf", "-.Inf", "-.INF"], .float (some leastInt64))]

def plainValue (t : Text) : Value :=
  match wordValues.find? fun row => row.1.any fun w => utf8 w == t with
  | some row => row.2
  | none =>
    match t with
    | [] => .null
    | b :: _ =>
      if b = 0x2E then (readPointed t).getD (.text t)
      else if isTimestamp t then .time t
      else if Text.isDigit b ∨ b = 0x2B ∨ b = 0x2D then (readNumeral t).getD (.text t)
      else .text t

/-! ## Encoded bytes -/

def base64Value? (b : UInt8) : Option Nat :=
  if 0x41 ≤ b && b ≤ 0x5A then some (b.toNat - 0x41)
  else if 0x61 ≤ b && b ≤ 0x7A then some (b.toNat - 0x47)
  else if Text.isDigit b then some (b.toNat + 4)
  else if b = 0x2B then some 62
  else if b = 0x2F then some 63
  else none

def base64Bytes : Text → Option Text
  | [] => some []
  | [a, b, 0x3D, 0x3D] => do
    let n := (← base64Value? a) * 64 + (← base64Value? b)
    return [(n / 16).toUInt8]
  | [a, b, c, 0x3D] => do
    let n := ((← base64Value? a) * 64 + (← base64Value? b)) * 64 + (← base64Value? c)
    return [(n / 1024).toUInt8, (n / 4 % 256).toUInt8]
  | a :: b :: c :: d :: rest => do
    let n := (((← base64Value? a) * 64 + (← base64Value? b)) * 64 + (← base64Value? c)) * 64 +
      (← base64Value? d)
    return [(n / 65536).toUInt8, (n / 256 % 256).toUInt8, (n % 256).toUInt8] ++
      (← base64Bytes rest)
  | _ => none

def kindTags : List Text :=
  [utf8 "!!null", utf8 "!!bool", utf8 "!!int", utf8 "!!float", utf8 "!!timestamp"]

/-- The value of a scalar; nothing when its tag asks for a value of another
kind.  A scalar with a tag that asks for no kind is a text. -/
def scalarValue (tag : Text) (plain : Bool) (t : Text) : Option Value :=
  if tag = utf8 "!!binary" then
    (base64Bytes (t.filter fun b => b != Text.cr && b != Text.lf)).map .text
  else if tag.isEmpty then some (if plain then plainValue t else .text t)
  else if !kindTags.contains tag then some (.text t)
  else
    match plainValue t with
    | .int n => if tag = utf8 "!!int" then some (.int n)
      else if tag = utf8 "!!float" ∧ n < 0x8000000000000000 then decimalValue (n < 0) n.natAbs 0
      else none
    | v => if tag = v.tag then some v else none

def scalarTag (tag : Text) (plain : Bool) (t : Text) : Text :=
  if !tag.isEmpty then tag
  else if !plain then utf8 "!!str"
  else if t = utf8 "<<" then utf8 "!!merge"
  else (plainValue t).tag

end ModuleDeps.Yaml
