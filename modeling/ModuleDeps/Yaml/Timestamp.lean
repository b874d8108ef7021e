import ModuleDeps.Text.Basic

/-!
# Timestamps

A timestamp is a date, possibly followed by a time of day.  The year has four
digits, every other number one or two.  Behind the letter T a time needs a
zone, behind spaces it must not have one.
-/

set_option autoImplicit false

namespace ModuleDeps.Yaml

namespace Timestamp

/-! ## Numbers and marks -/

def digit (b : UInt8) : Nat := b.toNat - 0x30

def number? : Text → Option (Nat × Text)
  | [] => none
  | a :: rest =>
    if !Text.isDigit a then none
    else
      match rest with
      | [] => some (digit a, [])
      | b :: more =>
        if Text.isDigit b then some (digit a * 10 + digit b, more) else some (digit a, rest)

def below? (bound : Nat) (t : Text) : Option (Nat × Text) := do
  let (n, rest) ← number? t
  if n < bound then return (n, rest) else none

def mark? (b : UInt8) : Text → Option Text
  | [] => none
  | a :: rest => if a = b then some rest else none

def colon : UInt8 := 0x3A

def dash : UInt8 := 0x2D

/-! ## Dates -/

def isLeap (year : Nat) : Bool := year % 4 == 0 && (year % 100 != 0 || year % 400 == 0)

def daysIn (year month : Nat) : Nat :=
  if month = 2 then if isLeap year then 29 else 28
  else if month = 4 ∨ month = 6 ∨ month = 9 ∨ month = 11 then 30
  else 31

def date? (t : Text) : Option Text := do
  let digits := t.takeWhile Text.isDigit
  if digits.length ≠ 4 then none
  else
    let year := digits.foldl (fun n d => n * 10 + digit d) 0
    let (month, t) ← below? 13 (← mark? dash (t.drop 4))
    let (day, t) ← number? (← mark? dash t)
    if 1 ≤ month ∧ 1 ≤ day ∧ day ≤ daysIn year month then some t else none

/-! ## Times of day -/

def skipFraction (t : Text) : Text :=
  match t with
  | a :: b :: rest =>
    if (a = Text.comma ∨ a = 0x2E) ∧ Text.isDigit b then rest.dropWhile Text.isDigit else t
  | _ => t

def time? (t : Text) : Option Text := do
  let (_, t) ← below? 24 t
  let (_, t) ← below? 60 (← mark? colon t)
  let (_, t) ← below? 60 (← mark? colon t)
  return skipFraction t

/-- A zone: the letter Z, or a sign, two digits of hours and two of minutes. -/
def isZone : Text → Bool
  | [0x5A] => true
  | [sign, a, b, mark, c, d] =>
    (sign == 0x2B || sign == dash) && mark == colon && [a, b, c, d].all Text.isDigit &&
      digit a * 10 + digit b ≤ 24 && digit c * 10 + digit d ≤ 60
  | _ => false

/-- What may follow a date. -/
def isTimeOfDay : Text → Bool
  | [] => true
  | b :: rest =>
    if b = 0x54 ∨ b = 0x74 then ((time? rest).map isZone).getD false
    else if b = Text.space then
      ((time? (rest.dropWhile (· == Text.space))).map List.isEmpty).getD false
    else false

end Timestamp

def isTimestamp (t : Text) : Bool := ((Timestamp.date? t).map Timestamp.isTimeOfDay).getD false

end ModuleDeps.Yaml
