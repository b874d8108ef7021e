import ModuleDeps.Yaml.Source

/-!
# Places in a YAML stream

A cursor stands in front of the characters that were taken in and not yet
passed.  Before a character is looked at, it has to be ensured that it was
taken in; the end of the stream shows as zeros.  The cursor knows its line and
column, on which the structure of a document depends.

Readers move a cursor.  They fail where the stream cannot be read and where it
is no YAML.
-/

set_option autoImplicit false

namespace ModuleDeps.Yaml

/-! ## Characters -/

def code (c : Char) : Nat := c.toNat

def isBlank (c : Nat) : Bool := c == 0x20 || c == 0x09

/-- Line feed, carriage return, next line, line and paragraph separator. -/
def isBreak (c : Nat) : Bool :=
  c == 0x0A || c == 0x0D || c == 0x85 || c == 0x2028 || c == 0x2029

def isEnd (c : Nat) : Bool := c == 0

def isBreakOrEnd (c : Nat) : Bool := isEnd c || isBreak c

def isBlankOrEnd (c : Nat) : Bool := isBlank c || isBreakOrEnd c

def isDigitCode (c : Nat) : Bool := 0x30 ≤ c && c ≤ 0x39

/-- Letters, digits, dash and underscore. -/
def isNameCode (c : Nat) : Bool :=
  isDigitCode c || (0x41 ≤ c && c ≤ 0x5A) || (0x61 ≤ c && c ≤ 0x7A) ||
    c == 0x5F || c == 0x2D

def hexCode? (c : Nat) : Option Nat :=
  if isDigitCode c then some (c - 0x30)
  else if 0x41 ≤ c && c ≤ 0x46 then some (c - 0x37)
  else if 0x61 ≤ c && c ≤ 0x66 then some (c - 0x57)
  else none

def hexValue? : Nat → Nat → Codes → Option Nat
  | 0, value, _ => some value
  | n + 1, value, c :: rest => do hexValue? n (value * 16 + (← hexCode? c)) rest
  | _ + 1, _, [] => none

/-! ## Cursors -/

structure Cursor where
  /-- What was taken in and not yet passed. -/
  ahead : Codes := []
  /-- What is still to be taken in. -/
  source : Source
  /-- Whether the character in front of which more was last taken in is a byte
  order mark. -/
  marked : Bool := false
  index : Nat := 0
  line : Nat := 0
  column : Nat := 0
  /-- Whether only blanks were passed since the last line break. -/
  fresh : Bool := false
  /-- More than the number of characters in the stream. -/
  room : Nat
deriving DecidableEq, Repr

namespace Cursor

def ofSource (s : Source) : Cursor := { source := s, room := s.size + 2 }

def peek (c : Cursor) (n : Nat := 0) : Nat := c.ahead.getD n 0

def sees (c : Cursor) (ch : Char) (n : Nat := 0) : Bool := c.peek n == code ch

def reaches : Nat → Codes → Bool
  | 0, _ => true
  | _ + 1, [] => false
  | n + 1, _ :: rest => reaches n rest

/-- Takes in loads until `n` characters lie ahead.  At the end of the stream a
single zero is added. -/
def fill (n : Nat) (broken : Bool) : List Codes → Codes → Option (Codes × List Codes)
  | loads, ahead =>
    if reaches n ahead then some (ahead, loads)
    else
      match loads with
      | [] => if broken then none else some (ahead ++ [0], [])
      | codes :: rest => fill n broken rest (ahead ++ codes)

/-- Takes in more unless `n` characters lie ahead already. -/
def ensure (c : Cursor) (n : Nat) : Option Cursor :=
  if reaches n c.ahead then some c
  else do
    let (ahead, loads) ← fill n c.source.broken c.source.loads c.ahead
    return { c with
      ahead
      source := { c.source with loads }
      marked := ahead.head? == some byteOrderMark }

def skip (c : Cursor) : Cursor :=
  { c with
    ahead := c.ahead.tail
    index := c.index + 1
    column := c.column + 1
    fresh := c.fresh && isBlank c.peek }

def skipLine (c : Cursor) : Cursor :=
  if isBreak c.peek then
    let n := if c.peek == 0x0D && c.peek 1 == 0x0A then 2 else 1
    { c with
      ahead := c.ahead.drop n
      index := c.index + n
      line := c.line + 1
      column := 0
      fresh := true }
  else c

/-- The line break at the cursor as it counts in a scalar. -/
def lineBreak (c : Cursor) : Codes :=
  if c.peek == 0x2028 || c.peek == 0x2029 then [c.peek]
  else if isBreak c.peek then [0x0A]
  else []

/-- Three equal marks that stand alone at the start of a line. -/
def atMarks (c : Cursor) (ch : Char) : Bool :=
  c.column == 0 && c.sees ch && c.sees ch 1 && c.sees ch 2 && isBlankOrEnd (c.peek 3)

def atDocumentMarks (c : Cursor) : Bool := c.atMarks '-' || c.atMarks '.'

end Cursor

/-! ## Readers -/

abbrev Scan := StateT Cursor Option

namespace Scan

def fail {α : Type} : Scan α := fun _ => none

def ensure (n : Nat) : Scan Unit := fun c => (c.ensure n).map ((), ·)

def peek (n : Nat := 0) : Scan Nat := fun c => some (c.peek n, c)

def sees (ch : Char) (n : Nat := 0) : Scan Bool := fun c => some (c.sees ch n, c)

def skip : Scan Unit := fun c => some ((), c.skip)

def skipMany : Nat → Scan Unit
  | 0 => return ()
  | n + 1 => do
    skip
    skipMany n

/-- Passes a line break, if there is one, and gives what it counts for. -/
def readLine : Scan Codes := do
  ensure 2
  fun c => some (c.lineBreak, c.skipLine)

/-- Reads characters that satisfy `p`; `done` holds those so far, the last
first. -/
def collect (p : Nat → Bool) : Nat → Codes → Scan Codes
  | 0, done => return done.reverse
  | fuel + 1, done => do
    ensure 1
    let c ← peek
    if p c then
      skip
      collect p fuel (c :: done)
    else return done.reverse

def takeWhile (p : Nat → Bool) : Scan Codes := do collect p (← get).room []

def skipBlanks : Scan Unit := do
  let _ ← takeWhile isBlank

def skipToBreak : Scan Unit := do
  let _ ← takeWhile fun c => !isBreakOrEnd c

end Scan

end ModuleDeps.Yaml
