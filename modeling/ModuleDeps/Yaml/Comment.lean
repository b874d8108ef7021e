import ModuleDeps.Yaml.Cursor

/-!
# Comments and the space between tokens

A comment runs from a hash sign to the end of its line.  One that stands on
the line of a token belongs to that token.  Any other is passed together with
the comments that follow it, with nothing but white space between; there a tab
may stand in front of a comment where it must not stand in front of a token.

The next comment is looked for within a bounded distance.
-/

set_option autoImplicit false

namespace ModuleDeps.Yaml

namespace Scan

def commentReach : Nat := 512

/-! ## Comments on the line of a token -/

/-- The number of blanks in front of a comment, of which `k` are known. -/
def blanksToComment : Nat → Nat → Scan (Option Nat)
  | 0, _ => return none
  | steps + 1, k => do
    ensure (k + 1)
    let c ← peek k
    if isBlank c then blanksToComment steps (k + 1)
    else return if c == code '#' then some k else none

def skipLineComment : Scan Unit := do
  if (← get).fresh then return ()
  else
    match ← blanksToComment commentReach 0 with
    | none => return ()
    | some _ =>
      skipBlanks
      skipToBreak

/-! ## Comments of their own -/

/-- The number of blanks and line breaks in front of the next comment, of
which `k` are known.  Only line feeds and carriage returns count. -/
def spaceToComment : Nat → Nat → Scan (Option Nat)
  | 0, _ => return none
  | steps + 1, k => do
    ensure (k + 1)
    let c ← peek k
    if isBlank c || c == 0x0A || c == 0x0D then spaceToComment steps (k + 1)
    else if isBreak c && steps ≠ 0 then
      ensure (k + 2)
      return none
    else return if c == code '#' then some k else none

def nextComment : Scan (Option Nat) := do
  let c ← peek
  if isBreak c && c ≠ 0x0A && c ≠ 0x0D then
    ensure 2
    return none
  else spaceToComment (commentReach - 1) 1

/-- Passes white space up to the place with the given index. -/
def skipSpaceTo (index : Nat) : Nat → Scan Unit
  | 0 => return ()
  | fuel + 1 => do
    ensure 1
    if index ≤ (← get).index then return ()
    else
      if isBreak (← peek) then
        let _ ← readLine
      else skip
      skipSpaceTo index fuel

def skipComments : Nat → Scan Unit
  | 0 => return ()
  | fuel + 1 => do
    skipToBreak
    match ← nextComment with
    | none => return ()
    | some k =>
      skipSpaceTo ((← get).index + k) commentReach
      skipComments fuel

/-! ## The way to the next token -/

/-- Passes white space, comments and line breaks.  Tabs are allowed in flow
context and where no key may start.  The result says whether a key may start
behind them.

When more was last taken in at a byte order mark, the first character of every
line is passed over. -/
def skipToToken (inFlow : Bool) : Nat → Bool → Scan Bool
  | 0, keyAllowed => return keyAllowed
  | fuel + 1, keyAllowed => do
    ensure 1
    let c ← get
    if c.column == 0 && c.marked then skip
    let _ ← takeWhile fun b => b == 0x20 || (b == 0x09 && (inFlow || !keyAllowed))
    if ← sees '#' then skipComments (← get).room
    if isBreak (← peek) then
      let _ ← readLine
      skipToToken inFlow fuel (keyAllowed || !inFlow)
    else return keyAllowed

end Scan

end ModuleDeps.Yaml
