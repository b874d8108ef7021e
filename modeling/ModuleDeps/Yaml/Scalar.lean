import ModuleDeps.Yaml.Comment

/-!
# Scalars of YAML

Plain, quoted and block scalars.  Line breaks inside plain, quoted and folded
scalars are folded: a single break becomes a space, and of several breaks the
first is dropped.

A reader that gathers a scalar holds its characters so far backwards.
-/

set_option autoImplicit false

namespace ModuleDeps.Yaml

open Scan

/-- The white space between two parts of a scalar: blanks on one line, or the
first line break and those that follow it. -/
structure Spacing where
  blanks : Codes := []
  first : Codes := []
  others : Codes := []
  broken : Bool := false
deriving DecidableEq, Repr

namespace Spacing

def folded (s : Spacing) : Codes :=
  if s.broken then
    if s.first.head? = some 0x0A then
      if s.others.isEmpty then [0x20] else s.others
    else s.first ++ s.others
  else s.blanks

def blank (s : Spacing) (b : Nat) : Spacing :=
  if s.broken then s else { s with blanks := s.blanks ++ [b] }

def newline (s : Spacing) (b : Codes) : Spacing :=
  if s.broken then { s with others := s.others ++ b }
  else { s with blanks := [], first := b, broken := true }

end Spacing

/-- Reads blanks and breaks.  A tab in front of column `indent` of a further
line is refused. -/
def readSpacing (indent : Int) : Nat → Spacing → Scan Spacing
  | 0, s => return s
  | fuel + 1, s => do
    ensure 1
    let c ← get
    if isBlank c.peek then
      if s.broken && c.peek == 0x09 && c.column < indent then fail
      else
        skip
        readSpacing indent fuel (s.blank c.peek)
    else if isBreak c.peek then
      let b ← readLine
      readSpacing indent fuel (s.newline b)
    else return s

/-! ## Plain scalars -/

def endsFlowPlain (c : Nat) : Bool :=
  [code ',', code '?', code '[', code ']', 0x7B, 0x7D].contains c

/-- Whether a plain scalar is interrupted at the cursor: by white space, a
colon with white space behind it, or in flow context a mark of its own. -/
def endsPlain (inFlow : Bool) (c : Cursor) : Bool :=
  isBlankOrEnd c.peek || (c.sees ':' && isBlankOrEnd (c.peek 1)) ||
    (inFlow && endsFlowPlain c.peek)

def readPlainRun (inFlow : Bool) : Nat → Codes → Scan Codes
  | 0, done => return done
  | fuel + 1, done => do
    let c ← get
    if endsPlain inFlow c then return done
    else
      skip
      ensure 2
      readPlainRun inFlow fuel (c.peek :: done)

/-- Reads a plain scalar that must stay at column `indent` or behind it.  The
result also says whether white space with a line break follows it. -/
def readPlainParts (inFlow : Bool) (indent : Int) : Nat → Codes → Spacing →
    Scan (Codes × Bool)
  | 0, done, s => return (done.reverse, s.broken)
  | fuel + 1, done, s => do
    ensure 4
    let c ← get
    if c.atDocumentMarks || c.sees '#' then return (done.reverse, s.broken)
    else
      let run ← readPlainRun inFlow c.room []
      let done := if run.isEmpty then done else run ++ s.folded.reverse ++ done
      let s := if run.isEmpty then s else {}
      let c ← peek
      if !(isBlank c || isBreak c) then return (done.reverse, s.broken)
      else
        let s ← readSpacing indent (← get).room s
        if !inFlow && (← get).column < indent then return (done.reverse, s.broken)
        else readPlainParts inFlow indent fuel done s

def readPlain (inFlow : Bool) (indent : Int) : Scan (Codes × Bool) := do
  readPlainParts inFlow indent (← get).room [] {}

/-! ## Quoted scalars -/

def simpleEscapes : List (Char × Nat) := [
  ('0', 0x00), ('a', 0x07), ('b', 0x08), ('t', 0x09), ('\t', 0x09), ('n', 0x0A), ('v', 0x0B),
  ('f', 0x0C), ('r', 0x0D), ('e', 0x1B), (' ', 0x20), ('"', 0x22), ('\'', 0x27), ('\\', 0x5C),
  ('N', 0x85), ('_', 0xA0), ('L', 0x2028), ('P', 0x2029)]

def hexEscapes : List (Char × Nat) := [('x', 2), ('u', 4), ('U', 8)]

def readEscape : Scan Nat := do
  let letter ← peek 1
  match simpleEscapes.find? fun row => code row.1 == letter with
  | some row =>
    skipMany 2
    return row.2
  | none =>
    match hexEscapes.find? fun row => code row.1 == letter with
    | none => fail
    | some row =>
      skipMany 2
      ensure row.2
      match hexValue? row.2 0 (← get).ahead with
      | none => fail
      | some value =>
        if (0xD800 ≤ value && value ≤ 0xDFFF) || 0x10FFFF < value then fail
        else
          skipMany row.2
          return value

/-- Reads the characters of a quoted scalar up to white space or the closing
quote.  The result says whether an escaped line break ended the run. -/
def readQuotedRun (single : Bool) : Nat → Codes → Scan (Codes × Bool)
  | 0, done => return (done, false)
  | fuel + 1, done => do
    let c ← get
    if isBlankOrEnd c.peek then return (done, false)
    else if single && c.sees '\'' then
      if c.sees '\'' 1 then
        skipMany 2
        ensure 2
        readQuotedRun single fuel (c.peek :: done)
      else return (done, false)
    else if !single && c.sees '"' then return (done, false)
    else if !single && c.sees '\\' then
      if isBreak (c.peek 1) then
        ensure 3
        skip
        let _ ← readLine
        return (done, true)
      else
        let value ← readEscape
        ensure 2
        readQuotedRun single fuel (value :: done)
    else
      skip
      ensure 2
      readQuotedRun single fuel (c.peek :: done)

def readQuotedParts (single : Bool) : Nat → Codes → Scan Codes
  | 0, _ => fail
  | fuel + 1, done => do
    ensure 4
    let c ← get
    if c.atDocumentMarks || isEnd c.peek then fail
    else
      let (done, joined) ← readQuotedRun single c.room done
      ensure 1
      if ← sees (if single then '\'' else '"') then
        skip
        return done.reverse
      else
        let s ← readSpacing 0 (← get).room { broken := joined }
        readQuotedParts single fuel (s.folded.reverse ++ done)

def readQuoted (single : Bool) : Scan Codes := do
  skip
  readQuotedParts single (← get).room []

/-! ## Block scalars -/

inductive Chomping
  | strip
  | clip
  | keep
deriving DecidableEq, Repr

def readChomping : Scan (Option Chomping) := do
  ensure 1
  if ← sees '+' then
    skip
    return some .keep
  else if ← sees '-' then
    skip
    return some .strip
  else return none

def readDepth : Scan (Option Nat) := do
  ensure 1
  let d ← peek
  if !isDigitCode d then return none
  else if d == 0x30 then fail
  else
    skip
    return some (d - 0x30)

/-- The indicators behind the mark of a block scalar, in either order. -/
def readIndicators : Scan (Chomping × Option Nat) := do
  match ← readChomping with
  | some chomping => return (chomping, ← readDepth)
  | none =>
    match ← readDepth with
    | none => return (.clip, none)
    | some depth => return ((← readChomping).getD .clip, some depth)

def skipIndentation (indent : Nat) : Nat → Scan Unit
  | 0 => return ()
  | fuel + 1 => do
    ensure 1
    let c ← get
    if c.peek == 0x20 && (indent == 0 || c.column < indent) then
      skip
      skipIndentation indent fuel
    else return ()

/-- Passes the indentation and the empty lines in front of a line of text.  An
indentation of zero is not yet known, and `deepest` is the largest column
reached. -/
def readIndentation (indent : Nat) : Nat → Nat → Codes → Scan (Nat × Codes)
  | 0, deepest, breaks => return (deepest, breaks)
  | fuel + 1, deepest, breaks => do
    skipIndentation indent (← get).room
    let c ← get
    let deepest := max deepest c.column
    if (indent == 0 || c.column < indent) && c.peek == 0x09 then fail
    else if isBreak c.peek then
      let b ← readLine
      readIndentation indent fuel deepest (breaks ++ b)
    else return (deepest, breaks)

/-- The indentation of a block scalar, found if need be, with the breaks in
front of its text. -/
def findIndentation (parent : Int) (indent : Nat) : Scan (Nat × Codes) := do
  let (deepest, breaks) ← readIndentation indent (← get).room 0 []
  return (if indent = 0 then max deepest (max (parent + 1).toNat 1) else indent, breaks)

/-- The text of a block scalar, the break behind its last line and the empty
lines that follow. -/
structure BlockText where
  done : Codes := []
  lead : Codes := []
  breaks : Codes := []
deriving DecidableEq, Repr

def readBlockLines (literal : Bool) (indent : Nat) : Nat → Bool → BlockText → Scan BlockText
  | 0, _, t => return t
  | fuel + 1, indented, t => do
    ensure 1
    let c ← get
    if c.column != indent || isEnd c.peek then return t
    else
      let blank := isBlank c.peek
      let joint :=
        if !literal && !indented && !blank && t.lead.head? == some 0x0A then
          if t.breaks.isEmpty then [0x20] else []
        else t.lead
      let words ← takeWhile fun b => !isBreakOrEnd b
      let lead ← readLine
      let (_, breaks) ← readIndentation indent c.room 0 []
      readBlockLines literal indent fuel blank {
        done := words.reverse ++ t.breaks.reverse ++ joint.reverse ++ t.done, lead, breaks }

/-- Reads a block scalar, from its mark on, in a block at column `parent`. -/
def readBlock (literal : Bool) (parent : Int) : Scan Codes := do
  skip
  let (chomping, depth) ← readIndicators
  ensure 1
  skipBlanks
  if ← sees '#' then skipLineComment
  if !isBreakOrEnd (← peek) then fail
  else
    if isBreak (← peek) then
      let _ ← readLine
    let indent := match depth with
      | none => 0
      | some depth => if 0 ≤ parent then parent.toNat + depth else depth
    let (indent, breaks) ← findIndentation parent indent
    let t ← readBlockLines literal indent (← get).room false { breaks }
    let tail := match chomping with
      | .strip => []
      | .clip => t.lead
      | .keep => t.lead ++ t.breaks
    return t.done.reverse ++ tail

end ModuleDeps.Yaml
