import ModuleDeps.Yaml.Property
import ModuleDeps.Yaml.Scalar

/-!
# The queue of tokens

Tokens are fetched as they are needed: three of them lie ready before one is
used.  A key is recognised by the colon behind it, so the place of everything
that may turn out to be a key is remembered; when the colon comes, the token
of the key, and of the mapping it opens, is put in front of that place.  As
long as the first token may still become a key, more tokens are fetched.
-/

set_option autoImplicit false

namespace ModuleDeps.Yaml

structure KeyPlace where
  possible : Bool := false
  required : Bool := false
  /-- The number of the token that starts there. -/
  token : Nat := 0
  index : Nat := 0
  line : Nat := 0
  column : Nat := 0
deriving DecidableEq, Repr

structure Queue where
  cursor : Cursor
  tokens : List Token := [.streamStart]
  /-- How many tokens were used. -/
  used : Nat := 0
  flow : Nat := 0
  indent : Int := -1
  indents : List Int := []
  keyAllowed : Bool := true
  /-- The last place of a key on every flow level, the outermost first. -/
  keys : Array KeyPlace := #[{}]
  /-- The levels of the tokens that may start a key, the last token first. -/
  keyLevels : List (Nat × Nat) := []
deriving Repr

namespace Queue

/-- A key stands on one line and within this many characters. -/
def maxKeyLength : Nat := 1024

/-- Collections are nested no deeper than this. -/
def maxDepth : Nat := 10000

def readyTokens : Nat := 3

def ofText (t : Text) : Queue := { cursor := .ofSource (.ofText t) }

def push (s : Queue) (t : Token) : Queue := { s with tokens := s.tokens ++ [t] }

def nextNumber (s : Queue) : Nat := s.used + s.tokens.length

/-- Puts a token in front of the one with the given number, or behind all
others when that one was used already. -/
def insertAt (s : Queue) (number : Nat) (t : Token) : Queue :=
  if number < s.used then s.push t
  else
    let place := number - s.used
    { s with tokens := s.tokens.take place ++ t :: s.tokens.drop place }

def scan {α : Type} (s : Queue) (read : Scan α) : Option (α × Queue) := do
  let (a, cursor) ← read s.cursor
  return (a, { s with cursor })

def pass (s : Queue) (n : Nat := 1) : Option Queue := do
  let ((), s) ← s.scan (Scan.skipMany n)
  return s

/-! ## Indentation -/

/-- Closes the block collections that are indented deeper than `column`. -/
def closeBlocks (column : Int) : Nat → Queue → Queue
  | 0, s => s
  | fuel + 1, s =>
    if s.flow = 0 ∧ column < s.indent then
      closeBlocks column fuel { s.push .blockEnd with
        indent := s.indents.headD (-1), indents := s.indents.tail }
    else s

def unindent (s : Queue) (column : Int) : Queue := s.closeBlocks column (s.indents.length + 1)

/-- Opens a block collection at a column deeper than the present one; its
token goes in front of the one with the given number. -/
def openBlock (s : Queue) (column : Nat) (number : Nat) (t : Token) : Option Queue :=
  if s.flow = 0 ∧ s.indent < column then
    if maxDepth ≤ s.indents.length then none
    else some { s.insertAt number t with indent := column, indents := s.indent :: s.indents }
  else some s

/-! ## Keys -/

def forgetLevel (s : Queue) (token : Nat) : Queue :=
  { s with keyLevels := s.keyLevels.eraseP fun row => row.1 == token }

def setKey (s : Queue) (level : Nat) (k : KeyPlace) : Queue :=
  { s with keys := s.keys.setIfInBounds level k }

/-- Gives up the possible key, which must not be a required one. -/
def dropKey (s : Queue) : Option Queue :=
  match s.keys[s.flow]? with
  | none => some s
  | some k =>
    if !k.possible then some s
    else if k.required then none
    else some ((s.setKey s.flow { k with possible := false }).forgetLevel k.token)

def markKey (s : Queue) : Option Queue :=
  if s.keyAllowed then do
    let place : KeyPlace := {
      possible := true
      required := s.flow = 0 ∧ s.indent = s.cursor.column
      token := s.nextNumber
      index := s.cursor.index
      line := s.cursor.line
      column := s.cursor.column }
    let s ← s.dropKey
    return { s.setKey s.flow place with keyLevels := (place.token, s.flow) :: s.keyLevels }
  else some s

/-- The possible key of a flow level, unless it lies too far back. -/
def validKey (s : Queue) (level : Nat) : Option (Option KeyPlace × Queue) :=
  match s.keys[level]? with
  | none => some (none, s)
  | some k =>
    if !k.possible then some (none, s)
    else if k.line < s.cursor.line ∨ k.index + maxKeyLength < s.cursor.index then
      if k.required then none else some (none, s.setKey level { k with possible := false })
    else some (some k, s)

/-! ## The next token -/

def fetchStreamEnd (s : Queue) : Option Queue := do
  let c := s.cursor
  let c := if c.column = 0 then c else { c with column := 0, line := c.line + 1 }
  let s ← ({ s with cursor := c }.unindent (-1)).dropKey
  return { s with keyAllowed := false }.push .streamEnd

def fetchDirective (s : Queue) : Option Queue := do
  let s ← (s.unindent (-1)).dropKey
  let (token, s) ← s.scan readDirective
  return { s with keyAllowed := false }.push token

def fetchDocumentMark (s : Queue) (t : Token) : Option Queue := do
  let s ← (s.unindent (-1)).dropKey
  let s ← { s with keyAllowed := false }.pass 3
  return s.push t

def fetchFlowStart (s : Queue) (t : Token) : Option Queue := do
  let s ← s.markKey
  if maxDepth ≤ s.flow then none
  else
    let level : KeyPlace := { token := s.nextNumber }
    let s ← { s with keys := s.keys.push level, flow := s.flow + 1, keyAllowed := true }.pass
    return s.push t

def leaveFlow (s : Queue) : Queue :=
  if s.flow = 0 then s
  else
    match s.keys[s.flow]? with
    | none => s
    | some k => { s with keys := s.keys.pop, flow := s.flow - 1 }.forgetLevel k.token

def fetchFlowEnd (s : Queue) (t : Token) : Option Queue := do
  let s ← s.dropKey
  let s ← { s.leaveFlow with keyAllowed := false }.pass
  return s.push t

def fetchFlowEntry (s : Queue) : Option Queue := do
  let s ← s.dropKey
  let s ← { s with keyAllowed := true }.pass
  return s.push .flowEntry

def fetchBlockEntry (s : Queue) : Option Queue := do
  if s.flow = 0 ∧ !s.keyAllowed then none
  else
    let s ← s.openBlock s.cursor.column s.nextNumber .blockSequence
    let s ← s.dropKey
    let s ← { s with keyAllowed := true }.pass
    return s.push .blockEntry

def fetchKey (s : Queue) : Option Queue := do
  if s.flow = 0 ∧ !s.keyAllowed then none
  else
    let s ← s.openBlock s.cursor.column s.nextNumber .blockMapping
    let s ← s.dropKey
    let s ← { s with keyAllowed := s.flow = 0 }.pass
    return s.push .key

def fetchValue (s : Queue) : Option Queue := do
  match ← s.validKey s.flow with
  | (some k, s) =>
    let s := s.insertAt k.token .key
    let s ← s.openBlock k.column k.token .blockMapping
    let s := (s.setKey s.flow { k with possible := false }).forgetLevel k.token
    let s ← { s with keyAllowed := false }.pass
    return s.push .value
  | (none, s) =>
    if s.flow = 0 ∧ !s.keyAllowed then none
    else
      let s ← s.openBlock s.cursor.column s.nextNumber .blockMapping
      let s ← { s with keyAllowed := s.flow = 0 }.pass
      return s.push .value

def fetchAnchor (s : Queue) (make : Text → Token) : Option Queue := do
  let s ← s.markKey
  let (name, s) ← s.scan readAnchor
  return { s with keyAllowed := false }.push (make name)

def fetchTag (s : Queue) : Option Queue := do
  let s ← s.markKey
  let (token, s) ← s.scan readTag
  return { s with keyAllowed := false }.push token

def fetchBlockScalar (s : Queue) (literal : Bool) : Option Queue := do
  let s ← s.dropKey
  let (text, s) ← s.scan (readBlock literal s.indent)
  return { s with keyAllowed := true }.push (.scalar (toText text) false)

def fetchQuoted (s : Queue) (single : Bool) : Option Queue := do
  let s ← s.markKey
  let (text, s) ← s.scan (readQuoted single)
  return { s with keyAllowed := false }.push (.scalar (toText text) false)

def fetchPlain (s : Queue) : Option Queue := do
  let s ← s.markKey
  let ((text, broken), s) ← s.scan (readPlain (0 < s.flow) (s.indent + 1))
  return { s with keyAllowed := broken }.push (.scalar (toText text) true)

def indicators : Codes := "-?:,[]#&*!|>'\"%@".toList.map code ++ [0x7B, 0x7D, 0x60]

def startsPlain (s : Queue) : Bool :=
  let c := s.cursor
  !(isBlankOrEnd c.peek || indicators.contains c.peek) ||
    (c.sees '-' && !isBlank (c.peek 1)) ||
    (s.flow == 0 && (c.sees '?' || c.sees ':') && !isBlankOrEnd (c.peek 1))

def fetchContent (s : Queue) : Option Queue :=
  let c := s.cursor
  let alone := isBlankOrEnd (c.peek 1)
  if c.sees '[' then s.fetchFlowStart .flowSequence
  else if c.peek = 0x7B then s.fetchFlowStart .flowMapping
  else if c.sees ']' then s.fetchFlowEnd .flowSequenceEnd
  else if c.peek = 0x7D then s.fetchFlowEnd .flowMappingEnd
  else if c.sees ',' then s.fetchFlowEntry
  else if c.sees '-' ∧ alone then s.fetchBlockEntry
  else if c.sees '?' ∧ (0 < s.flow ∨ alone) then s.fetchKey
  else if c.sees ':' ∧ (0 < s.flow ∨ alone) then s.fetchValue
  else if c.sees '*' then s.fetchAnchor .alias
  else if c.sees '&' then s.fetchAnchor .anchor
  else if c.sees '!' then s.fetchTag
  else if c.sees '|' ∧ s.flow = 0 then s.fetchBlockScalar true
  else if c.sees '>' ∧ s.flow = 0 then s.fetchBlockScalar false
  else if c.sees '\'' then s.fetchQuoted true
  else if c.sees '"' then s.fetchQuoted false
  else if s.startsPlain then s.fetchPlain
  else none

def skipToToken (s : Queue) : Option Queue := do
  let (keyAllowed, s) ← s.scan (Scan.skipToToken (0 < s.flow) s.cursor.room s.keyAllowed)
  let s := { s with keyAllowed }.unindent s.cursor.column
  let ((), s) ← s.scan (Scan.ensure 4)
  return s

/-- Fetches the next token.  A comment behind it on its line goes with it, but
not behind the mark of a block entry. -/
def fetchNext (s : Queue) : Option Queue := do
  let s ← s.skipToToken
  let c := s.cursor
  if isEnd c.peek then s.fetchStreamEnd
  else if c.column = 0 ∧ c.sees '%' then s.fetchDirective
  else if c.atMarks '-' then s.fetchDocumentMark .documentStart
  else if c.atMarks '.' then s.fetchDocumentMark .documentEnd
  else
    let s ← s.fetchContent
    if s.tokens.getLast? = some .blockEntry then return s
    else
      let ((), s) ← s.scan Scan.skipLineComment
      return s

/-! ## Using tokens -/

def wantsMore (s : Queue) : Option (Bool × Queue) :=
  if s.tokens.length < readyTokens then some (true, s)
  else
    match s.keyLevels.find? fun row => row.1 == s.used with
    | none => some (false, s)
    | some row => do
      let (key, s) ← s.validKey row.2
      return (key.isSome, s)

def ready : Nat → Queue → Option Queue
  | 0, _ => none
  | fuel + 1, s => do
    let (more, s) ← s.wantsMore
    if more then (← s.fetchNext).ready fuel else return s

def first (s : Queue) : Option (Token × Queue) := do
  let s ← s.ready (s.cursor.room + 4)
  return (s.tokens.headD .streamEnd, s)

def rest (s : Queue) : Queue := { s with tokens := s.tokens.tail, used := s.used + 1 }

end Queue

end ModuleDeps.Yaml
