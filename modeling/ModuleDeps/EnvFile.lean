import ModuleDeps.Text.Blank
import ModuleDeps.Text.Utf8

/-!
# Environment files

An environment file holds lines `NAME=value`, with comments, an optional
`export` in front, quoted values, and references to variables set above.  A
file with an ill-formed line sets nothing.
-/

set_option autoImplicit false

namespace ModuleDeps

abbrev Environment := List (Text × Text)

def Environment.get? (env : Environment) (name : Text) : Option Text :=
  (env.find? fun row => row.1 == name).map Prod.snd

namespace EnvFile

/-! ## Characters -/

def isSpace1 (b : UInt8) : Bool := b == 0x09 || b == 0x0B || b == 0x0C || b == 0x0D || b == 0x20

def trimSpaceStart (t : Text) : Text := Text.dropRuns isSpace1 Text.isBlank2 (fun _ _ _ => false) t

def trimSpace (t : Text) : Text :=
  (Text.dropRuns isSpace1 (fun b a => Text.isBlank2 a b) (fun _ _ _ => false)
    (trimSpaceStart t).reverse).reverse

def isSpaceByte (b : UInt8) : Bool := isSpace1 b || b == 0x85 || b == 0xA0

/-- The bytes of a name; those beyond ASCII are taken for the letters and
numbers with their code points. -/
def isNameByte (b : UInt8) : Bool :=
  Text.isWord b || b == Text.dot || b == 0xAA || b == 0xB5 || b == 0xBA ||
    (0xC0 ≤ b && b ≤ 0xD6) || (0xD8 ≤ b && b ≤ 0xF6) || 0xF8 ≤ b ||
    b == 0xB2 || b == 0xB3 || b == 0xB9 || (0xBC ≤ b && b ≤ 0xBE)

/-! ## References -/

def isVariableByte (b : UInt8) : Bool := (0x41 ≤ b && b ≤ 0x5A) || Text.isDigit b || b == 0x5F

/-- A reference behind its dollar sign: the name, and the number of bytes it
takes. -/
def reference (t : Text) : Text × Nat :=
  let paren := if t.startsWith (utf8 "(") then 1 else 0
  let rest := t.drop paren
  let brace := if rest.head? = some 0x7B then 1 else 0
  let rest := rest.drop brace
  let name := rest.takeWhile isVariableByte
  let close := if (rest.drop name.length).head? = some 0x7D then 1 else 0
  (name, paren + brace + name.length + close)

/-- Puts the values of variables in place of references, of which `skip` bytes
are still to be passed.  A backslash takes the meaning from a dollar sign. -/
def expandFrom (env : Environment) : Nat → Text → Text
  | _, [] => []
  | skip + 1, _ :: rest => expandFrom env skip rest
  | 0, b :: rest =>
    if b = Text.backslash ∧ rest.head? = some Text.dollar then
      let (_, length) := reference rest.tail
      rest.take (length + 1) ++ expandFrom env (length + 1) rest
    else if b = Text.dollar then
      let (name, length) := reference rest
      let value := if name.isEmpty then b :: rest.take length else (env.get? name).getD []
      value ++ expandFrom env length rest
    else b :: expandFrom env 0 rest

def expand (env : Environment) (t : Text) : Text := expandFrom env 0 t

def unescapeBreaks : Text → Text
  | [] => []
  | b :: rest =>
    if b = Text.backslash then
      match rest with
      | [] => [b]
      | c :: rest =>
        if c = 0x6E then Text.lf :: unescapeBreaks rest
        else if c = 0x72 then Text.cr :: unescapeBreaks rest
        else b :: c :: unescapeBreaks rest
    else b :: unescapeBreaks rest

def dropBackslashes : Text → Text
  | [] => []
  | b :: rest =>
    if b = Text.backslash then
      match rest with
      | [] => [b]
      | c :: rest =>
        if c = Text.dollar then b :: c :: dropBackslashes rest else c :: dropBackslashes rest
    else b :: dropBackslashes rest

/-! ## Statements -/

def statementStart : Nat → Text → Option Text
  | 0, _ => none
  | fuel + 1, t =>
    match t.trimStart with
    | [] => none
    | b :: rest =>
      if b = 0x23 then statementStart fuel (rest.dropWhile (· != Text.lf)) else some (b :: rest)

def dropExport (t : Text) : Text :=
  let word := utf8 "export"
  let rest := t.drop word.length
  if t.startsWith word ∧ trimSpaceStart rest ≠ rest then trimSpaceStart rest else t

/-- The name of a statement and what follows its sign; a text of name bytes
only has the empty name and is all value.  There has to be some text. -/
def readName (t : Text) : Option (Text × Text) :=
  let name := t.takeWhile fun b => isSpaceByte b || isNameByte b
  match t.drop name.length with
  | [] => if t.isEmpty then none else some ([], trimSpaceStart t)
  | b :: rest =>
    if b = 0x3D ∨ b = 0x3A then some (Text.trimEnd name, trimSpaceStart rest) else none

/-- The offset of the quote that closes a value; one behind a backslash does
not.  `last` is the byte in front. -/
def closingQuote? (quote : UInt8) : UInt8 → Text → Option Nat
  | _, [] => none
  | last, b :: rest =>
    if b = quote ∧ last ≠ Text.backslash then some 0
    else (closingQuote? quote b rest).map (· + 1)

/-- An unquoted value ends in front of the last `#` behind white space. -/
def dropComment (chars : List Text.Scalar) : List Text.Scalar :=
  let isMark (i : Nat) : Bool :=
    (chars[i + 1]?.map Text.Scalar.code) == some 0x23 &&
      ((chars[i]?.map fun s => s.code < 0x100 && isSpaceByte s.code.toUInt8).getD false)
  match (List.range chars.length).reverse.find? isMark with
  | some i => chars.take (i + 1)
  | none => chars

def readValue (env : Environment) (t : Text) : Option (Text × Text) :=
  match t with
  | [] => some ([], [])
  | quote :: rest =>
    if quote = Text.squote ∨ quote = Text.dquote then do
      let i ← closingQuote? quote quote rest
      let raw := Text.trimWhere (· == quote) (rest.take i)
      let value :=
        if quote = Text.dquote then expand env (dropBackslashes (unescapeBreaks raw)) else raw
      return (value, rest.drop (i + 1))
    else
      let line := t.takeWhile fun b => b != Text.lf && b != Text.cr
      let value := (dropComment (Text.scalars line)).flatMap fun s => Text.encode s.code
      some (expand env (trimSpace value), t.drop line.length)

def readAll : Nat → Environment → Text → Option Environment
  | 0, env, _ => some env
  | fuel + 1, env, t =>
    match statementStart (t.length + 1) t with
    | none => some env
    | some t => do
      let (name, t) ← readName (dropExport (trimSpaceStart t))
      let (value, t) ← readValue env t
      readAll fuel ((name, value) :: env) t

/-- Line ends of two bytes count as one. -/
def parse (t : Text) : Option Environment :=
  let t := Text.joinWith [Text.lf] (t.splitOn [Text.cr, Text.lf])
  readAll (t.length + 1) [] t

end EnvFile

/-- The variables that can be set: a value with a zero byte cannot. -/
def Environment.settable (env : Environment) : Environment :=
  env.filter fun row => !List.contains ((env.get? row.1).getD []) 0

/-- The variables of a file are added to those that are not set yet. -/
def Environment.load (env : Environment) (file : Text) : Environment :=
  match EnvFile.parse file with
  | some found => env ++ Environment.settable found
  | none => env

end ModuleDeps
