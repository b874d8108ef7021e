import ModuleDeps.Block.Grammar

/-!
# Import statements

A line of the form `import Name from 'path'`, with an optional semicolon.  The
quotes around the path need not be of the same kind, and anything may follow.
-/

set_option autoImplicit false

namespace ModuleDeps

structure ImportLine where
  name : Text
  path : Text
  quote : UInt8
  semicolon : Bool
deriving DecidableEq, Repr

namespace ImportLine

def isGap (b : UInt8) : Bool :=
  b == Text.tab || b == Text.lf || b == 0x0C || b == Text.cr || b == Text.space

def isPathQuote (b : UInt8) : Bool := b == Text.squote || b == Text.dquote

def afterWord? (word t : Text) : Option Text :=
  if t.startsWith word then some (t.drop word.length) else none

def afterGap? : Text → Option Text
  | [] => none
  | b :: rest => if isGap b then some (rest.dropWhile isGap) else none

def takeName? : Text → Option (Text × Text)
  | [] => none
  | b :: rest =>
    if isNameStart b then some (b :: rest.takeWhile isNameByte, rest.dropWhile isNameByte) else none

/-- A quote, the non-empty path behind it and what follows the closing quote. -/
def takePath? : Text → Option (UInt8 × Text × Text)
  | [] => none
  | q :: rest =>
    if isPathQuote q then
      match rest.takeWhile (fun b => !isPathQuote b), rest.dropWhile (fun b => !isPathQuote b) with
      | [], _ => none
      | _, [] => none
      | path, _ :: after => some (q, path, after)
    else none

def ofText? (t : Text) : Option ImportLine := do
  let t ← afterWord? (utf8 "import") (t.dropWhile isGap)
  let t ← afterGap? t
  let (name, t) ← takeName? t
  let t ← afterGap? t
  let t ← afterWord? (utf8 "from") t
  let t ← afterGap? t
  let (quote, path, t) ← takePath? t
  return ⟨name, path, quote, Text.startsWith (t.dropWhile isGap) (utf8 ";")⟩

end ImportLine

end ModuleDeps
